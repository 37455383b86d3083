import Solvio.Memory.Service

namespace Solvio.Memory
open Solvio.Lib

/-- `is_machine_learned`. -/
def MemoryRecord.isMachineLearned (r : MemoryRecord) : Bool := r.sourceType = .solvioInference

/-- `[:MAX_NOTE]`. -/
def shortNote (s : String) : String := String.ofList (s.toList.take 160)

def Kind.name : Kind → String
  | stated => "stated"
  | inferred => "inferred"

/-! ### `AdaptiveMemory` -/

namespace Adaptive

variable (E : Deployment)

/-- The entry of one observation by the machine. -/
def observation (conversationId : String) (takenAt : Int) (note : String) : ProvenanceEntry where
  sourceType := .solvioInference
  source := if conversationId = "" then "voice_turn" else "conversation:" ++ conversationId
  trustLevel := .agentGenerated
  takenAt := takenAt
  note := shortNote note

/-- `_canonical_twin`. -/
def canonicalTwin (statement : String) : Task (Option MemoryRecord) := do
  match ← (Semantic.hybridRecall E .automatic statement 8).attempt with
  | none => pure none
  | some hits => pure (hits.find? (fun r => r.supersededBy.isNone &&
      E.texts.dedupKey r.content = E.texts.dedupKey statement))

/-- The candidate of something that is canonical already is closed. -/
def closeTwin (key : String) (twin : MemoryRecord) (moment : Int) : Task Unit := do
  match ← Task.openByKey .automatic key with
  | none => pure ()
  | some c => do
    let _ ← (Task.transition .automatic c.id .adopted { memoryId := twin.id } moment).attempt
    pure ()

/-- `_reinforce_existing`. -/
def reinforceExisting (proposal : Proposal) (turn : OwnerTurn) (key : String) (moment : Int) :
    Task Bool := do
  match ← canonicalTwin E proposal.statement with
  | none => pure false
  | some twin => do
    closeTwin key twin moment
    if twin.isMachineLearned then do
      let _ ← (Task.reinforce .automatic twin.id (observation turn.conversationId moment
        (proposal.kind.name ++ ": " ++ proposal.statement))).attempt
      pure true
    else pure true

/-- `_find_conflict`. -/
def findConflict (proposal : Proposal) (turn : OwnerTurn) : Task (Option Conflict) := do
  if E.texts.hasSupersessionMarker turn.text then do
    match ← (Semantic.hybridRecall E .automatic proposal.statement 8).attempt with
    | none => pure none
    | some hits => do
      let scores ← (Semantic.semanticHits E proposal.statement 32 none).attempt
      match Service.correctionTarget E proposal.statement hits (scores.getD []) with
      | .none => pure none
      | .ambiguous => pure (some .ambiguous)
      | .pick i => pure (((hits.filter (fun r => r.supersededBy.isNone))[i]?).map
          (fun best => .target best.id (!best.isMachineLearned)))
  else pure none

/-- What `_observe` files. -/
def sighting (proposal : Proposal) (turn : OwnerTurn) (key : String) (decision : Decision)
    (moment : Int) : Candidate × Evidence :=
  ({ id := ""
     statement := proposal.statement
     dedupKey := key
     kind := proposal.kind
     memoryType := proposal.memoryType
     subject := if proposal.subject = "" then E.texts.subjectOf proposal.statement
       else proposal.subject
     sensitivity := decision.sensitivity
     validUntil := proposal.validUntil },
   { takenAt := moment
     kind := proposal.kind
     conversationId := turn.conversationId
     messageId := turn.messageId
     note := shortNote (proposal.kind.name ++ ": " ++ proposal.statement) })

/-- `_observe`. A candidate for which there is no room is `none`. -/
def observe (c : Candidate) (evidence : Evidence) (moment : Int) : Task (Option Candidate) :=
  .ask (.candidates .automatic (.observe c evidence moment)) (fun
    | .ok (.found c) => .ret c
    | .error .budgetExhausted => .ret none
    | _ => .fail)

/-- `_build`. -/
def build (c : Candidate) (proposal : Proposal) (decision : Decision) (moment : Int) :
    MemoryRecord where
  id := ""
  memoryType := proposal.memoryType
  content := proposal.statement
  subject := c.subject
  source := "adaptive:" ++ String.ofList (c.id.toList.take 8)
  sourceType := .solvioInference
  trustLevel := .agentGenerated
  createdAt := moment
  updatedAt := moment
  validUntil := c.validUntil
  sensitivity := decision.sensitivity
  provenance := c.evidence.map (fun e => observation e.conversationId e.takenAt e.note)
  tags := ["learned", proposal.kind.name]

/-- The record of an adoption that replaces another one. -/
def replacing (target : String) (record : MemoryRecord) : MemoryRecord :=
  { record with supersedes := some target, relations := [⟨"contradicts", target⟩] }

/-- The canonical write of `_adopt`, of which `none` is the refusal to replace
what the user has said. -/
def writeAdopted (record : MemoryRecord) (target : String) : Task (Option String) := do
  if target = "" then do
    let id ← Semantic.remember E .automatic record
    pure (some id)
  else do
    match ← Task.get .automatic target with
    | none => pure none
    | some existing =>
      if existing.isMachineLearned then do
        let new ← Semantic.supersede E .automatic target (replacing target record)
        pure (some new.id)
      else pure none

/-- `_adopt`: first the canonical write, then the candidate is closed. -/
def adopt (c : Candidate) (proposal : Proposal) (decision : Decision) (moment : Int) :
    Task Unit := do
  match ← (writeAdopted E (build c proposal decision moment)
      decision.contestedMemoryId).attempt with
  | some (some id) => Task.transition .automatic c.id .adopted { memoryId := id } moment
  | _ => pure ()

/-- What follows the final decision. -/
def settle (c : Candidate) (proposal : Proposal) (decision : Decision) (moment : Int) :
    Task Unit :=
  match decision.action with
  | .adopt => adopt E c proposal decision moment
  | .ask => Task.transition .automatic c.id .askPending { reason := decision.askReason } moment
  | .contest => Task.transition .automatic c.id .contested
      { reason := decision.askReason, contested := decision.contestedMemoryId } moment
  | _ => pure ()

/-- Whether the canonical store is searched for the statement first. -/
def Act.looksForTwin : Act → Bool
  | .adopt | .gather | .ask => true
  | _ => false

/-- A pattern is decided anew once its evidence is known. -/
def finalDecision (proposal : Proposal) (turn : OwnerTurn) (c : Candidate)
    (suppressed secret : Bool) (conflict : Option Conflict) (decision : Decision) : Decision :=
  match proposal.kind with
  | .stated => decision
  | .inferred => E.texts.decide proposal turn c.independentConversations suppressed secret conflict

/-- The part of `_handle` behind the first decision. -/
def pursue (proposal : Proposal) (turn : OwnerTurn) (key : String) (suppressed secret : Bool)
    (conflict : Option Conflict) (decision : Decision) (moment : Int) : Task Unit := do
  let known ← if Act.looksForTwin decision.action then
    reinforceExisting E proposal turn key moment else pure false
  if known || decision.action = .discard then pure ()
  else do
    let seen := sighting E proposal turn key decision moment
    match ← observe seen.1 seen.2 moment with
    | none => pure ()
    | some c => do
      let decision := finalDecision E proposal turn c suppressed secret conflict decision
      Task.note (.decided key decision.action)
      settle E c proposal decision moment

/-- `pursue` from where it is known whether the store has the statement. -/
def pursueOn (proposal : Proposal) (turn : OwnerTurn) (key : String) (suppressed secret : Bool)
    (conflict : Option Conflict) (decision : Decision) (moment : Int) (known : Bool) :
    Task Unit :=
  if known || decision.action = .discard then pure ()
  else do
    let seen := sighting E proposal turn key decision moment
    match ← observe seen.1 seen.2 moment with
    | none => pure ()
    | some c => do
      let decision := finalDecision E proposal turn c suppressed secret conflict decision
      Task.note (.decided key decision.action)
      settle E c proposal decision moment

theorem pursue_eq (proposal : Proposal) (turn : OwnerTurn) (key : String)
    (suppressed secret : Bool) (conflict : Option Conflict) (decision : Decision) (moment : Int) :
    pursue E proposal turn key suppressed secret conflict decision moment =
      if Act.looksForTwin decision.action then
        reinforceExisting E proposal turn key moment >>=
          pursueOn E proposal turn key suppressed secret conflict decision moment
      else pursueOn E proposal turn key suppressed secret conflict decision moment false := rfl

def handleKeyed (proposal : Proposal) (turn : OwnerTurn) (key : String) (moment : Int) :
    Task Unit := do
  let secret := E.texts.looksLikeSecret proposal.statement || E.texts.looksLikeSecret turn.text
  let suppressed ← Task.isSuppressed .automatic key
  let conflict ← findConflict E proposal turn
  let decision := E.texts.decide proposal turn 0 suppressed secret conflict
  pursue E proposal turn key suppressed secret conflict decision moment

/-- `_handle`, between two marks. -/
def handle (turn : OwnerTurn) (moment : Int) (proposal : Proposal) : Task Unit := do
  let key := E.texts.dedupKey proposal.statement
  Task.note (.handling key)
  let done ← (handleKeyed E proposal turn key moment).attempt
  Task.note (.handled key)
  match done with
  | some _ => pure ()
  | none => .fail

def handleAll (turn : OwnerTurn) (moment : Int) : List Proposal → Task Unit
  | [] => pure ()
  | p :: ps => do
    handle E turn moment p
    handleAll turn moment ps

/-- `process`. -/
def process (turn : OwnerTurn) (context : String) (moment : Int) : Task Unit := do
  if !turn.isEligible || E.texts.looksLikeSecret turn.text then pure ()
  else do
    match ← (.request (Op.propose turn context) : Task (Option (List Proposal))) with
    | none => pure ()
    | some proposals => handleAll E turn moment proposals

/-- `observe_turn`, and the worker behind its queue. -/
def observeTurn (enabled : Bool) (turn : OwnerTurn) (context : String) (moment : Int) :
    Task Unit :=
  if enabled && turn.isEligible then process E turn context moment else pure ()

/-! ### What the user decides -/

/-- A call that takes something back, between two marks. -/
def revocation (key : Option String) (body : Task Bool) : Task Bool := do
  match key with
  | none => body
  | some key => do
    Task.note (.revoking key)
    let done ← body.attempt
    Task.note (.revoked key (done.getD false))
    match done with
    | some ok => pure ok
    | none => .fail

/-- The record of a confirmation. -/
def confirmation (c : Candidate) (via : String) (moment : Int) : MemoryRecord where
  id := ""
  memoryType := c.memoryType
  content := c.statement
  subject := c.subject
  source := "confirmation:" ++ via
  sourceType := .userDirect
  trustLevel := .userDirect
  createdAt := moment
  updatedAt := moment
  sensitivity := c.sensitivity
  provenance := [{
    sourceType := .userDirect
    source := "confirmation:" ++ via
    trustLevel := .userDirect
    takenAt := moment
    note := shortNote ("confirmed: " ++ c.statement) }]
  tags := ["confirmed"]

def writeConfirmed (c : Candidate) (via : String) (moment : Int) : Task String := do
  let record := confirmation c via moment
  if c.contestedMemoryId = "" then Semantic.remember E .user record
  else do
    let new ← Semantic.supersede E .user c.contestedMemoryId
      { record with supersedes := some c.contestedMemoryId }
    pure new.id

/-- `confirm_candidate`. -/
def confirmCandidate (candidateId via : String) (moment : Int) : Task String := do
  match ← Task.getCandidate .user candidateId with
  | none => pure ""
  | some c =>
    if c.state.isOpen then do
      match ← (writeConfirmed E c via moment).attempt with
      | none => pure ""
      | some id => do
        Task.transition .user candidateId .adopted { memoryId := id } moment
        Task.unsuppress .user c.dedupKey
        pure id
    else pure ""

/-- `decline_candidate`. -/
def declineCandidate (candidateId : String) (moment : Int) : Task Bool := do
  match ← Task.getCandidate .user candidateId with
  | none => pure false
  | some c =>
    if c.state.isOpen then
      revocation (some c.dedupKey) (do
        Task.transition .user candidateId .declined {} moment
        Task.suppress .user c.dedupKey .declined moment
        pure true)
    else pure false

/-- `note_forgotten`. -/
def noteForgotten (memoryId content : String) (moment : Int) : Task Unit := do
  let text ← if content ≠ "" then pure content
    else do
      let record ← (Task.get .user memoryId).attempt
      pure ((record.join.map MemoryRecord.content).getD "")
  if text = "" then pure ()
  else Task.suppress .user (E.texts.dedupKey text) .forgotten moment

/-- `maintenance`. -/
def maintenance (moment : Int) : Task Unit := Task.expireDue .automatic moment

end Adaptive

/-! ### `MemoryCapabilities` -/

namespace Capabilities

variable (E : Deployment)

/-- The record of `memory_correct`. -/
def correction (old : MemoryRecord) (memoryId statement : String) (now : Int) : MemoryRecord where
  id := ""
  memoryType := old.memoryType
  content := stripped statement
  subject := old.subject
  source := "correction:device"
  sourceType := .userDirect
  trustLevel := .userDirect
  createdAt := now
  updatedAt := now
  sensitivity := old.sensitivity
  provenance := [{
    sourceType := .userDirect
    source := "correction:device"
    trustLevel := .userDirect
    takenAt := now
    note := shortNote ("corrected: " ++ stripped statement) }]
  tags := ["corrected"]
  supersedes := some memoryId

/-- `memory_correct`. -/
def correct (memoryId statement : String) (now : Int) : Task Bool := do
  match ← Task.get .user memoryId with
  | none => pure false
  | some old =>
    if stripped statement = "" then pure false
    else
      Adaptive.revocation (some (E.texts.dedupKey old.content)) (do
        let _ ← Semantic.supersede E .user memoryId (correction old memoryId statement now)
        Adaptive.noteForgotten E memoryId old.content now
        pure true)

/-- What `memory_forget` and `memory_purge` share. -/
def takeBack (memoryId : String) (now : Int) (remove : Task Bool) : Task Bool := do
  let record ← Task.get .user memoryId
  let content := (record.map MemoryRecord.content).getD ""
  Adaptive.revocation (record.map (fun r => E.texts.dedupKey r.content)) (do
    let ok ← remove
    if ok then do
      Adaptive.noteForgotten E memoryId content now
      pure true
    else pure false)

/-- `memory_forget`. -/
def forget (memoryId : String) (now : Int) : Task Bool :=
  takeBack E memoryId now (Semantic.forget .user memoryId "user_request")

/-- `memory_purge`. -/
def purge (memoryId : String) (now : Int) : Task Bool :=
  takeBack E memoryId now (Semantic.purge .user memoryId)

end Capabilities

/-- What runs in the process: turns, and what the user does. -/
inductive Launched (E : Deployment) : Task Unit → Prop
  | observed (enabled : Bool) (turn : OwnerTurn) (context : String) (moment : Int) :
    Launched E (Adaptive.observeTurn E enabled turn context moment)
  | processed (turn : OwnerTurn) (context : String) (moment : Int) :
    Launched E (Adaptive.process E turn context moment)
  | maintained (moment : Int) : Launched E (Adaptive.maintenance moment)
  | remembered (intent : Intent) (now : Int) :
    Launched E (do let _ ← Service.remember E intent now)
  | confirmed (candidateId via : String) (moment : Int) :
    Launched E (do let _ ← Adaptive.confirmCandidate E candidateId via moment)
  | declined (candidateId : String) (moment : Int) :
    Launched E (do let _ ← Adaptive.declineCandidate candidateId moment)
  | corrected (memoryId statement : String) (now : Int) :
    Launched E (do let _ ← Capabilities.correct E memoryId statement now)
  | forgotten (memoryId : String) (now : Int) :
    Launched E (do let _ ← Capabilities.forget E memoryId now)
  | purged (memoryId : String) (now : Int) :
    Launched E (do let _ ← Capabilities.purge E memoryId now)

end Solvio.Memory
