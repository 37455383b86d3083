import Solvio.Memory.Semantic

namespace Solvio.Memory
open Solvio.Lib

/-- What the user has asked to be remembered. -/
structure Intent where
  payload : String
  marker : String
  isCorrection : Bool := false
  conversationId : String := ""
  messageId : String := ""
  memoryType : MemoryType := .user
deriving DecidableEq

inductive Remembered where
  | created (id : String) (indexed : Bool)
  | superseded (id oldId : String) (indexed : Bool)
  | duplicate (id : String)
  | ambiguous
  | refused
  | failed
deriving DecidableEq

/-! ### `MemoryService` -/

namespace Service

variable (E : Deployment)

/-- `check_index_consistency`: no current record lacks its vector. -/
def checkIndexConsistency : Task Bool := do
  if ← Task.indexOpen then do
    let seen ← (do
      let active ← Task.activeIds .user
      let indexed ← Task.idsForProfile E.profile
      pure (active, indexed) : Task _).attempt
    match seen with
    | none => pure false
    | some (active, indexed) => pure (active.all (· ∈ indexed))
  else pure false

/-- `open`, with `_note_profile_change`. -/
def openService : Task Unit := do
  if ← Task.indexOpen then do
    match ← Task.index .activeProfile with
    | .text active =>
      if active = some E.profile then do
        let _ ← Task.flags (.setPending false)
      else do
        let _ ← Task.index (.setActiveProfile E.profile)
        let _ ← Task.flags (.setPending true)
    | _ => .fail
  let _ ← Task.flags (.setCheckDue true)

/-- The check that is due once after the start. -/
def checkOnce : Task Unit := do
  let flags ← Task.flags .read
  if flags.checkDue then do
    let _ ← Task.flags (.setCheckDue false)
    let consistent ← checkIndexConsistency E
    if consistent then pure ()
    else do
      let _ ← Task.flags (.setPending true)
      let _ ← Task.flags (.setIncomplete true)
  else pure ()

/-- What follows a rebuild: the canonical store says whether it is complete. -/
def recheck : Task Unit := do
  let _ ← Task.flags (.setPending false)
  let consistent ← checkIndexConsistency E
  let _ ← Task.flags (.setIncomplete (!consistent))
  if consistent then pure () else do
    let _ ← Task.flags (.setPending true)

/-- `ensure_index`. -/
def ensureIndex : Task Unit := do
  checkOnce E
  let flags ← Task.flags .read
  if flags.reindexPending then do
    match ← (Semantic.rebuild E .user).attempt with
    | none => do
      let _ ← Task.flags (.setIncomplete true)
      .fail
    | some _ => recheck E
  else pure ()

/-- `_is_indexed`. -/
def isIndexed (id : String) : Task Bool := do
  if ← Task.indexOpen then do
    let hash ← Task.contentHashOf id E.profile
    pure hash.isSome
  else pure false

/-- A record that is written without a vector is noted for the next access. -/
def noteIndexed (id : String) : Task Bool := do
  let indexed ← isIndexed E id
  if indexed then pure true
  else do
    let _ ← Task.flags (.setIncomplete true)
    let _ ← Task.flags (.setPending true)
    pure false

/-- `_build_record`. -/
def buildRecord (content : String) (intent : Intent) (now : Int) : MemoryRecord where
  id := ""
  memoryType := intent.memoryType
  content := content
  subject := E.texts.subjectOf content
  source := if intent.conversationId = "" then "voice" else "conversation:" ++ intent.conversationId
  sourceType := .userDirect
  createdAt := now
  updatedAt := now
  trustLevel := .userDirect
  provenance := [{
    sourceType := .userDirect
    source := if intent.messageId = "" then "voice_turn" else "message:" ++ intent.messageId
    trustLevel := .userDirect
    takenAt := now
    note := "explicit intent via '" ++ intent.marker ++ "'" }]
  tags := ["explicit"]

/-- What a correction replaces, of the records that the search has found. -/
def correctionTarget (content : String) (found : List MemoryRecord)
    (scores : List (String × Rat)) : Target :=
  E.supersedeTarget content (found.filter (fun r => r.supersededBy.isNone)) scores

/-- The write at the end of `remember`. -/
def store (record : MemoryRecord) (target : Option MemoryRecord) : Task Remembered :=
  match target with
  | some old => do
    let new ← Semantic.supersede E .user old.id record
    let indexed ← noteIndexed E new.id
    pure (.superseded new.id old.id indexed)
  | none => do
    let id ← Semantic.remember E .user record
    let indexed ← noteIndexed E id
    pure (.created id indexed)

/-- What `remember` does with what the search has found. -/
def settle (content : String) (intent : Intent) (now : Int) (found : List MemoryRecord) :
    Task Remembered := do
  match found.find? (fun r => r.supersededBy.isNone &&
      E.texts.dedupKey r.content = E.texts.dedupKey content) with
  | some twin => pure (.duplicate twin.id)
  | none => do
    let scores ← if intent.isCorrection then
      (Semantic.semanticHits E content 32 none).attempt else pure none
    let target := if intent.isCorrection then correctionTarget E content found (scores.getD [])
      else .none
    match target with
    | .ambiguous => pure .ambiguous
    | target => do
      let old := match target with
        | .pick i => (found.filter (fun r => r.supersededBy.isNone))[i]?
        | _ => none
      let done ← (store E (buildRecord E content intent now) old).attempt
      pure (done.getD .failed)

/-- `settle` from where the target of a correction is known. -/
def settleOn (content : String) (intent : Intent) (now : Int) (found : List MemoryRecord) :
    Target → Task Remembered
  | .ambiguous => pure .ambiguous
  | target => do
    let old := match target with
      | .pick i => (found.filter (fun r => r.supersededBy.isNone))[i]?
      | _ => none
    let done ← (store E (buildRecord E content intent now) old).attempt
    pure (done.getD .failed)

/-- `remember`. -/
def remember (intent : Intent) (now : Int) : Task Remembered := do
  let content := stripped intent.payload
  if content = "" then pure .refused
  else do
    ensureIndex E
    if E.texts.looksLikeSecret content then pure .refused
    else do
      let found ← (Semantic.hybridRecall E .user content 5).attempt
      settle E content intent now (found.getD [])

end Service

end Solvio.Memory
