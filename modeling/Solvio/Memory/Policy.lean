import Solvio.Lib.PyString
import Solvio.Memory.Candidates

namespace Solvio.Memory
open Solvio.Lib

/-- What the word lists and patterns of the policy say of a text. -/
structure Texts where
  looksLikeSecret : String → Bool
  dedupKey : String → String
  subjectOf : String → String
  ownerSelfAssertion : String → Bool
  hasSupersessionMarker : String → Bool
  lexicalSensitivity : String → Sensitivity
  isUseful : String → Bool
  isPermissiveRule : String → Bool

/-! ### Turns -/

/-- What a channel says about the speaker. -/
inductive SourceClass where
  | verifiedDeviceInteractive | roomMicrophone | external
deriving DecidableEq

/-- `class_of`. -/
def classOf (channel : String) : SourceClass :=
  if channel = "voice_iphone" then .verifiedDeviceInteractive
  else if channel = "voice_satellite" then .roomMicrophone
  else .external

/-- `AUTO_LEARNING_CLASSES`. -/
def SourceClass.mayAutoLearn (k : SourceClass) : Bool := k = .verifiedDeviceInteractive

structure OwnerTurn where
  text : String
  channel : String
  role : String := "user"
  conversationId : String := ""
  messageId : String := ""
deriving DecidableEq

/-- `is_eligible`. -/
def OwnerTurn.isEligible (turn : OwnerTurn) : Bool :=
  turn.role = "user" && (classOf turn.channel).mayAutoLearn && stripped turn.text ≠ ""

/-! ### Proposals -/

inductive About where
  | self | thirdParty | world
deriving DecidableEq

inductive Flag where
  | hypothetical | quote | past | affect | transient | sarcasmPossible
deriving DecidableEq

/-- `BLOCKING_FLAGS`. -/
def Flag.blocks (f : Flag) : Bool := f ≠ .transient

structure Proposal where
  statement : String
  kind : Kind
  memoryType : MemoryType
  subject : String
  about : About := .self
  sensitivity : Sensitivity := .personal
  flags : List Flag := []
  validUntil : Option Int := none
deriving DecidableEq

/-- What the automatic has found the proposal to contradict. -/
inductive Conflict where
  | ambiguous
  | target (memoryId : String) (userDirect : Bool)
deriving DecidableEq

inductive Act where
  | adopt | ask | contest | gather | discard
deriving DecidableEq

structure Decision where
  action : Act
  sensitivity : Sensitivity := .personal
  askReason : AskReason := .none
  contestedMemoryId : String := ""
deriving DecidableEq

namespace MemoryType

/-- `AUTO_STATED`. -/
def autoStated (t : MemoryType) : Bool := t ∈ [.preference, .project, .user, .people]

/-- `AUTO_INFERRED`. -/
def autoInferred (t : MemoryType) : Bool := t = .preference

/-- `ASK_ONLY`. -/
def askOnly (t : MemoryType) : Bool := t ∈ [.rule, .standingIntent]

/-- `NOT_IN_V1`. -/
def notInV1 (t : MemoryType) : Bool := t ∈ [.semantic, .episodic, .working]

end MemoryType

namespace Sensitivity

/-- `_RANK`. -/
def rank : Sensitivity → Nat
  | publicContent => 0
  | personal => 1
  | sensitive => 2
  | secretReference => 3

/-- `strictest`. -/
def strictest (values : List Sensitivity) : Sensitivity :=
  values.foldl (fun best v => if best.rank < v.rank then v else best) .publicContent

end Sensitivity

def inferredMinConversations : Nat := 2

/-- What is left to decide once nothing contradicts the proposal. -/
def decideEvidence (proposal : Proposal) (sensitivity : Sensitivity) (conversations : Nat) :
    Decision :=
  if sensitivity = .sensitive then ⟨.ask, sensitivity, .sensitive, ""⟩
  else
    match proposal.kind with
    | .stated =>
      if proposal.memoryType.autoStated then ⟨.adopt, sensitivity, .none, ""⟩
      else ⟨.ask, sensitivity, .category, ""⟩
    | .inferred =>
      if !proposal.memoryType.autoInferred then ⟨.gather, sensitivity, .none, ""⟩
      else if conversations < inferredMinConversations then ⟨.gather, sensitivity, .none, ""⟩
      else ⟨.adopt, sensitivity, .none, ""⟩

/-- What is decided about a contradiction. -/
def decideConflict (proposal : Proposal) (sensitivity : Sensitivity) : Conflict → Decision
  | .ambiguous => ⟨.ask, sensitivity, .contradiction, ""⟩
  | .target memoryId userDirect =>
    if userDirect then ⟨.contest, sensitivity, .contradiction, memoryId⟩
    else if proposal.kind = .stated then ⟨.adopt, sensitivity, .none, memoryId⟩
    else ⟨.contest, sensitivity, .contradiction, memoryId⟩

/-- `decide`. -/
def Texts.decide (T : Texts) (proposal : Proposal) (turn : OwnerTurn) (conversations : Nat)
    (suppressed secretHit : Bool) (conflict : Option Conflict) : Decision :=
  if secretHit then ⟨.discard, .personal, .none, ""⟩
  else if suppressed then ⟨.discard, .personal, .none, ""⟩
  else if proposal.flags.any Flag.blocks then ⟨.discard, .personal, .none, ""⟩
  else if proposal.memoryType.notInV1 then ⟨.discard, .personal, .none, ""⟩
  else if proposal.about = .world then ⟨.discard, .personal, .none, ""⟩
  else if proposal.about ≠ .thirdParty ∧ T.ownerSelfAssertion turn.text = false then
    ⟨.discard, .personal, .none, ""⟩
  else if proposal.about = .thirdParty ∧ proposal.memoryType ≠ .people then
    ⟨.discard, .personal, .none, ""⟩
  else
    let sensitivity := Sensitivity.strictest [T.lexicalSensitivity proposal.statement,
      T.lexicalSensitivity turn.text, proposal.sensitivity]
    if sensitivity = .secretReference then ⟨.discard, .personal, .none, ""⟩
    else if T.isUseful proposal.statement = false then ⟨.discard, sensitivity, .none, ""⟩
    else if proposal.memoryType.askOnly then
      if T.isPermissiveRule proposal.statement then ⟨.discard, .personal, .none, ""⟩
      else ⟨.ask, sensitivity, .rule, ""⟩
    else
      match conflict with
      | some c => decideConflict proposal sensitivity c
      | none => decideEvidence proposal sensitivity conversations

/-- A secret, or what the human has refused, is discarded. -/
theorem decide_refused (T : Texts) (proposal : Proposal) (turn : OwnerTurn) (conversations : Nat)
    {suppressed secretHit : Bool} (conflict : Option Conflict)
    (h : suppressed = true ∨ secretHit = true) :
    (T.decide proposal turn conversations suppressed secretHit conflict).action = .discard := by
  unfold Texts.decide
  rcases h with rfl | rfl
  · cases secretHit <;> rfl
  · rfl

end Solvio.Memory
