import Solvio.Lib.Codec

namespace Solvio.Approval
open Solvio.Lib

/-- Declared per capability by the server. The journal column is free text, so
a row may also hold a value outside the declared four. -/
inductive Semantics where
  | readOnly
  | idempotentWrite
  | reconcilableWrite
  | nonIdempotentWrite
  | undeclared (text : String)
deriving DecidableEq

def Semantics.declared : Semantics → Bool
  | .undeclared _ => false
  | _ => true

/-- The shipped table. Tests register further capabilities, so the model takes
the table as part of a core's configuration. -/
def capabilitySemantics : List (String × Semantics) :=
  [("codex_task", .nonIdempotentWrite), ("codex_modify", .nonIdempotentWrite)]

def semanticsFor (table : List (String × Semantics)) (capability : String) : Semantics :=
  (table.lookup capability).getD .nonIdempotentWrite

inductive AttemptStatus where
  | claimed
  | externalPending
  | succeeded
  | failedSafe
  | unknown
  | abandoned
deriving DecidableEq

namespace AttemptStatus

def terminal : AttemptStatus → Bool
  | succeeded | failedSafe | abandoned => true
  | _ => false

/-- `OPEN_STATUSES`. -/
def isOpen : AttemptStatus → Bool
  | claimed | externalPending | unknown => true
  | _ => false

def text : AttemptStatus → String
  | claimed => "CLAIMED"
  | externalPending => "EXTERNAL_PENDING"
  | succeeded => "SUCCEEDED"
  | failedSafe => "FAILED_SAFE"
  | unknown => "UNKNOWN"
  | abandoned => "ABANDONED"

/-- `status.lower()`. -/
def lower : AttemptStatus → String
  | claimed => "claimed"
  | externalPending => "external_pending"
  | succeeded => "succeeded"
  | failedSafe => "failed_safe"
  | unknown => "unknown"
  | abandoned => "abandoned"

theorem open_iff (s : AttemptStatus) : s.isOpen = true ↔ s.terminal = false := by
  cases s <;> simp [isOpen, terminal]

end AttemptStatus

def hexdigest (b : Bytes) : String := toHex (sha256 b)

theorem hexdigest_ne_empty (b : Bytes) : hexdigest b ≠ "" := by
  apply to_hex_ne_empty
  intro h
  have := sha256_length b
  simp [h] at this

/-- The first `n` characters, as Python slices text. -/
def textPrefix (n : Nat) (s : String) : String := String.ofList (s.toList.take n)

/-- `none` is the `ValueError` of an empty core instance or approval. -/
def executionIdFor (coreInstanceId approvalId : String) : Option String :=
  if coreInstanceId = "" ∨ approvalId = "" then none
  else
    let digest := hexdigest (encodeUtf8
      ("solvio-execution-v1|" ++ coreInstanceId ++ "|" ++ approvalId))
    some ("exec-" ++ textPrefix 32 digest)

def idempotencyKeyFor (executionId capability : String) : Option String :=
  if executionId = "" then none
  else some (hexdigest (encodeUtf8 ("solvio-idem-v1|" ++ executionId ++ "|" ++ capability)))

inductive RecoveryDecision where
  | retrySameKey
  | reconcileFirst
  | noActionSucceeded
  | manualRecoveryRequired
  | closedNoEffect
deriving DecidableEq

def recoveryDecision (status : AttemptStatus) (semantics : Semantics) : RecoveryDecision :=
  match status with
  | .succeeded => .noActionSucceeded
  | .failedSafe | .abandoned => .closedNoEffect
  | .claimed => .closedNoEffect
  | .externalPending | .unknown =>
    match semantics with
    | .readOnly | .idempotentWrite => .retrySameKey
    | .reconcilableWrite => .reconcileFirst
    | _ => .manualRecoveryRequired

def mayAutoRetry (status : AttemptStatus) (semantics : Semantics) : Bool :=
  recoveryDecision status semantics = .retrySameKey ∨
    recoveryDecision status semantics = .closedNoEffect

/-- Semantics whose declared remote behaviour makes a repeat harmless. -/
def Semantics.repeatable : Semantics → Bool
  | .readOnly | .idempotentWrite => true
  | _ => false

/-- An open attempt is retried only past the boundary and only for repeatable
semantics; before the boundary it is closed. -/
theorem retry_iff (status : AttemptStatus) (semantics : Semantics) :
    recoveryDecision status semantics = .retrySameKey ↔
      (status = .externalPending ∨ status = .unknown) ∧ semantics.repeatable = true := by
  cases status <;> cases semantics <;> simp [recoveryDecision, Semantics.repeatable]

theorem closed_no_effect_iff (status : AttemptStatus) (semantics : Semantics) :
    recoveryDecision status semantics = .closedNoEffect ↔
      status = .claimed ∨ status = .failedSafe ∨ status = .abandoned := by
  cases status <;> cases semantics <;> simp [recoveryDecision]

theorem reconcile_iff (status : AttemptStatus) (semantics : Semantics) :
    recoveryDecision status semantics = .reconcileFirst ↔
      (status = .externalPending ∨ status = .unknown) ∧ semantics = .reconcilableWrite := by
  cases status <;> cases semantics <;> simp [recoveryDecision]

end Solvio.Approval
