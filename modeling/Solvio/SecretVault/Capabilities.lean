import Solvio.Lib.Runs
import Solvio.SecretVault.Readback

namespace Solvio.SecretVault
open Solvio.Lib

/-- The arguments of a capability, all of them texts. -/
abbrev Args := String → Option String

namespace Args

/-- `str(args.get(key) or "")`. -/
def text (args : Args) (key : String) : String := (args key).getD ""

end Args

def AdminError.value : AdminError → String
  | vaultUnavailable => "vault_unavailable"
  | vaultNotInitialised => "vault_not_initialised"
  | kindBelongsToPaymentCapability => "kind_belongs_to_payment_capability"
  | unknownKind => "unknown_kind"
  | targetIsNotAnOrigin => "target_is_not_an_origin"
  | scopeMustNotBeEmpty => "scope_must_not_be_empty"
  | secretIsEmpty => "secret_is_empty"
  | secretIsTooLarge => "secret_is_too_large"
  | secretAlreadyExists => "secret_already_exists"
  | unknownSecret => "unknown_secret"
  | envelopeRejected => "envelope_rejected"

/-- How a capability ends that does not return. -/
inductive Failure where
  | refused (reason : String)
  | declined (reason : String)
  | keyError
  | fault (f : Fault)
deriving DecidableEq

/-- The `except` clauses every handler has. -/
def refusedBy : Fault → Failure
  | .admin e => .refused e.value
  | f => .fault f

/-- The `except` clauses of `add`. -/
def declinedBy : Fault → Failure
  | .invalidSecretRef => .declined "invalid_secret_ref"
  | f => refusedBy f

/-- `_list`. -/
def listOf (text : String) : List String :=
  ((text.toList.splitOn ',').map (fun p => String.ofList (strip isSpace p))).filter (· ≠ "")

/-- `_flag`. -/
def flagOf (T : TextTables) (text : String) : Bool :=
  T.lowered (strip isSpace text.toList) ∈
    ["true".toList, "ja".toList, "1".toList, "yes".toList]

/-- `_executors`. -/
def executorsOf (text : String) : Except Failure (List ExecutorId) :=
  (listOf text).mapM (fun name =>
    match ExecutorId.ofValue? name with
    | none => .error (.declined "unknown_executor")
    | some e => .ok e)

def Args.required (args : Args) (key : String) : Except Failure String :=
  match args key with
  | none => .error .keyError
  | some v => .ok v

inductive Capability where
  | secretAdd
  | secretReplace
  | secretDisable
  | secretEnable
  | secretDelete
  | secretRescope
deriving DecidableEq

section handlers
variable (V : Site) (args : Args)

/-- What `add` makes of its arguments and the value it took. -/
def addCall (plaintext : Bytes) : Except Failure Call := do
  let secretRef ← args.required "secret_ref"
  let kind ← args.required "kind"
  let executors ← executorsOf (args.text "executors")
  return .add
    { secretRef := secretRef, kind := kind, plaintext := plaintext
      scope := ⟨listOf (args.text "capabilities"), listOf (args.text "targets"), executors⟩
      displayName := args.text "display_name", serviceLabel := args.text "service_label"
      accountLabel := args.text "account_label"
      allowBackground := flagOf V.tables (args.text "allow_background") } false

def replaceCall (plaintext : Bytes) : Except Failure Call := do
  return .replaceValue (← args.required "secret_ref") plaintext

def statusCall (status : Status) : Except Failure Call := do
  return .setStatus (← args.required "secret_ref") status

def deleteCall : Except Failure Call := do
  return .delete (← args.required "secret_ref")

/-- `rescope`, which acts on the version a human has seen. -/
def rescopeCall (t : Vault) : Except Failure Call := do
  match readPolicy t (args.text "secret_ref") with
  | .error f => throw (.fault f)
  | .ok none => throw (.refused "unknown_secret")
  | .ok (some current) =>
    raiseIf (stripped (args.text "expected_version") ≠ strInt current.version)
      (.refused "scope_changed_meanwhile")
    let secretRef ← args.required "secret_ref"
    let executors ← match args "executors" with
      | none => pure none
      | some text => (executorsOf text).map some
    return .rescope secretRef
      { capabilities := (args "capabilities").map listOf, targets := (args "targets").map listOf
        executors := executors
        allowBackground := (args "allow_background").map (flagOf V.tables) }

/-- The call a capability makes. The two that need a value get the one that
was staged for them, if it is still there. -/
def Capability.call (t : Vault) (staged : Option Bytes) (c : Capability) : Except Failure Call :=
  match c, staged with
  | secretAdd, some plaintext => addCall V args plaintext
  | secretReplace, some plaintext => replaceCall args plaintext
  | secretAdd, none => .error (.refused "staging_missing")
  | secretReplace, none => .error (.refused "staging_missing")
  | secretDisable, _ => statusCall args .disabled
  | secretEnable, _ => statusCall args .active
  | secretDelete, _ => deleteCall args
  | secretRescope, _ => rescopeCall V args t

end handlers

/-- What is done to the vault: a capability, or an operation by itself. -/
inductive Action where
  | capability (c : Capability) (args : Args) (staged : Option Bytes)
  | admin (call : Call)

namespace Action

variable (V : Site)

/-- The operation an action comes to. -/
def call (t : Vault) : Action → Except Failure Call
  | capability c args staged => c.call V args t staged
  | admin c => .ok c

/-- The exceptions of an operation, as the action lets them out. -/
def failure : Action → Fault → Failure
  | capability .secretAdd _ _ => declinedBy
  | capability _ _ _ => refusedBy
  | admin _ => .fault

def effect (m : Moment) (t : Vault) (a : Action) : Except Failure (Effect V) := do
  let c ← a.call V t
  match c.effect V m t t with
  | .error f => throw (a.failure f)
  | .ok e =>
    match a, e with
    | capability .secretDelete _ _, .removed ref =>
      raiseIf (t.find? ref = none) (.declined "unknown_secret")
      return e
    | _, _ => return e

end Action

/-- The vault as its callers meet it. -/
def vault (V : Site) : Machine Vault where
  Call := Moment × Action
  Reply := fun _ => Except Failure (Effect V)
  step := fun c t =>
    let result := c.2.effect V c.1 t
    (result, match result with
      | .ok e => e.apply c.1.now t
      | .error _ => t)
  init := Table.empty

end Solvio.SecretVault
