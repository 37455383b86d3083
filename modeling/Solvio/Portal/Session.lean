import Solvio.Lib.Lease
import Solvio.Portal.Permit

namespace Solvio.Portal
open Solvio.Lib

/-- `SESSION_IDLE` and `SESSION_MAX`, in nanoseconds. -/
def sessionIdle : Nat := 1200000000000
def sessionMax : Nat := 3600000000000

/-- A session of the worker, whether it is still in `sessions`, and the time. -/
structure Session where
  listed : Bool
  permits : PermitBook
  opened : Nat
  touched : Nat
  clock : Nat

def Session.expired (s : Session) : Bool :=
  sessionIdle < s.clock - s.touched || sessionMax < s.clock - s.opened

/-- What an evaluation in the page comes to: an error or a timeout is raised, the
answer is not what the script gives when it succeeds, or it is. -/
inductive Got (α : Type) where
  | raised
  | unfit
  | got (a : α)
deriving DecidableEq

/-- The stretches of the operations, each with the await that it begins with. `inspect`
carries the manifest that its answer is going to be compared with. -/
inductive Op where
  | reap
  | lookup
  | pop
  | pageClose
  | processStop
  | inspect (approved : Option ActionManifest)
  | touch
  | fill (selector value : String)
  | issue (actionId method : String)
  | click
  | settle
  | revoke (actionId : String)
  | visibleText
  | summarize
  | navigate (url : String)
  | allow (url method : String)
deriving DecidableEq

/-- How much time has passed, and what the page says. -/
structure Outside where
  elapsed : Nat := 0
  form : Got Form := .unfit
  done : Got Unit := .got ()

abbrev Reply : Op → Type
  | .reap => Bool
  | .lookup => Bool
  | .pop => Bool
  | .inspect _ => Got Form
  | .fill _ _ => Got Unit
  | .issue _ _ => Bool
  | .click => Got Unit
  | .visibleText => Got Unit
  | .summarize => Got Unit
  | .navigate _ => Got Unit
  | .allow _ _ => Option (Bool × String)
  | _ => Unit

variable {T : Texts}

def Session.at (s : Session) (o : Outside) : Session := { s with clock := s.clock + o.elapsed }

/-- The first stretch of `destroy`. -/
def Session.gone (s : Session) : Session := { s with listed := false, permits := .empty }

/-- The binding of a session decides where its permits are for. -/
def step (b : PortalBinding T) : (op : Op) → Outside → Session → Reply op × Session
  | .reap, o, s =>
    if s.listed && (s.at o).expired then (true, (s.at o).gone) else (false, s.at o)
  | .lookup, o, s => (s.listed, s.at o)
  | .pop, o, s => (s.listed, if s.listed then (s.at o).gone else s.at o)
  | .pageClose, o, s => ((), s.at o)
  | .processStop, o, s => ((), s.at o)
  | .inspect _, o, s => (o.form, s.at o)
  | .touch, o, s => ((), { s.at o with touched := s.clock + o.elapsed })
  | .fill _ _, o, s => (o.done, s.at o)
  | .issue actionId method, o, s =>
    match s.permits.issue T actionId b.writeOrigin method (s.clock + o.elapsed) with
    | none => (false, s.at o)
    | some permits => (true, { s.at o with permits := permits })
  | .click, o, s => (o.done, s.at o)
  | .settle, o, s => ((), s.at o)
  | .revoke actionId, o, s => ((), { s.at o with permits := s.permits.revoke actionId })
  | .visibleText, o, s => (o.done, s.at o)
  | .summarize, o, s => (o.done, s.at o)
  | .navigate _, o, s => (o.done, s.at o)
  | .allow url method, o, s =>
    let answer := s.permits.allow T url method (s.clock + o.elapsed)
    (answer.1, { s.at o with permits := answer.2 })

/-- One session from its opening on. -/
abbrev session (b : PortalBinding T) : Shared Session where
  Op := Op
  Input := Outside
  Reply := Reply
  step := step b
  init := { listed := true, permits := .empty, opened := 0, touched := 0, clock := 0 }

abbrev Proc (α : Type) : Type := Prog Op Reply α

def ask (op : Op) : Proc (Reply op) := Prog.request op

/-! ### The operations -/

/-- What `destroy` awaits; errors there are swallowed. -/
def farewell : Proc Unit := do
  let _ ← ask .pageClose
  let _ ← ask .processStop
  return ()

/-- `_reap`. -/
def reap : Proc Unit := do
  if ← ask .reap then farewell

/-- `_session`, which raises a `KeyError`. -/
def found : Proc Unit := do
  if ← ask .lookup then return () else Prog.fail

/-- `_read`. -/
def readPage : Proc Unit := do
  match ← ask .visibleText with
  | .raised => Prog.fail
  | _ => return ()

/-- `_op_probe_action`; no answer is `form_not_found`. -/
def probeAction (b : PortalBinding T) (approved : Option ActionManifest) : Proc (Option Live) := do
  found
  match ← ask (.inspect approved) with
  | .raised => Prog.fail
  | .unfit => return none
  | .got form =>
    let _ ← ask .touch
    return some (b.probed form)

/-- What a field is filled with, which is empty if the secret is missing. -/
def fieldValue (secrets : String → Option String) (f : FieldBinding) : String :=
  if f.aliasName = "" then f.value else (secrets f.aliasName).getD ""

/-- The loop that fills the fields. Without a secret or its field it answers at once. -/
def fillAll (secrets : String → Option String) : List FieldBinding → Proc Bool
  | [] => return true
  | f :: fs => do
    if f.aliasName ≠ "" ∧ fieldValue secrets f = "" then return false
    else
      match ← ask (.fill f.selector (fieldValue secrets f)) with
      | .raised => Prog.fail
      | .unfit => return false
      | .got _ => fillAll secrets fs

/-- What follows the click that was seen through. -/
def settled (revoke : Proc Unit) : Proc Unit := do
  let _ ← ask .settle
  revoke
  readPage
  let _ ← ask .touch
  return ()

/-- The click, with what takes the permit back. -/
def submit (revoke : Proc Unit) : Proc Unit := do
  match ← ask .click with
  | .raised => Prog.fail
  | .unfit => revoke
  | .got _ => settled revoke

/-- `_op_execute` after the fields. -/
def release (T : Texts) (m : ActionManifest) (actionId : String) : Proc Unit := do
  if T.uppered m.method ∈ writeMethods then
    if ← ask (.issue actionId m.method) then submit (ask (.revoke actionId))
    else Prog.fail
  else submit (return ())

/-- `_op_execute`, once the page is as it was approved. -/
def carryOut (T : Texts) (m : ActionManifest) (secrets : String → Option String)
    (actionId : String) : Proc Unit := do
  if ← fillAll secrets m.fields then release T m actionId

/-- `_op_execute` from the second look at the page on. -/
def lookAgain (b : PortalBinding T) (m : ActionManifest) (secrets : String → Option String)
    (actionId : String) : Proc Unit := do
  match ← probeAction b (some m) with
  | none => return ()
  | some live =>
    if drifted m ⟨live.form.origin, m.target, live.pageSignature⟩ = "" then
      carryOut T m secrets actionId

/-- `_op_execute`. -/
def execute (b : PortalBinding T) (m : ActionManifest) (secrets : String → Option String)
    (actionId : String) : Proc Unit := do
  found
  if m.credentialAlias = "" then lookAgain b m secrets actionId
  else
    match b.mayInject m.pageUrl with
    | none => Prog.fail
    | some "" => lookAgain b m secrets actionId
    | some _ => return ()

/-- `_op_probe_action` on its own. -/
def probe (b : PortalBinding T) : Proc Unit := do
  let _ ← probeAction b none
  return ()

/-- `_op_read`. -/
def read (structured : Bool) : Proc Unit := do
  found
  let _ ← ask .touch
  readPage
  if structured then
    match ← ask .summarize with
    | .raised => Prog.fail
    | _ => return ()

/-- `_op_navigate` after the policy, which may have refused. -/
def navigate (b : PortalBinding T) (policy : String → Bool) (url : String) : Proc Unit := do
  found
  match b.allows url with
  | none => Prog.fail
  | some false => return ()
  | some true =>
    if policy url then
      match ← ask (.navigate url) with
      | .got _ =>
        let _ ← ask .touch
        readPage
      | _ => return ()

/-- `_op_close_session`, and a session's part of `_op_restart` and `shutdown`. -/
def closeSession : Proc Unit := do
  if ← ask .pop then farewell

/-- `handle`: first `_reap`, then an operation, whose errors it catches. -/
def handle (operation : Proc Unit) : Proc Unit := do
  reap
  let _ ← operation.attempt
  return ()

/-- A request that the page makes, as far as the write gate. -/
def pageRequest (url method : String) : Proc Unit := do
  let _ ← ask (.allow url method)
  return ()

/-- What runs on a session, and the requests of its page. -/
inductive Launch (b : PortalBinding T) : Proc Unit → Prop
  | execute (m : ActionManifest) (secrets : String → Option String) (actionId : String) :
    Launch b (handle (execute b m secrets actionId))
  | probe : Launch b (handle (probe b))
  | read (structured : Bool) : Launch b (handle (read structured))
  | navigate (policy : String → Bool) (url : String) : Launch b (handle (navigate b policy url))
  | close : Launch b (handle closeSession)
  | shutdown : Launch b closeSession
  | request (url method : String) : Launch b (pageRequest url method)

end Solvio.Portal
