import Solvio.Capabilities.Automations
import Solvio.Capabilities.Preauth
import Solvio.Lib.Programs

namespace Solvio.Capabilities.Grants
open Solvio.Lib Solvio.Proactive Background

/-- What the registry of capabilities says of one. -/
structure Spec where
  name : String
  baseRisk : Nat := 1

/-- A call that the router executes. -/
structure Call where
  name : String
  arguments : Data
  origin : OriginClass
  automationId : String := ""
  untrusted : Bool := false
  commanded : Bool := true

/-- What the process runs on: the automations, what the owner calls relevant to
security, the registered capabilities, their classes and risks, the checks of the
schema and of the authority, and whether the policy is enforced or only logged. -/
structure House where
  background : Background.Deployment
  overrides : List String
  spec : String → Option Spec
  baseClass : String → ActionClass
  effectiveRisk : Call → Nat
  admits : Call → Bool
  enforced : Bool

/-! ### Devices -/

def haCapability : String → Option HomeAssistant.Capability
  | "ha_turn_on" => some .turnOn
  | "ha_turn_off" => some .turnOff
  | "ha_set_brightness" => some .setBrightness
  | _ => none

def textOf (d : Data) (key : String) : String :=
  match d.get? key with
  | some (.scalar (.str s)) => s
  | _ => ""

def haArguments (d : Data) : HomeAssistant.Arguments where
  name := textOf d "name"
  area := textOf d "area"
  brightnessPct := match d.get? "brightness_pct" with
    | some (.scalar (.int n)) => n
    | _ => 0

variable (H : House)

/-- `_classify`, of which `none` is that it declines, refuses or reaches nothing.
A classifier that breaks leaves the call unclassified. -/
def measure (spec : Spec) (arguments : Data) (B : Option HomeAssistant.Boundary) (broken : Bool) :
    Option Classification :=
  match haCapability spec.name with
  | some _ =>
    if broken then some { actionClass := .unclassified, reason := "classifier_failed" }
    else match HomeAssistant.classify H.background.script.lower H.overrides B (haArguments arguments) with
      | .error _ => none
      | .ok c => some { c with actionClass := applyFloor c.actionClass spec.baseRisk }
  | none => some { actionClass := applyFloor (H.baseClass spec.name) spec.baseRisk, reason := "registry" }

/-! ### The shared store -/

structure Desk where
  tasks : Table TaskRow := Table.empty
  grants : Table Preauthorization := Table.empty

inductive Op where
  | countTasks (owner : String)
  | putTask (row : TaskRow)
  | getTask (id : String)
  | deleteTask (id : String)
  | getPreauth (id : String)
  | putPreauth (grant : Preauthorization) (calledFrom : OriginClass)
  | revokePreauth (id reason : String)
  | classify (spec : Spec) (arguments : Data)
  | context
  | approve (call : Call)
  | run (call : Call) (approved : Bool)

/-- What a step meets outside the store: the clock, the exposed devices (last, as
the handler looks for the second time), a classifier that breaks, the slot of the
invocation gate, and the answer of the device. -/
structure Outside where
  now : Rat := 0
  boundary : Option HomeAssistant.Boundary := none
  last : Option HomeAssistant.Boundary := none
  broken : Bool := false
  context : Option (OriginClass × String) := none
  approved : Bool := false

abbrev Reply : Op → Type
  | .countTasks _ => Nat
  | .putTask _ => Unit
  | .getTask _ => Option TaskRow
  | .deleteTask _ => Bool
  | .getPreauth _ => Option Preauthorization
  | .putPreauth _ _ => Bool
  | .revokePreauth _ _ => Bool
  | .classify _ _ => Option Classification
  | .context => Option (OriginClass × String)
  | .approve _ => Bool
  | .run _ _ => Option HomeAssistant.ServiceCall

/-- `_put_task`: what a task was created with stays. -/
def merged (old : Option TaskRow) (row : TaskRow) : TaskRow :=
  match old with
  | none => row
  | some old => { row with
      owner := old.owner, createdAt := old.createdAt, createdFrom := old.createdFrom }

/-- `_revoke_preauth`. -/
def revoked (grants : Table Preauthorization) (id reason : String) (now : Rat) :
    Table Preauthorization :=
  grants.modify id (Preauthorization.revoke reason now) (fun _ => Preauthorization.revoke_key ..)

/-- The call of the device that the handler makes, if it makes one. -/
def handled (call : Call) (o : Outside) : Option HomeAssistant.ServiceCall :=
  (haCapability call.name).bind (fun c =>
    (HomeAssistant.handle H.background.script.lower c o.boundary o.last
      (haArguments call.arguments)).toOption)

def step : (op : Op) → Outside → Desk → Reply op × Desk
  | .countTasks owner, _, s => ((s.tasks.rows.filter (fun t => t.owner = owner)).length, s)
  | .putTask row, _, s =>
    ((), { s with tasks := s.tasks.put (merged (s.tasks.find? row.taskId) row) })
  | .getTask id, _, s => (s.tasks.find? id, s)
  | .deleteTask id, _, s => ((s.tasks.find? id).isSome,
      { tasks := s.tasks.delete id, grants := s.grants.delete id })
  | .getPreauth id, _, s => (s.grants.find? id, s)
  | .putPreauth grant _, _, s =>
    if (s.tasks.find? grant.automationId).isSome then
      (true, { s with grants := s.grants.put grant })
    else (false, s)
  | .revokePreauth id reason, o, s =>
    ((s.grants.find? id).any (fun g => g.revokedAt.isNone),
      { s with grants := revoked s.grants id reason o.now })
  | .classify spec arguments, o, s => (measure H spec arguments o.boundary o.broken, s)
  | .context, o, s => (o.context, s)
  | .approve _, o, s => (o.approved, s)
  | .run call _, o, s => (handled H call o, s)

abbrev world : Shared Desk where
  Op := Op
  Input := Outside
  Reply := Reply
  step := step H
  init := {}

abbrev Proc (α : Type) : Type := Prog Op Reply α

def ask (op : Op) : Proc (Reply op) := Prog.request op

/-! ### A call -/

/-- `_verify_preauth`, of which the empty text is that there is none. -/
def verifyPreauth (call : Call) (cl : Classification) : Proc String := do
  match ← ask (.getTask call.automationId) with
  | none => return ""
  | some task =>
    if task.running then
      let stored ← ask (.getPreauth call.automationId)
      match verify stored {
        automationId := call.automationId
        capability := call.name
        actionClass := cl.actionClass
        targets := cl.targets
        arguments := call.arguments
        schedule := scheduleBinding task.schedule } with
      | .error _ => return ""
      | .ok id => return id
    else return ""

/-- Whether a pre-authorisation is looked for. -/
def looksFor (call : Call) (cl : Classification) : Bool :=
  call.automationId ≠ "" && call.origin = .backgroundAutomation && cl.actionClass = eligibleClass

def preauthOf (call : Call) (cl : Classification) : Proc String :=
  if looksFor call cl then verifyPreauth call cl else return ""

/-- Whether somebody is asked. What is not enforced goes by the risk. -/
def needsApproval (call : Call) (d : Decision) : Bool :=
  if H.enforced then d = .requireFaceId else 2 ≤ H.effectiveRisk call

/-- What follows from the decision. -/
def proceed (call : Call) (cl : Classification) (preauth : String) : Proc Unit := do
  let decision := (policyDecide call.origin cl.actionClass call.name call.untrusted
    call.commanded preauth).decision
  if decision = .deny then return ()
  else if needsApproval H call decision then
    if ← ask (.approve call) then
      let _ ← ask (.run call true)
  else
    let _ ← ask (.run call false)

/-- `execute`. -/
def execute (call : Call) : Proc Unit :=
  match H.spec call.name with
  | none => return ()
  | some spec => do
    if H.admits call then
      match ← ask (.classify spec call.arguments) with
      | none => return ()
      | some cl =>
        let preauth ← preauthOf call cl
        proceed H call cl preauth

/-! ### The commands about automations -/

/-- A call of `background_create`: what it was called with, by whom, from where and
with which words, and what the clock shows at the times it is read. -/
structure Creation where
  arguments : Background.Arguments
  origin : OriginClass
  owner : String
  spoken : String
  asked : Rat
  stored : Rat
  minted : Rat

def preauthorizable : List String := ["ha_turn_on", "ha_turn_off", "ha_set_brightness"]

/-- `MAY_GRANT_PREAUTH`. -/
def mayGrant : List String := ["trusted_interactive_app", "room_voice", "local_owner"]

/-- `RECURRING_KINDS`. -/
def recurring (s : Schedule) : Bool := s.kind ≠ .oneShot

/-- `mint_for_task`. -/
def mintForTask (c : Creation) (task : TaskRow) (name : String) (arguments : Data)
    (cl : Classification) (origin : OriginClass) (principal : String) : Proc Unit := do
  let previous ← ask (.getPreauth task.taskId)
  match mint {
      automationId := task.taskId
      capability := name
      actionClass := cl.actionClass
      targets := cl.targets
      arguments := arguments
      schedule := scheduleBinding task.schedule } {
      origin := origin.value
      principal := principal
      revision := match previous with
        | none => 1
        | some g => g.revision + 1
      now := c.minted } with
  | .error _ => return ()
  | .ok grant =>
    if ← ask (.putPreauth grant c.origin) then return () else Prog.fail

/-- `_grant_preauth`. The slot of the gate is read after the device has been looked up. -/
def grantPreauth (c : Creation) (task : TaskRow) : Proc Unit :=
  match task.action.deed with
  | .research _ => return ()
  | .capability name arguments =>
    if name ∈ preauthorizable ∧ recurring task.schedule then
      match H.spec name with
      | none => return ()
      | some spec => do
        match ← ask (.classify spec arguments) with
        | none => return ()
        | some cl =>
          if cl.actionClass = eligibleClass then
            match ← ask .context with
            | none => return ()
            | some (origin, principal) =>
              if origin.value ∈ mayGrant then mintForTask c task name arguments cl origin principal
              else return ()
          else return ()
    else return ()

@[irreducible] def create (c : Creation) : Proc Unit :=
  match prepare H.background c.arguments c.asked with
  | .error _ => return ()
  | .ok p => do
    let existing ← ask (.countTasks c.owner)
    if maxTasks ≤ existing then return ()
    else match newTask H.background p c.owner c.spoken c.stored with
      | .error _ => Prog.fail
      | .ok task =>
        if refuses H.background task then Prog.fail
        else
          ask (.putTask task)
          grantPreauth H c task

/-- Whoever has read a task and writes it again, once or several times: pausing,
resuming, running now, the scheduler and its repairs. -/
def edit (id : String) (changes : List (TaskRow → TaskRow)) : Proc Unit := do
  match ← ask (.getTask id) with
  | none => return ()
  | some task =>
    let _ ← changes.foldlM (fun task change => do
      ask (.putTask (change task))
      return change task) task
    return ()

/-- `require_approval`. -/
def requireApproval (id : String) : Proc Unit := do
  match ← ask (.getTask id) with
  | none => return ()
  | some task =>
    let _ ← ask (.revokePreauth task.taskId "user_request")
    return ()

/-- `delete`, of the capability and of the control center, which does not revoke. -/
def delete (id : String) (revokes : Bool) : Proc Unit := do
  match ← ask (.getTask id) with
  | none => return ()
  | some task =>
    if revokes then
      let _ ← ask (.revokePreauth task.taskId "automation_deleted")
    let _ ← ask (.deleteTask task.taskId)
    return ()

/-- What is launched: calls, and the commands about automations. -/
inductive Launch : Proc Unit → Prop
  | call (c : Call) : Launch (execute H c)
  | create (c : Creation) : Launch (create H c)
  | edit (id : String) (changes : List (TaskRow → TaskRow))
    (h : ∀ f ∈ changes, ∀ t, (f t).taskId = t.taskId) : Launch (edit id changes)
  | requireApproval (id : String) : Launch (requireApproval id)
  | delete (id : String) (revokes : Bool) : Launch (delete id revokes)

end Solvio.Capabilities.Grants
