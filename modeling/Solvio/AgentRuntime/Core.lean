import Mathlib.Data.List.Sort
import Solvio.AgentRuntime.Plan
import Solvio.AgentRuntime.Transitions
import Solvio.Lib.Coroutines

namespace Solvio.AgentRuntime
open Solvio.Lib

/-! ### The ledger's other statements -/

/-- A text for the ledger: a sentence of the source, which the credential
filter passes, or words that came from outside. -/
inductive Words where
  | own (s : String)
  | foreign (s : String)

def Words.text : Words → String
  | own s | foreign s => s

def Firewall.passes (F : Firewall) : Words → Bool
  | .own _ => true
  | .foreign s => s = "" || !F.isCredential s

/-- `_safe_text`, of which `none` is the refusal. -/
def Firewall.safe (F : Firewall) (w : Words) (limit : Nat) : Option String :=
  if F.passes w then some (cap (F.redact w.text) limit) else none

/-- What `set_run_fields` is called with. -/
structure RunChange where
  planRevision : Option Nat := none
  workspacePath : Option String := none
  branchRef : Option String := none
  tokensPlanner : Option Nat := none
  specialistSeconds : Option Time := none
  specialistCount : Option Nat := none
  boundary : Option String := none

def RunChange.set (c : RunChange) (now : Time) (r : Run) : Run :=
  { r with
    planRevision := c.planRevision.getD r.planRevision
    workspacePath := c.workspacePath.getD r.workspacePath
    branchRef := c.branchRef.getD r.branchRef
    tokensPlanner := c.tokensPlanner.getD r.tokensPlanner
    specialistSeconds := c.specialistSeconds.getD r.specialistSeconds
    specialistCount := c.specialistCount.getD r.specialistCount
    boundary := c.boundary.getD r.boundary
    updatedAt := now }

theorem RunChange.set_key (c : RunChange) (now : Time) (r : Run) :
    Keyed.key (c.set now r) = Keyed.key r := rfl

/-- What `update_step` is called with. -/
structure StepChange where
  state : Option StepState := none
  summary : Words := .own ""
  callId : String := ""
  approvalId : String := ""
  outcomeReason : String := ""
  child : Option (Nat × Time × String) := none
  started : Bool := false
  finished : Bool := false

def orOld (new old : String) : String := if new = "" then old else cap new maxRef

def StepChange.set (c : StepChange) (summary : String) (now : Time) (s : Step) : Step :=
  { s with
    state := c.state.getD s.state
    summary := if c.summary.text = "" then s.summary else summary
    callId := orOld c.callId s.callId
    approvalId := orOld c.approvalId s.approvalId
    outcomeReason := orOld c.outcomeReason s.outcomeReason
    childPgid := (c.child.map (fun d => d.1)).getD s.childPgid
    childStartedAt := (c.child.map (fun d => d.2.1)).getD s.childStartedAt
    childExecutable := (c.child.map (fun d => d.2.2)).getD s.childExecutable
    startedAt := if c.started then some now else s.startedAt
    finishedAt := if c.finished then some now else s.finishedAt }

theorem StepChange.set_key (c : StepChange) (summary : String) (now : Time) (s : Step) :
    Keyed.key (c.set summary now s) = Keyed.key s := rfl

namespace Ledger

def task (L : Ledger) (id : String) : Option Task := L.tasks.find? id

def step (L : Ledger) (key : StepKey) : Option Step := L.steps.find? key

/-- `steps_for_run`, by number and attempt. -/
def stepsFor (L : Ledger) (id : String) : List Step :=
  (L.steps.rows.filter (fun s => s.key.runId = id)).insertionSort
    (fun a b => a.key.seq < b.key.seq ∨ a.key.seq = b.key.seq ∧ a.key.attempt ≤ b.key.attempt)

/-- `open_runs`, oldest first. -/
def openRuns (L : Ledger) : List Run :=
  (L.runs.rows.filter (fun r => !r.state.terminal)).insertionSort
    (fun a b => a.createdAt ≤ b.createdAt)

/-- `active_runs`: open and not parked. -/
def activeRuns (L : Ledger) : List Run := L.openRuns.filter (fun r => !r.state.parked)

/-- `runs_for_task`, oldest first. -/
def runsFor (L : Ledger) (taskId : String) : List Run :=
  (L.runs.rows.filter (fun r => r.taskId = taskId)).insertionSort
    (fun a b => a.createdAt ≤ b.createdAt)

def setRunFields (L : Ledger) (id : String) (c : RunChange) (now : Time) : Ledger :=
  { L with runs := L.runs.modify id (c.set now) (c.set_key now) }

/-- The row of a new step, if its key is free. -/
def addStep (L : Ledger) (row : Step) : Ledger :=
  { L with steps := (L.steps.insert? row).getD L.steps }

def updateStep (L : Ledger) (key : StepKey) (c : StepChange) (summary : String) (now : Time) :
    Ledger :=
  { L with steps := L.steps.modify key (c.set summary now) (c.set_key summary now) }

def setTaskState (L : Ledger) (id : String) (state : TaskState) : Ledger :=
  { L with tasks := L.tasks.modify id (fun t => { t with state }) (fun _ => rfl) }

def cappedEvents (id : String) (es : List Event) : List Event :=
  dropOldest id ((es.filter (fun e => e.runId = id)).length - maxEventsPerRun) es

/-- An event, and the cap on the events of its run. -/
def record (L : Ledger) (e : Event) : Ledger :=
  { L with events := cappedEvents e.runId (L.events ++ [e]) }

end Ledger

/-! ### The orchestrator's memory -/

/-- `RunContext`. The context of a run is a cell under the run's name; it is
`registered` while `_contexts` holds it. -/
structure Context where
  registered : Bool := false
  taskId : String := ""
  scope : Scope := .research
  ledger : BudgetLedger := { budget := Budget.default .research, startedAt := 0 }
  plan : Option Plan := none
  cursor : Nat := 0
  approvalAttempts : Nat := 0
  pendingStep : Option StepKey := none
  contextNotes : List String := []
  workspace : Option String := none
  cancel : Bool := false
  invalidSignatures : List (String × String) := []
  goalMet : String := ""

/-- What the outside has ready for a stretch of code: the clock, fresh names,
and the answers of the file system. -/
structure Outside where
  now : Time := 0
  newTaskId : String := ""
  newRunId : String := ""
  clone : String → String → Except String String := fun _ _ => .error "WorkspaceError"
  harvest : String → Except String String := fun _ => .error "no_change"
  storesFile : String → Bool := fun _ => true
  groupMatches : Step → Bool := fun _ => false

/-- What has happened to a run. The marks are no data of the program; nothing
in it reads them. -/
inductive Mark where
  | planned (plan : Plan)
  | shortened (n : Nat)
  | collided (seq attempt : Nat)
  | slotTaken
  | lapsed
  | resumed
  | starts (state : Option RunState)
  | executes (seq attempt : Nat) (state : Option RunState)
  | returned (seq attempt : Nat) (outcome : OutcomeState)
  | unbooked
  | meets (runs : List Run)

/-- The ledger, and what lives in the process beside it. -/
structure Core where
  ledger : Ledger
  contexts : String → Context
  /-- the run that holds the slot for approvals -/
  holder : String
  unfinishable : List String
  outside : Outside
  trail : List (String × Mark)

/-! ### What the orchestrator runs with -/

structure Deployment where
  firewall : Firewall
  redactOutput : String → String
  maxConcurrent : Nat
  hasRouter : Bool := true
  hasPlanner : Bool := true
  hasControlPlane : Bool := true
  hasResearcher : Bool := true
  hasWorkspaces : Bool := true
  buildAvailable : Bool := true
  /-- the router's catalogue, and the arguments that a contract requires -/
  names : List String
  required : String → List String
  isBlocked : String → String
  /-- `validate` on the planner's text -/
  readPlan : String → Scope → List String → List String → String → Except String Plan
  requirements : String → Requirements
  digest : String → String → List String → String

inductive Exn where
  | budgetExhausted (category : String)
  | planInvalid (reason : String)
  | transition (current wanted : RunState)
  | unknownRun
  | integrity
  | credential
  | creationRefused (reason : String)
  | foreign (kind : String)

/-- The name of an exception's type. -/
def Exn.kind : Exn → String
  | budgetExhausted _ => "BudgetExhausted"
  | planInvalid _ => "PlanInvalid"
  | transition _ _ => "LedgerTransitionError"
  | unknownRun => "LedgerError"
  | integrity => "IntegrityError"
  | credential => "CredentialRefused"
  | creationRefused _ => "CreationRefused"
  | foreign kind => kind

/-- What the planner's broker has answered. -/
structure PlannerCall where
  ok : Bool
  reason : String := ""
  tokens : Nat := 0
  text : String := ""

inductive Query where
  | pendingStarts
  | planner (runId goal : String) (context : List String) (ordinal attempt : Nat)
  | specialist (runId profile objective workdir : String) (context : List String)
  | execute (key : StepKey) (capability : String) (arguments : List (String × Json))
      (untrusted : Bool) (approval : Option String)
  | readApproval (key : StepKey) (approvalId : String)
  | notice (runId kind summary : String)

/-- What comes back from an await: its value, or the type of an exception. -/
abbrev Query.Answer : Query → Type
  | pendingStarts | notice _ _ _ => Unit
  | planner _ _ _ _ _ => Except String PlannerCall
  | specialist _ _ _ _ _ => Except String SpecialistRun
  | execute _ _ _ _ _ => Except String CapabilityResult
  | readApproval _ _ => Except String (Option ApprovalRow)

abbrev effects : Async Core where
  Query := Query
  Answer := Query.Answer
  Exn := Exn
  Input := Outside
  enter outside s := { s with outside }

abbrev Code (α : Type) : Type := Coro effects α

def Core.empty : Core :=
  { ledger := Ledger.empty, contexts := fun _ => {}, holder := "", unfinishable := [],
    outside := {}, trail := [] }

def Core.withLedger (s : Core) (L : Ledger) : Core := { s with ledger := L }

def Core.setContext (s : Core) (id : String) (f : Context → Context) : Core :=
  { s with contexts := Function.update s.contexts id (f (s.contexts id)) }

def Core.mark (s : Core) (id : String) (m : Mark) : Core := { s with trail := (id, m) :: s.trail }

/-- Everything of the process but its ledger is gone. -/
def Core.newProcess (s : Core) : Core :=
  { s with contexts := fun _ => {}, holder := "", unfinishable := [] }

namespace Orchestrator

/-! ### Statements -/

def raise {α : Type} (e : Exn) : Code α := Coro.raise e

def ask (q : Query) : Code q.Answer := Coro.query (ℓ := effects) q

def mark (id : String) (m : Mark) : Code Unit := Coro.modify (·.mark id m)

def now : Code Time := do return (← Coro.state).outside.now

def context (id : String) : Code Context := do return (← Coro.state).contexts id

def setContext (id : String) (f : Context → Context) : Code Unit := Coro.modify (·.setContext id f)

def getRun (id : String) : Code (Option Run) := do return (← Coro.state).ledger.run id

def getTask (id : String) : Code (Option Task) := do return (← Coro.state).ledger.task id

def getStep (key : StepKey) : Code (Option Step) := do return (← Coro.state).ledger.step key

def stepsFor (id : String) : Code (List Step) := do return (← Coro.state).ledger.stepsFor id

section ledger
variable (D : Deployment)

/-- `record_event`. Its texts are the source's own. -/
def recordEvent (id kind summary ref : String) : Code Unit := do
  let s ← Coro.state
  if (s.ledger.run id).isSome then
    Coro.modify (fun s => s.withLedger (s.ledger.record
      { at_ := s.outside.now, runId := id, kind,
        summary := cap (D.firewall.redact summary) maxEventSummary, ref := cap ref maxRef }))
  else raise .integrity

/-- The text of a run's result, which is refused before anything is written. -/
def resultText (row : Run) (result : Words) : Option String :=
  if result.text = "" then some row.resultSummary else D.firewall.safe result maxResultSummary

/-- `transition`, as the orchestrator calls it. -/
def transition (id : String) (wanted : RunState) (category : String) (result : Words)
    (summary : String) : Code Unit := do
  let row? ← getRun id
  match row? with
  | none => raise .unknownRun
  | some row =>
    if wanted ∉ row.state.transitions then raise (.transition row.state wanted)
    else match resultText D row result with
      | none => raise .credential
      | some text => do
        let call : Call := { runId := id, wanted := wanted.name, summary,
                             failureCategory := category, resultSummary := result.text }
        Coro.modify (fun s => s.withLedger (s.ledger.updateRun
          ({ call with now := s.outside.now }.update row wanted text)))
        recordEvent D id "state_changed" (call.note row.state wanted) ""

/-- A transition without further words. -/
def moveTo (id : String) (wanted : RunState) : Code Unit := transition D id wanted "" (.own "") ""

def setRunFields (id : String) (c : RunChange) : Code Unit :=
  Coro.modify (fun s => s.withLedger (s.ledger.setRunFields id c s.outside.now))

/-- `create_step`: the row has to have a run and a key of its own. -/
def createStep (row : Step) : Code Unit := do
  let s ← Coro.state
  if (s.ledger.run row.key.runId).isNone then raise .integrity
  else match s.ledger.steps.insert? row with
    | none => do
      mark row.key.runId (.collided row.key.seq row.key.attempt)
      raise .integrity
    | some _ => Coro.modify (fun s => s.withLedger (s.ledger.addStep row))

def updateStep (key : StepKey) (c : StepChange) : Code Unit :=
  match D.firewall.safe c.summary maxStepSummary with
  | none => raise .credential
  | some text =>
    Coro.modify (fun s => s.withLedger (s.ledger.updateStep key c text s.outside.now))

def setTaskState (id : String) (state : TaskState) : Code Unit :=
  Coro.modify (fun s => s.withLedger (s.ledger.setTaskState id state))

end ledger

/-- `ApprovalQueue.acquire`. -/
def acquire (id : String) : Code Bool := do
  let s ← Coro.state
  if s.holder ≠ "" ∧ s.holder ≠ id then return false
  Coro.modify (fun s => { s with holder := id })
  return true

/-- `ApprovalQueue.release`. -/
def release (id : String) : Code Unit :=
  Coro.modify (fun s => if s.holder = id then { s with holder := "" } else s)

/-- A check of the budget: it raises the category it finds exhausted. -/
def checkBudget (id : String) (check : BudgetLedger → Option String) : Code Unit := do
  let c ← context id
  match check c.ledger with
  | none => pure ()
  | some category => raise (.budgetExhausted category)

def setBudget (id : String) (f : BudgetLedger → BudgetLedger) : Code Unit :=
  setContext id (fun c => { c with ledger := f c.ledger })

def noteContext (id note : String) : Code Unit :=
  setContext id (fun c => { c with contextNotes := c.contextNotes ++ [note] })

end Orchestrator

end Solvio.AgentRuntime
