import Solvio.Lib.PyString
import Solvio.Lib.Table

namespace Solvio.AgentRuntime
open Solvio.Lib

abbrev Time : Type := Int

inductive RunState where
  | created
  | planning
  | running
  | waitingSpecialist
  | waitingCapability
  | waitingApproval
  | waitingUser
  | verifying
  | succeeded
  | failed
  | cancelled
  | interrupted
deriving DecidableEq

namespace RunState

def all : List RunState :=
  [created, planning, running, waitingSpecialist, waitingCapability, waitingApproval, waitingUser,
    verifying, succeeded, failed, cancelled, interrupted]

def name : RunState → String
  | created => "CREATED"
  | planning => "PLANNING"
  | running => "RUNNING"
  | waitingSpecialist => "WAITING_SPECIALIST"
  | waitingCapability => "WAITING_CAPABILITY"
  | waitingApproval => "WAITING_APPROVAL"
  | waitingUser => "WAITING_USER"
  | verifying => "VERIFYING"
  | succeeded => "SUCCEEDED"
  | failed => "FAILED"
  | cancelled => "CANCELLED"
  | interrupted => "INTERRUPTED"

/-- A word that is one of `ALL_STATES`. -/
def ofName? (s : String) : Option RunState := all.find? (fun t => t.name = s)

/-- `TERMINAL_STATES`. -/
def terminal : RunState → Bool
  | succeeded | failed | cancelled => true
  | _ => false

/-- `PARKED_STATES`. -/
def parked : RunState → Bool
  | waitingApproval | waitingUser => true
  | _ => false

/-- `_EDGES`. -/
def edges : RunState → List RunState
  | created => [planning]
  | planning => [running, failed, cancelled, interrupted]
  | running => [waitingSpecialist, waitingCapability, waitingApproval, waitingUser, verifying,
      succeeded, failed, cancelled, interrupted]
  | waitingSpecialist | waitingCapability | waitingApproval | waitingUser =>
    [running, failed, cancelled, interrupted]
  | verifying => [running, succeeded, failed, cancelled, interrupted]
  | interrupted => [running, failed, cancelled]
  | succeeded | failed | cancelled => []

/-- `_EXITS`. -/
def exits : List RunState := [failed, cancelled, interrupted]

/-- `TRANSITIONS`: the edges, and for every state that is not final the ways out. -/
def transitions (s : RunState) : List RunState :=
  if s.terminal then s.edges else (s.edges ++ exits).filter (· ≠ s)

theorem ofName_name (s : RunState) : ofName? s.name = some s := by cases s <;> decide

theorem name_of_ofName {w : String} {s : RunState} (h : ofName? w = some s) : s.name = w := by
  simpa using List.find?_some h

/-- Nothing leads out of a final state, and nothing stays where it is. -/
theorem transitions_final {s : RunState} (h : s.terminal = true) : s.transitions = [] := by
  cases s <;> first | rfl | cases h

theorem transitions_moves {s t : RunState} (h : t ∈ s.transitions) : t ≠ s := by
  rintro rfl
  cases t <;> simp [transitions, edges, exits, terminal] at h

/-- Every state that is not final can end. -/
theorem transitions_exit {s t : RunState} (hs : s.terminal = false) (ht : t ∈ exits) (hne : t ≠ s) :
    t ∈ s.transitions := by
  unfold transitions
  rw [if_neg (by simp [hs])]
  exact List.mem_filter.mpr ⟨List.mem_append_right _ ht, by simpa using hne⟩

end RunState

/-- `FAILURE_CATEGORIES`. -/
def failureCategories : List String :=
  ["plan_invalid", "specialist_unavailable", "specialist_failed", "quota", "capability_failed",
    "approval_denied", "approval_expired", "policy_denied", "recovery_required",
    "budget_exhausted", "loop_detected", "timeout", "interrupted", "workspace_conflict",
    "cancelled_by_user", "no_result", "planner_invalid_step"]

def maxResultSummary : Nat := 4000
def maxStepSummary : Nat := 600
def maxEventSummary : Nat := 300
def maxBoundaryJson : Nat := 4000
def maxRef : Nat := 200
def maxEventsPerRun : Nat := 2000

/-- A row of `agent_runs`. -/
structure Run where
  runId : String
  taskId : String
  state : RunState := .created
  planRevision : Nat := 0
  createdAt : Time
  startedAt : Option Time := none
  finishedAt : Option Time := none
  outcome : String := ""
  failureCategory : String := ""
  resultSummary : String := ""
  boundary : String := ""
  workspacePath : String := ""
  branchRef : String := ""
  tokensPlanner : Nat := 0
  specialistSeconds : Time := 0
  specialistCount : Nat := 0
  updatedAt : Time
deriving DecidableEq

instance : Keyed Run String := ⟨Run.runId⟩

/-- A row of `agent_events`, without its number: the list of the ledger is in
the order of the numbers, oldest first. -/
structure Event where
  at_ : Time
  runId : String
  stepId : String := ""
  kind : String
  summary : String
  ref : String := ""
deriving DecidableEq

/-- The credential filter and the redaction of the launcher. The names of the
states are nothing that it takes for a credential. -/
structure Firewall where
  isCredential : String → Bool
  redact : String → String
  edge_passes : ∀ s t : RunState, isCredential (s.name ++ " → " ++ t.name) = false

def cap (s : String) (limit : Nat) : String := String.ofList (s.toList.take limit)

/-- `_safe_text`: refuse first, then redact, then cut; `none` is the refusal. -/
def Firewall.safeText (F : Firewall) (text : String) (limit : Nat) : Option String :=
  if text ≠ "" ∧ F.isCredential text = true then none else some (cap (F.redact text) limit)

/-! ### The other tables -/

inductive Scope where
  | research
  | build
deriving DecidableEq

/-- The limits of a run. -/
structure Budget where
  maxSteps : Nat
  maxSpecialistInvocations : Nat
  seconds : Time
  maxAttemptsPerStep : Nat := 2
  maxPlanRevisions : Nat := 2
deriving DecidableEq

/-- `DEFAULTS`. -/
def Budget.default : Scope → Budget
  | .research => { maxSteps := 12, maxSpecialistInvocations := 6, seconds := 2700 }
  | .build => { maxSteps := 24, maxSpecialistInvocations := 10, seconds := 14400 }

inductive TaskState where
  | active
  | completed
  | failed
  | cancelled
deriving DecidableEq

/-- A row of `agent_tasks`. -/
structure Task where
  taskId : String
  objective : String
  scope : Scope
  targetRepo : String := ""
  conversationRef : String := ""
  predecessorRef : String := ""
  state : TaskState := .active
  budget : Budget
deriving DecidableEq

instance : Keyed Task String := ⟨Task.taskId⟩

inductive StepKind where
  | specialist
  | capability
  | verify
  | knowledgeProposal
  | harvest
deriving DecidableEq

inductive StepState where
  | pending
  | running
  | waiting
  | succeeded
  | failed
  | denied
  | skipped
  | unknown
deriving DecidableEq

/-- What names a step: `UNIQUE(run_id, seq, attempt)`. The random identifier of
the row stands for nothing else. -/
structure StepKey where
  runId : String
  seq : Nat
  attempt : Nat
deriving DecidableEq

/-- A row of `agent_steps`. -/
structure Step where
  key : StepKey
  kind : StepKind
  state : StepState := .pending
  specialistProfile : String := ""
  specialistRole : String := ""
  capability : String := ""
  callId : String := ""
  approvalId : String := ""
  outcomeReason : String := ""
  childPgid : Nat := 0
  childStartedAt : Time := 0
  childExecutable : String := ""
  summary : String := ""
  startedAt : Option Time := none
  finishedAt : Option Time := none
deriving DecidableEq

instance : Keyed Step StepKey := ⟨Step.key⟩

/-- `AgentRunLedger`. -/
structure Ledger where
  tasks : Table Task
  runs : Table Run
  steps : Table Step
  events : List Event

namespace Ledger

def empty : Ledger := ⟨.empty, .empty, .empty, []⟩

/-- `get_run`. -/
def run (L : Ledger) (id : String) : Option Run := L.runs.find? id

def state (L : Ledger) (id : String) : Option RunState := (L.run id).map Run.state

def eventsOf (L : Ledger) (id : String) : List Event := L.events.filter (fun e => e.runId = id)

end Ledger

end Solvio.AgentRuntime
