import Mathlib.Logic.Function.Basic
import Solvio.AgentRuntime.Ledger
import Solvio.Lib.Json

namespace Solvio.AgentRuntime
open Solvio.Lib

/-! ### Plans -/

/-- A validated step. -/
structure PlannedStep where
  kind : StepKind
  profile : String := ""
  capability : String := ""
  instruction : String := ""
  arguments : List (String × Json) := []
  optional : Bool := false

structure Plan where
  goal : String
  steps : List PlannedStep
  note : String := ""

/-- The plan that ends with its `n`-th step. -/
def Plan.upTo (p : Plan) (n : Nat) : Plan := { p with steps := p.steps.take n }

/-! ### Specialists -/

inductive Provider where
  | claude
  | codex
  | hermes
deriving DecidableEq

inductive Mode where
  | advisor
  | investigator
  | builder
deriving DecidableEq

structure Profile where
  key : String
  provider : Provider
  mode : Mode
  role : String
  needsWorkspace : Bool := true

/-- `PROFILES`. -/
def profiles : List Profile :=
  [{ key := "researcher/hermes", provider := .hermes, mode := .advisor, role := "scout",
     needsWorkspace := false },
   { key := "investigator/claude", provider := .claude, mode := .investigator, role := "scout" },
   { key := "investigator/codex", provider := .codex, mode := .investigator,
     role := "challenger" },
   { key := "builder/codex", provider := .codex, mode := .builder, role := "builder" },
   { key := "builder/claude", provider := .claude, mode := .builder, role := "builder" }]

/-- `BLOCKED_PROFILES`. -/
def blockedProfiles : List String := ["builder/claude"]

def usableProfiles : List Profile := profiles.filter (fun p => p.key ∉ blockedProfiles)

def profile? (key : String) : Option Profile := profiles.find? (fun p => p.key = key)

/-- What a specialist reports. -/
structure SpecialistResult where
  ok : Bool
  reason : String := ""
  findings : List String := []
  evidence : List String := []
  recommendedPath : String := ""
  elapsed : Time := 0

def SpecialistResult.usable (r : SpecialistResult) : Bool :=
  r.ok && (!r.findings.isEmpty || r.recommendedPath ≠ "")

structure SpecialistRun where
  result : SpecialistResult
  pgid : Nat := 0
  startedAt : Time := 0
  executable : String := ""
  quota : Bool := false
  stderrNote : String := ""

/-- What the ledger is to say about a specialist's step. -/
def SpecialistRun.note (o : SpecialistRun) : String :=
  if o.result.ok = false ∧ o.stderrNote ≠ "" then o.result.reason ++ ": " ++ o.stderrNote
  else if o.result.recommendedPath ≠ "" then o.result.recommendedPath
  else o.result.findings.headD o.result.reason

/-! ### The completion of a goal -/

structure Requirements where
  minSources : Nat := 0
  sideEffect : String := ""

structure Verdict where
  satisfied : Bool
  reason : String

def minAnswer : Nat := 40

def answerOf (r : SpecialistResult) : String :=
  let path := stripped r.recommendedPath
  if path ≠ "" then path else stripped (r.findings.headD "")

/-- `completion.evaluate`, with what the goal demands. -/
def evaluate (need : Requirements) (r : SpecialistResult) (scope : Scope) : Verdict :=
  if scope ≠ .research then ⟨false, "scope_not_research"⟩
  else if r.ok = false then ⟨false, "step_not_ok"⟩
  else if r.usable = false then ⟨false, "result_not_usable"⟩
  else if need.sideEffect ≠ "" then ⟨false, "goal_demands_action"⟩
  else if (answerOf r).length < minAnswer then ⟨false, "answer_too_thin"⟩
  else if (r.evidence.filter (fun s => stripped s ≠ "")).length < need.minSources then
    ⟨false, "not_enough_sources"⟩
  else ⟨true, "goal_met"⟩

/-! ### The budget of a run -/

/-- `LOOP_THRESHOLD`. -/
def loopThreshold : Nat := 3

/-- `MAX_PLANNER_CALLS_PER_RUN`. -/
def maxPlannerCallsPerRun : Nat := (1 + 2) * 2

/-- The running account of one run, in memory. -/
structure BudgetLedger where
  budget : Budget
  startedAt : Time
  steps : Nat := 0
  specialistInvocations : Nat := 0
  plannerCalls : Nat := 0
  planRevisions : Nat := 0
  attempts : String → Nat := fun _ => 0
  lowValue : String → Nat := fun _ => 0

namespace BudgetLedger

/-! A check is `none`, or the category of what is exhausted. -/

def checkStep (b : BudgetLedger) (now : Time) : Option String :=
  if b.steps ≥ b.budget.maxSteps then some "budget_exhausted"
  else if now - b.startedAt > b.budget.seconds then some "timeout"
  else none

def checkSpecialist (b : BudgetLedger) : Option String :=
  if b.specialistInvocations ≥ b.budget.maxSpecialistInvocations then some "budget_exhausted"
  else none

def checkPlanner (b : BudgetLedger) : Option String :=
  if b.plannerCalls ≥ maxPlannerCallsPerRun then some "budget_exhausted" else none

def checkRevision (b : BudgetLedger) : Option String :=
  if b.planRevisions ≥ b.budget.maxPlanRevisions then some "budget_exhausted" else none

/-- The brake on loops, for the digest of an attempt. -/
def guardAttempt (b : BudgetLedger) (digest : String) : Option String :=
  if b.attempts digest + b.lowValue digest ≥ loopThreshold - 1 then some "loop_detected"
  else if b.attempts digest ≥ b.budget.maxAttemptsPerStep then some "budget_exhausted"
  else none

def noteStep (b : BudgetLedger) : BudgetLedger := { b with steps := b.steps + 1 }

def noteSpecialist (b : BudgetLedger) : BudgetLedger :=
  { b with specialistInvocations := b.specialistInvocations + 1 }

def notePlannerCall (b : BudgetLedger) : BudgetLedger :=
  { b with plannerCalls := b.plannerCalls + 1 }

def noteRevision (b : BudgetLedger) : BudgetLedger :=
  { b with planRevisions := b.planRevisions + 1 }

def noteAttempt (b : BudgetLedger) (digest : String) : BudgetLedger :=
  { b with attempts := Function.update b.attempts digest (b.attempts digest + 1) }

def noteLowValue (b : BudgetLedger) (digest : String) : BudgetLedger :=
  { b with lowValue := Function.update b.lowValue digest (b.lowValue digest + 1) }

end BudgetLedger

/-! ### Capabilities and approvals -/

/-- The outcomes of the router's envelope. -/
inductive CapabilityOutcome where
  | success
  | invalidInput
  | rejectedByPolicy
  | approvalRequired
  | cancelled
  | timeout
  | capabilityFailed
  | executorUnavailable
  | recoveryRequired
deriving DecidableEq

def CapabilityOutcome.value : CapabilityOutcome → String
  | success => "success"
  | invalidInput => "invalid_input"
  | rejectedByPolicy => "rejected_by_policy"
  | approvalRequired => "approval_required"
  | cancelled => "cancelled"
  | timeout => "timeout"
  | capabilityFailed => "capability_failed"
  | executorUnavailable => "executor_unavailable"
  | recoveryRequired => "recovery_required"

structure CapabilityResult where
  outcome : CapabilityOutcome
  reason : String := ""
  callId : String := ""
  requestId : String := ""
  humanMessage : String := ""

inductive OutcomeState where
  | succeeded
  | failed
  | denied
  | waiting
  | unknown
deriving DecidableEq

/-- What a step has come to. -/
structure StepOutcome where
  state : OutcomeState
  callId : String := ""
  approvalId : String := ""
  outcomeReason : String := ""
  failureCategory : String := ""
  humanMessage : String := ""

/-- What `execute_capability` makes of the router's answer. -/
def CapabilityResult.stepOutcome (r : CapabilityResult) : StepOutcome :=
  let envelope := if r.reason = "" then r.outcome.value else r.outcome.value ++ ":" ++ r.reason
  let base (state : OutcomeState) (category : String) : StepOutcome :=
    { state, callId := r.callId, outcomeReason := envelope, failureCategory := category,
      humanMessage := r.humanMessage }
  match r.outcome with
  | .success => base .succeeded ""
  | .approvalRequired => { base .waiting "" with approvalId := r.requestId }
  | .recoveryRequired => base .unknown "recovery_required"
  | .rejectedByPolicy => base .failed "policy_denied"
  | .timeout => base .failed "timeout"
  | .cancelled => base .failed "cancelled_by_user"
  | .invalidInput | .executorUnavailable | .capabilityFailed => base .failed "capability_failed"

/-- The answer to a name on the block list, which does not reach the router. -/
def StepOutcome.blocked (reason : String) : StepOutcome :=
  { state := .denied, failureCategory := "policy_denied", outcomeReason := "blocked:" ++ reason,
    humanMessage := "Das darf ein Lauf nicht." }

/-- The state in which the step of an outcome is to end. A question that is
still open is no outcome. -/
def OutcomeState.booked : OutcomeState → Option StepState
  | succeeded => some .succeeded
  | failed => some .failed
  | denied => some .denied
  | unknown => some .unknown
  | waiting => none

/-- The row of an approval, as far as it is read. -/
structure ApprovalRow where
  state : String
  expiresAt : Option Time

/-- `MAX_APPROVAL_REQUESTS`. -/
def maxApprovalRequests : Nat := 3

/-- `classify_approval`: a pending row that is overdue has expired. -/
def classifyApproval (row : Option ApprovalRow) (now : Time) : String :=
  match row with
  | none => "EXPIRED"
  | some r =>
    if r.state = "PENDING" ∧ r.expiresAt.any (fun t => decide (t ≤ now)) = true then "EXPIRED"
    else if r.state = "" then "EXPIRED"
    else r.state

/-! ### User boundaries -/

structure UserBoundary where
  kind : String
  action : String
  reason : String
  resumeHint : String := ""
  stepKey : StepKey

namespace UserBoundary

def message (b : UserBoundary) : String :=
  b.action ++ " — " ++ b.reason ++ "." ++
    if b.resumeHint = "" then "" else " Danach: " ++ b.resumeHint

def policyRefusal (capability : String) (key : StepKey) : UserBoundary :=
  { kind := "policy_refusal"
    action := "Loese „" ++ capability ++ "“ bitte selbst vom iPhone aus"
    reason := "das ist aus einem Hintergrundlauf nicht erlaubt — dafuer musst du selbst " ++
      "dabei sein"
    resumeHint := "danach nehme ich den Lauf wieder auf"
    stepKey := key }

def unseenApproval (capability : String) (key : StepKey) : UserBoundary :=
  { kind := "product_decision"
    action := "Gib „" ++ capability ++ "“ frei, wenn du das naechste Mal hinsiehst"
    reason := "die Freigabefrage ist mehrfach verfallen, bevor du sie gesehen hast"
    resumeHint := "danach nehme ich den Lauf wieder auf"
    stepKey := key }

end UserBoundary

end Solvio.AgentRuntime
