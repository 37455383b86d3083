import Solvio.Lib.Runs
import Solvio.Proactive.Runner

namespace Solvio.Proactive
open Solvio.Lib

variable (E : Deployment)

/-! ### What a run leaves in the row of its task -/

/-- `_advance`, before the row is written. -/
def advance (occurrence now : Rat) (task : TaskRow) : TaskRow :=
  match task.schedule.nextAfter E.zone (max occurrence now) with
  | none =>
    { task with
      state := if task.schedule.kind = .oneShot then .completed else .expired
      nextRunAt := none }
  | some following => { task with nextRunAt := some following }

/-- `_after_failure`, before the row is written. -/
def afterFailure (now : Rat) (outcome detail : String) (task : TaskRow) : TaskRow :=
  let failures := task.consecutiveFailures + 1
  let failed := { task with
    consecutiveFailures := failures
    lastError := prefixOf (outcome ++ ": " ++ detail) 300
    retryAfter := some (now + backoffAfter failures) }
  if maxFailures ≤ failures then { failed with enabled := false, state := .paused } else failed

/-- The row behind a run that has not failed. -/
def settled (outcome : RunOutcome) (task : TaskRow) : TaskRow :=
  { task with
    consecutiveFailures := 0
    retryAfter := none
    lastError := if outcome.state = .approvalPending then "wartet auf Freigabe" else ""
    lastResult := some ⟨outcome.fingerprint, outcome.state⟩ }

@[simp] theorem advance_id (occurrence now : Rat) (task : TaskRow) :
    (advance E occurrence now task).taskId = task.taskId := by
  unfold advance
  split <;> rfl

@[simp] theorem advance_action (occurrence now : Rat) (task : TaskRow) :
    (advance E occurrence now task).action = task.action := by
  unfold advance
  split <;> rfl

@[simp] theorem advance_result (occurrence now : Rat) (task : TaskRow) :
    (advance E occurrence now task).lastResult = task.lastResult := by
  unfold advance
  split <;> rfl

@[simp] theorem failure_id (now : Rat) (outcome detail : String) (task : TaskRow) :
    (afterFailure now outcome detail task).taskId = task.taskId := by
  unfold afterFailure
  dsimp only
  split <;> rfl

@[simp] theorem failure_action (now : Rat) (outcome detail : String) (task : TaskRow) :
    (afterFailure now outcome detail task).action = task.action := by
  unfold afterFailure
  dsimp only
  split <;> rfl

@[simp] theorem failure_result (now : Rat) (outcome detail : String) (task : TaskRow) :
    (afterFailure now outcome detail task).lastResult = task.lastResult := by
  unfold afterFailure
  dsimp only
  split <;> rfl

@[simp] theorem settled_result (outcome : RunOutcome) (task : TaskRow) :
    (settled outcome task).lastResult = some ⟨outcome.fingerprint, outcome.state⟩ := rfl

/-- What the capability or the research of a run comes to. -/
inductive Answer where
  | data (data : Data) (source trustTag : String)
  | failed (outcome detail : String)
  | approval (request : String)
  | raised

/-- `execute`, of which `none` is that it raises. -/
def execute (task : TaskRow) (runId : String) (now : Rat) : Answer → Option RunOutcome
  | .data data source trustTag => judge E task data ⟨runId, source, trustTag, now⟩
  | .failed outcome detail => some { state := .failed, outcome := outcome, detail := detail }
  | .approval request => some {
      state := .approvalPending
      outcome := "approval_required"
      detail := "Freigabe angefordert"
      approvalRequest := request }
  | .raised => none

/-- A claimed occasion: what it comes to, and what an exception is called. -/
structure Ran where
  occurrence : Rat
  answer : Answer
  now : Rat
  kind : String := "Exception"

/-- The row of a task, and the inbox. -/
structure Watch where
  task : TaskRow
  items : List Item

/-- The part of `run_once` behind a claim, with `_guarded` around it. -/
def runOnce (c : Ran) (w : Watch) : Watch :=
  match execute E w.task (runIdFor w.task.taskId c.occurrence) c.now c.answer with
  | none => { w with task := afterFailure c.now "error" c.kind w.task }
  | some outcome =>
    match outcome.item.elim (some (false, w.items)) (addItem E.credential w.items) with
    | none => { w with task := afterFailure c.now "error" c.kind w.task }
    | some (_, items) =>
      let task := { w.task with lastRunAt := some c.now }
      if outcome.state = .failed then
        ⟨afterFailure c.now outcome.outcome outcome.detail task, items⟩
      else ⟨advance E c.occurrence c.now (settled outcome task), items⟩

/-- One task, of which one run follows the other. -/
def watching (init : Watch) : Machine Watch where
  Call := Ran
  Reply _ := Unit
  step c w := ((), runOnce E c w)
  init := init

end Solvio.Proactive
