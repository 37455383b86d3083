import Solvio.Lib.PyData
import Solvio.Lib.Table
import Solvio.Proactive.Schedule

namespace Solvio.Proactive
open Solvio.Lib

/-! ### Tasks -/

inductive Notify where
  | always | onChange | onCondition
deriving DecidableEq

/-- What the user has set as `condition`. -/
inductive Condition where
  | contains (needle : String)
  | nonEmpty (key : String)
  | atLeast (key : String) (count : Int)
  | other

/-- What a task does. -/
inductive Deed where
  | capability (name : String) (arguments : Data)
  | research (topic : String)

structure Action where
  deed : Deed
  condition : Option Condition := none
  notify : Notify := .onChange
  priority : String := "normal"
  expiresAt : Option Rat := none

inductive TaskState where
  | active | paused | expired | completed
deriving DecidableEq

inductive RunState where
  | claimed | done | failed | noChange | approvalPending
deriving DecidableEq

structure LastResult where
  fingerprint : String
  state : RunState
deriving DecidableEq

/-- A row of `tasks`. -/
structure TaskRow where
  taskId : String
  owner : String
  title : String
  createdAt : Rat
  createdFrom : String
  schedule : Schedule
  action : Action
  state : TaskState := .active
  enabled : Bool := true
  nextRunAt : Option Rat := none
  lastRunAt : Option Rat := none
  lastResult : Option LastResult := none
  lastError : String := ""
  consecutiveFailures : Nat := 0
  retryAfter : Option Rat := none

instance : Keyed TaskRow String := ⟨TaskRow.taskId⟩

/-- `running`. -/
def TaskRow.running (t : TaskRow) : Bool := t.enabled && t.state = .active

/-! ### The inbox -/

/-- A row of `proactive`. -/
structure Item where
  notificationId : String
  taskId : String
  runId : String
  createdAt : Rat
  priority : String
  summary : String
  findings : List String
  source : String
  contentTrust : String
  fingerprint : String
  expiresAt : Option Rat
deriving DecidableEq

/-- Neither the id nor what the task has seen is in the table already. -/
def Item.Fresh (item : Item) (items : List Item) : Prop :=
  ∀ x ∈ items, x.notificationId ≠ item.notificationId ∧
    ¬ (x.taskId = item.taskId ∧ x.fingerprint = item.fingerprint)

instance (item : Item) (items : List Item) : Decidable (item.Fresh items) :=
  inferInstanceAs (Decidable (∀ x ∈ items, _))

/-- `_add_item`. A credential in the text raises, and a violated key is no error. -/
def addItem (credential : String → Bool) (items : List Item) (item : Item) :
    Option (Bool × List Item) :=
  if (item.summary :: item.findings).any credential then none
  else if item.Fresh items then
    some (true, { item with summary := prefixOf item.summary 1200 } :: items)
  else some (false, items)

theorem add_item {credential : String → Bool} {items : List Item} {item : Item}
    (h : (item.summary :: item.findings).any credential = false) :
    addItem credential items item = some (if item.Fresh items then
      (true, { item with summary := prefixOf item.summary 1200 } :: items) else (false, items)) := by
  unfold addItem
  rw [h]
  simp only [Bool.false_eq_true, if_false]
  split <;> rfl

end Solvio.Proactive
