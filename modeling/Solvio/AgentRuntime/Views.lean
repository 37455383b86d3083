import Mathlib.Tactic.Simps.Basic
import Solvio.AgentRuntime.Orchestrator
import Solvio.Lib.Locality

namespace Solvio.AgentRuntime
open Solvio.Lib

/-! ### One run at a time -/

/-- What the orchestrator knows of one run: its row and its steps in the
ledger, its context, and what has happened to it. -/
structure View where
  state : Option RunState
  revision : Nat
  taskId : Option String
  scope : Option Scope
  row : Nat → Nat → Option StepState
  count : Nat
  cell : Context
  marks : List Mark

def Core.view (s : Core) (id : String) : View where
  state := s.ledger.state id
  revision := ((s.ledger.run id).map Run.planRevision).getD 0
  taskId := (s.ledger.run id).map Run.taskId
  scope := (s.ledger.run id).bind (fun r => (s.ledger.task r.taskId).map Task.scope)
  row n a := (s.ledger.step ⟨id, n, a⟩).map Step.state
  count := s.ledger.steps.rows.countP (fun x => x.key.runId = id)
  cell := s.contexts id
  marks := (s.trail.filter (fun m => m.1 = id)).map Prod.snd

namespace View

@[simps] def moved (v : View) (st : RunState) : View := { v with state := some st }

@[simps] def revised (v : View) (n : Nat) : View := { v with revision := n }

@[simps] def withCell (v : View) (c : Context) : View := { v with cell := c }

@[simps] def marked (v : View) (m : Mark) : View := { v with marks := m :: v.marks }

@[simps] def setRow (v : View) (n a : Nat) (st : StepState) : View :=
  { v with row := fun n' a' => if n' = n ∧ a' = a then some st else v.row n' a' }

@[simps] def addRow (v : View) (n a : Nat) (st : StepState) : View :=
  { v with
    row := fun n' a' => if n' = n ∧ a' = a then some st else v.row n' a'
    count := v.count + 1 }

def terminal (v : View) : Prop := ∃ st, v.state = some st ∧ st.terminal = true

end View

/-! ### The views of a changed state -/

section views
variable {s : Core} {id i : String}

@[simp] theorem view_outside (o : Outside) (s : Core) :
    Core.view { s with outside := o } = Core.view s := rfl

theorem view_ledger {L : Ledger} (hruns : L.runs = s.ledger.runs) (hsteps : L.steps = s.ledger.steps)
    (htasks : L.tasks = s.ledger.tasks) : Core.view (s.withLedger L) = Core.view s := by
  funext i
  simp only [Core.view, Core.withLedger, Ledger.state, Ledger.run, Ledger.step, Ledger.task, hruns,
    hsteps, htasks]

@[simp] theorem view_record (s : Core) (e : Event) :
    Core.view (s.withLedger (s.ledger.record e)) = Core.view s := by
  apply view_ledger <;> rw [Ledger.record]

@[simp] theorem view_holder (s : Core) (h : String) :
    Core.view { s with holder := h } = Core.view s := rfl

@[simp] theorem view_unfinishable (s : Core) (ids : List String) :
    Core.view { s with unfinishable := ids } = Core.view s := rfl

theorem view_setContext (f : Context → Context) : (s.setContext id f).view i =
    if i = id then (s.view id).withCell (f (s.view id).cell) else s.view i := by
  by_cases h : i = id
  · subst h
    simp [Core.view, Core.setContext, View.withCell]
  · simp [Core.view, Core.setContext, h]

theorem view_mark (m : Mark) : (s.mark id m).view i =
    if i = id then (s.view id).marked m else s.view i := by
  by_cases h : i = id
  · subst h
    simp [Core.view, Core.mark, View.marked]
  · simp [Core.view, Core.mark, h, Ne.symm h]

theorem view_updateRun {u : Update} {r : Run} (hr : s.ledger.run id = some r) (hu : u.runId = id) :
    (s.withLedger (s.ledger.updateRun u)).view i =
      if i = id then (s.view id).moved u.state else s.view i := by
  subst hu
  have hrun := Ledger.run_updateRun s.ledger u i
  by_cases h : i = u.runId
  · subst h
    rw [if_pos rfl, hr] at hrun
    simp only [Core.view, Core.withLedger, Ledger.state, hrun, hr, View.moved, if_true]
    rfl
  · rw [if_neg h] at hrun
    simp only [Core.view, Core.withLedger, Ledger.state, hrun, if_neg h]
    rfl

theorem view_setRunFields (c : RunChange) (t : Time) :
    (s.withLedger (s.ledger.setRunFields id c t)).view i = if i = id ∧ (s.ledger.run id).isSome
      then (s.view id).revised (c.planRevision.getD (s.view id).revision) else s.view i := by
  have hrun : (s.ledger.setRunFields id c t).run i =
      if i = id then (s.ledger.run id).map (c.set t) else s.ledger.run i :=
    Table.find_modify s.ledger.runs id i (c.set t) (c.set_key t)
  by_cases h : i = id
  · subst h
    rw [if_pos rfl] at hrun
    cases hr : s.ledger.run i with
    | none =>
      rw [hr] at hrun
      simp only [Core.view, Core.withLedger, Ledger.state, hrun, hr]
      simp
      exact ⟨rfl, rfl⟩
    | some r =>
      rw [hr] at hrun
      simp only [Core.view, Core.withLedger, Ledger.state, hrun, hr, View.revised]
      simp
      exact ⟨rfl, rfl, rfl, rfl, rfl, rfl⟩
  · rw [if_neg h] at hrun
    simp only [Core.view, Core.withLedger, Ledger.state, hrun, h, false_and, if_false]
    rfl

theorem view_setTaskState (t : String) (st : TaskState) :
    (s.withLedger (s.ledger.setTaskState t st)).view i = s.view i := by
  have htask : ∀ k, ((s.ledger.setTaskState t st).task k).map Task.scope =
      (s.ledger.task k).map Task.scope := by
    intro k
    simp only [Ledger.setTaskState, Ledger.task, Table.find_modify]
    split
    · rename_i h
      subst h
      cases s.ledger.tasks.find? k <;> rfl
    · rfl
  simp only [Core.view, Core.withLedger, htask]
  rfl

theorem view_updateStep (key : StepKey) (c : StepChange) (text : String) (t : Time) :
    (s.withLedger (s.ledger.updateStep key c text t)).view i =
      if i = key.runId then { s.view i with
        row := fun n a => if n = key.seq ∧ a = key.attempt then
          ((s.view i).row n a).map (fun old => c.state.getD old) else (s.view i).row n a }
      else s.view i := by
  have hstep : ∀ k, (s.ledger.updateStep key c text t).step k =
      if k = key then (s.ledger.step key).map (c.set text t) else s.ledger.step k :=
    fun k => Table.find_modify s.ledger.steps key k (c.set text t) (c.set_key text t)
  have hcount : ((s.ledger.updateStep key c text t).steps.rows.countP (fun x => x.key.runId = i)) =
      s.ledger.steps.rows.countP (fun x => x.key.runId = i) := by
    simp only [Ledger.updateStep, Table.modify, Table.update, List.countP_map]
    apply List.countP_congr
    intro x _
    simp only [Function.comp_apply]
    split <;> rfl
  by_cases h : i = key.runId
  · subst h
    simp only [Core.view, Core.withLedger, hstep, hcount, if_true]
    refine congrArg (fun f => View.mk _ _ _ _ f _ _ _) ?_
    funext n a
    by_cases hk : n = key.seq ∧ a = key.attempt
    · obtain ⟨rfl, rfl⟩ := hk
      simp only [and_self, if_true]
      cases s.ledger.step key <;> rfl
    · have hne : (⟨key.runId, n, a⟩ : StepKey) ≠ key := by
        intro he
        exact hk ⟨congrArg StepKey.seq he, congrArg StepKey.attempt he⟩
      rw [if_neg hne, if_neg hk]
  · have hne : ∀ n a, (⟨i, n, a⟩ : StepKey) ≠ key := by
      intro n a he
      exact h (congrArg StepKey.runId he)
    simp only [Core.view, Core.withLedger, hstep, hcount, if_neg h, if_neg (hne _ _)]
    rfl

theorem row_none {row : Step} : (s.view row.key.runId).row row.key.seq row.key.attempt = none ↔
    ∃ steps, s.ledger.steps.insert? row = some steps := by
  simp only [Core.view, Ledger.step, Option.map_eq_none_iff]
  constructor
  · intro h
    cases hi : s.ledger.steps.insert? row with
    | some steps => exact ⟨steps, rfl⟩
    | none =>
      obtain ⟨x, hx⟩ := Table.insert_none.mp hi
      have hnone : s.ledger.steps.find? (Keyed.key row) = none := h
      rw [hnone] at hx
      cases hx
  · rintro ⟨steps, h⟩
    exact (Table.insert_some h).1

theorem view_addStep {row : Step}
    (hfree : (s.view row.key.runId).row row.key.seq row.key.attempt = none) :
    (s.withLedger (s.ledger.addStep row)).view i = if i = row.key.runId then
      (s.view i).addRow row.key.seq row.key.attempt row.state else s.view i := by
  obtain ⟨steps, h⟩ := Iff.mp row_none hfree
  have hadd : s.ledger.addStep row = { s.ledger with steps } := by
    rw [Ledger.addStep, h]
    rfl
  rw [hadd]
  have hfind : ∀ k, steps.find? k = if row.key = k then some row else s.ledger.step k :=
    Table.find_insert h
  have hrows : steps.rows = s.ledger.steps.rows ++ [row] := by
    simp only [Table.insert?] at h
    split at h
    · cases h
    · cases h
      rfl
  have hcount : steps.rows.countP (fun x => x.key.runId = i) =
      s.ledger.steps.rows.countP (fun x => x.key.runId = i) + if row.key.runId = i then 1 else 0 := by
    rw [hrows, List.countP_append, List.countP_singleton]
    simp
  by_cases hi : i = row.key.runId
  · subst hi
    simp only [Core.view, Core.withLedger, Ledger.step, hfind, hcount, if_true, View.addRow]
    refine congrArg (fun f => View.mk _ _ _ _ f _ _ _) ?_
    funext n a
    by_cases hk : n = row.key.seq ∧ a = row.key.attempt
    · obtain ⟨rfl, rfl⟩ := hk
      simp
    · have hne : row.key ≠ (⟨row.key.runId, n, a⟩ : StepKey) := by
        intro he
        exact hk ⟨congrArg StepKey.seq he.symm, congrArg StepKey.attempt he.symm⟩
      rw [if_neg hne, if_neg hk]
  · have hne : ∀ n a, row.key ≠ (⟨i, n, a⟩ : StepKey) := by
      intro n a he
      exact hi (congrArg StepKey.runId he.symm)
    simp only [Core.view, Core.withLedger, Ledger.step, hfind, hcount, if_neg (Ne.symm hi),
      if_neg hi, if_neg (hne _ _), Nat.add_zero]
    rfl

/-- The steps of a run, as its view knows them. -/
theorem mem_stepsFor {x : Step} : x ∈ s.ledger.stepsFor id ↔
    s.ledger.step x.key = some x ∧ x.key.runId = id := by
  simp only [Ledger.stepsFor, List.mem_insertionSort, List.mem_filter, decide_eq_true_eq]
  exact and_congr_left (fun _ => ⟨fun h => Table.find_of_mem h, fun h => Table.mem_of_find h⟩)

theorem stepsFor_length : (s.ledger.stepsFor id).length = (s.view id).count := by
  rw [Ledger.stepsFor, List.length_insertionSort, ← List.countP_eq_length_filter]
  rfl

theorem row_of_step {key : StepKey} {x : Step} (h : s.ledger.step key = some x) :
    (s.view key.runId).row key.seq key.attempt = some x.state := by
  simp only [Core.view, h, Option.map_some]

end views

end Solvio.AgentRuntime
