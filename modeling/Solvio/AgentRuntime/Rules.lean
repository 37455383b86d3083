import Solvio.AgentRuntime.Views

namespace Solvio.AgentRuntime.Orchestrator
open Solvio.Lib

/-! ### What the statements do to the view of a run -/

/-- The code works on the run `id`, from its view `v` on. -/
abbrev Does {α : Type} (P : Duties effects String View) (I : String → View → Prop) (id : String)
    (p : Code α) (v : View) (Q : α → View → Prop) (X : Exn → View → Prop) : Prop :=
  Local P Core.view I id p v Q X

section rules
variable {D : Deployment} {P : Duties effects String View} {I : String → View → Prop}
  {id : String} {v : View} {α : Type} {X : Exn → View → Prop}

theorem does_raise {e : Exn} {Q : α → View → Prop} (h : X e v) : Does P I id (raise e) v Q X :=
  Local.raise h

/-- A reading of the state. -/
theorem does_read {f : Core → α} {Q : α → View → Prop} (h : ∀ s : Core, s.view id = v → Q (f s) v) :
    Does P I id (do return f (← Coro.state)) v Q X :=
  Local.state (fun s hs => Local.pure (h s hs))

theorem does_now {Q : Time → View → Prop} (h : ∀ t, Q t v) : Does P I id now v Q X :=
  does_read (fun _ _ => h _)

theorem does_context {Q : Context → View → Prop} (h : Q v.cell v) :
    Does P I id (context id) v Q X := by
  apply does_read
  rintro s rfl
  exact h

/-- What the view of a run says about its row. -/
structure RowOf (v : View) (row : Run) : Prop where
  state : v.state = some row.state
  revision : v.revision = row.planRevision
  taskId : v.taskId = some row.taskId

theorem rowOf_view {s : Core} {row : Run} (h : s.ledger.run id = some row) :
    RowOf (s.view id) row := by
  constructor <;> simp [Core.view, Ledger.state, h]

/-- A run that has a state has a row. -/
theorem run_of_state {s : Core} (h : (s.view id).state.isSome) : ∃ row, s.ledger.run id = some row := by
  simpa [Core.view, Ledger.state, Option.isSome_iff_exists] using h

theorem does_getRun {Q : Option Run → View → Prop} (hnone : v.state = none → Q none v)
    (hsome : ∀ row, RowOf v row → row.runId = id → Q (some row) v) :
    Does P I id (getRun id) v Q X := by
  apply does_read
  rintro s rfl
  cases hr : s.ledger.run id with
  | none => exact hnone (by simp [Core.view, Ledger.state, hr])
  | some row => exact hsome row (rowOf_view hr) (Table.key_of_find hr)

theorem does_getTask {taskId : String} {Q : Option Task → View → Prop}
    (h : ∀ t? : Option Task, (v.taskId = some taskId → t?.map Task.scope = v.scope) → Q t? v) :
    Does P I id (getTask taskId) v Q X := by
  apply does_read
  rintro s rfl
  apply h
  intro ht
  simp only [Core.view] at ht ⊢
  cases hr : s.ledger.run id with
  | none => simp [hr] at ht
  | some row =>
    simp only [hr, Option.map_some, Option.some.injEq] at ht
    rw [← ht]
    rfl

theorem does_stepsFor {Q : List Step → View → Prop}
    (h : ∀ steps : List Step, steps.length = v.count →
      (∀ x ∈ steps, x.key.runId = id ∧ v.row x.key.seq x.key.attempt = some x.state) →
      (∀ n a st, v.row n a = some st → ∃ x ∈ steps, x.state = st) → Q steps v) :
    Does P I id (stepsFor id) v Q X := by
  apply does_read
  rintro s rfl
  apply h _ stepsFor_length
  · intro x hx
    obtain ⟨hstep, rfl⟩ := mem_stepsFor.mp hx
    exact ⟨rfl, row_of_step hstep⟩
  · intro n a st hrow
    simp only [Core.view] at hrow
    obtain ⟨x, hx, rfl⟩ := Option.map_eq_some_iff.mp hrow
    have hkey : x.key = ⟨id, n, a⟩ := Table.key_of_find hx
    exact ⟨x, mem_stepsFor.mpr ⟨by rw [hkey]; exact hx, by rw [hkey]⟩, rfl⟩

theorem does_mark {m : Mark} {Q : Unit → View → Prop} (hstep : P.step v (v.marked m))
    (h : Q () (v.marked m)) : Does P I id (mark id m) v Q X :=
  Local.modify (fun s hs i => by rw [view_mark, hs]) (Or.inr hstep) h

theorem does_setContext {f : Context → Context} {Q : Unit → View → Prop}
    (hstep : P.step v (v.withCell (f v.cell))) (h : Q () (v.withCell (f v.cell))) :
    Does P I id (setContext id f) v Q X :=
  Local.modify (fun s hs i => by rw [view_setContext, hs]) (Or.inr hstep) h

theorem does_recordEvent {kind summary ref : String} {Q : Unit → View → Prop}
    (hs : v.state.isSome) (h : Q () v) :
    Does P I id (recordEvent D id kind summary ref) v Q X := by
  apply Local.state
  rintro s rfl
  have hrun : (s.ledger.run id).isSome := by
    simpa [Core.view, Ledger.state] using hs
  rw [if_pos hrun]
  exact Local.unseen (fun s => view_record s _) h

theorem does_transition {wanted st : RunState} {category summary : String} {result : Words}
    {Q : Unit → View → Prop} (hs : v.state = some st)
    (hnot : wanted ∉ st.transitions → X (.transition st wanted) v)
    (hrefused : D.firewall.passes result = false → X .credential v)
    (hstep : wanted ∈ st.transitions → P.step v (v.moved wanted))
    (h : wanted ∈ st.transitions → Q () (v.moved wanted)) :
    Does P I id (transition D id wanted category result summary) v Q X := by
  apply Local.state
  rintro s rfl
  cases hr : s.ledger.run id with
  | none => simp [Core.view, Ledger.state, hr] at hs
  | some row =>
    have hrow : row.state = st := by
      have := (rowOf_view hr).state.symm.trans hs
      exact Option.some.inj this
    subst hrow
    simp only
    split
    · rename_i hn
      exact does_raise (hnot hn)
    · rename_i hn
      have hedge := Decidable.not_not.mp hn
      split
      · rename_i htext
        apply does_raise
        apply hrefused
        unfold resultText Firewall.safe at htext
        split at htext
        · cases htext
        · split at htext
          · cases htext
          · rename_i hp
            simpa using hp
      · rename_i text htext
        apply Local.bind
        refine Local.modify (fun s' hs' i => ?_) (Or.inr (hstep hedge)) ?_
        · have hrow' : (s'.view id).state.isSome := by rw [hs', hs]; rfl
          obtain ⟨row', hr'⟩ := run_of_state hrow'
          rw [view_updateRun hr' rfl, hs']
          rfl
        · exact does_recordEvent rfl (h hedge)

theorem does_moveTo {wanted st : RunState} {Q : Unit → View → Prop} (hs : v.state = some st)
    (hnot : wanted ∉ st.transitions → X (.transition st wanted) v)
    (hstep : wanted ∈ st.transitions → P.step v (v.moved wanted))
    (h : wanted ∈ st.transitions → Q () (v.moved wanted)) :
    Does P I id (moveTo D id wanted) v Q X :=
  does_transition hs hnot (fun hf => (by cases hf)) hstep h

theorem does_setRunFields {c : RunChange} {Q : Unit → View → Prop} (hs : v.state.isSome)
    (hstep : P.step v (v.revised (c.planRevision.getD v.revision)))
    (h : Q () (v.revised (c.planRevision.getD v.revision))) :
    Does P I id (setRunFields id c) v Q X := by
  refine Local.modify (fun s hs' i => ?_) (Or.inr hstep) h
  have hrow : (s.view id).state.isSome := by rw [hs', hs]
  obtain ⟨row, hr⟩ := run_of_state hrow
  rw [view_setRunFields, hr, hs']
  simp

theorem does_createStep {row : Step} {Q : Unit → View → Prop} (hid : row.key.runId = id)
    (hs : v.state.isSome)
    (hfree : v.row row.key.seq row.key.attempt = none →
      P.step v (v.addRow row.key.seq row.key.attempt row.state) ∧
        Q () (v.addRow row.key.seq row.key.attempt row.state))
    (htaken : (v.row row.key.seq row.key.attempt).isSome →
      P.step v (v.marked (.collided row.key.seq row.key.attempt)) ∧
        X .integrity (v.marked (.collided row.key.seq row.key.attempt))) :
    Does P I id (createStep row) v Q X := by
  subst hid
  apply Local.state
  rintro s rfl
  obtain ⟨r, hr⟩ := run_of_state hs
  rw [if_neg (by simp [hr])]
  cases hi : s.ledger.steps.insert? row with
  | none =>
    have hrow : ((s.view row.key.runId).row row.key.seq row.key.attempt).isSome := by
      rw [Option.isSome_iff_ne_none, Ne, row_none, hi]
      simp
    obtain ⟨hstep, hX⟩ := htaken hrow
    apply Local.bind
    exact does_mark hstep (does_raise hX)
  | some steps =>
    have hrow := row_none.mpr ⟨steps, hi⟩
    obtain ⟨hstep, hQ⟩ := hfree hrow
    refine Local.modify (fun s' hs' i => ?_) (Or.inr hstep) hQ
    rw [view_addStep (by rw [hs', hrow])]
    by_cases h : i = row.key.runId
    · rw [if_pos h, if_pos h, h, hs']
    · rw [if_neg h, if_neg h]

/-- A change of a step that leaves its state alone. -/
theorem does_noteStep {key : StepKey} {c : StepChange} {Q : Unit → View → Prop}
    (hc : c.state = none) (hrefused : D.firewall.passes c.summary = false → X .credential v)
    (h : Q () v) : Does P I id (updateStep D key c) v Q X := by
  unfold updateStep Firewall.safe
  split
  · rename_i htext
    split at htext
    · cases htext
    · rename_i hp
      exact does_raise (hrefused (by simpa using hp))
  · apply Local.unseen (fun s => ?_) h
    funext i
    rw [view_updateStep, hc]
    split
    · simp
    · rfl

theorem does_updateStep {key : StepKey} {c : StepChange} {st : StepState} {Q : Unit → View → Prop}
    (hid : key.runId = id) (hc : c.state = some st) (hrow : (v.row key.seq key.attempt).isSome)
    (hrefused : D.firewall.passes c.summary = false → X .credential v)
    (hstep : P.step v (v.setRow key.seq key.attempt st))
    (h : Q () (v.setRow key.seq key.attempt st)) : Does P I id (updateStep D key c) v Q X := by
  subst hid
  unfold updateStep Firewall.safe
  split
  · rename_i htext
    split at htext
    · cases htext
    · rename_i hp
      exact does_raise (hrefused (by simpa using hp))
  · refine Local.modify (fun s hs i => ?_) (Or.inr hstep) h
    rw [view_updateStep, hc]
    by_cases hi : i = key.runId
    · rw [if_pos hi, if_pos hi, hi, hs]
      refine congrArg (fun f => View.mk _ _ _ _ f _ _ _) ?_
      funext n a
      by_cases hk : n = key.seq ∧ a = key.attempt
      · obtain ⟨old, hold⟩ := Option.isSome_iff_exists.mp hrow
        simp [hk, hold]
      · rw [if_neg hk, if_neg hk]
    · rw [if_neg hi, if_neg hi]

theorem does_setTaskState {t : String} {st : TaskState} {Q : Unit → View → Prop} (h : Q () v) :
    Does P I id (setTaskState t st) v Q X :=
  Local.unseen (fun _ => funext (fun _ => view_setTaskState t st)) h

theorem does_acquire {Q : Bool → View → Prop} (h : ∀ b, Q b v) :
    Does P I id (acquire id) v Q X := by
  apply Local.state
  intro s _
  split
  · exact Local.pure (h false)
  · apply Local.bind
    exact Local.unseen (fun s => view_holder s id) (Local.pure (h true))

theorem does_release {Q : Unit → View → Prop} (h : Q () v) : Does P I id (release id) v Q X := by
  apply Local.unseen (fun s => ?_) h
  split
  · exact view_holder s ""
  · rfl

theorem does_checkBudget {check : BudgetLedger → Option String} {Q : Unit → View → Prop}
    (hX : ∀ category, X (.budgetExhausted category) v) (h : Q () v) :
    Does P I id (checkBudget id check) v Q X := by
  apply Local.bind
  apply does_context
  split
  · exact Local.pure h
  · exact does_raise (hX _)

theorem does_setBudget {f : BudgetLedger → BudgetLedger} {Q : Unit → View → Prop}
    (hstep : P.step v (v.withCell { v.cell with ledger := f v.cell.ledger }))
    (h : Q () (v.withCell { v.cell with ledger := f v.cell.ledger })) :
    Does P I id (setBudget id f) v Q X :=
  does_setContext hstep h

theorem does_noteContext {note : String} {Q : Unit → View → Prop}
    (hstep : P.step v (v.withCell { v.cell with contextNotes := v.cell.contextNotes ++ [note] }))
    (h : Q () (v.withCell { v.cell with contextNotes := v.cell.contextNotes ++ [note] })) :
    Does P I id (noteContext id note) v Q X :=
  does_setContext hstep h

/-- An await: the claims about the other runs last, and this run may find its
own view changed. -/
theorem does_ask {q : Query} {Q : q.Answer → View → Prop} (hI : P.Lasting I) (hs : P.sound v)
    (h : ∀ v₁, P.beside v v₁ → P.sound v₁ → ∀ vs : String → View, vs id = v₁ → ∀ a, P.ok q a vs →
      Q a v₁) : Does P I id (ask q) v Q X :=
  Local.query (ℓ := effects) (fun o s => view_outside o s) hI hs h

end rules

end Solvio.AgentRuntime.Orchestrator
