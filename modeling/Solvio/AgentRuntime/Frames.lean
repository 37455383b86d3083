import Solvio.AgentRuntime.Rules

namespace Solvio.AgentRuntime
open Solvio.Lib

/-- A mark that says nothing of a call, and nothing of a key that is taken. -/
def Mark.harmless : Mark → Prop
  | .collided _ _ | .starts _ | .executes _ _ _ | .returned _ _ _ => False
  | _ => True

namespace Orchestrator

/-! ### What the code of a run leaves as it is -/

/-- The code of the run keeps `J`, whether it ends or raises. -/
def Keeps {α : Type} (P : Duties effects String View) (I : String → View → Prop) (id : String)
    (J : View → Prop) (p : Code α) : Prop :=
  ∀ v, J v → Does P I id p v (fun _ => J) (fun _ => J)

namespace Keeps

variable {P : Duties effects String View} {I : String → View → Prop} {id : String}
  {J : View → Prop} {α β : Type}

theorem pure {a : α} : Keeps P I id J (Pure.pure a) := fun _ hv => Local.pure hv

theorem raise {e : Exn} : Keeps P I id J (Orchestrator.raise e : Code α) :=
  fun _ hv => does_raise hv

theorem bind {p : Code β} {f : β → Code α} (hp : Keeps P I id J p)
    (hf : ∀ a, Keeps P I id J (f a)) : Keeps P I id J (p >>= f) :=
  fun v hv => Local.bind ((hp v hv).mono (fun a w hw => hf a w hw) (fun _ _ hw => hw))

theorem handle {p : Code α} {h : Exn → Code α} (hp : Keeps P I id J p)
    (hh : ∀ e, Keeps P I id J (h e)) : Keeps P I id J (p.handle h) :=
  fun v hv => Local.handle ((hp v hv).mono (fun _ _ hw => hw) (fun e w hw => hh e w hw))

theorem ite {c : Prop} [Decidable c] {p q : Code α} (hp : Keeps P I id J p)
    (hq : Keeps P I id J q) : Keeps P I id J (if c then p else q) := by
  split
  · exact hp
  · exact hq

theorem read {f : Core → α} : Keeps P I id J (do return f (← Coro.state)) :=
  fun _ hv => does_read (fun _ _ => hv)

theorem state {f : Core → Code α} (hf : ∀ s, Keeps P I id J (f s)) :
    Keeps P I id J (Coro.state >>= f) :=
  fun v hv => Local.state (fun s _ => hf s v hv)

end Keeps

/-- A claim about a run that its bookkeeping and the others leave alone. -/
structure Frame (P : Duties effects String View) (I : String → View → Prop)
    (J : View → Prop) : Prop where
  lasting : P.Lasting I
  row : ∀ {v}, J v → v.state.isSome
  sound : ∀ {v}, J v → P.sound v
  beside : ∀ {v w}, J v → P.beside v w → P.sound w → J w
  moved : ∀ {v st wanted}, J v → v.state = some st → wanted ∈ st.transitions →
    P.step v (v.moved wanted) ∧ J (v.moved wanted)
  revised : ∀ {v} n, J v → P.step v (v.revised n) ∧ J (v.revised n)
  withCell : ∀ {v} c, J v → P.step v (v.withCell c) ∧ J (v.withCell c)
  marked : ∀ {v m}, J v → m.harmless → P.step v (v.marked m) ∧ J (v.marked m)

namespace Frame

variable {D : Deployment} {P : Duties effects String View} {I : String → View → Prop}
  {id : String} {J : View → Prop}

/-! Statements -/

section statements
variable (hF : Frame P I J)
include hF

theorem transition (wanted : RunState) (category : String) (result : Words) (summary : String) :
    Keeps P I id J (transition D id wanted category result summary) := by
  intro v hv
  obtain ⟨st, hst⟩ := Option.isSome_iff_exists.mp (hF.row hv)
  exact does_transition hst (fun _ => hv) (fun _ => hv) (fun h => (hF.moved hv hst h).1)
    (fun h => (hF.moved hv hst h).2)

theorem moveTo (wanted : RunState) : Keeps P I id J (moveTo D id wanted) :=
  hF.transition wanted "" (.own "") ""

theorem recordEvent (kind summary ref : String) :
    Keeps P I id J (recordEvent D id kind summary ref) :=
  fun _ hv => does_recordEvent (hF.row hv) hv

theorem setRunFields (c : RunChange) : Keeps P I id J (setRunFields id c) := by
  intro v hv
  obtain ⟨hstep, h⟩ := hF.revised (c.planRevision.getD v.revision) hv
  exact does_setRunFields (hF.row hv) hstep h

theorem setContext (f : Context → Context) : Keeps P I id J (setContext id f) := by
  intro v hv
  obtain ⟨hstep, h⟩ := hF.withCell (f v.cell) hv
  exact does_setContext hstep h

theorem setBudget (f : BudgetLedger → BudgetLedger) : Keeps P I id J (setBudget id f) :=
  hF.setContext _

theorem noteContext (note : String) : Keeps P I id J (noteContext id note) := hF.setContext _

theorem mark {m : Mark} (hm : m.harmless) : Keeps P I id J (mark id m) := by
  intro v hv
  obtain ⟨hstep, h⟩ := hF.marked hv hm
  exact does_mark hstep h

theorem ask (q : Query) : Keeps P I id J (ask q) :=
  fun _ hv => does_ask hF.lasting (hF.sound hv) (fun _ hb hs _ _ _ _ => hF.beside hv hb hs)

omit hF in
theorem getRun : Keeps P I id J (getRun id) := Keeps.read

omit hF in
theorem getTask (taskId : String) : Keeps P I id J (getTask taskId) := Keeps.read

omit hF in
theorem stepsFor : Keeps P I id J (stepsFor id) := Keeps.read

omit hF in
theorem context : Keeps P I id J (context id) := Keeps.read

omit hF in
theorem now : Keeps P I id J now := Keeps.read

omit hF in
theorem release : Keeps P I id J (release id) := fun _ hv => does_release hv

omit hF in
theorem acquire : Keeps P I id J (acquire id) := fun _ hv => does_acquire (fun _ => hv)

omit hF in
theorem setTaskState (t : String) (st : TaskState) : Keeps P I id J (setTaskState t st) :=
  fun _ hv => does_setTaskState hv

omit hF in
theorem checkBudget (check : BudgetLedger → Option String) :
    Keeps P I id J (checkBudget id check) :=
  fun _ hv => does_checkBudget (fun _ => hv) hv

omit hF in
theorem noteStep {key : StepKey} {c : StepChange} (hc : c.state = none) :
    Keeps P I id J (updateStep D key c) :=
  fun _ hv => does_noteStep hc (fun _ => hv) hv

end statements

/-! The end of a run, and its boundaries -/

section ends
variable (hF : Frame P I J)
include hF

theorem keepOpen : Keeps P I id J (keepOpen D id) := by
  apply Keeps.bind
  · exact fun _ hv => Local.unseen (fun s => view_unfinishable s _) hv
  · intro _
    exact Keeps.handle (hF.recordEvent _ _ _) (fun _ => Keeps.pure)

theorem endWith (state : RunState) (category : String) (message : Words) :
    Keeps P I id J (endWith D id state category message) := by
  apply Keeps.handle
  · exact Keeps.bind (hF.transition _ _ _ _) (fun _ => Keeps.pure)
  · intro e
    cases e with
    | transition _ _ => exact Keeps.bind hF.keepOpen (fun _ => Keeps.pure)
    | _ => exact Keeps.raise

theorem popContext : Keeps P I id J (popContext id) := hF.setContext _

theorem finish (state : RunState) (category : String) (message : Words) :
    Keeps P I id J (finish D id state category message) := by
  apply Keeps.bind getRun
  intro run?
  cases run? with
  | none => exact Keeps.pure
  | some run =>
    apply Keeps.ite Keeps.pure
    apply Keeps.bind release
    intro _
    apply Keeps.bind (hF.endWith _ _ _)
    intro ended
    apply Keeps.ite
    · apply Keeps.bind (setTaskState _ _)
      intro _
      apply Keeps.bind (hF.ask _)
      intro _
      exact Keeps.bind (hF.recordEvent _ _ _) (fun _ => hF.popContext)
    · exact Keeps.pure

theorem openBoundary (b : UserBoundary) : Keeps P I id J (openBoundary D id b) := by
  apply Keeps.bind (hF.setRunFields _)
  intro _
  apply Keeps.bind (hF.moveTo _)
  intro _
  exact Keeps.bind (hF.recordEvent _ _ _) (fun _ => hF.ask _)

end ends

/-! Contexts and plans -/

section plans
variable (hF : Frame P I J)
include hF

theorem rebuildContext {run : Run} (hid : run.runId = id) :
    Keeps P I id J (rebuildContext run) := by
  subst hid
  apply Keeps.bind (getTask _)
  intro _
  apply Keeps.bind stepsFor
  intro _
  exact Keeps.bind now (fun _ => hF.setContext _)

theorem ensureContext {run : Run} (hid : run.runId = id) :
    Keeps P I id J (ensureContext run) := by
  subst hid
  apply Keeps.bind context
  intro _
  exact Keeps.ite Keeps.pure (hF.rebuildContext rfl)

theorem prepareWorkspace {run : Run} (hid : run.runId = id) :
    Keeps P I id J (prepareWorkspace D run) := by
  subst hid
  apply Keeps.bind context
  intro _
  apply Keeps.ite Keeps.pure
  apply Keeps.ite Keeps.pure
  apply Keeps.bind (getTask _)
  intro task?
  apply Keeps.state
  intro s
  cases s.outside.clone run.runId ((task?.map Task.targetRepo).getD "") with
  | error _ => exact Keeps.raise
  | ok path =>
    apply Keeps.bind (hF.setRunFields _)
    intro _
    exact Keeps.bind (hF.setContext _) (fun _ => hF.recordEvent _ _ _)

theorem notePredecessor (task : Task) : Keeps P I id J (notePredecessor id task) :=
  Keeps.state (fun _ => hF.setContext _)

theorem planEvent {run : Run} (hid : run.runId = id) (task : Task) (text : List String)
    (left : Nat) (reason : String) : Keeps P I id J (planEvent D run task text left reason) := by
  subst hid
  induction left generalizing reason with
  | zero => exact Keeps.raise
  | succ left ih =>
    apply Keeps.bind (checkBudget _)
    intro _
    apply Keeps.bind (hF.ask _)
    intro answer
    cases answer with
    | error kind => exact Keeps.raise
    | ok call =>
      apply Keeps.bind (hF.setBudget _)
      intro _
      apply Keeps.ite Keeps.raise
      dsimp only
      split
      · exact Keeps.pure
      · exact ih _

theorem doPlan {run : Run} (hid : run.runId = id) : Keeps P I id J (doPlan D run) := by
  have hplan := fun task text => hF.planEvent (D := D) hid task text 2 ""
  subst hid
  apply Keeps.bind (getTask _)
  intro task?
  cases task? with
  | none => exact hF.finish _ _ _
  | some task =>
    apply Keeps.ite (hF.finish _ _ _)
    apply Keeps.bind (hF.notePredecessor _)
    intro _
    apply Keeps.bind context
    intro c
    apply Keeps.bind (hplan _ _)
    intro answer
    apply Keeps.bind (hF.mark (by trivial))
    intro _
    apply Keeps.bind (hF.setContext _)
    intro _
    apply Keeps.bind (hF.setRunFields _)
    intro _
    apply Keeps.bind (hF.recordEvent _ _ _)
    intro _
    apply Keeps.bind getRun
    intro row?
    cases row? with
    | none => exact Keeps.raise
    | some row => exact Keeps.ite (hF.moveTo _) Keeps.pure

theorem replan {run : Run} (hid : run.runId = id) (why : String) :
    Keeps P I id J (replan D run why) := by
  have hplan := fun row : Run => fun h : row.runId = id => hF.doPlan (D := D) h
  subst hid
  apply Keeps.bind context
  intro c
  apply Keeps.ite (hF.finish _ _ _)
  apply Keeps.bind (hF.setBudget _)
  intro _
  apply Keeps.bind (hF.noteContext _)
  intro _
  apply Keeps.bind (hF.setRunFields _)
  intro _
  apply Keeps.bind (hF.recordEvent _ _ _)
  intro _ v hv
  apply Local.bind
  apply does_getRun
  · intro _
    exact does_raise hv
  · intro row _ hrow
    exact hplan row hrow v hv

theorem nextStep : Keeps P I id J (nextStep id) := hF.setContext _

theorem guardAttempt (digest : String) : Keeps P I id J (guardAttempt id digest) :=
  Keeps.bind (checkBudget _) (fun _ => hF.setBudget _)

theorem maybeComplete {run : Run} (hid : run.runId = id) (result : SpecialistResult) (seq : Nat) :
    Keeps P I id J (maybeComplete D run result seq) := by
  subst hid
  apply Keeps.bind context
  intro c
  cases c.plan with
  | none => exact Keeps.pure
  | some plan =>
    apply Keeps.ite Keeps.pure
    apply Keeps.bind (getTask _)
    intro _
    apply Keeps.ite
    · apply Keeps.bind (hF.mark (by trivial))
      intro _
      exact Keeps.bind (hF.setContext _) (fun _ => hF.recordEvent _ _ _)
    · exact Keeps.pure

end plans

end Frame

end Orchestrator

end Solvio.AgentRuntime
