import Solvio.Lib.Runs
import Mathlib.Algebra.BigOperators.Group.List.Basic
import Mathlib.Tactic.Abel

namespace Solvio.Lib

/-- Code on a single-threaded event loop. It runs without interruption up to
its next await; `Frame` is what it keeps while it waits. -/
structure EventLoop (σ : Type) where
  Frame : Type
  Call : Type
  Answer : Type
  start : Call → Int → σ → Option Frame × σ
  resume : Frame → Answer → Int → σ → Option Frame × σ
  init : σ

namespace EventLoop

variable {σ : Type} {ℓ : EventLoop σ}

/-- What the loop runs next: a new task, or a waiting one with the answer of
its await. -/
inductive Turn (ℓ : EventLoop σ) where
  | start (c : ℓ.Call)
  | resume (i : Nat) (a : ℓ.Answer)

structure Step (ℓ : EventLoop σ) where
  now : Int
  turn : ℓ.Turn

structure World (ℓ : EventLoop σ) where
  shared : σ
  waiting : List ℓ.Frame

/-- The frame at a position gives way to the one it became, if any. -/
def replace {α : Type} (fs : List α) (i : Nat) (f : Option α) : List α :=
  fs.take i ++ f.toList ++ fs.drop (i + 1)

def run (s : ℓ.Step) (w : ℓ.World) : Option ℓ.Frame × ℓ.World :=
  match s.turn with
  | .start c =>
    let r := ℓ.start c s.now w.shared
    (r.1, ⟨r.2, w.waiting ++ r.1.toList⟩)
  | .resume i a =>
    match w.waiting[i]? with
    | none => (none, w)
    | some f =>
      let r := ℓ.resume f a s.now w.shared
      (r.1, ⟨r.2, replace w.waiting i r.1⟩)

abbrev machine (ℓ : EventLoop σ) : Machine ℓ.World where
  Call := ℓ.Step
  Reply _ := Option ℓ.Frame
  step := run
  init := ⟨ℓ.init, []⟩

/-- One turn of the loop: the world it met and what ran. -/
abbrev Event (ℓ : EventLoop σ) : Type := ℓ.machine.Entry

/-- The frame that a turn resumed. -/
def Event.resumed (e : ℓ.Event) : Option ℓ.Frame :=
  match e.call.turn with
  | .start _ => none
  | .resume i _ => e.pre.waiting[i]?

/-- The await that a turn ended in. -/
def Event.awaits (e : ℓ.Event) : Option ℓ.Frame := e.reply

theorem replace_eq {α : Type} {fs : List α} {i : Nat} {g : α} (h : fs[i]? = some g)
    (f : Option α) : ∃ before behind, fs = before ++ g :: behind ∧
      replace fs i f = before ++ f.toList ++ behind := by
  obtain ⟨hlt, rfl⟩ := List.getElem?_eq_some_iff.mp h
  refine ⟨fs.take i, fs.drop (i + 1), ?_, rfl⟩
  rw [← List.drop_eq_getElem_cons hlt, List.take_append_drop]

/-- What a turn can do. -/
theorem run_cases (s : ℓ.Step) (w : ℓ.World) :
    (∃ c, s.turn = .start c ∧ run s w = ((ℓ.start c s.now w.shared).1,
      ⟨(ℓ.start c s.now w.shared).2, w.waiting ++ (ℓ.start c s.now w.shared).1.toList⟩)) ∨
    (∃ i a f before behind, s.turn = .resume i a ∧ w.waiting[i]? = some f ∧
      w.waiting = before ++ f :: behind ∧ run s w = ((ℓ.resume f a s.now w.shared).1,
      ⟨(ℓ.resume f a s.now w.shared).2,
        before ++ (ℓ.resume f a s.now w.shared).1.toList ++ behind⟩)) ∨
    (∃ i a, s.turn = .resume i a ∧ w.waiting[i]? = none ∧ run s w = (none, w)) := by
  obtain ⟨now, turn⟩ := s
  cases turn with
  | start c => exact Or.inl ⟨c, rfl, rfl⟩
  | resume i a =>
    cases hf : w.waiting[i]? with
    | none => exact Or.inr (Or.inr ⟨i, a, rfl, hf, by simp only [run, hf]⟩)
    | some f =>
      obtain ⟨before, behind, hw, hr⟩ := replace_eq hf (ℓ.resume f a now w.shared).1
      exact Or.inr (Or.inl ⟨i, a, f, before, behind, rfl, hf, hw, by simp only [run, hf, hr]⟩)

/-- A waiting frame waited before, or the turn has just left it. -/
theorem mem_waiting {s : ℓ.Step} {w : ℓ.World} {g : ℓ.Frame} (h : g ∈ (run s w).2.waiting) :
    g ∈ w.waiting ∨ (run s w).1 = some g := by
  rcases run_cases s w with ⟨c, -, hr⟩ | ⟨i, a, f, before, behind, -, -, hw, hr⟩ | ⟨i, a, -, -, hr⟩
  · rw [hr] at h ⊢
    simpa [List.mem_append, Option.mem_toList, eq_comm] using h
  · rw [hr] at h ⊢
    rw [hw]
    simp only [List.mem_append, Option.mem_toList] at h
    rcases h with (h | h) | h
    · exact Or.inl (by simp [h])
    · exact Or.inr h
    · exact Or.inl (by simp [h])
  · rw [hr] at h
    exact Or.inl h

/-- A frame waits until its turn. -/
theorem waiting_stays {e : ℓ.Event} {f : ℓ.Frame} (h : f ∈ e.pre.waiting) :
    f ∈ e.post.waiting ∨ Event.resumed e = some f := by
  obtain ⟨w, s⟩ := e
  change f ∈ w.waiting at h
  change f ∈ (run s w).2.waiting ∨ _
  rcases run_cases s w with ⟨c, -, hr⟩ | ⟨i, a, g, before, behind, hs, hg, hw, hr⟩ | ⟨i, a, -, -, hr⟩
  · rw [hr]
    exact Or.inl (List.mem_append_left _ h)
  · rw [hr]
    rw [hw] at h
    rcases List.mem_append.mp h with h | h
    · exact Or.inl (List.mem_append_left _ (List.mem_append_left _ h))
    · rcases List.mem_cons.mp h with rfl | h
      · exact Or.inr (by simp only [Event.resumed, hs, hg])
      · exact Or.inl (List.mem_append_right _ h)
  · rw [hr]
    exact Or.inl h

/-- The frame that a turn leaves waits. -/
theorem awaits_waits {e : ℓ.Event} {f : ℓ.Frame} (h : Event.awaits e = some f) :
    f ∈ e.post.waiting := by
  obtain ⟨w, s⟩ := e
  change (run s w).1 = some f at h
  change f ∈ (run s w).2.waiting
  rcases run_cases s w with ⟨c, -, hr⟩ | ⟨i, a, g, before, behind, -, -, -, hr⟩ | ⟨i, a, -, -, hr⟩
  · rw [hr] at h ⊢
    exact List.mem_append_right _ (Option.mem_toList.mpr h)
  · rw [hr] at h ⊢
    exact List.mem_append_left _ (List.mem_append_right _ (Option.mem_toList.mpr h))
  · rw [hr] at h
    cases h

/-- What a quantity over the waiting frames loses to the resumed frame it gets
from the new one. -/
theorem sum_waiting {M : Type} [AddCommMonoid M] (φ : ℓ.Frame → M) (e : ℓ.Event) :
    (e.post.waiting.map φ).sum + ((Event.resumed e).map φ).getD 0 =
      (e.pre.waiting.map φ).sum + ((Event.awaits e).map φ).getD 0 := by
  obtain ⟨w, s⟩ := e
  have hopt : ∀ o : Option ℓ.Frame, (o.toList.map φ).sum = (o.map φ).getD 0 := by
    intro o
    cases o <;> simp
  simp only [Machine.Entry.post, Event.awaits, Machine.Entry.reply, Event.resumed]
  change _ + _ = _ + Option.getD (Option.map φ (run s w).1) 0
  rcases run_cases s w with ⟨c, hs, hr⟩ | ⟨i, a, f, before, behind, hs, hf, hw, hr⟩ |
    ⟨i, a, hs, hf, hr⟩
  · rw [hr, hs]
    simp [hopt]
  · rw [hr, hs]
    simp only [hf]
    rw [hw]
    simp only [List.map_append, List.sum_append, List.map_cons, List.sum_cons, hopt,
      Option.map_some, Option.getD_some]
    abel
  · rw [hr, hs]
    simp [hf]

section invariant
variable {permits : List ℓ.Event → ℓ.Step → Prop} {h : List ℓ.Event} {w : ℓ.World}

/-- A frame keeps its condition while the others run, and every turn leaves the
shared state and its own new frame in order. -/
structure Keeps (ℓ : EventLoop σ) (I : σ → Prop) (F : σ → ℓ.Frame → Prop) : Prop where
  start : ∀ c now s, I s → I (ℓ.start c now s).2 ∧
    (∀ g ∈ (ℓ.start c now s).1, F (ℓ.start c now s).2 g) ∧ ∀ g, F s g → F (ℓ.start c now s).2 g
  resume : ∀ f a now s, I s → F s f → I (ℓ.resume f a now s).2 ∧
    (∀ g ∈ (ℓ.resume f a now s).1, F (ℓ.resume f a now s).2 g) ∧
    ∀ g, F s g → F (ℓ.resume f a now s).2 g

theorem Keeps.step {I : σ → Prop} {F : σ → ℓ.Frame → Prop} (hk : ℓ.Keeps I F) (s : ℓ.Step)
    (w : ℓ.World) (hi : I w.shared ∧ ∀ f ∈ w.waiting, F w.shared f) :
    I (run s w).2.shared ∧ ∀ f ∈ (run s w).2.waiting, F (run s w).2.shared f := by
  obtain ⟨hi, hf⟩ := hi
  rcases run_cases s w with ⟨c, -, hr⟩ | ⟨i, a, f, before, behind, -, hmem, hw, hr⟩ |
    ⟨i, a, -, -, hr⟩
  · obtain ⟨h1, h2, h3⟩ := hk.start c s.now w.shared hi
    rw [hr]
    refine ⟨h1, fun g hg => ?_⟩
    rcases List.mem_append.mp hg with hg | hg
    · exact h3 g (hf g hg)
    · exact h2 g (Option.mem_toList.mp hg)
  · obtain ⟨h1, h2, h3⟩ := hk.resume f a s.now w.shared hi (hf f (List.mem_of_getElem? hmem))
    rw [hr]
    refine ⟨h1, fun g hg => ?_⟩
    simp only [List.mem_append, Option.mem_toList] at hg
    rcases hg with (hg | hg) | hg
    · exact h3 g (hf g (by rw [hw]; simp [hg]))
    · exact h2 g hg
    · exact h3 g (hf g (by rw [hw]; simp [hg]))
  · rw [hr]
    exact ⟨hi, hf⟩

theorem Keeps.reach {I : σ → Prop} {F : σ → ℓ.Frame → Prop} (hk : ℓ.Keeps I F)
    (hinit : I ℓ.init) (hrun : ℓ.machine.Run permits h w) :
    I w.shared ∧ ∀ f ∈ w.waiting, F w.shared f :=
  hrun.invariant (fun w => I w.shared ∧ ∀ f ∈ w.waiting, F w.shared f)
    ⟨hinit, fun f hf => by cases hf⟩ (fun _ w s _ hi => hk.step s w hi)

end invariant

end EventLoop

end Solvio.Lib
