import Mathlib.Data.List.Forall2

namespace Solvio.Lib

/-! Code that raises. -/

/-- `if p: raise e`. -/
def raiseIf {ε : Type u} (p : Prop) [Decidable p] (e : ε) : Except ε Unit :=
  if p then .error e else .ok ()

@[simp] theorem raise_if_ok {ε : Type u} {p : Prop} [Decidable p] {e : ε} {u : Unit} :
    raiseIf p e = .ok u ↔ ¬ p := by
  unfold raiseIf
  split <;> simp_all

/-- What follows is reached by a result only. -/
theorem bind_ok {ε : Type u} {α β : Type v} {x : Except ε α} {f : α → Except ε β} {b : β} :
    x >>= f = .ok b ↔ ∃ a, x = .ok a ∧ f a = .ok b := by
  cases x with
  | error e => simp [bind, Except.bind]
  | ok a => simp [bind, Except.bind]

theorem map_ok {ε : Type u} {α β : Type v} {x : Except ε α} {f : α → β} {b : β} :
    x.map f = .ok b ↔ ∃ a, x = .ok a ∧ f a = b := by
  cases x with
  | error e => simp [Except.map]
  | ok a => simp [Except.map]

theorem pure_ok {ε : Type u} {α : Type v} {a b : α} :
    (pure a : Except ε α) = .ok b ↔ a = b := by
  simp [pure, Except.pure]

theorem throw_ok {ε : Type u} {α : Type v} {e : ε} {b : α} :
    (throw e : Except ε α) = .ok b ↔ False := by
  simp [throw, throwThe, MonadExceptOf.throw]

/-- A loop that raises has a result for every element. -/
theorem map_m_ok {ε : Type u} {α β : Type v} {f : α → Except ε β} {xs : List α} {ys : List β} :
    xs.mapM f = .ok ys ↔ List.Forall₂ (fun x y => f x = .ok y) xs ys := by
  induction xs generalizing ys with
  | nil =>
    rw [List.mapM_nil, pure_ok, List.forall₂_nil_left_iff]
    exact eq_comm
  | cons x xs ih =>
    simp only [List.mapM_cons, bind_ok, pure_ok]
    constructor
    · rintro ⟨y, hy, zs, hzs, rfl⟩
      exact .cons hy (ih.mp hzs)
    · intro h
      cases h with
      | cons hy hzs => exact ⟨_, hy, _, ih.mpr hzs, rfl⟩

end Solvio.Lib
