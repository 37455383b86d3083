import Mathlib.Data.List.Basic

namespace Solvio.Lib

/-- Statements that are committed one by one. A statement that fails raises,
and those behind it are not reached. -/
structure Commits (σ : Type) where
  Write : Type
  apply : Write → σ → Option σ

namespace Commits

variable {σ : Type} {c : Commits σ}

def exec (c : Commits σ) : List c.Write → σ → σ
  | [], s => s
  | w :: ws, s =>
    match c.apply w s with
    | some s' => c.exec ws s'
    | none => s

/-- What every statement preserves is there after any of them. -/
theorem exec_keeps {ws : List c.Write} {s : σ} (I : σ → Prop)
    (h : ∀ w ∈ ws, ∀ s s', c.apply w s = some s' → I s → I s') (hi : I s) : I (c.exec ws s) := by
  induction ws generalizing s with
  | nil => exact hi
  | cons w ws ih =>
    simp only [exec]
    cases hw : c.apply w s with
    | none => exact hi
    | some s' =>
      exact ih (fun v hv => h v (List.mem_cons_of_mem w hv)) (h w (List.mem_cons_self ..) s s' hw hi)

theorem exec_append (ws vs : List c.Write) (s : σ) :
    c.exec (ws ++ vs) s = c.exec vs (c.exec ws s) ∨ c.exec (ws ++ vs) s = c.exec ws s := by
  induction ws generalizing s with
  | nil => exact Or.inl rfl
  | cons w ws ih =>
    simp only [List.cons_append, exec]
    cases c.apply w s with
    | none => exact Or.inr rfl
    | some s' => exact ih s'

end Commits

end Solvio.Lib
