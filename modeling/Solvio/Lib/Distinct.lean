import Mathlib.Data.List.Basic

namespace Solvio.Lib

variable {α β γ : Type} [DecidableEq α] [DecidableEq β]

/-- A set has two elements if and only if two of its elements differ. -/
theorem two_le_distinct {xs : List α} :
    2 ≤ xs.eraseDups.length ↔ ∃ x ∈ xs, ∃ y ∈ xs, x ≠ y := by
  cases xs with
  | nil => simp
  | cons a as =>
    rw [List.eraseDups_cons, List.length_cons]
    constructor
    · intro h
      obtain ⟨b, hb⟩ := List.exists_mem_of_length_pos (Nat.le_of_succ_le_succ h)
      obtain ⟨hmem, hne⟩ := List.mem_filter.mp (List.mem_eraseDups.mp hb)
      exact ⟨b, List.mem_cons_of_mem a hmem, a, List.mem_cons_self .., by simpa using hne⟩
    · rintro ⟨x, hx, y, hy, hxy⟩
      have hother : ∃ b ∈ as, b ≠ a := by
        by_cases hxa : x = a
        · subst hxa
          exact ⟨y, (List.mem_cons.mp hy).resolve_left (Ne.symm hxy), Ne.symm hxy⟩
        · exact ⟨x, (List.mem_cons.mp hx).resolve_left hxa, hxa⟩
      obtain ⟨b, hb, hne⟩ := hother
      have hmem : b ∈ (as.filter (fun b => !b == a)).eraseDups :=
        List.mem_eraseDups.mpr (List.mem_filter.mpr ⟨hb, by simpa using hne⟩)
      have hpos := List.length_pos_of_mem hmem
      omega

/-- Where two elements differ in one respect and two in another, two differ in both. -/
theorem differ_in_both {xs : List γ} {f : γ → α} {g : γ → β}
    (hf : ∃ x ∈ xs, ∃ y ∈ xs, f x ≠ f y) (hg : ∃ x ∈ xs, ∃ y ∈ xs, g x ≠ g y) :
    ∃ x ∈ xs, ∃ y ∈ xs, f x ≠ f y ∧ g x ≠ g y := by
  obtain ⟨x, hx, y, hy, hxy⟩ := hf
  by_cases hg' : g x = g y
  · obtain ⟨z, hz, hzx⟩ : ∃ z ∈ xs, g z ≠ g x := by
      obtain ⟨u, hu, v, hv, huv⟩ := hg
      by_cases hux : g u = g x
      · exact ⟨v, hv, fun hvx => huv (hux.trans hvx.symm)⟩
      · exact ⟨u, hu, hux⟩
    -- the third element differs from one of the two in the first respect as well
    by_cases hfz : f z = f x
    · exact ⟨z, hz, y, hy, fun h => hxy (hfz.symm.trans h), fun h => hzx (h.trans hg'.symm)⟩
    · exact ⟨z, hz, x, hx, hfz, hzx⟩
  · exact ⟨x, hx, y, hy, hxy, hg'⟩

end Solvio.Lib
