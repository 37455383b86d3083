import Mathlib.Data.Finset.Card
import Mathlib.Data.List.Nodup
import Mathlib.Tactic.Tauto

namespace Solvio.Lib

/-! Choosing from a list that is ordered by preference: the first of every
group, for so many groups. Dropping what is not chosen never changes a later
choice. -/

section Choice

variable {α γ : Type} [DecidableEq γ] (g : α → γ) (k : Nat)

/-- The first element of each of the first `k` groups; these groups were met before. -/
def chosen : List γ → List α → List α
  | _, [] => []
  | met, x :: xs =>
    if g x ∈ met then chosen met xs
    else if met.length < k then x :: chosen (g x :: met) xs
    else chosen (g x :: met) xs

variable {g k}

theorem chosen_sublist (met : List γ) (xs : List α) : (chosen g k met xs).Sublist xs := by
  induction xs generalizing met with
  | nil => exact .slnil
  | cons x xs ih =>
    rw [chosen]
    split
    · exact (ih met).cons x
    split
    · exact (ih _).cons_cons x
    · exact (ih _).cons x

/-- Nothing is chosen when the groups are used up. -/
theorem chosen_full {met : List γ} (h : k ≤ met.length) (xs : List α) :
    chosen g k met xs = [] := by
  induction xs generalizing met with
  | nil => rfl
  | cons x xs ih =>
    rw [chosen, if_neg (Nat.not_lt.mpr h)]
    split
    · exact ih h
    · exact ih (h.trans (Nat.le_succ _))

theorem chosen_length (met : List γ) (xs : List α) :
    (chosen g k met xs).length ≤ k - met.length := by
  induction xs generalizing met with
  | nil => exact Nat.zero_le _
  | cons x xs ih =>
    rw [chosen]
    split
    · exact ih met
    split
    · rename_i hroom
      have hrest := ih (g x :: met)
      simp only [List.length_cons] at hrest ⊢
      omega
    · exact (ih _).trans (by simp only [List.length_cons]; omega)

/-- A choice does not see what it does not choose. -/
theorem chosen_outcast {met : List γ} {kept xs : List α} (hsub : kept.Sublist xs)
    (hnodup : xs.Nodup) (hkept : ∀ x ∈ chosen g k met xs, x ∈ kept) :
    chosen g k met kept = chosen g k met xs := by
  induction hsub generalizing met with
  | slnil => rfl
  | @cons kept xs x hsub ih =>
    obtain ⟨hx, hnodup⟩ := List.nodup_cons.mp hnodup
    rw [chosen] at hkept ⊢
    split
    · rename_i hmet
      rw [if_pos hmet] at hkept
      exact ih hnodup hkept
    · rename_i hmet
      rw [if_neg hmet] at hkept
      split
      · rename_i hroom
        rw [if_pos hroom] at hkept
        exact absurd (hsub.subset (hkept x (List.mem_cons_self ..))) hx
      · rename_i hroom
        rw [chosen_full (Nat.not_lt.mp hroom), chosen_full]
        exact (Nat.not_lt.mp hroom).trans (Nat.le_succ _)
  | @cons_cons kept xs x hsub ih =>
    obtain ⟨hx, hnodup⟩ := List.nodup_cons.mp hnodup
    have hrest : ∀ met', (∀ y ∈ chosen g k met' xs, y ∈ x :: kept) →
        ∀ y ∈ chosen g k met' xs, y ∈ kept := by
      intro met' h y hy
      rcases List.mem_cons.mp (h y hy) with rfl | hin
      · exact absurd ((chosen_sublist met' xs).subset hy) hx
      · exact hin
    rw [chosen] at hkept ⊢
    rw [chosen]
    split
    · rename_i hmet
      rw [if_pos hmet] at hkept
      exact ih hnodup (hrest met hkept)
    · rename_i hmet
      rw [if_neg hmet] at hkept
      split
      · rename_i hroom
        rw [if_pos hroom] at hkept
        exact congrArg (x :: ·) (ih hnodup
          (hrest _ (fun y hy => hkept y (List.mem_cons_of_mem _ hy))))
      · rename_i hroom
        rw [if_neg hroom] at hkept
        exact ih hnodup (hrest _ hkept)

/-- What is chosen of more is chosen of less. -/
theorem chosen_heritage {met met' : List γ} {xs ys : List α} (hsub : xs.Sublist ys)
    (hnodup : ys.Nodup) (hmet : met.Nodup) (hless : met ⊆ met') {x : α} (hx : x ∈ xs)
    (h : x ∈ chosen g k met' ys) : x ∈ chosen g k met xs := by
  induction hsub generalizing met met' with
  | slnil => cases hx
  | @cons xs ys y hsub ih =>
    obtain ⟨hy, hnodup⟩ := List.nodup_cons.mp hnodup
    have hne : x ≠ y := fun h => hy (h ▸ hsub.subset hx)
    have hmore : met ⊆ g y :: met' := fun c hc => List.mem_cons_of_mem _ (hless hc)
    rw [chosen] at h
    split at h
    · exact ih hnodup hmet hless hx h
    split at h
    · rcases List.mem_cons.mp h with h | h
      · exact absurd h hne
      · exact ih hnodup hmet hmore hx h
    · exact ih hnodup hmet hmore hx h
  | @cons_cons xs ys y hsub ih =>
    obtain ⟨hy, hnodup⟩ := List.nodup_cons.mp hnodup
    have hlen : met.length ≤ met'.length := (hmet.subperm hless).length_le
    rw [chosen] at h ⊢
    by_cases hnew : g y ∈ met'
    · rw [if_pos hnew] at h
      have hne : x ≠ y := fun he => hy (he ▸ (chosen_sublist _ _).subset h)
      have hin : x ∈ xs := (List.mem_cons.mp hx).resolve_left hne
      split
      · exact ih hnodup hmet hless hin h
      · rename_i hold
        have hmore : g y :: met ⊆ met' := List.cons_subset.mpr ⟨hnew, hless⟩
        have hrest := ih hnodup (List.nodup_cons.mpr ⟨hold, hmet⟩) hmore hin h
        split
        · exact List.mem_cons_of_mem _ hrest
        · exact hrest
    · have hold : g y ∉ met := fun hc => hnew (hless hc)
      have hmore : g y :: met ⊆ g y :: met' := List.cons_subset_cons _ hless
      rw [if_neg hnew] at h
      rw [if_neg hold]
      split at h
      · rename_i hroom
        rw [if_pos (hlen.trans_lt hroom)]
        rcases List.mem_cons.mp h with rfl | h
        · exact List.mem_cons_self ..
        · have hne : x ≠ y := fun he => hy (he ▸ (chosen_sublist _ _).subset h)
          exact List.mem_cons_of_mem _ (ih hnodup (List.nodup_cons.mpr ⟨hold, hmet⟩) hmore
            ((List.mem_cons.mp hx).resolve_left hne) h)
      · rename_i hroom
        rw [chosen_full ((Nat.not_lt.mp hroom).trans (Nat.le_succ _))] at h
        cases h

/-- Where every element is a group of its own, these are the first `k`. -/
theorem chosen_take [DecidableEq α] {met xs : List α} (hnodup : xs.Nodup)
    (hnew : ∀ x ∈ xs, x ∉ met) : chosen id k met xs = xs.take (k - met.length) := by
  induction xs generalizing met with
  | nil => simp [chosen]
  | cons x xs ih =>
    obtain ⟨hx, hnodup⟩ := List.nodup_cons.mp hnodup
    have hrest : ∀ y ∈ xs, y ∉ x :: met := by
      intro y hy hin
      rcases List.mem_cons.mp hin with rfl | hin
      · exact hx hy
      · exact hnew y (List.mem_cons_of_mem _ hy) hin
    simp only [chosen, id_eq]
    rw [if_neg (hnew x (List.mem_cons_self ..))]
    split
    · rename_i hroom
      rw [ih hnodup hrest, List.length_cons,
        show k - met.length = (k - (met.length + 1)) + 1 by omega, List.take_succ_cons]
    · rename_i hroom
      rw [chosen_full ((Nat.not_lt.mp hroom).trans (Nat.le_succ _)),
        Nat.sub_eq_zero_of_le (Nat.not_lt.mp hroom), List.take_zero]

theorem mem_chosen {met : List γ} {xs ys : List α} {x : α} (hnodup : (xs ++ x :: ys).Nodup)
    (hmet : met.Nodup) : x ∈ chosen g k met (xs ++ x :: ys) ↔
      g x ∉ met ∧ g x ∉ xs.map g ∧ (xs.map g ++ met).toFinset.card < k := by
  induction xs generalizing met with
  | nil =>
    have hlast : ∀ met', x ∉ chosen g k met' ys := fun met' h =>
      (List.nodup_cons.mp hnodup).1 ((chosen_sublist met' ys).subset h)
    rw [List.nil_append, chosen, List.map_nil, List.nil_append, List.toFinset_card_of_nodup hmet]
    split
    · rename_i hold
      simp [hlast, hold]
    · rename_i hnew
      split
      · rename_i hroom
        simp [hnew, hroom]
      · rename_i hroom
        simp [hlast, hroom]
  | cons y xs ih =>
    rw [List.cons_append] at hnodup ⊢
    obtain ⟨hy, hnodup⟩ := List.nodup_cons.mp hnodup
    have hne : x ≠ y := fun h => hy (by simp [h])
    rw [chosen, List.map_cons, List.cons_append]
    split
    · rename_i hold
      have hsame : (g y :: (xs.map g ++ met)).toFinset = (xs.map g ++ met).toFinset := by
        rw [List.toFinset_cons, Finset.insert_eq_self]
        simp [hold]
      rw [ih hnodup hmet, hsame]
      have hdiffer : g x ∉ met → g x ≠ g y := fun h he => h (he ▸ hold)
      simp only [List.mem_cons, not_or]
      tauto
    · rename_i hnew
      have hnext := ih hnodup (List.nodup_cons.mpr ⟨hnew, hmet⟩)
      have hsame : (xs.map g ++ g y :: met).toFinset = (g y :: (xs.map g ++ met)).toFinset := by
        ext c
        simp only [List.mem_toFinset, List.mem_append, List.mem_cons]
        tauto
      rw [hsame] at hnext
      have hskip : x ∈ (if met.length < k then y :: chosen g k (g y :: met) (xs ++ x :: ys)
          else chosen g k (g y :: met) (xs ++ x :: ys)) ↔
          x ∈ chosen g k (g y :: met) (xs ++ x :: ys) := by
        split
        · simp [hne]
        · rfl
      rw [hskip, hnext]
      simp only [List.mem_cons, not_or]
      tauto

/-- An element is chosen if it is the first of its group, and few groups come before it. -/
theorem mem_chosen_iff {xs ys : List α} {x : α} (hnodup : (xs ++ x :: ys).Nodup) :
    x ∈ chosen g k [] (xs ++ x :: ys) ↔ g x ∉ xs.map g ∧ (xs.map g).toFinset.card < k := by
  simpa using mem_chosen (g := g) (k := k) hnodup List.nodup_nil

/-- An element is among the first `k` if few come before it. -/
theorem mem_take_iff [DecidableEq α] {xs ys : List α} {x : α} (hnodup : (xs ++ x :: ys).Nodup) :
    x ∈ (xs ++ x :: ys).take k ↔ xs.length < k := by
  obtain ⟨hxs, -, hapart⟩ := List.nodup_append.mp hnodup
  have hnew : x ∉ xs := fun h => hapart x h x (List.mem_cons_self ..) rfl
  have htake := chosen_take (k := k) hnodup (fun y _ => List.not_mem_nil (a := y))
  rw [List.length_nil, Nat.sub_zero] at htake
  rw [← htake, mem_chosen_iff hnodup, List.map_id, List.toFinset_card_of_nodup hxs]
  exact and_iff_right hnew

end Choice

/-- A choice from ordered lists that does not see what it leaves out, and that
chooses of less what it chooses of more. -/
structure Consistent {α : Type} (f : List α → List α) : Prop where
  sublist : ∀ xs, (f xs).Sublist xs
  outcast : ∀ {kept xs}, kept.Sublist xs → xs.Nodup → (∀ x ∈ f xs, x ∈ kept) → f kept = f xs
  heritage : ∀ {xs ys}, xs.Sublist ys → ys.Nodup → ∀ {x}, x ∈ xs → x ∈ f ys → x ∈ f xs

theorem consistent_chosen {α γ : Type} [DecidableEq γ] (g : α → γ) (k : Nat) :
    Consistent (chosen g k []) where
  sublist := chosen_sublist []
  outcast := chosen_outcast
  heritage hsub hnodup _ hx h :=
    chosen_heritage hsub hnodup List.nodup_nil (List.nil_subset _) hx h

/-- Taking the first is choosing with every element a group of its own. -/
theorem consistent_take {α : Type} [DecidableEq α] (k : Nat) :
    Consistent (List.take (α := α) k) := by
  have htake : ∀ {xs : List α}, xs.Nodup → xs.take k = chosen id k [] xs := fun h =>
    (chosen_take h (fun _ _ => List.not_mem_nil)).symm
  refine ⟨List.take_sublist k, fun hsub hnodup hkept => ?_, fun hsub hnodup x hx h => ?_⟩
  · rw [htake hnodup] at hkept ⊢
    rw [htake (hnodup.sublist hsub)]
    exact chosen_outcast hsub hnodup hkept
  · rw [htake hnodup] at h
    rw [htake (hnodup.sublist hsub)]
    exact chosen_heritage hsub hnodup List.nodup_nil (List.nil_subset _) hx h

end Solvio.Lib
