import Mathlib.Algebra.BigOperators.Group.List.Basic
import Mathlib.Algebra.Order.Ring.Nat

namespace Solvio.Lib

/-! Sums over the entries of a list that a test keeps. -/

variable {α : Type}

def total (keep : α → Bool) (amount : α → Nat) (rows : List α) : Nat :=
  ((rows.filter keep).map amount).sum

@[simp] theorem total_nil (keep : α → Bool) (amount : α → Nat) : total keep amount [] = 0 := rfl

theorem total_cons (keep : α → Bool) (amount : α → Nat) (a : α) (rows : List α) :
    total keep amount (a :: rows) = (if keep a then amount a else 0) + total keep amount rows := by
  unfold total
  rw [List.filter_cons]
  split
  · simp
  · simp

theorem total_append (keep : α → Bool) (amount : α → Nat) (rows rows' : List α) :
    total keep amount (rows ++ rows') = total keep amount rows + total keep amount rows' := by
  simp [total]

theorem total_zero {keep : α → Bool} {amount : α → Nat} {rows : List α}
    (h : ∀ a ∈ rows, keep a = false) : total keep amount rows = 0 := by
  induction rows with
  | nil => rfl
  | cons a rows ih =>
    rw [total_cons, h a (List.mem_cons_self ..), ih (fun b hb => h b (List.mem_cons_of_mem a hb))]
    rfl

theorem total_mono {keep keep' : α → Bool} {amount : α → Nat} {rows : List α}
    (h : ∀ a ∈ rows, keep' a = true → keep a = true) :
    total keep' amount rows ≤ total keep amount rows := by
  induction rows with
  | nil => exact Nat.le_refl 0
  | cons a rows ih =>
    have htail := ih (fun b hb => h b (List.mem_cons_of_mem a hb))
    have hhead := h a (List.mem_cons_self ..)
    rw [total_cons, total_cons]
    cases hk : keep' a with
    | false => simp only [Bool.false_eq_true, ↓reduceIte]; omega
    | true => simp only [hhead hk, ↓reduceIte]; omega

/-- A test that lets go of an entry keeps that much less. -/
theorem total_drop {keep keep' : α → Bool} {amount : α → Nat} {rows : List α} {a : α}
    (h : ∀ b ∈ rows, keep' b = true → keep b = true) (ha : a ∈ rows) (hk : keep a = true)
    (hk' : keep' a = false) : total keep' amount rows + amount a ≤ total keep amount rows := by
  induction rows with
  | nil => cases ha
  | cons b rows ih =>
    have hsub : ∀ c ∈ rows, keep' c = true → keep c = true :=
      fun c hc => h c (List.mem_cons_of_mem b hc)
    rw [total_cons, total_cons]
    rcases List.mem_cons.mp ha with rfl | ha
    · have htail : total keep' amount rows ≤ total keep amount rows := total_mono hsub
      simp only [hk, hk', Bool.false_eq_true, ↓reduceIte]
      omega
    · have htail := ih hsub ha
      have hhead := h b (List.mem_cons_self ..)
      cases hb : keep' b with
      | false => simp only [Bool.false_eq_true, ↓reduceIte]; omega
      | true => simp only [hhead hb, ↓reduceIte]; omega

theorem total_split (keep part : α → Bool) (amount : α → Nat) (rows : List α) :
    total keep amount rows = total keep amount (rows.filter part) +
      total keep amount (rows.filter (fun a => !part a)) := by
  induction rows with
  | nil => rfl
  | cons a rows ih =>
    cases hp : part a with
    | false =>
      simp only [List.filter_cons, hp, Bool.false_eq_true, ↓reduceIte, Bool.not_false, total_cons]
      omega
    | true =>
      simp only [List.filter_cons, hp, ↓reduceIte, Bool.not_true, Bool.false_eq_true, total_cons]
      omega

theorem total_perm {keep : α → Bool} {amount : α → Nat} {rows rows' : List α}
    (h : rows.Perm rows') : total keep amount rows = total keep amount rows' :=
  ((h.filter keep).map amount).sum_eq

theorem total_map {β : Type} (f : α → β) (keep : β → Bool) (amount : β → Nat) (rows : List α) :
    total keep amount (rows.map f) = total (fun a => keep (f a)) (fun a => amount (f a)) rows := by
  induction rows with
  | nil => rfl
  | cons a rows ih => rw [List.map_cons, total_cons, total_cons, ih]

/-- Among entries that differ in their keys, those that share one are few. -/
theorem at_most_one {β : Type} {key : α → β} {rows : List α} (hn : (rows.map key).Nodup)
    (h : ∀ a ∈ rows, ∀ b ∈ rows, key a = key b) : rows = [] ∨ ∃ a, rows = [a] := by
  cases rows with
  | nil => exact Or.inl rfl
  | cons a rows =>
    cases rows with
    | nil => exact Or.inr ⟨a, rfl⟩
    | cons b rows =>
      have he := h a (by simp) b (by simp)
      simp [he] at hn

end Solvio.Lib
