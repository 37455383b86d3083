import Mathlib.Data.List.TakeWhile
import Mathlib.Data.List.TakeDrop

namespace Solvio.Lib

variable {α : Type u} [DecidableEq α] {sep : α}

/-- The lines that a separator ends, and what follows the last one. -/
def cut (sep : α) : List α → List (List α) × List α
  | [] => ([], [])
  | x :: xs =>
    if x = sep then ([] :: (cut sep xs).1, (cut sep xs).2)
    else match cut sep xs with
      | ([], rest) => ([], x :: rest)
      | (line :: lines, rest) => ((x :: line) :: lines, rest)

theorem cut_open {xs : List α} (h : sep ∉ xs) : cut sep xs = ([], xs) := by
  induction xs with
  | nil => rfl
  | cons x xs ih =>
    rw [List.mem_cons, not_or] at h
    rw [cut, if_neg (Ne.symm h.1), ih h.2]

theorem cut_line {line : List α} (h : sep ∉ line) (rest : List α) :
    cut sep (line ++ sep :: rest) = (line :: (cut sep rest).1, (cut sep rest).2) := by
  induction line with
  | nil => simp [cut]
  | cons x line ih =>
    rw [List.mem_cons, not_or] at h
    rw [List.cons_append, cut, if_neg (Ne.symm h.1), ih h.2]

/-- A text is one open line, or a line and a shorter text. -/
theorem cut_cases (sep : α) (xs : List α) :
    sep ∉ xs ∨ ∃ line rest, sep ∉ line ∧ xs = line ++ sep :: rest := by
  by_cases h : sep ∈ xs
  · obtain ⟨line, rest, rfl, hline⟩ := List.eq_append_cons_of_mem h
    exact .inr ⟨line, rest, hline, rfl⟩
  · exact .inl h

/-- Induction over the lines of a text. -/
theorem cut_induction (sep : α) {P : List α → Prop} (tail : ∀ xs, sep ∉ xs → P xs)
    (line : ∀ line rest, sep ∉ line → P rest → P (line ++ sep :: rest)) (xs : List α) : P xs := by
  induction hn : xs.length using Nat.strongRecOn generalizing xs with
  | _ n ih =>
    rcases cut_cases sep xs with h | ⟨l, rest, h, rfl⟩
    · exact tail xs h
    · refine line l rest h (ih rest.length ?_ rest rfl)
      rw [← hn, List.length_append, List.length_cons]
      omega

theorem cut_rest_open (xs : List α) : sep ∉ (cut sep xs).2 := by
  induction xs using cut_induction sep with
  | tail xs h => rwa [cut_open h]
  | line line rest h ih => rwa [cut_line h]

/-- Cutting goes on from the open line, wherever the text is split. -/
theorem cut_append (xs ys : List α) :
    cut sep (xs ++ ys) =
      ((cut sep xs).1 ++ (cut sep ((cut sep xs).2 ++ ys)).1, (cut sep ((cut sep xs).2 ++ ys)).2) := by
  induction xs using cut_induction sep with
  | tail xs h => simp [cut_open h]
  | line line rest h ih => simp [cut_line h, ih]

/-- The lines of a text, the open one last. -/
def allLines (sep : α) (xs : List α) : List (List α) := (cut sep xs).1 ++ [(cut sep xs).2]

theorem all_lines_line {line : List α} (h : sep ∉ line) (rest : List α) :
    allLines sep (line ++ sep :: rest) = line :: allLines sep rest := by
  simp [allLines, cut_line h]

/-- The open line of a part is the beginning of a line of the whole. -/
theorem open_line_prefix (xs ys : List α) :
    ∃ line ∈ allLines sep (xs ++ ys), (cut sep xs).2 <+: line := by
  induction xs using cut_induction sep with
  | tail xs h =>
    rw [cut_open h]
    rcases cut_cases sep ys with hy | ⟨line, rest, hline, rfl⟩
    · refine ⟨xs ++ ys, ?_, List.prefix_append ..⟩
      simp [allLines, cut_open (show sep ∉ xs ++ ys by simp [h, hy])]
    · refine ⟨xs ++ line, ?_, List.prefix_append ..⟩
      rw [← List.append_assoc, all_lines_line (by simp [h, hline])]
      exact List.mem_cons_self ..
  | line line rest h ih =>
    obtain ⟨l, hl, hpre⟩ := ih
    refine ⟨l, ?_, by rwa [cut_line h]⟩
    rw [List.append_assoc, List.cons_append, all_lines_line h]
    exact List.mem_cons_of_mem _ hl

theorem span_open {xs : List α} (h : sep ∉ xs) : xs.span (· ≠ sep) = (xs, []) := by
  have hall : ∀ x ∈ xs, decide (x ≠ sep) = true := fun x hx => by
    simpa using ne_of_mem_of_not_mem hx h
  rw [List.span_eq_takeWhile_dropWhile, List.takeWhile_eq_self_iff.mpr hall,
    List.dropWhile_eq_nil_iff.mpr hall]

theorem span_line {line : List α} (h : sep ∉ line) (rest : List α) :
    (line ++ sep :: rest).span (· ≠ sep) = (line, sep :: rest) := by
  have hall : ∀ x ∈ line, decide (x ≠ sep) = true := fun x hx => by
    simpa using ne_of_mem_of_not_mem hx h
  rw [List.span_eq_takeWhile_dropWhile, List.takeWhile_append_of_pos hall,
    List.dropWhile_append_of_pos hall]
  simp

end Solvio.Lib
