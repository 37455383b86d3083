import Mathlib.Data.List.Basic

namespace Solvio.Lib

/-! A reader hangs into a feed before it reads the log that the feed follows.
What the feed holds is then the log again from some number on, behind entries
the reader has seen. -/

variable {α : Type}

/-- A list up to its first last entry. -/
def upTo (last : α → Bool) : List α → List α
  | [] => []
  | a :: l => a :: if last a then [] else upTo last l

section upTo

variable {last : α → Bool}

theorem up_to_append {a b : List α} (h : upTo last a = upTo last b) (c : List α) :
    upTo last (a ++ c) = upTo last (b ++ c) := by
  induction a generalizing b with
  | nil =>
    cases b with
    | nil => rfl
    | cons y b => cases h
  | cons x a ih =>
    cases b with
    | nil => cases h
    | cons y b =>
      simp only [upTo, List.cons.injEq, List.cons_append] at h ⊢
      obtain ⟨rfl, h⟩ := h
      refine ⟨rfl, ?_⟩
      split
      · rfl
      · rename_i hne
        rw [if_neg hne, if_neg hne] at h
        exact ih h

theorem up_to_closed {a : List α} (h : ∃ x ∈ a, last x = true) (b : List α) :
    upTo last (a ++ b) = upTo last a := by
  induction a with
  | nil =>
    obtain ⟨x, hx, -⟩ := h
    cases hx
  | cons x a ih =>
    simp only [upTo, List.cons_append, List.cons.injEq, true_and]
    split
    · rfl
    · rename_i hne
      obtain ⟨y, hy, hend⟩ := h
      rcases List.mem_cons.mp hy with rfl | hy
      · exact absurd hend hne
      · exact ih ⟨y, hy, hend⟩

theorem up_to_any {a : List α} : (∃ x ∈ upTo last a, last x = true) ↔ ∃ x ∈ a, last x = true := by
  induction a with
  | nil => exact Iff.rfl
  | cons x a ih =>
    cases hx : last x with
    | true =>
      simp only [upTo, hx, if_true]
      exact ⟨fun _ => ⟨x, List.mem_cons_self, hx⟩, fun _ => ⟨x, List.mem_cons_self, hx⟩⟩
    | false =>
      simp only [upTo, hx, Bool.false_eq_true, if_false, List.mem_cons, exists_eq_or_imp, false_or]
      exact ih

/-- A list that ends with its only last entry. -/
theorem up_to_snoc {a : List α} {x : α} (h : ∀ y ∈ a, last y = false) (hx : last x = true)
    (b : List α) : upTo last (a ++ x :: b) = a ++ [x] := by
  induction a with
  | nil => simp [upTo, hx]
  | cons y a ih =>
    rw [List.cons_append, upTo, h y List.mem_cons_self,
      if_neg Bool.false_ne_true, ih (fun z hz => h z (List.mem_cons_of_mem y hz))]
    rfl

end upTo

variable {seq : α → Nat} {last : α → Bool} {n : Nat} {feed log : List α} {a : α}

/-- The feed holds the log from `n` on, up to its end, behind older entries. -/
def Fed (seq : α → Nat) (last : α → Bool) (n : Nat) (feed log : List α) : Prop :=
  ∃ old new, feed = old ++ new ∧ (∀ a ∈ old, seq a < n) ∧ upTo last new = upTo last (log.drop n)

namespace Fed

theorem start (h : ∀ a ∈ feed, seq a < log.length) : Fed seq last log.length feed log :=
  ⟨feed, [], (List.append_nil _).symm, h, by rw [List.drop_length]⟩

/-- An entry of the log that the feed gets too. -/
theorem publish (h : Fed seq last n feed log) (hn : n ≤ log.length) (a : α) :
    Fed seq last n (feed ++ [a]) (log ++ [a]) := by
  obtain ⟨old, new, rfl, hold, hnew⟩ := h
  refine ⟨old, new ++ [a], List.append_assoc .., hold, ?_⟩
  rw [List.drop_append_of_le_length hn]
  exact up_to_append hnew [a]

/-- Behind the end it does not matter what either of them gets. -/
theorem silent (h : Fed seq last n feed log) (hn : n ≤ log.length)
    (hend : ∃ a ∈ log.drop n, last a = true) (more late : List α) :
    Fed seq last n (feed ++ more) (log ++ late) := by
  obtain ⟨old, new, rfl, hold, hnew⟩ := h
  refine ⟨old, new ++ more, List.append_assoc .., hold, ?_⟩
  have hclosed : ∃ a ∈ new, last a = true := by
    rw [← up_to_any, hnew, up_to_any]
    exact hend
  rw [List.drop_append_of_le_length hn, up_to_closed hclosed, up_to_closed hend, hnew]

theorem drained (h : Fed seq last n [] log) : log.drop n = [] := by
  obtain ⟨old, new, hnil, -, hnew⟩ := h
  obtain ⟨-, rfl⟩ := List.append_eq_nil_iff.mp hnil.symm
  cases hdrop : log.drop n with
  | nil => rfl
  | cons a l =>
    rw [hdrop] at hnew
    cases hnew

section numbered

variable (hseq : log.map seq = List.range log.length)
include hseq

theorem seq_getElem {i : Nat} (h : log[i]? = some a) : seq a = i := by
  have hmap : (log.map seq)[i]? = some (seq a) := by rw [List.getElem?_map, h, Option.map_some]
  rw [hseq] at hmap
  obtain ⟨hlt, hget⟩ := List.getElem?_eq_some_iff.mp hmap
  rw [List.getElem_range] at hget
  exact hget.symm

/-- The first new entry of a feed is the log's. -/
theorem head_new {new : List α} (h : upTo last (a :: new) = upTo last (log.drop n)) :
    seq a = n ∧ log.drop n = a :: log.drop (n + 1) ∧
      (last a = false → upTo last new = upTo last (log.drop (n + 1))) := by
  cases hdrop : log.drop n with
  | nil =>
    rw [hdrop] at h
    cases h
  | cons b l =>
    rw [hdrop] at h
    have hget : log[n]? = some b := by
      rw [← List.head?_drop, hdrop]
      rfl
    have htail : log.drop (n + 1) = l := by
      rw [← List.tail_drop, hdrop]
      rfl
    simp only [upTo, List.cons.injEq] at h
    obtain ⟨rfl, h⟩ := h
    refine ⟨seq_getElem hseq hget, by rw [htail], fun hlast => ?_⟩
    rw [if_neg (by rw [hlast]; exact Bool.false_ne_true),
      if_neg (by rw [hlast]; exact Bool.false_ne_true)] at h
    rw [htail, h]

/-- The reader skips what it has seen. -/
theorem skip (h : Fed seq last n (a :: feed) log) (hlt : seq a < n) : Fed seq last n feed log := by
  obtain ⟨old, new, hcut, hold, hnew⟩ := h
  cases old with
  | nil =>
    obtain rfl : a :: feed = new := hcut
    have hseq := (head_new hseq hnew).1
    omega
  | cons b old =>
    obtain ⟨rfl, rfl⟩ := List.cons.inj hcut
    exact ⟨old, new, rfl, fun c hc => hold c (List.mem_cons_of_mem a hc), hnew⟩

/-- What it has not seen is the next entry of the log. -/
theorem take (h : Fed seq last n (a :: feed) log) (hle : n ≤ seq a) :
    seq a = n ∧ log.drop n = a :: log.drop (n + 1) ∧
      (last a = false → Fed seq last (n + 1) feed log) := by
  obtain ⟨old, new, hcut, hold, hnew⟩ := h
  cases old with
  | nil =>
    obtain rfl : a :: feed = new := hcut
    obtain ⟨hn, hdrop, hrest⟩ := head_new hseq hnew
    exact ⟨hn, hdrop, fun hlast => ⟨[], feed, rfl, fun b hb => (by cases hb), hrest hlast⟩⟩
  | cons b old =>
    obtain ⟨rfl, rfl⟩ := List.cons.inj hcut
    have hlt := hold a List.mem_cons_self
    omega

theorem next (h : Fed seq last n feed log) (hlt : n < log.length)
    (hopen : ∀ a ∈ log[n]?, last a = false) : Fed seq last (n + 1) feed log := by
  obtain ⟨old, new, rfl, hold, hnew⟩ := h
  have hdrop := List.drop_eq_getElem_cons hlt
  cases new with
  | nil =>
    rw [hdrop] at hnew
    cases hnew
  | cons b new =>
    obtain ⟨hn, hb, hrest⟩ := head_new hseq hnew
    have hget : log[n]? = some b := by
      rw [← List.head?_drop, hb]
      rfl
    refine ⟨old ++ [b], new, (List.append_cons ..), fun c hc => ?_, hrest (hopen b hget)⟩
    rcases List.mem_append.mp hc with hc | hc
    · exact Nat.lt_succ_of_lt (hold c hc)
    · rw [List.mem_singleton.mp hc, hn]
      exact Nat.lt_succ_self n

/-- What the reader read in the log itself becomes old in the feed. -/
theorem advance {m : Nat} (h : Fed seq last n feed log) (hnm : n ≤ m) (hm : m ≤ log.length)
    (hopen : ∀ a ∈ log.take m, last a = false) : Fed seq last m feed log := by
  induction hnm with
  | refl => exact h
  | @step m hnm ih =>
    have hbefore : ∀ a ∈ log.take m, last a = false := fun a ha =>
      hopen a (List.take_subset_take_left log (Nat.le_succ m) ha)
    refine (ih (Nat.le_of_succ_le hm) hbefore).next hseq hm (fun a ha => hopen a ?_)
    rw [List.take_add_one, Option.mem_def.mp ha]
    exact List.mem_append_right _ (List.mem_singleton.mpr rfl)

end numbered

end Fed

end Solvio.Lib
