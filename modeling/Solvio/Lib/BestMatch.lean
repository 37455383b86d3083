import Mathlib.Data.List.Nodup

namespace Solvio.Lib

variable {α : Type u}

/-- What meets the first criterion that anything meets. -/
def bestMatches : List (α → Bool) → List α → List α
  | [], _ => []
  | p :: ps, pool => if pool.filter p = [] then bestMatches ps pool else pool.filter p

/-- How well something fits: the place of the first criterion that it meets. -/
def rank : List (α → Bool) → α → Option Nat
  | [], _ => none
  | p :: ps, a => if p a then some 0 else (rank ps a).map (· + 1)

/-- The one that fits best: everything else fits less or not at all. -/
structure SoleBest (ps : List (α → Bool)) (pool : List α) (a : α) : Prop where
  mem : a ∈ pool
  best : ∃ k, rank ps a = some k ∧ ∀ b ∈ pool, b ≠ a → ∀ j, rank ps b = some j → k < j

theorem sole_next {p : α → Bool} {ps : List (α → Bool)} {pool : List α} {a : α}
    (h : pool.filter p = []) : SoleBest (p :: ps) pool a ↔ SoleBest ps pool a := by
  have hno : ∀ b ∈ pool, rank (p :: ps) b = (rank ps b).map (· + 1) := by
    intro b hb
    have := List.filter_eq_nil_iff.mp h b hb
    simp [rank, this]
  constructor
  · rintro ⟨hmem, k, hk, hall⟩
    rw [hno a hmem] at hk
    obtain ⟨k', hk', rfl⟩ := Option.map_eq_some_iff.mp hk
    refine ⟨hmem, k', hk', fun b hb hne j hj => ?_⟩
    have := hall b hb hne (j + 1) (by rw [hno b hb, hj]; rfl)
    omega
  · rintro ⟨hmem, k, hk, hall⟩
    refine ⟨hmem, k + 1, by rw [hno a hmem, hk]; rfl, fun b hb hne j hj => ?_⟩
    rw [hno b hb] at hj
    obtain ⟨j', hj', rfl⟩ := Option.map_eq_some_iff.mp hj
    have := hall b hb hne j' hj'
    omega

theorem sole_here {p : α → Bool} {ps : List (α → Bool)} {pool : List α} {a : α}
    (hnodup : pool.Nodup) (h : pool.filter p ≠ []) :
    SoleBest (p :: ps) pool a ↔ pool.filter p = [a] := by
  have hzero : ∀ b, p b = true → rank (p :: ps) b = some 0 := fun b hb => by simp [rank, hb]
  constructor
  · rintro ⟨hmem, k, hk, hall⟩
    have honly : ∀ b ∈ pool.filter p, b = a := by
      intro b hb
      obtain ⟨hpool, hp⟩ := List.mem_filter.mp hb
      by_contra hne
      exact absurd (hall b hpool hne 0 (hzero b hp)) (Nat.not_lt_zero k)
    have hfilter : (pool.filter p).Nodup := hnodup.filter p
    cases hcases : pool.filter p with
    | nil => exact absurd hcases h
    | cons b bs =>
      rw [hcases] at honly hfilter
      obtain rfl := honly b (List.mem_cons_self ..)
      cases bs with
      | nil => rfl
      | cons c cs =>
        obtain rfl := honly c (List.mem_cons_of_mem _ (List.mem_cons_self ..))
        simp at hfilter
  · intro hone
    have ha : a ∈ pool.filter p := hone ▸ List.mem_singleton_self a
    obtain ⟨hmem, hp⟩ := List.mem_filter.mp ha
    refine ⟨hmem, 0, hzero a hp, fun b hb hne j hj => ?_⟩
    apply Nat.pos_of_ne_zero
    rintro rfl
    have hpb : p b = true := by
      by_contra hno
      simp only [rank, hno, if_false] at hj
      obtain ⟨i, -, hi⟩ := Option.map_eq_some_iff.mp hj
      omega
    have : b ∈ pool.filter p := List.mem_filter.mpr ⟨hb, hpb⟩
    rw [hone, List.mem_singleton] at this
    exact hne this

/-- There is one match if and only if one thing fits best. -/
theorem best_sole {ps : List (α → Bool)} {pool : List α} {a : α} (hnodup : pool.Nodup) :
    bestMatches ps pool = [a] ↔ SoleBest ps pool a := by
  induction ps with
  | nil =>
    refine ⟨fun h => (by cases h), ?_⟩
    rintro ⟨-, k, hk, -⟩
    cases hk
  | cons p ps ih =>
    by_cases h : pool.filter p = []
    · rw [bestMatches, if_pos h, sole_next h, ih]
    · rw [bestMatches, if_neg h, sole_here hnodup h]

theorem SoleBest.unique {ps : List (α → Bool)} {pool : List α} {a b : α}
    (ha : SoleBest ps pool a) (hb : SoleBest ps pool b) : a = b := by
  obtain ⟨k, hk, hall⟩ := ha.best
  obtain ⟨j, hj, hall'⟩ := hb.best
  by_contra hne
  have h1 := hall b hb.mem (Ne.symm hne) j hj
  have h2 := hall' a ha.mem hne k hk
  omega

/-- What fits best among many fits best among fewer. -/
theorem SoleBest.filter {ps : List (α → Bool)} {pool : List α} {a : α} (h : SoleBest ps pool a)
    (q : α → Bool) (hq : q a = true) : SoleBest ps (pool.filter q) a := by
  obtain ⟨k, hk, hall⟩ := h.best
  exact ⟨List.mem_filter.mpr ⟨h.mem, hq⟩, k, hk,
    fun b hb hne j hj => hall b (List.mem_filter.mp hb).1 hne j hj⟩

end Solvio.Lib
