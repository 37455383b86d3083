import Mathlib.Algebra.Order.Floor.Semiring
import Mathlib.Data.Rat.Floor
import Mathlib.Data.List.Range
import Mathlib.Tactic.Linarith

namespace Solvio.Lib

/-! ### Bisection in a spread sequence -/

/-- How many members of a sequence are not above a value, if they are at least
`gap` apart. -/
def bisect (f : Nat → Rat) (gap t : Rat) : Nat :=
  (List.range (⌊(t - f 0) / gap⌋₊ + 1)).countP (fun n => f n ≤ t)

section
variable {f : Nat → Rat} {gap : Rat}

theorem spread_le (hf : ∀ n, f n + gap ≤ f (n + 1)) (n k : Nat) : f n + k * gap ≤ f (n + k) := by
  induction k with
  | zero => simp
  | succ k ih =>
    have hstep := hf (n + k)
    rw [← Nat.add_assoc]
    push_cast
    linarith

theorem spread_mono (hf : ∀ n, f n + gap ≤ f (n + 1)) (hgap : 0 < gap) {n m : Nat} (h : n ≤ m) :
    f n ≤ f m := by
  obtain ⟨k, rfl⟩ := Nat.exists_eq_add_of_le h
  have hle := spread_le hf n k
  have hpos : 0 ≤ k * gap := by positivity
  linarith

theorem count_below {p : Nat → Bool} {k : Nat} (hp : ∀ i, p i = true ↔ i < k) (n : Nat) :
    (List.range n).countP p = min n k := by
  induction n with
  | zero => simp
  | succ n ih =>
    rw [List.range_succ, List.countP_append, ih, List.countP_singleton]
    by_cases hn : n < k
    · rw [if_pos ((hp n).mpr hn)]
      omega
    · rw [if_neg (fun h => hn ((hp n).mp h))]
      omega

/-- The bisection cuts the sequence. -/
theorem lt_bisect (hf : ∀ n, f n + gap ≤ f (n + 1)) (hgap : 0 < gap) {n : Nat} {t : Rat} :
    n < bisect f gap t ↔ f n ≤ t := by
  have hbound : ∀ m, f m ≤ t → m < ⌊(t - f 0) / gap⌋₊ + 1 := by
    intro m hm
    have hle := spread_le hf 0 m
    rw [Nat.zero_add] at hle
    rw [Nat.lt_succ_iff]
    apply Nat.le_floor
    rw [le_div_iff₀ hgap]
    linarith
  have hex : ∃ m, ¬ f m ≤ t := ⟨_, fun h => absurd (hbound _ h) (lt_irrefl _)⟩
  have hcut : ∀ m, decide (f m ≤ t) = true ↔ m < Nat.find hex := by
    intro m
    rw [decide_eq_true_eq, Nat.lt_find_iff]
    exact ⟨fun h k hk => not_not.mpr ((spread_mono hf hgap hk).trans h),
      fun h => not_not.mp (h m le_rfl)⟩
  rw [bisect, count_below hcut, lt_min_iff, ← hcut, decide_eq_true_eq]
  exact ⟨fun h => h.2, fun h => ⟨hbound n h, h⟩⟩

end

/-! ### Zones -/

/-- The offsets of a time zone in seconds: `offset n` holds in front of the
transition `instant n`, and `offset (n + 1)` from it on. -/
structure Offsets where
  instant : Nat → Rat
  offset : Nat → Rat
  apart : ∀ n, instant n + 604800 ≤ instant (n + 1)
  forward : ∀ n, offset (n + 1) ≤ offset n + 7200
  back : ∀ n, offset n ≤ offset (n + 1) + 7200

namespace Offsets

variable (Z : Offsets)

/-- How many transitions an instant is behind. -/
def passed (t : Rat) : Nat := bisect Z.instant 604800 t

/-- The wall clock of an instant. -/
def clock (t : Rat) : Rat := t + Z.offset (Z.passed t)

/-- What the clock shows at a transition at most, before it or after it. -/
def high (n : Nat) : Rat := Z.instant n + max (Z.offset n) (Z.offset (n + 1))

/-- The instant of a wall clock with `fold=0`: the first one of a doubled time,
and the offset of before in a gap. -/
def stamp (x : Rat) : Rat := x - Z.offset (bisect Z.high 597600 x)

theorem high_apart (n : Nat) : Z.high n + 597600 ≤ Z.high (n + 1) := by
  have hnext := Z.apart n
  have hback := Z.back n
  have hleft : Z.offset (n + 1) ≤ max (Z.offset (n + 1)) (Z.offset (n + 1 + 1)) := le_max_left _ _
  have hmax : max (Z.offset n) (Z.offset (n + 1)) ≤ Z.offset (n + 1) + 7200 :=
    max_le hback (by linarith)
  unfold high
  linarith

variable {Z}

theorem lt_passed {n : Nat} {t : Rat} : n < Z.passed t ↔ Z.instant n ≤ t :=
  lt_bisect Z.apart (by norm_num)

theorem lt_wall {n : Nat} {x : Rat} : n < bisect Z.high 597600 x ↔ Z.high n ≤ x :=
  lt_bisect Z.high_apart (by norm_num)

theorem passed_eq {n : Nat} {t : Rat} (hlow : ∀ m, m < n → Z.instant m ≤ t)
    (hhigh : t < Z.instant n) : Z.passed t = n := by
  apply le_antisymm
  · by_contra hlt
    exact absurd (Iff.mp lt_passed (not_le.mp hlt)) (not_le.mpr hhigh)
  · by_contra hlt
    exact absurd (Iff.mpr lt_passed (hlow _ (not_le.mp hlt))) (lt_irrefl _)

theorem before_next (t : Rat) : t < Z.instant (Z.passed t) := by
  by_contra hle
  exact absurd (Iff.mpr lt_passed (not_lt.mp hle)) (lt_irrefl _)

theorem passed_mono {t u : Rat} (h : t ≤ u) : Z.passed t ≤ Z.passed u := by
  by_contra hlt
  have hle := Iff.mp lt_passed (not_le.mp hlt)
  exact absurd (Iff.mpr lt_passed (hle.trans h)) (lt_irrefl _)

theorem instant_mono {n m : Nat} (h : n ≤ m) : Z.instant n ≤ Z.instant m :=
  spread_mono Z.apart (by norm_num) h

theorem high_mono {n m : Nat} (h : n ≤ m) : Z.high n ≤ Z.high m :=
  spread_mono Z.high_apart (by norm_num) h

/-- Offsets change by two hours at most with each transition. -/
theorem offset_back (n k : Nat) : Z.offset n ≤ Z.offset (n + k) + k * 7200 := by
  induction k with
  | zero => simp
  | succ k ih =>
    have hback := Z.back (n + k)
    rw [← Nat.add_assoc]
    push_cast
    linarith

theorem offset_forward (n k : Nat) : Z.offset (n + k) ≤ Z.offset n + k * 7200 := by
  induction k with
  | zero => simp
  | succ k ih =>
    have hforward := Z.forward (n + k)
    rw [← Nat.add_assoc]
    push_cast
    linarith

/-- Whole weeks pass between transitions. -/
theorem weeks_between {t u : Rat} {k : Nat} (h : Z.passed t + (k + 1) = Z.passed u) :
    t + k * 604800 ≤ u := by
  have hbefore := before_next (Z := Z) t
  have hspread := spread_le Z.apart (Z.passed t) k
  have hafter : Z.instant (Z.passed t + k) ≤ u := Iff.mp lt_passed (by omega)
  linarith

/-- The clock goes back by two hours at most. -/
theorem clock_back {t u : Rat} (h : t ≤ u) : Z.clock t ≤ Z.clock u + 7200 := by
  obtain ⟨k, hk⟩ := Nat.exists_eq_add_of_le (passed_mono (Z := Z) h)
  have hoff := offset_back (Z := Z) (Z.passed t) k
  rw [← hk] at hoff
  unfold clock
  rcases Nat.eq_zero_or_pos k with rfl | hpos
  · simp only [Nat.cast_zero, zero_mul, add_zero] at hoff
    linarith
  · obtain ⟨j, rfl⟩ := Nat.exists_eq_succ_of_ne_zero (Nat.pos_iff_ne_zero.mp hpos)
    have hweeks := weeks_between (Z := Z) (k := j) hk.symm
    have hj : (0 : Rat) ≤ j := Nat.cast_nonneg j
    push_cast at hoff
    nlinarith

/-- In less than a week the clock goes forward by two hours at most, besides
the time that passes. -/
theorem clock_forward {t u : Rat} (h : t ≤ u) (hnear : u < t + 604800) :
    Z.clock u ≤ Z.clock t + (u - t) + 7200 := by
  obtain ⟨k, hk⟩ := Nat.exists_eq_add_of_le (passed_mono (Z := Z) h)
  have hoff := offset_forward (Z := Z) (Z.passed t) k
  rw [← hk] at hoff
  unfold clock
  have hsmall : k ≤ 1 := by
    by_contra hbig
    obtain ⟨j, rfl⟩ : ∃ j, k = j + 1 + 1 := ⟨k - 2, by omega⟩
    have hweeks := weeks_between (Z := Z) (k := j + 1) hk.symm
    have hj : (0 : Rat) ≤ j := Nat.cast_nonneg j
    push_cast at hweeks
    nlinarith
  have hcast : (k : Rat) ≤ 1 := by exact_mod_cast hsmall
  linarith

/-! ### The instant of a clock -/

/-- The transition `n` skips a time. -/
def Skips (Z : Offsets) (n : Nat) (x : Rat) : Prop :=
  Z.instant n + Z.offset n ≤ x ∧ x < Z.instant n + Z.offset (n + 1)

/-- A time that is skipped is seen by the transition in front of which the
bisection stands. -/
theorem Skips.wall {n : Nat} {x : Rat} (h : Skips Z n x) : bisect Z.high 597600 x = n := by
  obtain ⟨hlow, hhigh⟩ := h
  apply le_antisymm
  · by_contra hlt
    have hle := Iff.mp lt_wall (not_le.mp hlt)
    have hmax : Z.offset (n + 1) ≤ max (Z.offset n) (Z.offset (n + 1)) := le_max_right _ _
    unfold high at hle
    linarith
  · by_contra hlt
    refine absurd (Iff.mpr lt_wall ?_) (lt_irrefl (bisect Z.high 597600 x))
    have hlt := not_le.mp hlt
    set m := bisect Z.high 597600 x with hm
    obtain ⟨j, hj⟩ : ∃ j, n = m + 1 + j := ⟨n - (m + 1), by omega⟩
    have hspread := spread_le Z.apart (m + 1) j
    have hoff := offset_back (Z := Z) (m + 1) j
    have hnext := Z.apart m
    have hstep := Z.back m
    have hmax : max (Z.offset m) (Z.offset (m + 1)) ≤ Z.offset (m + 1) + 7200 :=
      max_le hstep (by linarith)
    rw [← hj] at hspread hoff
    have hj0 : (0 : Rat) ≤ j := Nat.cast_nonneg j
    unfold high
    nlinarith

/-- The clock shows the time it was asked for, or this time is skipped and the
clock is as far ahead as the gap is long. -/
theorem clock_stamp (Z : Offsets) (x : Rat) :
    (Z.clock (Z.stamp x) = x ∧ ∀ n, ¬ Skips Z n x) ∨
    ∃ n, Skips Z n x ∧ Z.stamp x = x - Z.offset n ∧ Z.instant n ≤ Z.stamp x ∧
      Z.clock (Z.stamp x) = x + (Z.offset (n + 1) - Z.offset n) := by
  set n := bisect Z.high 597600 x with hn
  have hstamp : Z.stamp x = x - Z.offset n := rfl
  have hbelow : x < Z.high n := by
    by_contra hle
    exact absurd (lt_wall.mpr (not_lt.mp hle)) (lt_irrefl _)
  have hlow : ∀ m, m < n → Z.instant m ≤ x - Z.offset n := by
    intro m hm
    have hpred : n - 1 < bisect Z.high 597600 x := by omega
    have hhigh := lt_wall.mp hpred
    have hsucc : n - 1 + 1 = n := by omega
    have hmax : Z.offset (n - 1 + 1) ≤ max (Z.offset (n - 1)) (Z.offset (n - 1 + 1)) :=
      le_max_right _ _
    have hmono := instant_mono (Z := Z) (show m ≤ n - 1 by omega)
    rw [high] at hhigh
    rw [hsucc] at hmax hhigh
    linarith
  by_cases hgap : x < Z.instant n + Z.offset n
  · refine .inl ⟨?_, fun m hskip => ?_⟩
    · have hpassed : Z.passed (x - Z.offset n) = n := passed_eq hlow (by linarith)
      rw [hstamp, clock, hpassed]
      ring
    · have hm := hskip.wall
      rw [← hn] at hm
      subst hm
      exact absurd hskip.1 (not_le.mpr hgap)
  · have hgap := not_lt.mp hgap
    have hup : x < Z.instant n + Z.offset (n + 1) := by
      rcases max_cases (Z.offset n) (Z.offset (n + 1)) with ⟨hmax, -⟩ | ⟨hmax, -⟩
      · rw [high, hmax] at hbelow
        exact absurd hbelow (not_lt.mpr hgap)
      · rwa [high, hmax] at hbelow
    refine .inr ⟨n, ⟨hgap, hup⟩, hstamp, by linarith, ?_⟩
    have hforward := Z.forward n
    have hnext := Z.apart n
    have hpassed : Z.passed (x - Z.offset n) = n + 1 := by
      apply passed_eq
      · intro m hm
        have hmono := instant_mono (Z := Z) (show m ≤ n by omega)
        linarith
      · linarith
    rw [hstamp, clock, hpassed]
    ring

/-- The first instant at which the clock is not behind a time. -/
def first (Z : Offsets) (x : Rat) : Rat :=
  min (Z.stamp x) (Z.instant (bisect Z.high 597600 x))

theorem first_shown {x : Rat} (h : ∀ n, ¬ Skips Z n x) : Z.first x = Z.stamp x ∧
    Z.clock (Z.first x) = x := by
  rcases clock_stamp Z x with ⟨hclock, -⟩ | ⟨n, hskip, -⟩
  · have hle : Z.stamp x ≤ Z.instant (bisect Z.high 597600 x) := by
      by_contra hlt
      have hn := h (bisect Z.high 597600 x)
      have hbelow : x < Z.high (bisect Z.high 597600 x) := by
        by_contra hle
        exact absurd (lt_wall.mpr (not_lt.mp hle)) (lt_irrefl _)
      have hlow : Z.instant (bisect Z.high 597600 x) + Z.offset (bisect Z.high 597600 x) ≤ x := by
        have hlt := not_le.mp hlt
        unfold stamp at hlt
        linarith
      refine hn ⟨hlow, ?_⟩
      rcases max_cases (Z.offset (bisect Z.high 597600 x))
        (Z.offset (bisect Z.high 597600 x + 1)) with ⟨hmax, -⟩ | ⟨hmax, -⟩
      · rw [high, hmax] at hbelow
        exact absurd hbelow (not_lt.mpr hlow)
      · rwa [high, hmax] at hbelow
    rw [first, min_eq_left hle]
    exact ⟨rfl, hclock⟩
  · exact absurd hskip (h n)

theorem first_skipped {n : Nat} {x : Rat} (h : Skips Z n x) : Z.first x = Z.instant n ∧
    Z.clock (Z.first x) = Z.instant n + Z.offset (n + 1) := by
  have hfirst : Z.first x = Z.instant n := by
    rw [first, stamp, h.wall]
    apply min_eq_right
    linarith [h.1]
  have hpassed : Z.passed (Z.instant n) = n + 1 := by
    apply passed_eq
    · exact fun m hm => instant_mono (by omega)
    · have hnext := Z.apart n
      linarith
  rw [hfirst, clock, hpassed]
  exact ⟨rfl, rfl⟩

theorem not_skips_or (Z : Offsets) (x : Rat) : (∀ n, ¬ Skips Z n x) ∨ ∃ n, Skips Z n x := by
  rcases clock_stamp Z x with ⟨-, h⟩ | ⟨n, h, -⟩
  · exact .inl h
  · exact .inr ⟨n, h⟩

theorem le_clock_first (x : Rat) : x ≤ Z.clock (Z.first x) ∧ Z.clock (Z.first x) ≤ x + 7200 := by
  rcases not_skips_or Z x with h | ⟨n, h⟩
  · rw [(first_shown h).2]
    exact ⟨le_rfl, by linarith⟩
  · rw [(first_skipped h).2]
    have hforward := Z.forward n
    obtain ⟨hlow, hhigh⟩ := h
    exact ⟨by linarith, by linarith⟩

/-- In front of it the clock is behind. -/
theorem clock_before_first {x v : Rat} (h : v < Z.first x) : Z.clock v < x := by
  set n := bisect Z.high 597600 x with hn
  have hv := before_next (Z := Z) v
  have hle : Z.passed v ≤ n := by
    by_contra hlt
    have hafter := lt_passed.mp (not_le.mp hlt)
    have hmin : Z.first x ≤ Z.instant n := min_le_right _ _
    linarith
  rcases Nat.lt_or_eq_of_le hle with hlt | heq
  · have hhigh := lt_wall.mp (hn ▸ hlt)
    have hmax : Z.offset (Z.passed v) ≤ max (Z.offset (Z.passed v)) (Z.offset (Z.passed v + 1)) :=
      le_max_left _ _
    unfold high at hhigh
    unfold clock
    linarith
  · have hmin : Z.first x ≤ Z.stamp x := min_le_left _ _
    rw [clock, heq]
    unfold stamp at hmin
    rw [← hn] at hmin
    linarith

theorem first_mono {x y : Rat} (h : x ≤ y) : Z.first x ≤ Z.first y := by
  by_contra hlt
  have hclock := clock_before_first (not_le.mp hlt)
  linarith [(le_clock_first (Z := Z) y).1]

/-- Times that are more than two hours apart have different first instants. -/
theorem first_strict {x y : Rat} (h : x + 7200 < y) : Z.first x < Z.first y := by
  by_contra hle
  have heq := le_antisymm (first_mono (Z := Z) (show x ≤ y by linarith)) (not_lt.mp hle)
  have hx := (le_clock_first (Z := Z) x).2
  have hy := (le_clock_first (Z := Z) y).1
  rw [heq] at hx
  linarith

/-- From it on the clock is behind by two hours at most. -/
theorem clock_after_first {x v : Rat} (h : Z.first x ≤ v) : x ≤ Z.clock v + 7200 :=
  (le_clock_first (Z := Z) x).1.trans (clock_back h)

/-- Up to the next transition the offset stays. -/
theorem clock_between {n : Nat} {t : Rat} (hlow : Z.instant n ≤ t) (hhigh : t < Z.instant (n + 1)) :
    Z.clock t = t + Z.offset (n + 1) := by
  have hpassed : Z.passed t = n + 1 := by
    apply passed_eq
    · exact fun m hm => (instant_mono (by omega)).trans hlow
    · exact hhigh
  rw [clock, hpassed]

/-- A time that is skipped is never shown later. -/
theorem Skips.passed_by {n : Nat} {x v : Rat} (h : Skips Z n x) (hv : Z.instant n ≤ v) :
    x < Z.clock v := by
  have hpassed : n < Z.passed v := lt_passed.mpr hv
  obtain ⟨j, hj⟩ : ∃ j, Z.passed v = n + 1 + j := ⟨Z.passed v - (n + 1), by omega⟩
  have hafter : Z.instant (n + j) ≤ v := lt_passed.mp (by omega)
  have hspread := spread_le Z.apart n j
  have hoff := offset_back (Z := Z) (n + 1) j
  have hj0 : (0 : Rat) ≤ j := Nat.cast_nonneg j
  rw [clock, hj]
  have hend := h.2
  nlinarith

/-- The end of a gap is its transition, and the next clock is reached from there. -/
theorem first_behind_gap {n : Nat} {x y : Rat} (h : Skips Z n x)
    (hlow : Z.instant n + Z.offset (n + 1) ≤ y)
    (hhigh : y ≤ Z.instant n + Z.offset (n + 1) + 7200) :
    (∀ m, ¬ Skips Z m y) ∧ Z.stamp y = y - Z.offset (n + 1) := by
  have hnext := Z.apart n
  have hclock : Z.clock (y - Z.offset (n + 1)) = y := by
    rw [clock_between (n := n) (by linarith) (by linarith)]
    ring
  have hle : Z.first y ≤ y - Z.offset (n + 1) := by
    by_contra hlt
    have hbefore := clock_before_first (not_le.mp hlt)
    linarith
  have hge : Z.instant n ≤ Z.first y := by
    have hmono := first_mono (Z := Z) (h.2.le.trans hlow)
    rwa [(first_skipped h).1] at hmono
  have hshown : ∀ m, ¬ Skips Z m y := by
    intro m hskip
    have hbehind := hskip.passed_by (v := y - Z.offset (n + 1)) ((first_skipped hskip).1 ▸ hle)
    linarith
  obtain ⟨hfirst, hreads⟩ := first_shown hshown
  rw [clock_between hge (lt_of_le_of_lt hle (by linarith))] at hreads
  refine ⟨hshown, ?_⟩
  rw [← hfirst]
  linarith

end Offsets

end Solvio.Lib
