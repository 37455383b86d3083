import Mathlib
import Solvio.Lib.Zones
import Solvio.Proactive.Schedule

namespace Solvio.Proactive
open Solvio.Lib Solvio.Lib.Offsets

/-- The zone of a table of offsets. -/
def zoneOf (Z : Offsets) : Zone where
  naive t := ⌊Z.clock t / 60⌋
  stamp m := Z.stamp (60 * m)

/-! ### Occurrences -/

/-- The local time a schedule names on a day, in seconds. -/
def Schedule.due (s : Schedule) (day : Int) : Rat :=
  60 * ((day * 1440 + s.hour * 60 + s.minute : Int) : Rat)

def Schedule.Eligible (s : Schedule) (day : Int) : Prop :=
  s.kind = .weekly → Schedule.weekday day ∈ s.weekdays

instance (s : Schedule) (day : Int) : Decidable (s.Eligible day) :=
  inferInstanceAs (Decidable (_ → _))

/-- The first instant with a wall clock, or the end of the gap it falls into. -/
def Occurs (Z : Offsets) (x u : Rat) : Prop :=
  (Z.clock u = x ∧ ∀ v < u, Z.clock v ≠ x) ∨
  ((∀ v, Z.clock v ≠ x) ∧ (∀ v < u, Z.clock v < x) ∧ ∀ v, u ≤ v → x < Z.clock v)

variable {Z : Offsets} {s : Schedule}

theorem occurs_first (Z : Offsets) (x : Rat) : Occurs Z x (Z.first x) := by
  rcases not_skips_or Z x with h | ⟨n, h⟩
  · exact .inl ⟨(first_shown h).2, fun v hv => (clock_before_first hv).ne⟩
  · have hpast : ∀ v, Z.first x ≤ v → x < Z.clock v :=
      fun v hv => h.passed_by ((first_skipped h).1 ▸ hv)
    refine .inr ⟨fun v => ?_, fun v hv => clock_before_first hv, hpast⟩
    rcases lt_or_ge v (Z.first x) with hv | hv
    · exact (clock_before_first hv).ne
    · exact (hpast v hv).ne'

/-- Each wall clock has one occurrence. -/
theorem occurs_iff {x u : Rat} : Occurs Z x u ↔ u = Z.first x := by
  refine ⟨fun h => ?_, fun h => h ▸ occurs_first Z x⟩
  rcases h with ⟨hshows, hearlier⟩ | ⟨hnever, hbehind, hpast⟩
  · have hle : Z.first x ≤ u := by
      by_contra hlt
      exact (clock_before_first (not_le.mp hlt)).ne hshows
    rcases occurs_first Z x with ⟨hfirst, -⟩ | ⟨hnever, -⟩
    · by_contra hne
      exact hearlier _ (lt_of_le_of_ne hle (Ne.symm hne)) hfirst
    · exact absurd hshows (hnever u)
  · apply le_antisymm
    · by_contra hlt
      exact absurd (hbehind _ (not_le.mp hlt)) (not_lt.mpr (le_clock_first x).1)
    · by_contra hlt
      exact absurd (hpast u le_rfl) (not_lt.mpr (clock_before_first (not_le.mp hlt)).le)

theorem due_shift (s : Schedule) {d e : Int} (h : d < e) : s.due d + 86400 ≤ s.due e := by
  have hle : ((d + 1 : Int) : Rat) ≤ e := by exact_mod_cast h
  unfold Schedule.due
  push_cast at hle ⊢
  linarith

/-- The time of a day lies in this day. -/
theorem due_between (hs : s.kind = .daily ∨ s.kind = .weekly) (day : Int) :
    86400 * (day : Rat) ≤ s.due day ∧ s.due day < 86400 * (day + 1) := by
  obtain ⟨⟨hh0, hh⟩, hm0, hm⟩ := s.valid.clock hs
  have hlow : 0 ≤ s.hour * 60 + s.minute := by omega
  have hhigh : s.hour * 60 + s.minute ≤ 1439 := by omega
  have hlow : (0 : Rat) ≤ ((s.hour * 60 + s.minute : Int) : Rat) := by exact_mod_cast hlow
  have hhigh : ((s.hour * 60 + s.minute : Int) : Rat) ≤ 1439 := by exact_mod_cast hhigh
  unfold Schedule.due
  push_cast at hlow hhigh ⊢
  constructor
  · linarith
  · linarith

/-! ### The wall clock of a day -/

theorem range_find {α : Type} {f : Nat → Option α} {n k : Nat} {a : α} (hk : k < n)
    (hbefore : ∀ j < k, f j = none) (hfound : f k = some a) :
    (List.range n).findSome? f = some a := by
  obtain ⟨j, rfl⟩ := Nat.exists_eq_add_of_lt hk
  rw [show k + j + 1 = k + (j + 1) by omega, List.range_add, List.findSome?_append,
    List.findSome?_eq_none_iff.mpr (fun i hi => hbefore i (List.mem_range.mp hi))]
  rw [List.range_succ_eq_map]
  simp [hfound]

/-- A minute is read back from its stamp, unless it is skipped by a gap of a
minute or more. -/
theorem read_back (m : Int) : (zoneOf Z).naive ((zoneOf Z).stamp m) % 1440 = m % 1440 ↔
    ∀ n, Skips Z n (60 * m) → Z.offset (n + 1) - Z.offset n < 60 := by
  simp only [zoneOf]
  rcases clock_stamp Z (60 * m) with ⟨hclock, hshown⟩ | ⟨n, hskip, -, -, hclock⟩
  · rw [hclock, mul_div_cancel_left₀ (m : Rat) (by norm_num), Int.floor_intCast]
    exact ⟨fun _ n hn => absurd hn (hshown n), fun _ => rfl⟩
  · set gap := Z.offset (n + 1) - Z.offset n with hgap
    have hpos : 0 < gap := by linarith [hskip.1, hskip.2]
    have hbound : gap ≤ 7200 := by linarith [Z.forward n]
    have hfloor : ⌊(60 * m + gap) / 60⌋ = m + ⌊gap / 60⌋ := by
      rw [show (60 * (m : Rat) + gap) / 60 = m + gap / 60 by ring, Int.floor_intCast_add]
    have hlow : 0 ≤ ⌊gap / 60⌋ := Int.floor_nonneg.mpr (by positivity)
    have hhigh : ⌊gap / 60⌋ ≤ 120 := by
      have hle : gap / 60 ≤ ((120 : Int) : Rat) := by push_cast; linarith
      exact_mod_cast (Int.floor_le (gap / 60)).trans hle
    have hzero : ⌊gap / 60⌋ = 0 ↔ gap < 60 := by
      rw [Int.floor_eq_zero_iff, Set.mem_Ico, div_lt_one (by norm_num)]
      exact ⟨fun h => h.2, fun h => ⟨by positivity, h⟩⟩
    rw [hclock, hfloor]
    refine ⟨fun h k hk => ?_, fun h => ?_⟩
    · obtain rfl : k = n := hk.wall.symm.trans hskip.wall
      exact hzero.mp (by omega)
    · rw [hzero.mpr (h n hskip), Int.add_zero]

/-- Where the occurrence of a day is met: a gap of less than a minute has to
start there, and a longer one has to end on a whole minute. -/
def Exact (Z : Offsets) (x : Rat) : Prop :=
  ∀ n, Skips Z n x → if Z.offset (n + 1) - Z.offset n < 60 then x = Z.instant n + Z.offset n
    else ∃ k : Int, Z.instant n + Z.offset (n + 1) = 60 * k

theorem probe_wall (s : Schedule) (day : Int) {k : Nat} (hk : k < 180)
    (hbefore : ∀ j < k, ∃ n, Skips Z n (s.due day + 60 * j) ∧
      60 ≤ Z.offset (n + 1) - Z.offset n)
    (hfound : ∀ n, Skips Z n (s.due day + 60 * k) → Z.offset (n + 1) - Z.offset n < 60) :
    s.wallClock (zoneOf Z) day = some (Z.stamp (s.due day + 60 * k)) := by
  have hprobe : ∀ j : Nat, (60 : Rat) * ((day * 1440 + s.hour * 60 + s.minute + j : Int) : Rat) =
      s.due day + 60 * j := by
    intro j
    unfold Schedule.due
    push_cast
    ring
  unfold Schedule.wallClock
  rw [List.findSome?_map]
  apply range_find hk
  · intro j hj
    obtain ⟨n, hskip, hgap⟩ := hbefore j hj
    simp only [Function.comp]
    rw [if_neg]
    intro hread
    have hsmall := read_back _ |>.mp hread n (hprobe j ▸ hskip)
    linarith
  · simp only [Function.comp]
    rw [if_pos]
    · simp only [zoneOf, hprobe]
    · apply (read_back _).mpr
      intro n hskip
      exact hfound n (hprobe k ▸ hskip)

/-- A gap of a minute or more is left at the first whole minute behind it. -/
theorem wall_behind_gap {n : Nat} {day : Int} (hskip : Skips Z n (s.due day))
    (hgap : 60 ≤ Z.offset (n + 1) - Z.offset n) :
    ∃ m : Int, s.wallClock (zoneOf Z) day = some (60 * m - Z.offset (n + 1)) ∧
      Z.instant n + Z.offset (n + 1) ≤ 60 * m ∧ 60 * m < Z.instant n + Z.offset (n + 1) + 60 := by
  have hforward := Z.forward n
  obtain ⟨hlow, hhigh⟩ := hskip
  set x := s.due day with hx
  set behind := Z.instant n + Z.offset (n + 1) with hbehind
  set k := ⌈(behind - x) / 60⌉₊ with hk
  have hpos : 0 ≤ (behind - x) / 60 := by
    apply div_nonneg
    · linarith
    · norm_num
  have hreach : behind ≤ x + 60 * k := by
    have hle := Nat.le_ceil ((behind - x) / 60)
    rw [← hk, div_le_iff₀ (by norm_num)] at hle
    linarith
  have hnear : x + 60 * k < behind + 60 := by
    have hlt := Nat.ceil_lt_add_one hpos
    rw [← hk, ← sub_lt_iff_lt_add, lt_div_iff₀ (by norm_num)] at hlt
    linarith
  have hbound : k < 180 := by
    have hlt : (k : Rat) < 180 := by linarith
    exact_mod_cast hlt
  obtain ⟨hshown, hstamp⟩ :=
    first_behind_gap (y := x + 60 * k) ⟨hlow, hhigh⟩ hreach (by linarith)
  have hwall := probe_wall (Z := Z) s day hbound (fun j hj => by
    refine ⟨n, ⟨?_, ?_⟩, hgap⟩
    · have hj0 : (0 : Rat) ≤ j := Nat.cast_nonneg j
      linarith
    · have hle := Nat.lt_ceil.mp hj
      rw [lt_div_iff₀ (by norm_num)] at hle
      linarith) (fun m hm => absurd hm (hshown m))
  have hminute : x + 60 * k = 60 * ((day * 1440 + s.hour * 60 + s.minute + k : Int) : Rat) := by
    rw [hx, Schedule.due]
    push_cast
    ring
  rw [← hx, hstamp] at hwall
  rw [hminute] at hwall hreach hnear
  exact ⟨_, hwall, hreach, hnear⟩

/-- The wall clock of a day is less than a minute behind its occurrence. -/
theorem wall_clock (Z : Offsets) (s : Schedule) (day : Int) :
    ∃ w, s.wallClock (zoneOf Z) day = some w ∧ Z.first (s.due day) ≤ w ∧
      w < Z.first (s.due day) + 60 ∧ (w = Z.first (s.due day) ↔ Exact Z (s.due day)) := by
  set x := s.due day with hx
  by_cases hlong : ∃ n, Skips Z n x ∧ 60 ≤ Z.offset (n + 1) - Z.offset n
  · obtain ⟨n, hskip, hgap⟩ := hlong
    obtain ⟨m, hwall, hlow, hhigh⟩ := wall_behind_gap hskip hgap
    have hfirst := (first_skipped hskip).1
    refine ⟨_, hwall, by linarith, by linarith, fun heq k hk => ?_, fun hexact => ?_⟩
    · obtain rfl : k = n := hk.wall.symm.trans hskip.wall
      rw [if_neg (not_lt.mpr hgap)]
      exact ⟨m, by linarith⟩
    · have hend := hexact n hskip
      rw [if_neg (not_lt.mpr hgap)] at hend
      obtain ⟨c, hc⟩ := hend
      -- two whole minutes that are less than a minute apart
      have hle : c ≤ m := by
        have hle : (c : Rat) ≤ m := by linarith
        exact_mod_cast hle
      have hge : m < c + 1 := by
        have hlt : (m : Rat) < ((c + 1 : Int) : Rat) := by push_cast; linarith
        exact_mod_cast hlt
      obtain rfl : m = c := by omega
      linarith
  · have hshort : ∀ n, Skips Z n x → Z.offset (n + 1) - Z.offset n < 60 :=
      fun n hn => not_le.mp fun hgap => hlong ⟨n, hn, hgap⟩
    have hwall := probe_wall (Z := Z) s day (k := 0) (by norm_num)
      (fun j hj => absurd hj (by omega)) (by simpa using hshort)
    simp only [Nat.cast_zero, mul_zero, add_zero] at hwall
    refine ⟨_, hwall, ?_⟩
    rw [← hx]
    rcases not_skips_or Z x with hshown | ⟨n, hskip⟩
    · rw [(first_shown hshown).1]
      exact ⟨le_rfl, by linarith, fun _ n hn => absurd hn (hshown n), fun _ => rfl⟩
    · have hstamp : Z.stamp x = x - Z.offset n := by rw [stamp, hskip.wall]
      have hgap := hshort n hskip
      rw [(first_skipped hskip).1, hstamp]
      obtain ⟨hlow, hhigh⟩ := hskip
      refine ⟨by linarith, by linarith, fun heq m hm => ?_, fun hexact => ?_⟩
      · obtain rfl : m = n := hm.wall.symm.trans (Skips.wall ⟨hlow, hhigh⟩)
        rw [if_pos hgap]
        linarith
      · have hstart := hexact n ⟨hlow, hhigh⟩
        rw [if_pos hgap] at hstart
        linarith

/-! ### The scan of the days -/

/-- The local day of an instant. -/
def today (Z : Offsets) (t : Rat) : Int := (zoneOf Z).naive t / 1440

theorem today_between (Z : Offsets) (t : Rat) :
    86400 * (today Z t : Rat) ≤ Z.clock t ∧ Z.clock t < 86400 * (today Z t + 1) := by
  set m := ⌊Z.clock t / 60⌋ with hm
  have hday : today Z t = m / 1440 := rfl
  have hlow := Int.floor_le (Z.clock t / 60)
  have hhigh := Int.lt_floor_add_one (Z.clock t / 60)
  rw [← hm, le_div_iff₀ (by norm_num)] at hlow
  rw [← hm, div_lt_iff₀ (by norm_num)] at hhigh
  have hge : 1440 * (m / 1440) ≤ m := Int.mul_ediv_self_le (by norm_num)
  have hle : m + 1 ≤ 1440 * (m / 1440 + 1) := by omega
  have hge : (1440 : Rat) * ((m / 1440 : Int) : Rat) ≤ m := by exact_mod_cast hge
  have hle : (m : Rat) + 1 ≤ 1440 * (((m / 1440 : Int) : Rat) + 1) := by exact_mod_cast hle
  rw [hday]
  constructor
  · linarith
  · linarith

theorem next_after_scan (hs : s.kind = .daily ∨ s.kind = .weekly) (t : Rat) :
    s.nextAfter (zoneOf Z) t = (List.range 400).findSome? (fun k : Nat =>
      if s.Eligible (today Z t + k) then
        (s.wallClock (zoneOf Z) (today Z t + k)).filter (fun moment => t < moment)
      else none) := by
  unfold Schedule.nextAfter
  rcases hs with hs | hs
  · simp only [hs, List.findSome?_map, Schedule.Eligible, today, reduceCtorEq, false_and,
      false_implies, if_true, if_false]
    rfl
  · simp only [hs, List.findSome?_map, Schedule.Eligible, today, true_and, true_implies, ite_not]
    rfl

theorem next_found (hs : s.kind = .daily ∨ s.kind = .weekly) {t w : Rat} {d : Int}
    (hlow : today Z t ≤ d) (hhigh : d < today Z t + 400) (hday : s.Eligible d)
    (hwall : s.wallClock (zoneOf Z) d = some w) (hlater : t < w)
    (hpast : ∀ e v, today Z t ≤ e → e < d → s.Eligible e →
      s.wallClock (zoneOf Z) e = some v → v ≤ t) :
    s.nextAfter (zoneOf Z) t = some w := by
  obtain ⟨k, rfl⟩ : ∃ k : Nat, d = today Z t + k := ⟨(d - today Z t).toNat, by omega⟩
  rw [next_after_scan hs]
  apply range_find (k := k) (by omega)
  · intro j hj
    split
    · rename_i hj'
      obtain ⟨v, hv, -⟩ := wall_clock Z s (today Z t + j)
      have hle := hpast _ v (by omega) (by omega) hj' hv
      simp [hv, hle]
    · rfl
  · rw [if_pos hday, hwall]
    simp [hlater]

/-- A week has an eligible day. -/
theorem eligible_soon (hs : s.kind = .daily ∨ s.kind = .weekly) (d : Int) :
    ∃ e, d ≤ e ∧ e < d + 7 ∧ s.Eligible e := by
  rcases hs with hs | hs
  · exact ⟨d, le_rfl, by omega, fun h => by simp [hs] at h⟩
  · obtain ⟨w, hw⟩ := List.exists_mem_of_ne_nil _ (s.valid.named hs)
    have hbound := s.valid.days w hw
    refine ⟨d + (w - 3 - d) % 7, by omega, by omega, fun _ => ?_⟩
    have hweekday : Schedule.weekday (d + (w - 3 - d) % 7) = w := by
      unfold Schedule.weekday
      omega
    rw [hweekday]
    exact hw

theorem first_due_strict (Z : Offsets) (s : Schedule) {d e : Int} (h : d < e) :
    Z.first (s.due d) < Z.first (s.due e) := by
  apply first_strict
  have hshift := due_shift s h
  linarith

theorem first_due_mono (Z : Offsets) (s : Schedule) {d e : Int} (h : d ≤ e) :
    Z.first (s.due d) ≤ Z.first (s.due e) := by
  rcases eq_or_lt_of_le h with rfl | hlt
  · exact le_rfl
  · exact (first_due_strict Z s hlt).le

/-- The days in front of today are past. -/
theorem first_past (hs : s.kind = .daily ∨ s.kind = .weekly) {t : Rat} {d : Int}
    (h : t < Z.first (s.due d)) : today Z t ≤ d := by
  by_contra hlt
  have hle : ((d + 1 : Int) : Rat) ≤ today Z t := by exact_mod_cast not_le.mp hlt
  have hclock := clock_before_first h
  have hdue := (due_between hs d).2
  have htoday := (today_between Z t).1
  push_cast at hle
  linarith

/-- The day after tomorrow is still to come. -/
theorem first_coming (hs : s.kind = .daily ∨ s.kind = .weekly) {t : Rat} {d : Int}
    (h : today Z t + 2 ≤ d) : t < Z.first (s.due d) := by
  by_contra hle
  have hclock := clock_after_first (not_lt.mp hle)
  have hdue := (due_between hs d).1
  have htoday := (today_between Z t).2
  have hle : ((today Z t + 2 : Int) : Rat) ≤ d := by exact_mod_cast h
  push_cast at hle
  linarith

/-! ### The next occurrence -/

/-- The next eligible day of an instant. -/
structure NextDay (Z : Offsets) (s : Schedule) (t : Rat) (d : Int) : Prop where
  eligible : s.Eligible d
  later : t < Z.first (s.due d)
  least : ∀ e, s.Eligible e → t < Z.first (s.due e) → d ≤ e

theorem next_day (hs : s.kind = .daily ∨ s.kind = .weekly) (Z : Offsets) (t : Rat) :
    ∃ d, NextDay Z s t d ∧ today Z t ≤ d ∧ d < today Z t + 400 := by
  obtain ⟨e, hlow, hhigh, he⟩ := eligible_soon hs (today Z t + 2)
  have hcoming := first_coming (Z := Z) hs hlow
  obtain ⟨d, ⟨hday, hlater⟩, hleast⟩ := Int.exists_least_of_bdd
    (P := fun d => s.Eligible d ∧ t < Z.first (s.due d))
    ⟨today Z t, fun d hd => first_past hs hd.2⟩ ⟨e, he, hcoming⟩
  have hle := hleast e ⟨he, hcoming⟩
  exact ⟨d, ⟨hday, hlater, fun e he ht => hleast e ⟨he, ht⟩⟩, first_past hs hlater, by omega⟩

/-- One occasion after the other. -/
def Schedule.visits (Z : Zone) (s : Schedule) (t : Rat) : Nat → Option Rat
  | 0 => s.nextAfter Z t
  | k + 1 => (s.visits Z t k).bind (s.nextAfter Z)

/-- The occurrences of the eligible days behind an instant. -/
def laterOccurrences (Z : Offsets) (s : Schedule) (t : Rat) : Set Rat :=
  {u | ∃ day, s.Eligible day ∧ Occurs Z (s.due day) u ∧ t < u}

/-- Each day has one occurrence, the next one is found, and all of them are
visited, each once and in order. -/
structure NextOccurrences (Z : Offsets) (s : Schedule) : Prop where
  single : ∀ day, ∃! u, Occurs Z (s.due day) u
  next : ∀ t, ∃ u, s.nextAfter (zoneOf Z) t = some u ∧ IsLeast (laterOccurrences Z s t) u
  visited : ∀ t, ∃ days : Nat → Int, StrictMono days ∧
    Set.range days = {day | s.Eligible day ∧ ∃ u, Occurs Z (s.due day) u ∧ t < u} ∧
    ∀ k, ∃ u, s.visits (zoneOf Z) t k = some u ∧ Occurs Z (s.due (days k)) u

theorem NextDay.isLeast {t : Rat} {d : Int} (h : NextDay Z s t d) :
    IsLeast (laterOccurrences Z s t) (Z.first (s.due d)) := by
  refine ⟨⟨d, h.eligible, occurs_first Z _, h.later⟩, ?_⟩
  rintro u ⟨e, he, hu, ht⟩
  obtain rfl := occurs_iff.mp hu
  exact first_due_mono Z s (h.least e he ht)

/-- Where every occurrence is met, the scan finds the one of the next day. -/
theorem NextDay.found (hs : s.kind = .daily ∨ s.kind = .weekly)
    (hexact : ∀ day, s.Eligible day → Exact Z (s.due day)) {t : Rat} {d : Int}
    (h : NextDay Z s t d) : s.nextAfter (zoneOf Z) t = some (Z.first (s.due d)) := by
  have hmet : ∀ e v, s.Eligible e → s.wallClock (zoneOf Z) e = some v →
      v = Z.first (s.due e) := by
    intro e v he hv
    obtain ⟨w, hw, -, -, hiff⟩ := wall_clock Z s e
    obtain rfl : w = v := by simpa [hw] using hv
    exact hiff.mpr (hexact e he)
  obtain ⟨e, hnext, hlow, hhigh⟩ := next_day hs Z t
  obtain rfl : e = d :=
    le_antisymm (hnext.least d h.eligible h.later) (h.least e hnext.eligible hnext.later)
  obtain ⟨w, hw, -⟩ := wall_clock Z s e
  obtain rfl := hmet e w h.eligible hw
  refine next_found hs hlow hhigh h.eligible hw h.later ?_
  intro e' v _ hlt he' hv
  rw [hmet e' v he' hv]
  by_contra hle
  exact absurd (h.least e' he' (not_le.mp hle)) (not_le.mpr hlt)

/-- The next day behind an occurrence. -/
theorem NextDay.step {t : Rat} {d e : Int} (h : NextDay Z s t d)
    (hnext : NextDay Z s (Z.first (s.due d)) e) :
    d < e ∧ ∀ d', s.Eligible d' → t < Z.first (s.due d') → d' = d ∨ e ≤ d' := by
  refine ⟨?_, fun d' hd' ht => ?_⟩
  · by_contra hle
    exact absurd (first_due_mono Z s (not_lt.mp hle)) (not_le.mpr hnext.later)
  · rcases eq_or_lt_of_le (h.least d' hd' ht) with rfl | hlt
    · exact .inl rfl
    · exact .inr (hnext.least d' hd' (first_due_strict Z s hlt))

theorem visited_days (hs : s.kind = .daily ∨ s.kind = .weekly)
    (hexact : ∀ day, s.Eligible day → Exact Z (s.due day)) (t : Rat) :
    ∃ days : Nat → Int, StrictMono days ∧
      Set.range days = {day | s.Eligible day ∧ ∃ u, Occurs Z (s.due day) u ∧ t < u} ∧
      ∀ k, ∃ u, s.visits (zoneOf Z) t k = some u ∧ Occurs Z (s.due (days k)) u := by
  choose following hfollowing using fun t => next_day hs Z t
  let days : Nat → Int := Nat.rec (following t) (fun _ d => following (Z.first (s.due d)))
  have hdays : ∀ k, NextDay Z s (Z.first (s.due (days k))) (days (k + 1)) :=
    fun k => (hfollowing _).1
  have hmono : StrictMono days := by
    apply strictMono_nat_of_lt_succ
    intro k
    by_contra hle
    exact absurd (first_due_mono Z s (not_lt.mp hle)) (not_le.mpr (hdays k).later)
  have hvisit : ∀ k, s.visits (zoneOf Z) t k = some (Z.first (s.due (days k))) := by
    intro k
    induction k with
    | zero => exact (hfollowing t).1.found hs hexact
    | succ k ih => rw [Schedule.visits, ih, Option.bind_some, (hdays k).found hs hexact]
  have hlater : ∀ k, t < Z.first (s.due (days k)) := by
    intro k
    have hfirst : t < Z.first (s.due (days 0)) := (hfollowing t).1.later
    exact hfirst.trans_le (first_due_mono Z s (hmono.monotone (Nat.zero_le k)))
  refine ⟨days, hmono, ?_, fun k => ⟨_, hvisit k, occurs_first Z _⟩⟩
  apply Set.Subset.antisymm
  · rintro - ⟨k, rfl⟩
    refine ⟨?_, _, occurs_first Z _, hlater k⟩
    cases k with
    | zero => exact (hfollowing t).1.eligible
    | succ k => exact (hdays k).eligible
  · rintro d ⟨hd, u, hu, ht⟩
    obtain rfl := occurs_iff.mp hu
    by_contra hmissed
    -- every visited day would be in front of the one that is missed
    have hbelow : ∀ k, days k < d := by
      intro k
      induction k with
      | zero =>
        apply lt_of_le_of_ne ((hfollowing t).1.least d hd ht)
        exact fun heq => hmissed ⟨0, heq⟩
      | succ k ih =>
        apply lt_of_le_of_ne ((hdays k).least d hd (first_due_strict Z s ih))
        exact fun heq => hmissed ⟨k + 1, heq⟩
    have hgrow : ∀ k : Nat, days 0 + k ≤ days k := by
      intro k
      induction k with
      | zero => simp
      | succ k ih =>
        have hstep : days k < days (k + 1) := hmono (Nat.lt_succ_self k)
        push_cast
        omega
    have hfar := hgrow (d - days 0).toNat
    have hnear := hbelow (d - days 0).toNat
    have hzero := hbelow 0
    omega

/-- An occurrence that is not met is asked for half a second before. -/
theorem exact_of_next (hs : s.kind = .daily ∨ s.kind = .weekly) (h : NextOccurrences Z s)
    {d : Int} (hd : s.Eligible d) : Exact Z (s.due d) := by
  obtain ⟨w, hw, hlow, hhigh, hiff⟩ := wall_clock Z s d
  apply hiff.mp
  set t := Z.first (s.due d) - 1 / 2 with ht
  have hbefore : t < Z.first (s.due d) := by linarith
  have hclock := clock_forward (Z := Z) hbefore.le (by linarith)
  have htoday := today_between Z t
  have hdue := due_between hs d
  have hshown := (le_clock_first (Z := Z) (s.due d)).1
  have hnear : d < today Z t + 400 := by
    have hlt : (d : Rat) < ((today Z t + 400 : Int) : Rat) := by
      push_cast
      linarith
    exact_mod_cast hlt
  have hpast : ∀ e v, today Z t ≤ e → e < d → s.Eligible e →
      s.wallClock (zoneOf Z) e = some v → v ≤ t := by
    intro e v _ hlt he hv
    obtain ⟨w', hw', -, hbound, -⟩ := wall_clock Z s e
    obtain rfl : w' = v := by simpa [hw'] using hv
    have hshift := due_shift s hlt
    have hstart := (le_clock_first (Z := Z) (s.due e)).2
    have hordered := (first_due_strict Z s hlt).le
    rcases lt_or_ge (Z.first (s.due d)) (Z.first (s.due e) + 604800) with hweek | hweek
    · have hforward := clock_forward (Z := Z) hordered hweek
      linarith
    · linarith
  have hfound := next_found (Z := Z) hs (first_past hs hbefore) hnear hd hw
    (hbefore.trans_le hlow) hpast
  obtain ⟨u, hu, hleast⟩ := h.next t
  obtain rfl : w = u := by simpa [hfound] using hu
  exact le_antisymm (hleast.2 ⟨d, hd, occurs_first Z _, hbefore⟩) hlow

theorem next_occurrences (Z : Offsets) (s : Schedule) (hs : s.kind = .daily ∨ s.kind = .weekly) :
    NextOccurrences Z s ↔ ∀ day, s.Eligible day → Exact Z (s.due day) := by
  refine ⟨fun h day hday => exact_of_next hs h hday, fun hexact => ⟨fun day => ?_, fun t => ?_, ?_⟩⟩
  · exact ⟨_, occurs_first Z _, fun u hu => occurs_iff.mp hu⟩
  · obtain ⟨d, hnext, -⟩ := next_day hs Z t
    exact ⟨_, hnext.found hs hexact, hnext.isLeast⟩
  · exact visited_days hs hexact

/-- A zone with one transition, from which on its offset is another. -/
def shifted (instant offset behind : Rat) (hforward : behind ≤ offset + 7200)
    (hback : offset ≤ behind + 7200) : Offsets where
  instant n := instant + n * 604800
  offset n := if n = 0 then offset else behind
  apart n := by push_cast; linarith
  forward n := by
    rw [if_neg (Nat.succ_ne_zero n)]
    split
    · exact hforward
    · linarith
  back n := by
    rw [if_neg (Nat.succ_ne_zero n)]
    split
    · exact hback
    · linarith

/-- Berlin in the spring of 2026, at 02:30. -/
theorem next_occurrences_berlin :
    NextOccurrences (shifted 1774746000 3600 7200 (by norm_num) (by norm_num))
      ⟨daily 2 30, by decide⟩ := by
  apply (next_occurrences _ _ (.inl rfl)).mpr
  intro day _ n hskip
  cases n with
  | zero =>
    rw [if_neg (by norm_num [shifted])]
    exact ⟨29579220, by norm_num [shifted]⟩
  | succ n =>
    obtain ⟨hlow, hhigh⟩ := hskip
    exact absurd (hlow.trans_lt hhigh) (by simp [shifted])

/-- Monrovia in January 1972, at 00:30: the gap ends at 00:44:30. -/
theorem occurrence_behind_the_gap : ¬ NextOccurrences
    (shifted 63593070 (-2670) 0 (by norm_num) (by norm_num)) ⟨daily 0 30, by decide⟩ := by
  intro h
  obtain ⟨u, hu, hleast⟩ := h.next 63547200
  have hnext : Schedule.nextAfter
      (zoneOf (shifted 63593070 (-2670) 0 (by norm_num) (by norm_num)))
      ⟨daily 0 30, by decide⟩ 63547200 = some 63593100 := by decide +kernel
  have hfirst : (shifted 63593070 (-2670) 0 (by norm_num) (by norm_num)).first
      (Schedule.due ⟨daily 0 30, by decide⟩ 736) = 63593070 := by decide +kernel
  obtain rfl : 63593100 = u := by simpa [hnext] using hu
  have hoccurs := occurs_first (shifted 63593070 (-2670) 0 (by norm_num) (by norm_num))
    (Schedule.due ⟨daily 0 30, by decide⟩ 736)
  rw [hfirst] at hoccurs
  have hle := hleast.2 ⟨736, fun hk => by simp [daily] at hk, hoccurs, by norm_num⟩
  norm_num at hle

end Solvio.Proactive
