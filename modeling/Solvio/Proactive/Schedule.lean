import Mathlib.Data.Rat.Floor
import Mathlib.Data.List.Range

namespace Solvio.Proactive

/-- The local time of a zone: the wall clock of an instant in whole minutes, and
the first instant of a wall clock, which is `fold=0`. -/
structure Zone where
  naive : Rat → Int
  stamp : Int → Rat

inductive Kind where
  | oneShot | daily | weekly | interval
deriving DecidableEq

def Kind.value : Kind → String
  | oneShot => "one_shot"
  | daily => "daily"
  | weekly => "weekly"
  | interval => "interval"

/-- `MIN_INTERVAL_SECONDS`. -/
def minIntervalSeconds : Int := 300

def defaultGraceSeconds : Rat := 3 * 3600

/-- The fields of a `Schedule`, before they are checked. -/
structure Rule where
  kind : Kind
  hour : Int := 0
  minute : Int := 0
  weekdays : List Nat := []
  atEpoch : Rat := 0
  everySeconds : Int := minIntervalSeconds
  timezone : String := "Europe/Berlin"
  graceSeconds : Rat := defaultGraceSeconds
deriving DecidableEq

/-- What `__post_init__` checks. -/
structure Rule.Valid (r : Rule) : Prop where
  clock : r.kind = .daily ∨ r.kind = .weekly → (0 ≤ r.hour ∧ r.hour ≤ 23) ∧
    (0 ≤ r.minute ∧ r.minute ≤ 59)
  named : r.kind = .weekly → r.weekdays ≠ []
  days : ∀ d ∈ r.weekdays, d ≤ 6
  spaced : r.kind = .interval → minIntervalSeconds ≤ r.everySeconds
  timed : r.kind = .oneShot → 0 < r.atEpoch

instance (r : Rule) : Decidable r.Valid :=
  decidable_of_iff ((r.kind = .daily ∨ r.kind = .weekly → (0 ≤ r.hour ∧ r.hour ≤ 23) ∧
      (0 ≤ r.minute ∧ r.minute ≤ 59)) ∧ (r.kind = .weekly → r.weekdays ≠ []) ∧
      (∀ d ∈ r.weekdays, d ≤ 6) ∧ (r.kind = .interval → minIntervalSeconds ≤ r.everySeconds) ∧
      (r.kind = .oneShot → 0 < r.atEpoch))
    ⟨fun ⟨a, b, c, d, e⟩ => ⟨a, b, c, d, e⟩, fun ⟨a, b, c, d, e⟩ => ⟨a, b, c, d, e⟩⟩

structure Schedule extends Rule where
  valid : toRule.Valid

instance : DecidableEq Schedule := fun s t =>
  decidable_of_iff (s.toRule = t.toRule) (by cases s; cases t; simp)

/-- A rule that is not valid raises a `ScheduleError`. -/
def Schedule.make (r : Rule) : Option Schedule := if h : r.Valid then some ⟨r, h⟩ else none

namespace Schedule

variable (Z : Zone)

/-- `_wall_clock`: the clock on this day, or the first minute after a gap. -/
def wallClock (s : Schedule) (day : Int) : Option Rat :=
  let naive := day * 1440 + s.hour * 60 + s.minute
  ((List.range 180).map (fun extra : Nat => naive + extra)).findSome? (fun probe =>
    if Z.naive (Z.stamp probe) % 1440 = probe % 1440 then some (Z.stamp probe) else none)

/-- Monday is 0, and the first day of the epoch was a Thursday. -/
def weekday (day : Int) : Nat := ((day + 3) % 7).toNat

/-- `next_after`: the next occasion strictly after an instant. -/
def nextAfter (s : Schedule) (after : Rat) : Option Rat :=
  match s.kind with
  | .oneShot => if s.atEpoch > after then some s.atEpoch else none
  | .interval => some (after + s.everySeconds)
  | kind =>
    let today := Z.naive after / 1440
    ((List.range 400).map (fun offset : Nat => today + offset)).findSome? (fun day =>
      if kind = .weekly ∧ weekday day ∉ s.weekdays then none
      else (s.wallClock Z day).filter (fun moment => after < moment))

/-- `catch_up`: the last occasion up to now, and how many there were. The count
stops a broken plan. -/
def lastDue (s : Schedule) (now : Rat) : Nat → Rat → Nat → Rat × Nat
  | 0, moment, skipped => (moment, skipped)
  | fuel + 1, moment, skipped => match s.nextAfter Z moment with
    | some following => if following ≤ now then lastDue s now fuel following (skipped + 1)
      else (moment, skipped)
    | none => (moment, skipped)

def catchUp (s : Schedule) (missedSince now : Rat) : Option Rat × Nat :=
  if missedSince ≤ 0 ∨ now < missedSince then (none, 0)
  else
    let (last, skipped) := s.lastDue Z now 1000 missedSince 1
    if now - last ≤ s.graceSeconds then (some last, skipped - 1) else (none, skipped)

theorem next_after_later {s : Schedule} {t u : Rat} (h : s.nextAfter Z t = some u) : t < u := by
  unfold nextAfter at h
  split at h
  · split at h
    · rename_i hlt
      cases h
      exact hlt
    · cases h
  · rename_i hkind
    cases h
    have hspaced := s.valid.spaced hkind
    have hpos : (0 : Rat) < (s.everySeconds : Rat) := by
      have : (0 : Int) < s.everySeconds := lt_of_lt_of_le (by decide) hspaced
      exact_mod_cast this
    linarith
  · obtain ⟨day, -, hday⟩ := List.exists_of_findSome?_eq_some h
    split at hday
    · cases hday
    · exact of_decide_eq_true (Option.filter_eq_some_iff.mp hday).2

end Schedule

/-! ### The forms of a schedule -/

/-- `in_seconds`. -/
def inSeconds (seconds now : Rat) : Rule := { kind := .oneShot, atEpoch := now + max 1 seconds }

def daily (hour minute : Int) : Rule := { kind := .daily, hour := hour, minute := minute }

def weekly (weekdays : List Nat) (hour minute : Int) : Rule :=
  { kind := .weekly, hour := hour, minute := minute, weekdays := weekdays }

def every (seconds : Int) : Rule := { kind := .interval, everySeconds := seconds }

/-- `clamp_interval`. -/
def clampInterval (seconds : Int) : Int × String :=
  if minIntervalSeconds ≤ seconds then (seconds, "")
  else (minIntervalSeconds, "Ich sehe hoechstens alle 5 Minuten nach — oefter waere fuer den " ++
    "Anbieter zu viel.")

end Solvio.Proactive
