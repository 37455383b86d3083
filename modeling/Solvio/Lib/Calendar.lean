import Mathlib.Data.Nat.Basic

namespace Solvio.Lib.Calendar

/-! Days since the first of January of the year 1, a Monday. -/

def isLeap (year : Nat) : Bool := year % 4 = 0 && (year % 100 ≠ 0 || year % 400 = 0)

/-- The length of a month, counted from the first one. -/
def monthLength (month : Nat) : Nat :=
  match month % 12 with
  | 1 => if isLeap (month / 12 + 1) then 29 else 28
  | 3 | 5 | 8 | 10 => 30
  | _ => 31

theorem month_length_bounds (month : Nat) : 28 ≤ monthLength month ∧ monthLength month ≤ 31 := by
  unfold monthLength
  split
  · split <;> omega
  all_goals omega

def monthStart : Nat → Nat
  | 0 => 0
  | n + 1 => monthStart n + monthLength n

def monthFrom : (fuel month rest : Nat) → Nat
  | 0, month, _ => month
  | fuel + 1, month, rest =>
    if rest < monthLength month then month
    else monthFrom fuel (month + 1) (rest - monthLength month)

/-- The month of a day. -/
def monthOf (day : Nat) : Nat := monthFrom (day + 1) 0 day

theorem month_from_spec {fuel month rest : Nat} (h : rest < fuel) :
    monthStart (monthFrom fuel month rest) ≤ monthStart month + rest ∧
      monthStart month + rest < monthStart (monthFrom fuel month rest + 1) := by
  induction fuel generalizing month rest with
  | zero => omega
  | succ fuel ih =>
    have hlen := (month_length_bounds month).1
    unfold monthFrom
    split
    · rw [monthStart]
      omega
    · have hrest := @ih (month + 1) (rest - monthLength month) (by omega)
      rw [monthStart] at hrest
      omega

theorem month_of_spec (day : Nat) :
    monthStart (monthOf day) ≤ day ∧ day < monthStart (monthOf day + 1) := by
  have h := @month_from_spec _ 0 _ (Nat.lt_succ_self day)
  rwa [monthStart, Nat.zero_add] at h

theorem month_start_mono {m n : Nat} (h : m ≤ n) : monthStart m ≤ monthStart n := by
  induction h with
  | refl => exact Nat.le_refl _
  | step _ ih => exact Nat.le_trans ih (Nat.le_add_right _ _)

/-- A month is the days from its first to the first of the next. -/
theorem month_of_eq {day month : Nat} :
    monthOf day = month ↔ monthStart month ≤ day ∧ day < monthStart (month + 1) := by
  constructor
  · rintro rfl
    exact month_of_spec day
  · rintro ⟨hle, hlt⟩
    obtain ⟨hle', hlt'⟩ := month_of_spec day
    by_contra hne
    rcases Nat.lt_or_gt_of_ne hne with h | h
    · have hstart : monthStart (monthOf day + 1) ≤ monthStart month := month_start_mono h
      omega
    · have hstart : monthStart (month + 1) ≤ monthStart (monthOf day) := month_start_mono h
      omega

/-- `replace(day=1)`. -/
def firstOfMonth (day : Nat) : Nat := monthStart (monthOf day)

/-- `(month_start + timedelta(days=32)).replace(day=1)`. -/
def nextMonth (day : Nat) : Nat := firstOfMonth (firstOfMonth day + 32)

theorem next_month_eq (day : Nat) : nextMonth day = monthStart (monthOf day + 1) := by
  have h1 := month_length_bounds (monthOf day)
  have h2 := month_length_bounds (monthOf day + 1)
  have hstart : monthStart (monthOf day + 1) = monthStart (monthOf day) + monthLength (monthOf day) :=
    rfl
  have hnext : monthStart (monthOf day + 1 + 1) =
    monthStart (monthOf day + 1) + monthLength (monthOf day + 1) := rfl
  have hmonth : monthOf (monthStart (monthOf day) + 32) = monthOf day + 1 :=
    Iff.mpr month_of_eq ⟨by omega, by omega⟩
  rw [nextMonth, firstOfMonth, firstOfMonth, hmonth]

/-- The days of a month are those between its first and the next month's. -/
theorem same_month {day other : Nat} :
    monthOf other = monthOf day ↔ firstOfMonth day ≤ other ∧ other < nextMonth day := by
  rw [month_of_eq, next_month_eq, firstOfMonth]

/-- The ISO week of a day. -/
def weekOf (day : Nat) : Nat := day / 7

/-- `day - timedelta(days=weekday)`. -/
def monday (day : Nat) : Nat := day - day % 7

theorem same_week {day other : Nat} :
    weekOf other = weekOf day ↔ monday day ≤ other ∧ other < monday day + 7 := by
  unfold weekOf monday
  omega

end Solvio.Lib.Calendar
