import Mathlib.Data.List.DropRight
import Solvio.Lib.Json

namespace Solvio.Lib.Text

/-! Texts of code points, as Python reads and cuts them. -/

/-- `str.isspace` for the code points that `str.strip` removes. -/
def isBlank (n : Nat) : Bool :=
  (9 ≤ n && n ≤ 13) || (28 ≤ n && n ≤ 32) || n = 0x85 || n = 0xA0 || n = 0x1680 ||
    (0x2000 ≤ n && n ≤ 0x200A) || n = 0x2028 || n = 0x2029 || n = 0x202F || n = 0x205F || n = 0x3000

/-- `str.strip`. -/
def strip (s : Text) : Text := List.rdropWhile isBlank (List.dropWhile isBlank s)

theorem drop_strip (s : Text) : List.dropWhile isBlank s.strip = s.strip := by
  obtain ⟨rest, hrest⟩ := List.rdropWhile_prefix isBlank (List.dropWhile isBlank s)
  have hhead := List.head?_dropWhile_not isBlank s
  rw [← hrest] at hhead
  unfold strip
  cases hs : List.rdropWhile isBlank (List.dropWhile isBlank s) with
  | nil => rfl
  | cons c cs =>
    rw [hs] at hhead
    exact List.dropWhile_cons_of_neg (by simpa using hhead)

@[simp] theorem strip_idem (s : Text) : s.strip.strip = s.strip := by
  conv_lhs => rw [strip, drop_strip]
  exact List.rdropWhile_idempotent isBlank _

end Solvio.Lib.Text
