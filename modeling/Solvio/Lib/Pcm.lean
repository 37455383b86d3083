import Solvio.Lib.Sha256
import Mathlib.Tactic.Ring

namespace Solvio.Lib

/-! Sound as 16-bit samples, and its little-endian bytes. -/

/-- What an `array('h')` holds. -/
@[ext] structure Sample where
  value : Int
  low : -32768 ≤ value
  high : value < 32768
deriving DecidableEq

namespace Sample

def silence : Sample := ⟨0, by decide, by decide⟩

/-- Any other number is an `OverflowError`. -/
def ofInt? (n : Int) : Option Sample :=
  if h : -32768 ≤ n ∧ n < 32768 then some ⟨n, h.1, h.2⟩ else none

theorem of_value (x : Sample) : ofInt? x.value = some x := dif_pos ⟨x.low, x.high⟩

def bytes (x : Sample) : Bytes :=
  [UInt8.ofNat (x.value % 256).toNat, UInt8.ofNat (x.value / 256 % 256).toNat]

/-- The two's complement of a pair of bytes. -/
def ofPair (lo hi : UInt8) : Sample where
  value := if lo.toNat + 256 * hi.toNat < 32768 then lo.toNat + 256 * hi.toNat
    else (lo.toNat + 256 * hi.toNat : Int) - 65536
  low := by
    split <;> omega
  high := by
    have := lo.toNat_lt
    have := hi.toNat_lt
    split <;> omega

theorem to_nat_of_nat {n : Nat} (h : n < 256) : (UInt8.ofNat n).toNat = n := by
  rw [UInt8.toNat_ofNat_of_lt']
  exact h

theorem of_pair_bytes (x : Sample) :
    ofPair (UInt8.ofNat (x.value % 256).toNat) (UInt8.ofNat (x.value / 256 % 256).toNat) = x := by
  have hlow := x.low
  have hhigh := x.high
  apply Sample.ext
  simp only [ofPair]
  rw [to_nat_of_nat (by omega), to_nat_of_nat (by omega)]
  split <;> omega

theorem bytes_of_pair (lo hi : UInt8) : (ofPair lo hi).bytes = [lo, hi] := by
  have hlo := lo.toNat_lt
  have hhi := hi.toNat_lt
  have hlow : ((ofPair lo hi).value % 256).toNat = lo.toNat := by
    simp only [ofPair]
    split <;> omega
  have hhigh : ((ofPair lo hi).value / 256 % 256).toNat = hi.toNat := by
    simp only [ofPair]
    split <;> omega
  rw [bytes, hlow, hhigh, UInt8.ofNat_toNat, UInt8.ofNat_toNat]

end Sample

namespace Pcm

/-- `tobytes`. -/
def toBytes (xs : List Sample) : Bytes := xs.flatMap Sample.bytes

/-- `frombytes`, which takes whole samples only. -/
def ofBytes? : Bytes → Option (List Sample)
  | [] => some []
  | [_] => none
  | lo :: hi :: rest => (ofBytes? rest).map (Sample.ofPair lo hi :: ·)

@[simp] theorem to_bytes_nil : toBytes [] = [] := rfl

@[simp] theorem to_bytes_cons (x : Sample) (xs : List Sample) :
    toBytes (x :: xs) = x.bytes ++ toBytes xs := List.flatMap_cons

@[simp] theorem to_bytes_append (xs ys : List Sample) :
    toBytes (xs ++ ys) = toBytes xs ++ toBytes ys := List.flatMap_append

theorem flatten_to_bytes (xss : List (List Sample)) :
    (xss.map toBytes).flatten = toBytes xss.flatten := by
  induction xss with
  | nil => rfl
  | cons xs xss ih => rw [List.map_cons, List.flatten_cons, ih, List.flatten_cons, to_bytes_append]

theorem length_to_bytes (xs : List Sample) : (toBytes xs).length = 2 * xs.length := by
  induction xs with
  | nil => rfl
  | cons x xs ih =>
    rw [to_bytes_cons, List.length_append, ih, List.length_cons, Sample.bytes]
    simp only [List.length_cons, List.length_nil]
    omega

theorem to_bytes_eq_nil {xs : List Sample} : toBytes xs = [] ↔ xs = [] := by
  rw [← List.length_eq_zero_iff, length_to_bytes, ← List.length_eq_zero_iff]
  omega

@[simp] theorem of_to_bytes (xs : List Sample) : ofBytes? (toBytes xs) = some xs := by
  induction xs with
  | nil => rfl
  | cons x xs ih =>
    simp only [to_bytes_cons, Sample.bytes, List.cons_append, List.nil_append, ofBytes?, ih,
      Option.map_some, Sample.of_pair_bytes]

theorem to_bytes_of {b : Bytes} {xs : List Sample} (h : ofBytes? b = some xs) : toBytes xs = b := by
  induction b using ofBytes?.induct generalizing xs with
  | case1 =>
    obtain rfl := Option.some.inj h
    rfl
  | case2 => cases h
  | case3 lo hi rest ih =>
    obtain ⟨ys, hys, rfl⟩ := Option.map_eq_some_iff.mp h
    rw [to_bytes_cons, ih hys, Sample.bytes_of_pair]
    rfl

theorem of_bytes_isSome (b : Bytes) : (ofBytes? b).isSome ↔ b.length % 2 = 0 := by
  induction b using ofBytes?.induct with
  | case1 => simp [ofBytes?]
  | case2 => simp [ofBytes?]
  | case3 lo hi rest ih =>
    rw [ofBytes?, Option.isSome_map, ih]
    simp only [List.length_cons]
    omega

end Pcm

end Solvio.Lib
