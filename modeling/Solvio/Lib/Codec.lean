import Solvio.Lib.Sha256
import Mathlib.Tactic.IntervalCases

namespace Solvio.Lib

/-! Text encodings: UTF-8, hexadecimal and Base64, each with its round trip. -/

def encodeUtf8 (s : String) : Bytes := s.toUTF8.data.toList

def decodeUtf8 (b : Bytes) : Option String := String.fromUTF8? ⟨b.toArray⟩

@[simp] theorem decode_encode_utf8 (s : String) : decodeUtf8 (encodeUtf8 s) = some s := by
  have h : (⟨s.toUTF8.data.toList.toArray⟩ : ByteArray) = s.toUTF8 := by
    cases s.toUTF8
    simp
  simp only [decodeUtf8, encodeUtf8, h, String.fromUTF8?]
  simpa [String.fromUTF8] using s.isValidUTF8

/-- A text that was read is written as it stood. -/
theorem encode_of_decode_utf8 {b : Bytes} {s : String} (h : decodeUtf8 b = some s) :
    encodeUtf8 s = b := by
  unfold decodeUtf8 String.fromUTF8? at h
  split at h
  · obtain rfl := Option.some.inj h
    simp [encodeUtf8, String.fromUTF8]
  · simp at h

theorem encode_utf8_injective {s t : String} (h : encodeUtf8 s = encodeUtf8 t) : s = t := by
  have hs := decode_encode_utf8 s
  rw [h, decode_encode_utf8] at hs
  exact (Option.some.inj hs).symm

theorem of_nat_ne_zero {n : Nat} (h : 0 < n) (hlt : n < 256) : (0 : UInt8) ≠ UInt8.ofNat n := by
  intro he
  have := congrArg UInt8.toNat he
  rw [UInt8.toNat_ofNat_of_lt' hlt] at this
  exact absurd this.symm (Nat.ne_of_gt h)

/-- Only the first character is spelled with a zero byte. -/
theorem zero_encode_char {c : Char} (h : (0 : UInt8) ∈ String.utf8EncodeChar c) : c = '\x00' := by
  unfold String.utf8EncodeChar at h
  simp only at h
  split at h
  · rename_i hle
    rw [List.mem_singleton] at h
    by_contra hne
    have hpos : 0 < c.val.toNat := by
      refine Nat.pos_of_ne_zero (fun hz => hne ?_)
      exact Char.ext (UInt32.toNat_inj.mp hz)
    exact of_nat_ne_zero hpos (by omega) h
  · exfalso
    split at h
    · simp only [List.mem_cons, List.not_mem_nil, or_false] at h
      rcases h with h | h <;> exact of_nat_ne_zero (by omega) (by omega) h
    · split at h
      · simp only [List.mem_cons, List.not_mem_nil, or_false] at h
        rcases h with h | h | h <;> exact of_nat_ne_zero (by omega) (by omega) h
      · simp only [List.mem_cons, List.not_mem_nil, or_false] at h
        rcases h with h | h | h | h <;> exact of_nat_ne_zero (by omega) (by omega) h

theorem encode_utf8_list (s : String) : encodeUtf8 s = s.toList.flatMap String.utf8EncodeChar := by
  obtain ⟨l, rfl⟩ : ∃ l, s = String.ofList l := ⟨s.toList, by simp⟩
  rw [encodeUtf8, String.toUTF8_eq_toByteArray, String.toByteArray_ofList, List.utf8Encode]
  simp

theorem zero_encode_utf8 {s : String} (h : (0 : UInt8) ∈ encodeUtf8 s) : '\x00' ∈ s.toList := by
  rw [encode_utf8_list, List.mem_flatMap] at h
  obtain ⟨c, hc, hz⟩ := h
  exact zero_encode_char hz ▸ hc

/-- Lowercase hexadecimal digit of a number below sixteen. -/
def hexDigit (n : Nat) : Char := if n < 10 then Char.ofNat (48 + n) else Char.ofNat (87 + n)

def hexValue (c : Char) : Option Nat :=
  let n := c.toNat
  if 48 ≤ n ∧ n ≤ 57 then some (n - 48)
  else if 97 ≤ n ∧ n ≤ 102 then some (n - 87)
  else if 65 ≤ n ∧ n ≤ 70 then some (n - 55)
  else none

theorem hex_value_digit {n : Nat} (h : n < 16) : hexValue (hexDigit n) = some n := by
  interval_cases n <;> decide

def toHex (b : Bytes) : String :=
  String.ofList (b.flatMap (fun x => [hexDigit (x.toNat / 16), hexDigit (x.toNat % 16)]))

/-- ASCII white space, which the decoder skips between two bytes. -/
def isAsciiSpace (c : Char) : Bool := c.toNat = 32 || (9 ≤ c.toNat && c.toNat ≤ 13)

def fromHexChars : List Char → Option Bytes
  | [] => some []
  | [c] => if isAsciiSpace c then some [] else none
  | c :: d :: rest =>
    if isAsciiSpace c then fromHexChars (d :: rest)
    else do
      let hi ← hexValue c
      let lo ← hexValue d
      let tail ← fromHexChars rest
      some (UInt8.ofNat (hi * 16 + lo) :: tail)

def fromHex (s : String) : Option Bytes := fromHexChars s.toList

theorem hex_digit_not_space {n : Nat} (h : n < 16) : isAsciiSpace (hexDigit n) = false := by
  interval_cases n <;> decide

@[simp] theorem from_hex_to_hex (b : Bytes) : fromHex (toHex b) = some b := by
  simp only [fromHex, toHex, String.toList_ofList]
  induction b with
  | nil => rfl
  | cons x b ih =>
    have hx := x.toNat_lt
    have hi : x.toNat / 16 < 16 := by omega
    have lo : x.toNat % 16 < 16 := by omega
    have he : x.toNat / 16 * 16 + x.toNat % 16 = x.toNat := by omega
    simp only [List.flatMap_cons, List.cons_append, List.nil_append, fromHexChars,
      hex_digit_not_space hi, hex_value_digit hi, hex_value_digit lo, Bool.false_eq_true,
      if_false, Option.bind_eq_bind, Option.bind_some, ih, he]
    simp

theorem to_hex_injective {b c : Bytes} (h : toHex b = toHex c) : b = c := by
  have hb := from_hex_to_hex b
  rw [h, from_hex_to_hex] at hb
  exact (Option.some.inj hb).symm

theorem zero_not_in_hex (b : Bytes) : '\x00' ∉ (toHex b).toList := by
  intro h
  rw [toHex, String.toList_ofList, List.mem_flatMap] at h
  obtain ⟨x, -, hc⟩ := h
  have hx := x.toNat_lt
  have hdigit : ∀ n < 16, '\x00' ≠ hexDigit n := by decide
  simp only [List.mem_cons, List.not_mem_nil, or_false] at hc
  rcases hc with hc | hc
  · exact hdigit _ (by omega) hc
  · exact hdigit _ (by omega) hc

theorem to_hex_ne_empty {b : Bytes} (h : b ≠ []) : toHex b ≠ "" := by
  intro he
  exact h (to_hex_injective (he.trans (show "" = toHex [] from rfl)))

/-! ### Base64 -/

def b64Char (n : Nat) : Char :=
  if n < 26 then Char.ofNat (65 + n)
  else if n < 52 then Char.ofNat (71 + n)
  else if n < 62 then Char.ofNat (n - 4)
  else if n = 62 then '+' else '/'

def b64Value (c : Char) : Option Nat :=
  let n := c.toNat
  if 65 ≤ n ∧ n ≤ 90 then some (n - 65)
  else if 97 ≤ n ∧ n ≤ 122 then some (n - 71)
  else if 48 ≤ n ∧ n ≤ 57 then some (n + 4)
  else if n = 43 then some 62
  else if n = 47 then some 63
  else none

theorem b64_value_char {n : Nat} (h : n < 64) : b64Value (b64Char n) = some n := by
  interval_cases n <;> decide

def b64encodeChars : Bytes → List Char
  | [] => []
  | [a] => [b64Char (a.toNat / 4), b64Char (a.toNat % 4 * 16), '=', '=']
  | [a, b] => [b64Char (a.toNat / 4), b64Char (a.toNat % 4 * 16 + b.toNat / 16),
      b64Char (b.toNat % 16 * 4), '=']
  | a :: b :: c :: rest =>
    b64Char (a.toNat / 4) :: b64Char (a.toNat % 4 * 16 + b.toNat / 16) ::
      b64Char (b.toNat % 16 * 4 + c.toNat / 64) :: b64Char (c.toNat % 64) :: b64encodeChars rest

def b64encode (b : Bytes) : String := String.ofList (b64encodeChars b)

/-- Strict decoding: full groups of four, padding only at the very end. The
unused low bits before the padding are ignored, so spellings are not unique. -/
def b64decodeChars : List Char → Option Bytes
  | [] => some []
  | w :: x :: y :: z :: rest =>
    if z = '=' then
      if rest = [] then do
        let w ← b64Value w
        let x ← b64Value x
        if y = '=' then some [UInt8.ofNat (w * 4 + x / 16)]
        else do
          let y ← b64Value y
          some [UInt8.ofNat (w * 4 + x / 16), UInt8.ofNat (x % 16 * 16 + y / 4)]
      else none
    else do
      let w ← b64Value w
      let x ← b64Value x
      let y ← b64Value y
      let z ← b64Value z
      let tail ← b64decodeChars rest
      some (UInt8.ofNat (w * 4 + x / 16) :: UInt8.ofNat (x % 16 * 16 + y / 4) ::
        UInt8.ofNat (y % 4 * 64 + z) :: tail)
  | _ => none

def b64decode (s : String) : Option Bytes := b64decodeChars s.toList

theorem b64_char_not_pad {n : Nat} (h : n < 64) : b64Char n ≠ '=' := by
  interval_cases n <;> decide

theorem b64_decode_encode_chars (b : Bytes) : b64decodeChars (b64encodeChars b) = some b := by
  induction b using b64encodeChars.induct with
  | case1 => rfl
  | case2 a =>
    have ha := a.toNat_lt
    simp only [b64encodeChars, b64decodeChars, if_true, Option.bind_eq_bind,
      b64_value_char (show a.toNat / 4 < 64 by omega),
      b64_value_char (show a.toNat % 4 * 16 < 64 by omega), Option.bind_some]
    rw [show a.toNat / 4 * 4 + a.toNat % 4 * 16 / 16 = a.toNat by omega]
    simp
  | case3 a b =>
    have ha := a.toNat_lt
    have hb := b.toNat_lt
    simp only [b64encodeChars, b64decodeChars, if_true, Option.bind_eq_bind,
      b64_value_char (show a.toNat / 4 < 64 by omega),
      b64_value_char (show a.toNat % 4 * 16 + b.toNat / 16 < 64 by omega),
      b64_value_char (show b.toNat % 16 * 4 < 64 by omega),
      b64_char_not_pad (show b.toNat % 16 * 4 < 64 by omega), if_false, Option.bind_some]
    rw [show a.toNat / 4 * 4 + (a.toNat % 4 * 16 + b.toNat / 16) / 16 = a.toNat by omega,
      show (a.toNat % 4 * 16 + b.toNat / 16) % 16 * 16 + b.toNat % 16 * 4 / 4 = b.toNat by omega]
    simp
  | case4 a b c rest ih =>
    have ha := a.toNat_lt
    have hb := b.toNat_lt
    have hc := c.toNat_lt
    simp only [b64encodeChars, b64decodeChars, Option.bind_eq_bind,
      b64_value_char (show a.toNat / 4 < 64 by omega),
      b64_value_char (show a.toNat % 4 * 16 + b.toNat / 16 < 64 by omega),
      b64_value_char (show b.toNat % 16 * 4 + c.toNat / 64 < 64 by omega),
      b64_value_char (show c.toNat % 64 < 64 by omega),
      b64_char_not_pad (show c.toNat % 64 < 64 by omega), if_false, Option.bind_some, ih]
    rw [show a.toNat / 4 * 4 + (a.toNat % 4 * 16 + b.toNat / 16) / 16 = a.toNat by omega,
      show (a.toNat % 4 * 16 + b.toNat / 16) % 16 * 16 +
        (b.toNat % 16 * 4 + c.toNat / 64) / 4 = b.toNat by omega,
      show (b.toNat % 16 * 4 + c.toNat / 64) % 4 * 64 + c.toNat % 64 = c.toNat by omega]
    simp

@[simp] theorem b64_decode_encode (b : Bytes) : b64decode (b64encode b) = some b := by
  simp [b64decode, b64encode, b64_decode_encode_chars]

/-- Every character of an encoded text is printable ASCII. -/
theorem b64_encode_printable (b : Bytes) :
    ∀ c ∈ b64encodeChars b, 33 ≤ c.toNat ∧ c.toNat ≤ 122 := by
  have hchar : ∀ n < 64, 33 ≤ (b64Char n).toNat ∧ (b64Char n).toNat ≤ 122 := by
    intro n hn
    interval_cases n <;> decide
  induction b using b64encodeChars.induct with
  | case1 => simp [b64encodeChars]
  | case2 a =>
    have ha := a.toNat_lt
    simp only [b64encodeChars, List.forall_mem_cons]
    exact ⟨hchar _ (by omega), hchar _ (by omega), by decide, by decide, by simp⟩
  | case3 a b =>
    have ha := a.toNat_lt
    have hb := b.toNat_lt
    simp only [b64encodeChars, List.forall_mem_cons]
    exact ⟨hchar _ (by omega), hchar _ (by omega), hchar _ (by omega), by decide, by simp⟩
  | case4 a b c rest ih =>
    have ha := a.toNat_lt
    have hb := b.toNat_lt
    have hc := c.toNat_lt
    simp only [b64encodeChars, List.forall_mem_cons]
    exact ⟨hchar _ (by omega), hchar _ (by omega), hchar _ (by omega), hchar _ (by omega), ih⟩

end Solvio.Lib
