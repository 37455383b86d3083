import Mathlib.Data.Char
import Mathlib.Data.List.Basic

namespace Solvio.Lib

/-! The string methods of Python that the modelled code calls. -/

/-- `str.isspace` for the characters that `str.strip` removes. -/
def isSpace (c : Char) : Bool :=
  let n := c.toNat
  (9 ≤ n && n ≤ 13) || (28 ≤ n && n ≤ 32) || n = 0x85 || n = 0xA0 || n = 0x1680 ||
    (0x2000 ≤ n && n ≤ 0x200A) || n = 0x2028 || n = 0x2029 || n = 0x202F || n = 0x205F || n = 0x3000

def strip (p : Char → Bool) (cs : List Char) : List Char :=
  ((cs.dropWhile p).reverse.dropWhile p).reverse

theorem strip_ends {p : Char → Bool} {cs : List Char} (hh : ∀ c ∈ cs.head?, p c = false)
    (hl : ∀ c ∈ cs.getLast?, p c = false) : strip p cs = cs := by
  have hd : ∀ ds : List Char, (∀ c ∈ ds.head?, p c = false) → ds.dropWhile p = ds := by
    intro ds hds
    cases ds with
    | nil => rfl
    | cons d ds => simp [hds d (by simp)]
  rw [strip, hd cs hh, hd _ (by simpa using hl), List.reverse_reverse]

theorem strip_last {p : Char → Bool} {cs : List Char} :
    ∀ c ∈ (strip p cs).getLast?, p c = false := by
  intro c hc
  rw [strip, List.getLast?_reverse] at hc
  have h := List.head?_dropWhile_not p (cs.dropWhile p).reverse
  rw [hc] at h
  simpa using h

theorem strip_head {p : Char → Bool} {cs : List Char} :
    ∀ c ∈ (strip p cs).head?, p c = false := by
  intro c hc
  have hpre : strip p cs <+: cs.dropWhile p := by
    rw [strip, ← List.reverse_suffix, List.reverse_reverse]
    exact List.dropWhile_suffix _
  obtain ⟨rest, hrest⟩ := hpre
  cases hs : strip p cs with
  | nil => simp [hs] at hc
  | cons x xs =>
    have h := List.head?_dropWhile_not p cs
    rw [← hrest, hs, List.cons_append, List.head?_cons] at h
    rw [hs, List.head?_cons] at hc
    obtain rfl := Option.some.inj hc
    simpa using h

@[simp] theorem strip_idem (p : Char → Bool) (cs : List Char) :
    strip p (strip p cs) = strip p cs := strip_ends strip_head strip_last

theorem strip_none {p : Char → Bool} {cs : List Char} (h : ∀ c ∈ cs, p c = false) :
    strip p cs = cs :=
  strip_ends (fun c hc => h c (List.mem_of_head? hc)) (fun c hc => h c (List.mem_of_getLast? hc))

/-- `str.strip`. -/
def stripped (s : String) : String := String.ofList (strip isSpace s.toList)

@[simp] theorem stripped_idem (s : String) : stripped (stripped s) = stripped s := by
  simp [stripped]

/-- `str.lower` on ASCII letters, which decides every prefix test on ASCII. -/
def asciiLower (cs : List Char) : List Char :=
  cs.map (fun c => if 65 ≤ c.toNat ∧ c.toNat ≤ 90 then Char.ofNat (c.toNat + 32) else c)

theorem lower_letter {c : Char} (h : 65 ≤ c.toNat ∧ c.toNat ≤ 90) :
    (Char.ofNat (c.toNat + 32)).toNat = c.toNat + 32 := by
  have hv : (c.toNat + 32).isValidChar := Or.inl (by omega)
  rw [Char.ofNat, dif_pos hv]
  rfl

/-- Nothing but a line break becomes one. -/
theorem ascii_lower_break {c : Char}
    (h : (if 65 ≤ c.toNat ∧ c.toNat ≤ 90 then Char.ofNat (c.toNat + 32) else c) = '\n') :
    c = '\n' := by
  split at h
  · rename_i hc
    have hn := lower_letter hc
    have : ('\n' : Char).toNat = 10 := rfl
    rw [h] at hn
    omega
  · exact h

theorem mem_ascii_lower (cs : List Char) (h : '\n' ∈ asciiLower cs) : '\n' ∈ cs := by
  obtain ⟨c, hc, he⟩ := List.mem_map.mp h
  exact ascii_lower_break he ▸ hc

theorem last_ascii_lower (cs : List Char) (h : (asciiLower cs).getLast? = some '\n') :
    cs.getLast? = some '\n' := by
  rw [asciiLower, List.getLast?_map] at h
  obtain ⟨c, hc, he⟩ := Option.map_eq_some_iff.mp h
  exact ascii_lower_break he ▸ hc

/-- `str.upper` on ASCII letters. -/
def asciiUpper (cs : List Char) : List Char :=
  cs.map (fun c => if 97 ≤ c.toNat ∧ c.toNat ≤ 122 then Char.ofNat (c.toNat - 32) else c)

end Solvio.Lib
