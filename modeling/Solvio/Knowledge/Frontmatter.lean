import Solvio.Knowledge.Okf
import Solvio.Lib.JsonText

namespace Solvio.Knowledge
open Solvio.Lib

variable {F : Type} {N : Numbers F}

/-! ### Scalars -/

/-- What is read back of a scalar. -/
def Scalar.reread : Scalar F → Scalar F
  | .str s => .str (unescaped (escaped s))
  | s => s

/-- `str` takes it. -/
def Scalar.Writable : Scalar F → Prop
  | .int n => Short n
  | _ => True

/-- A text that stands for a scalar on a row of its own. -/
structure Written (N : Numbers F) (text : Str) (s : Scalar F) : Prop where
  full : text ≠ []
  whole : strip isSpace text = text
  keyless : looksLikeKey text = false
  oneLine : '\n' ∉ text
  back : unscalar N text = s.reread

theorem strip_solid {text : Str} (h : ∀ c ∈ text, isSpace c = false) :
    strip isSpace text = text := strip_none h

theorem no_colon_keyless {text : Str} (h : ':' ∉ text) : looksLikeKey text = false := by
  cases text with
  | nil => rfl
  | cons c cs => simp [looksLikeKey, h]

theorem unscalar_word {text : Str} (hwhole : strip isSpace text = text)
    (hquote : text.head? ≠ some '"') (happ : text.head? ≠ some '\'') : unscalar N text =
      if text = "null".toList then .null
      else if text = "true".toList then .bool true
      else if text = "false".toList then .bool false
      else readNumber N text := by
  unfold unscalar
  simp only [hwhole]
  apply if_neg
  rintro ⟨-, -, hq | hq⟩
  · exact hquote hq
  · exact happ hq

theorem quote_written (s : Str) : Written N (quote s) (.str s) := by
  have hlast : (quote s).getLast? = some '"' := by
    rw [quote, ← List.cons_append, List.getLast?_append]
    rfl
  have hwhole : strip isSpace (quote s) = quote s := by
    apply strip_ends
    · intro c hc
      obtain rfl := Option.some.inj (show some '"' = some c from hc)
      rfl
    · intro c hc
      rw [hlast] at hc
      obtain rfl := Option.some.inj hc
      rfl
  refine ⟨List.cons_ne_nil _ _, hwhole, rfl, ?_, ?_⟩
  · have hline := escaped_line s
    simp [quote, hline]
  · unfold unscalar
    simp only [hwhole]
    rw [if_pos ⟨by simp [quote], by rw [hlast]; rfl, Or.inl rfl⟩]
    simp [quote, Scalar.reread]

theorem float_char {c : Char} (h : c ∈ floatChars) :
    isSpace c = false ∧ c ≠ ':' ∧ c ≠ '\n' ∧ c ≠ '"' ∧ c ≠ '\'' ∧ c ≠ 'u' ∧ c ≠ 't' ∧ c ≠ 'l' := by
  simp only [floatChars, List.mem_cons, List.not_mem_nil, or_false] at h
  rcases h with rfl | rfl | rfl | rfl | rfl | rfl | rfl | rfl | rfl | rfl | rfl | rfl | rfl | rfl |
    rfl | rfl | rfl | rfl <;> decide

/-- A text of the characters of numbers is read as a number. -/
theorem number_written {text : Str} (hne : text ≠ []) (hchars : ∀ c ∈ text, c ∈ floatChars) :
    text ≠ [] ∧ strip isSpace text = text ∧ looksLikeKey text = false ∧ '\n' ∉ text ∧
      unscalar N text = readNumber N text := by
  have hwhole : strip isSpace text = text := strip_solid (fun c hc => (float_char (hchars c hc)).1)
  have hwords : text ≠ "null".toList ∧ text ≠ "true".toList ∧ text ≠ "false".toList := by
    refine ⟨?_, ?_, ?_⟩
    · rintro rfl
      exact absurd (hchars 'u' (by decide)) (by decide)
    · rintro rfl
      exact absurd (hchars 't' (by decide)) (by decide)
    · rintro rfl
      exact absurd (hchars 'l' (by decide)) (by decide)
  refine ⟨hne, hwhole, no_colon_keyless (fun h => (float_char (hchars _ h)).2.1 rfl),
    fun h => (float_char (hchars _ h)).2.2.1 rfl, ?_⟩
  have hhead : ∀ c, text.head? = some c → c ≠ '"' ∧ c ≠ '\'' := fun c h =>
    ⟨(float_char (hchars c (List.mem_of_head? h))).2.2.2.1,
      (float_char (hchars c (List.mem_of_head? h))).2.2.2.2.1⟩
  rw [unscalar_word hwhole (fun h => (hhead _ h).1 rfl) (fun h => (hhead _ h).2 rfl),
    if_neg hwords.1, if_neg hwords.2.1, if_neg hwords.2.2]

theorem digit_char {c : Char} (h : Json.isDigit c = true) : c ∈ floatChars := by
  have hall : ∀ n : Fin 10, Char.ofNat (48 + n.val) ∈ floatChars := by decide
  simp only [Json.isDigit, Bool.and_eq_true, decide_eq_true_eq] at h
  have hc := hall ⟨c.toNat - 48, by omega⟩
  rwa [show 48 + (c.toNat - 48) = c.toNat by omega, Char.ofNat_toNat] at hc

theorem int_chars (n : Int) : Json.renderInt n ≠ [] ∧ ∀ c ∈ Json.renderInt n, c ∈ floatChars := by
  have hdigits : ∀ m, ∀ c ∈ Json.decimal m, c ∈ floatChars := fun m c hc =>
    digit_char (Json.decimal_digits m c hc)
  cases n with
  | ofNat m =>
    obtain ⟨c, ds, hcs, -⟩ := Json.decimal_head m
    exact ⟨by rw [Json.renderInt, hcs]; exact List.cons_ne_nil _ _, hdigits m⟩
  | negSucc m =>
    refine ⟨List.cons_ne_nil _ _, fun c hc => ?_⟩
    rcases List.mem_cons.mp hc with rfl | hc
    · decide
    · exact hdigits _ c hc

/-- Whatever `_scalar` writes is read back by `_unscalar`. -/
theorem scalar_written {s : Scalar F} {text : Str} (h : scalar N s = .ok text) :
    Written N text s := by
  cases s with
  | null =>
    cases h
    exact ⟨by decide, by decide, by decide, by decide, rfl⟩
  | bool b =>
    cases h
    cases b
    · exact ⟨by decide, by decide, by decide, by decide, rfl⟩
    · exact ⟨by decide, by decide, by decide, by decide, rfl⟩
  | int n =>
    simp only [scalar] at h
    split at h
    · rename_i hshort
      cases h
      obtain ⟨hne, hchars⟩ := int_chars n
      obtain ⟨hfull, hwhole, hkey, hline, hback⟩ := number_written (N := N) hne hchars
      exact ⟨hfull, hwhole, hkey, hline, by rw [hback, readNumber, N.int_written n hshort]; rfl⟩
    · cases h
  | float x =>
    cases h
    obtain ⟨hne, hchars⟩ := N.repr_chars x
    obtain ⟨hfull, hwhole, hkey, hline, hback⟩ := number_written (N := N) hne hchars
    exact ⟨hfull, hwhole, hkey, hline, by rw [hback, readNumber, N.int_repr, N.float_repr]; rfl⟩
  | str s =>
    cases h
    exact quote_written s

theorem scalar_ok_iff {s : Scalar F} : (∃ text, scalar N s = .ok text) ↔ s.Writable := by
  cases s with
  | int n =>
    by_cases h : Short n
    · simp [scalar, Scalar.Writable, h]
    · simp [scalar, Scalar.Writable, h]
  | _ => simp [scalar, Scalar.Writable]

/-! ### Keys -/

theorem name_char {c : Char} (h : nameChar c = true) : isSpace c = false ∧ c ≠ ':' ∧ c ≠ '"' ∧
    c ≠ '\'' ∧ c ≠ '#' ∧ c ≠ '-' ∧ c ≠ '\n' ∧ c ≠ ' ' := by
  simp only [nameChar, Bool.and_eq_true, Bool.not_eq_true', decide_eq_true_eq, List.mem_cons,
    List.not_mem_nil, or_false, not_or] at h
  obtain ⟨hspace, hcolon, hquote, happ, hhash, hbar⟩ := h
  refine ⟨hspace, hcolon, hquote, happ, hhash, hbar, ?_, ?_⟩
  · rintro rfl
    cases hspace
  · rintro rfl
    cases hspace

/-- A row that begins with a name and a colon. -/
theorem keyed_row {k : Str} (hk : Identifier k) (value : Str) :
    partitionColon (k ++ ':' :: value) = (k, value) ∧ looksLikeKey (k ++ ':' :: value) = true ∧
    isItem (k ++ ':' :: value) = false ∧ strip isSpace k = k := by
  obtain ⟨hne, hchars⟩ := hk
  have hcolon : ∀ c ∈ k, (c ≠ ':' : Bool) = true := fun c hc =>
    decide_eq_true (name_char (hchars c hc)).2.1
  have hpart : partitionColon (k ++ ':' :: value) = (k, value) := by
    simp only [partitionColon]
    rw [List.takeWhile_append_of_pos hcolon, List.dropWhile_append_of_pos hcolon]
    simp
  have hstrip : strip isSpace k = k := strip_none (fun c hc => (name_char (hchars c hc)).1)
  refine ⟨hpart, ?_, ?_, hstrip⟩
  · cases k with
    | nil => exact absurd rfl hne
    | cons c cs =>
      have hc := name_char (hchars c (List.mem_cons_self ..))
      have hquote : '"' ∉ c :: cs := fun h => (name_char (hchars _ h)).2.2.1 rfl
      have hspace : ' ' ∉ c :: cs := fun h => (name_char (hchars _ h)).2.2.2.2.2.2.2 rfl
      rw [List.cons_append] at hpart ⊢
      simp only [looksLikeKey, hpart, hstrip]
      simp [hc.2.2.1, hc.2.2.2.1, hquote, hspace]
  · cases k with
    | nil => exact absurd rfl hne
    | cons c cs =>
      have hc := name_char (hchars c (List.mem_cons_self ..))
      simp [isItem, List.isPrefixOf, Ne.symm hc.2.2.2.2.2.1]

/-- A text that is its own row. -/
structure RowText (text : Str) : Prop where
  whole : strip isSpace text = text
  head : ∃ c cs, text = c :: cs ∧ isSpace c = false ∧ c ≠ '#'
  oneLine : '\n' ∉ text

theorem RowText.of_ends {text : Str}
    (hhead : ∃ c cs, text = c :: cs ∧ isSpace c = false ∧ c ≠ '#')
    (hlast : ∀ d ∈ text.getLast?, isSpace d = false) (hline : '\n' ∉ text) : RowText text := by
  refine ⟨strip_ends (fun d hd => ?_) hlast, hhead, hline⟩
  obtain ⟨c, cs, rfl, hc, -⟩ := hhead
  obtain rfl := Option.some.inj hd
  exact hc

theorem Written.last {text : Str} {s : Scalar F} (h : Written N text s) :
    ∀ d ∈ text.getLast?, isSpace d = false := by
  rw [← h.whole]
  exact strip_last

theorem Written.spaced {text : Str} {s : Scalar F} (h : Written N text s) :
    (∀ d ∈ (' ' :: text).getLast?, isSpace d = false) ∧ '\n' ∉ ' ' :: text := by
  constructor
  · intro d hd
    rw [List.getLast?_cons] at hd
    cases hv : text.getLast? with
    | none => exact absurd (List.getLast?_eq_none_iff.mp hv) h.full
    | some e =>
      rw [hv] at hd
      obtain rfl := Option.some.inj hd
      exact h.last e hv
  · simp [h.oneLine]

theorem keyed_row_text {k value : Str} (hk : Identifier k)
    (hlast : ∀ d ∈ value.getLast?, isSpace d = false) (hline : '\n' ∉ value) :
    RowText (k ++ ':' :: value) := by
  obtain ⟨hne, hchars⟩ := hk
  apply RowText.of_ends
  · cases k with
    | nil => exact absurd rfl hne
    | cons c cs =>
      have hc := name_char (hchars c (List.mem_cons_self ..))
      exact ⟨c, _, rfl, hc.1, hc.2.2.2.2.1⟩
  · intro d hd
    rw [List.getLast?_append, List.getLast?_cons] at hd
    cases hv : value.getLast? with
    | none =>
      rw [hv] at hd
      obtain rfl := Option.some.inj hd
      rfl
    | some e =>
      rw [hv] at hd
      obtain rfl := Option.some.inj hd
      exact hlast e hv
  · rw [List.mem_append, List.mem_cons, not_or, not_or]
    exact ⟨fun h => (name_char (hchars _ h)).2.2.2.2.2.2.1 rfl, by decide, hline⟩

/-- `- value`. -/
theorem item_row_text {text : Str} (hne : text ≠ [])
    (hlast : ∀ d ∈ text.getLast?, isSpace d = false) (hline : '\n' ∉ text) :
    RowText ('-' :: ' ' :: text) := by
  refine RowText.of_ends ⟨'-', _, rfl, rfl, by decide⟩ (fun d hd => ?_) (by simp [hline])
  rw [List.getLast?_cons_cons, List.getLast?_cons] at hd
  cases hv : text.getLast? with
  | none => exact absurd (List.getLast?_eq_none_iff.mp hv) hne
  | some e =>
    rw [hv] at hd
    obtain rfl := Option.some.inj hd
    exact hlast e hv

/-- The row of a line that is indented. -/
theorem row_of_indented {text : Str} (h : RowText text) (n : Nat) :
    rowOf (indented n text) = some (n, text) := by
  obtain ⟨c, cs, rfl, hc, hhash⟩ := h.head
  have hsolid : c ≠ ' ' := by
    rintro rfl
    cases hc
  have hblank : ∀ p : Char → Bool, p ' ' = true → p c = false →
      (List.replicate n ' ' ++ c :: cs).dropWhile p = c :: cs := by
    intro p hspace hp
    rw [List.dropWhile_append_of_pos (by simp [hspace]), List.dropWhile_cons_of_neg (by simp [hp])]
  have hstrip : strip isSpace (indented n (c :: cs)) = c :: cs := by
    rw [strip, indented, hblank _ rfl hc]
    have hwhole := h.whole
    rw [strip, List.dropWhile_cons_of_neg (by simp [hc])] at hwhole
    exact hwhole
  unfold rowOf
  rw [hstrip, indented, hblank _ rfl hc, hblank _ rfl (by simp [hsolid]), if_neg]
  · simp
  · simp [hhash]

end Solvio.Knowledge
