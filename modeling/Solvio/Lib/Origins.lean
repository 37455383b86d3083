import Mathlib.Data.List.DropRight
import Solvio.SecretVault.Policy

namespace Solvio.Lib

/-! ### Lower case that stays -/

/-- A character that is its own lower case. -/
def TextTables.Small (T : TextTables) (c : Char) : Prop := T.lowered [c] = [c]

/-- What `str.lower` keeps of its table: it answers small characters, and it leaves
a text of small characters as it is. -/
structure TextTables.Steady (T : TextTables) : Prop where
  small : ∀ cs, ∀ c ∈ T.lower cs, T.Small c
  fixed : ∀ cs, (∀ c ∈ cs, T.Small c) → T.lower cs = cs

section steady
variable {T : TextTables}

theorem small_ascii {c : Char} (ha : isAscii c = true) (hu : ¬ (65 ≤ c.toNat ∧ c.toNat ≤ 90)) :
    T.Small c := by
  simp [TextTables.Small, TextTables.lowered, ha, asciiLower, hu]

theorem lowered_small (h : T.Steady) {cs : List Char} : ∀ c ∈ T.lowered cs, T.Small c := by
  intro c hc
  unfold TextTables.lowered at hc
  split at hc
  · rename_i hall
    obtain ⟨d, hd, rfl⟩ := List.mem_map.mp hc
    have ha := List.all_eq_true.mp hall d hd
    split
    · rename_i hu
      have hn := lower_letter hu
      apply small_ascii
      · simp only [isAscii, hn, decide_eq_true_eq]
        omega
      · rw [hn]
        omega
    · rename_i hu
      exact small_ascii ha hu
  · exact h.small cs c hc

theorem lowered_fixed (h : T.Steady) {cs : List Char} (hs : ∀ c ∈ cs, T.Small c) :
    T.lowered cs = cs := by
  unfold TextTables.lowered
  split
  · rename_i hall
    rw [asciiLower]
    conv_rhs => rw [← List.map_id cs]
    apply List.map_congr_left
    intro c hc
    have hsmall := hs c hc
    simp only [TextTables.Small, TextTables.lowered, asciiLower, List.all_cons, List.all_nil,
      List.all_eq_true.mp hall c hc, Bool.and_true, if_true, List.map_cons, List.map_nil,
      List.cons.injEq, and_true] at hsmall
    exact hsmall
  · exact h.fixed cs hs

end steady

/-! ### Trailing characters -/

theorem strip_front {p : Char → Bool} {cs : List Char} (h : ∀ c ∈ cs.head?, p c = false) :
    strip p cs = cs.rdropWhile p := by
  have hd : cs.dropWhile p = cs := by
    cases cs with
    | nil => rfl
    | cons c cs => simp [h c (by simp)]
  rw [strip, hd, List.rdropWhile]

theorem rdrop_append {p : Char → Bool} {cs ds : List Char} {c : Char} (hc : p c = false) :
    (cs ++ c :: ds).rdropWhile p = cs ++ c :: ds.rdropWhile p := by
  induction ds using List.reverseRecOn with
  | nil => rw [List.rdropWhile_nil, List.rdropWhile_concat_neg _ _ _ (by simp [hc])]
  | append_singleton ds d ih =>
    have hassoc : cs ++ c :: (ds ++ [d]) = (cs ++ c :: ds) ++ [d] := by simp
    by_cases hd : p d = true
    · rw [hassoc, List.rdropWhile_concat_pos _ _ _ hd, ih, List.rdropWhile_concat_pos _ _ _ hd]
    · rw [hassoc, List.rdropWhile_concat_neg _ _ _ hd, List.rdropWhile_concat_neg _ _ _ hd,
        hassoc]

namespace Url

/-! ### The parts of an origin -/

/-- A scheme that is read back as it stands. -/
structure Scheme (s : List Char) : Prop where
  letter : s.head?.any isLetter = true
  chars : s.all isSchemeChar = true
  lower : asciiLower s = s

/-- The characters that can stand in a host. -/
def Hosted (T : TextTables) (cs : List Char) : Prop :=
  ∀ c ∈ cs, T.Small c ∧ c ∉ ['/', '?', '#', '@', '\t', '\r', '\n']

/-- A port behind its colon, if it is not zero. -/
def suffix : Option Nat → List Char
  | some (n + 1) => ':' :: Json.decimal (n + 1)
  | _ => []

/-- The text of an origin. -/
def origin (scheme rest : List Char) : List Char := scheme ++ "://".toList ++ rest

theorem origin_eq (scheme rest : List Char) :
    origin scheme rest = scheme ++ ':' :: '/' :: '/' :: rest := by
  simp [origin]

theorem Scheme.ne_nil {s : List Char} (h : Scheme s) : s ≠ [] := by
  rintro rfl
  simpa using h.letter

theorem letter_solid {c : Char} (h : isLetter c = true) : isSpace c = false ∧ 32 < c.toNat := by
  simp only [isLetter, Bool.or_eq_true, Bool.and_eq_true, decide_eq_true_eq] at h
  simp only [isSpace, Bool.or_eq_false_iff, Bool.and_eq_false_iff, decide_eq_false_iff_not]
  omega

theorem scheme_char {c : Char} (h : isSchemeChar c = true) :
    c ≠ ':' ∧ c ≠ '\t' ∧ c ≠ '\r' ∧ c ≠ '\n' ∧ isAscii c = true := by
  simp only [isSchemeChar, isLetter, isDecimal, Bool.or_eq_true, Bool.and_eq_true,
    decide_eq_true_eq] at h
  have hn : ∀ d : Char, c.toNat ≠ d.toNat → c ≠ d := fun d hd he => hd (by rw [he])
  have hr : c.toNat < 128 ∧ c.toNat ≠ 58 ∧ 32 < c.toNat := by
    rcases h with (((h | h) | rfl) | rfl) | rfl
    · omega
    · omega
    all_goals decide
  refine ⟨hn _ ?_, hn _ ?_, hn _ ?_, hn _ ?_, by simp [isAscii, hr.1]⟩ <;>
    simp only [Char.reduceToNat] <;> omega

theorem Scheme.small {T : TextTables} {s : List Char} (h : Scheme s) : ∀ c ∈ s, T.Small c := by
  intro c hc
  have ha := (scheme_char (List.all_eq_true.mp h.chars c hc)).2.2.2.2
  have hmap : s.map (fun c => if 65 ≤ c.toNat ∧ c.toNat ≤ 90 then Char.ofNat (c.toNat + 32) else c) =
      s.map id := by rw [List.map_id]; exact h.lower
  have hfix := List.map_inj_left.mp hmap c hc
  simp only [id] at hfix
  simp [TextTables.Small, TextTables.lowered, ha, asciiLower, hfix]

theorem Scheme.split {s rest : List Char} (h : Scheme s) :
    splitScheme (origin s rest) = (s, '/' :: '/' :: rest) := by
  have hall : ∀ c ∈ s, (c ≠ ':') = true := fun c hc => by
    simpa using (scheme_char (List.all_eq_true.mp h.chars c hc)).1
  have htake : (origin s rest).takeWhile (· ≠ ':') = s := by
    rw [origin_eq, List.takeWhile_append_of_pos (by simpa using hall)]
    simp
  have hdrop : afterFirst ':' (origin s rest) = '/' :: '/' :: rest := by
    rw [afterFirst, origin_eq, List.dropWhile_append_of_pos (by simpa using hall)]
    simp
  have hlen : s.length < (origin s rest).length := by
    rw [origin_eq, List.length_append, List.length_cons]
    omega
  simp only [splitScheme, htake, hdrop, h.letter, h.chars, decide_eq_true hlen, Bool.and_true,
    if_true, h.lower]

/-- What `split` gives for a text of small characters. -/
theorem split_small {T : TextTables} {text : List Char} {parts : Split}
    (h : split T text = some parts) (hsmall : ∀ c ∈ text, T.Small c) (hT : T.Steady)
    (hne : parts.scheme ≠ []) : Scheme parts.scheme ∧
      ∀ c ∈ parts.netloc, T.Small c ∧ c ∉ ['/', '?', '#', '\t', '\r', '\n'] := by
  unfold split at h
  generalize hurl : (text.dropWhile (fun c => c.toNat ≤ 32)).filter
    (fun c => c ≠ '\t' ∧ c ≠ '\r' ∧ c ≠ '\n') = url at h
  have hkept : ∀ c ∈ url, T.Small c ∧ c ∉ ['\t', '\r', '\n'] := by
    intro c hc
    rw [← hurl] at hc
    obtain ⟨hc, hp⟩ := List.mem_filter.mp hc
    exact ⟨hsmall c ((List.dropWhile_sublist _).subset hc), by simpa using hp⟩
  simp only at h
  split at h
  · cases h
  split at h
  · cases h
  split at h
  · cases h
  obtain rfl := Option.some.inj h
  simp only at hne ⊢
  unfold splitScheme at hne ⊢
  simp only at hne ⊢
  split at hne
  · rename_i hscheme
    rw [if_pos hscheme]
    simp only [Bool.and_eq_true] at hscheme
    obtain ⟨⟨hletter, hchars⟩, -⟩ := hscheme
    have hlower : asciiLower (url.takeWhile (· ≠ ':')) = url.takeWhile (· ≠ ':') := by
      have hfixed : T.lowered (url.takeWhile (· ≠ ':')) = url.takeWhile (· ≠ ':') :=
        lowered_fixed hT (fun c hc => (hkept c ((List.takeWhile_sublist _).subset hc)).1)
      have hascii : (url.takeWhile (· ≠ ':')).all isAscii = true :=
        List.all_eq_true.mpr (fun c hc => (scheme_char (List.all_eq_true.mp hchars c hc)).2.2.2.2)
      rwa [TextTables.lowered, if_pos hascii] at hfixed
    refine ⟨?_, ?_⟩
    · simp only [hlower]
      exact ⟨hletter, hchars, hlower⟩
    · intro c hc
      have hurl := hkept c (after_first_subset _ _ (netloc_subset _ hc))
      have hnet : c ∉ ['/', '?', '#'] := by
        unfold netlocOf at hc
        split at hc
        · have := List.mem_takeWhile_imp hc
          simpa using this
        · cases hc
      refine ⟨hurl.1, ?_⟩
      have := hurl.2
      simp only [List.mem_cons, List.not_mem_nil, or_false, not_or] at this hnet ⊢
      exact ⟨hnet.1, hnet.2.1, hnet.2.2, this⟩
  · exact absurd rfl hne

/-- An origin is split where it was put together. -/
theorem split_origin {T : TextTables} {s rest : List Char} {parts : Split} (hs : Scheme s)
    (hrest : ∀ c ∈ rest, c ∉ ['/', '?', '#', '\t', '\r', '\n'])
    (h : split T (origin s rest) = some parts) :
    parts = ⟨s, rest⟩ ∧ ('[' ∈ rest ↔ ']' ∈ rest) := by
  have hdrop : (origin s rest).dropWhile (fun c => c.toNat ≤ 32) = origin s rest := by
    cases hcs : s with
    | nil => exact absurd hcs hs.ne_nil
    | cons c cs =>
      have hc := hs.letter
      rw [hcs] at hc
      have hlarge := (letter_solid (by simpa using hc)).2
      rw [origin_eq, List.cons_append, List.dropWhile_cons_of_neg (by simpa using hlarge)]
  have hfilter : (origin s rest).filter (fun c => c ≠ '\t' ∧ c ≠ '\r' ∧ c ≠ '\n') =
      origin s rest := by
    apply List.filter_eq_self.mpr
    intro c hc
    rw [origin_eq, List.mem_append] at hc
    simp only [List.mem_cons] at hc
    simp only [decide_eq_true_eq]
    rcases hc with hc | rfl | rfl | rfl | hc
    · have hchar := scheme_char (List.all_eq_true.mp hs.chars c hc)
      exact ⟨hchar.2.1, hchar.2.2.1, hchar.2.2.2.1⟩
    · decide
    · decide
    · decide
    · have hnot := hrest c hc
      simp only [List.mem_cons, List.not_mem_nil, or_false, not_or] at hnot
      exact hnot.2.2.2
  have hnet : netlocOf ('/' :: '/' :: rest) = rest := by
    apply List.takeWhile_eq_self_iff.mpr
    intro c hc
    have hnot := hrest c hc
    simp only [List.mem_cons, List.not_mem_nil, or_false, not_or] at hnot
    simpa using ⟨hnot.1, hnot.2.1, hnot.2.2.1⟩
  unfold split at h
  simp only [hdrop, hfilter, hs.split, hnet] at h
  split at h
  · cases h
  · rename_i hbrackets
    split at h
    · cases h
    split at h
    · cases h
    obtain rfl := Option.some.inj h
    exact ⟨rfl, by simpa using hbrackets⟩

/-- A host that is read out of a netloc. -/
theorem hostinfo_host (netloc : List Char) :
    (∀ c ∈ (hostinfo netloc).1, c ∈ netloc ∧ c ≠ '@') ∧
    (('[' ∉ (hostinfo netloc).1 ∧ ':' ∉ (hostinfo netloc).1) ∨ ']' ∉ (hostinfo netloc).1) := by
  have hinfo : ∀ c ∈ afterLast '@' netloc, c ∈ netloc ∧ c ≠ '@' := by
    intro c hc
    refine ⟨after_last_subset _ _ hc, ?_⟩
    rw [afterLast, List.mem_reverse] at hc
    simpa using List.mem_takeWhile_imp hc
  have htake : ∀ (d : Char) (cs : List Char), d ∉ cs.takeWhile (· ≠ d) := by
    intro d cs hd
    simpa using List.mem_takeWhile_imp hd
  unfold hostinfo
  simp only
  split
  · refine ⟨fun c hc => hinfo c ?_, Or.inr (htake _ _)⟩
    exact after_first_subset _ _ ((List.takeWhile_sublist _).subset hc)
  · rename_i hopen
    refine ⟨fun c hc => hinfo c ((List.takeWhile_sublist _).subset hc), Or.inl ⟨?_, htake _ _⟩⟩
    exact fun hc => hopen ((List.takeWhile_sublist _).subset hc)

/-- A host without brackets and colons, in front of a port. -/
theorem hostinfo_plain {h ds : List Char} (hat : '@' ∉ h) (hopen : '[' ∉ h) (hcolon : ':' ∉ h)
    (hds : ds = [] ∨ ∃ n, ds = ':' :: Json.decimal n) :
    hostinfo (h ++ ds) = (h, ds.tail) := by
  have hnot : ∀ c, c ≠ ':' → Json.isDigit c = false → c ∉ h → c ∉ h ++ ds := by
    intro c hc hdigit hh hm
    rcases List.mem_append.mp hm with hm | hm
    · exact hh hm
    · rcases hds with rfl | ⟨n, rfl⟩
      · cases hm
      · rcases List.mem_cons.mp hm with rfl | hm
        · exact hc rfl
        · rw [Json.decimal_digits n c hm] at hdigit
          cases hdigit
  have hlast : afterLast '@' (h ++ ds) = h ++ ds := by
    have htake : (h ++ ds).reverse.takeWhile (· ≠ '@') = (h ++ ds).reverse := by
      apply List.takeWhile_eq_self_iff.mpr
      intro c hc
      simp only [decide_eq_true_eq]
      rintro rfl
      exact hnot '@' (by decide) (by decide) hat (List.mem_reverse.mp hc)
    rw [afterLast, htake, List.reverse_reverse]
  have hall : ∀ c ∈ h, decide (c ≠ ':') = true := fun c hc => by
    simp only [decide_eq_true_eq]
    rintro rfl
    exact hcolon hc
  simp only [hostinfo, hlast, if_neg (hnot '[' (by decide) (by decide) hopen), afterFirst]
  rw [List.takeWhile_append_of_pos hall, List.dropWhile_append_of_pos hall]
  rcases hds with rfl | ⟨n, rfl⟩ <;> simp

theorem number_decimal (n : Nat) : number (Json.decimal n) = n := Json.nat_of_decimal n

end Url

end Solvio.Lib
