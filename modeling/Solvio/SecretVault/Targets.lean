import Solvio.Lib.Origins
import Solvio.SecretVault.Policy

namespace Solvio.SecretVault
open Solvio.Lib Url

variable {T : TextTables}

theorem normalize_empty : normalizeTarget T "" = some "" := rfl

/-- What an origin was put together from. -/
theorem normalize_some {value a : String} (h : normalizeTarget T value = some a) (hne : a ≠ "") :
    ∃ parts p, split T (T.lowered (strip isSpace value.toList)) = some parts ∧
      parts.scheme ≠ [] ∧ port parts.netloc = some p ∧
      a = String.ofList (origin parts.scheme (hostname T parts.netloc ++ suffix p)) := by
  unfold normalizeTarget at h
  simp only at h
  split at h
  · exact absurd (Option.some.inj h).symm hne
  split at h
  · exact absurd (Option.some.inj h).symm hne
  split at h
  · exact absurd (Option.some.inj h).symm hne
  rename_i parts hparts
  split at h
  · exact absurd (Option.some.inj h).symm hne
  rename_i hfull
  split at h
  · cases h
  rename_i p hport
  refine ⟨parts, p, hparts, fun hs => hfull (Or.inl hs), hport, ?_⟩
  rw [← Option.some.inj h, origin, ← List.append_assoc _ _ (suffix p)]
  rfl

theorem hosted_suffix {h : List Char} (hh : Hosted T h) (p : Option Nat) :
    Hosted T (h ++ suffix p) := by
  intro c hc
  rcases List.mem_append.mp hc with hc | hc
  · exact hh c hc
  · unfold suffix at hc
    split at hc
    · rcases List.mem_cons.mp hc with rfl | hc
      · exact ⟨small_ascii (by decide) (by decide), by decide⟩
      · have hdigit := Json.decimal_digits _ c hc
        simp only [Json.isDigit, Bool.and_eq_true, decide_eq_true_eq] at hdigit
        refine ⟨small_ascii (by simp only [isAscii, decide_eq_true_eq]; omega) (by omega), ?_⟩
        simp only [List.mem_cons, List.not_mem_nil, or_false, not_or]
        refine ⟨?_, ?_, ?_, ?_, ?_, ?_, ?_⟩ <;> rintro rfl <;> revert hdigit <;> decide
    · cases hc

/-- A host keeps its spaces in front of a port. -/
theorem rdrop_suffix (h : List Char) {p : Option Nat} (hp : suffix p ≠ []) :
    (h ++ suffix p).rdropWhile isSpace = h ++ suffix p := by
  unfold suffix at hp ⊢
  split
  · rename_i n
    rw [rdrop_append (by decide), List.rdropWhile_eq_self_iff.mpr]
    intro hne
    have hdigit := Json.decimal_digits _ _ (List.getLast_mem hne)
    simp only [Json.isDigit, Bool.and_eq_true, decide_eq_true_eq] at hdigit
    simp only [isSpace, Bool.not_eq_true, Bool.or_eq_false_iff, Bool.and_eq_false_iff,
      decide_eq_false_iff_not]
    omega
  · rename_i hnone
    split at hp
    · rename_i n
      exact absurd rfl (hnone n)
    · exact absurd rfl hp

/-- An origin is read as it stands, without the spaces behind it. -/
theorem read_origin (hT : T.Steady) {s rest : List Char} (hs : Scheme s) (hrest : Hosted T rest) :
    T.lowered (strip isSpace (origin s rest)) = origin s (rest.rdropWhile isSpace) := by
  have hhead : ∀ c ∈ (origin s rest).head?, isSpace c = false := by
    intro c hc
    cases hcs : s with
    | nil => exact absurd hcs hs.ne_nil
    | cons d ds =>
      have hd := hs.letter
      rw [hcs] at hd
      rw [hcs, origin_eq, List.cons_append, List.head?_cons] at hc
      obtain rfl := Option.some.inj hc
      exact (letter_solid (by simpa using hd)).1
  have hstrip : strip isSpace (origin s rest) = origin s (rest.rdropWhile isSpace) := by
    have hsplit : ∀ ds, origin s ds = (s ++ [':', '/']) ++ '/' :: ds := fun ds => by
      simp [origin_eq]
    rw [strip_front hhead, hsplit, rdrop_append (by decide), hsplit]
  rw [hstrip]
  apply lowered_fixed hT
  intro c hc
  rw [origin_eq, List.mem_append] at hc
  simp only [List.mem_cons] at hc
  rcases hc with hc | rfl | rfl | rfl | hc
  · exact hs.small c hc
  · exact small_ascii (by decide) (by decide)
  · exact small_ascii (by decide) (by decide)
  · exact small_ascii (by decide) (by decide)
  · exact (hrest c ((List.rdropWhile_prefix _ _).subset hc)).1

theorem hostname_small (hT : T.Steady) {netloc : List Char} (h : ∀ c ∈ netloc, T.Small c) :
    hostname T netloc = (hostinfo netloc).1 := by
  rw [hostname, lowered_fixed hT, List.takeWhile_append_dropWhile]
  intro c hc
  exact h c ((hostinfo_host _).1 c ((List.takeWhile_sublist _).subset hc)).1

/-- The origin of a text. -/
theorem normalize_origin (hT : T.Steady) {value a : String} (h : normalizeTarget T value = some a)
    (hne : a ≠ "") : ∃ s host p, Scheme s ∧ Hosted T host ∧
      a = String.ofList (origin s (host ++ suffix p)) ∧
      (('[' ∉ host ∧ ':' ∉ host) ∨ ']' ∉ host) := by
  obtain ⟨parts, p, hparts, hscheme, -, rfl⟩ := normalize_some h hne
  obtain ⟨hs, hnetloc⟩ := split_small hparts (lowered_small hT) hT hscheme
  have hhost := hostname_small hT (fun c hc => (hnetloc c hc).1)
  obtain ⟨hmem, hbrackets⟩ := hostinfo_host parts.netloc
  refine ⟨parts.scheme, hostname T parts.netloc, p, hs, ?_, rfl, hhost ▸ hbrackets⟩
  intro c hc
  rw [hhost] at hc
  obtain ⟨hc, hat⟩ := hmem c hc
  obtain ⟨hsmall, hnot⟩ := hnetloc c hc
  refine ⟨hsmall, ?_⟩
  simp only [List.mem_cons, List.not_mem_nil, or_false, not_or] at hnot ⊢
  exact ⟨hnot.1, hnot.2.1, hnot.2.2.1, hat, hnot.2.2.2⟩

/-- The origin of an origin. -/
theorem normalize_again (hT : T.Steady) {s host : List Char} {p : Option Nat} {b : String}
    (hs : Scheme s) (hh : Hosted T host)
    (h : normalizeTarget T (String.ofList (origin s (host ++ suffix p))) = some b) (hne : b ≠ "") :
    ∃ netloc q, netloc = (host ++ suffix p).rdropWhile isSpace ∧ ('[' ∈ netloc ↔ ']' ∈ netloc) ∧
      port netloc = some q ∧
      b = String.ofList (origin s ((hostinfo netloc).1 ++ suffix q)) := by
  have hbody := hosted_suffix hh p
  obtain ⟨parts, q, hparts, -, hport, rfl⟩ := normalize_some h hne
  rw [String.toList_ofList, read_origin hT hs hbody] at hparts
  have hrest : Hosted T ((host ++ suffix p).rdropWhile isSpace) := fun c hc =>
    hbody c ((List.rdropWhile_prefix _ _).subset hc)
  obtain ⟨rfl, hbrackets⟩ := split_origin hs (fun c hc => by
    have hnot := (hrest c hc).2
    simp only [List.mem_cons, List.not_mem_nil, or_false, not_or] at hnot ⊢
    exact ⟨hnot.1, hnot.2.1, hnot.2.2.1, hnot.2.2.2.2⟩) hparts
  refine ⟨_, q, rfl, hbrackets, hport, ?_⟩
  rw [hostname_small hT (fun c hc => (hrest c hc).1)]

/-- A host without brackets and colons. -/
structure PlainHost (T : TextTables) (host : List Char) : Prop where
  hosted : Hosted T host
  bracket : '[' ∉ host
  colon : ':' ∉ host

/-- The second origin of a text has a plain host. -/
theorem normalize_twice (hT : T.Steady) {value a b : String} (h : normalizeTarget T value = some a)
    (h' : normalizeTarget T a = some b) (hne : b ≠ "") :
    ∃ s host p, Scheme s ∧ PlainHost T host ∧ b = String.ofList (origin s (host ++ suffix p)) := by
  have ha : a ≠ "" := by
    rintro rfl
    exact hne (Option.some.inj h').symm
  obtain ⟨s, host, p, hs, hh, rfl, hshape⟩ := normalize_origin hT h ha
  obtain ⟨netloc, q, hnetloc, hbrackets, -, rfl⟩ := normalize_again hT hs hh h' hne
  have hsub : ∀ c ∈ netloc, c ∈ host ++ suffix p := fun c hc => by
    rw [hnetloc] at hc
    exact (List.rdropWhile_prefix _ _).subset hc
  obtain ⟨hmem, hplain⟩ := hostinfo_host netloc
  have hport : ∀ c, c ≠ ':' → Json.isDigit c = false → c ∉ suffix p := by
    intro c hc hd hm
    unfold suffix at hm
    split at hm
    · rcases List.mem_cons.mp hm with rfl | hm
      · exact hc rfl
      · rw [Json.decimal_digits _ c hm] at hd
        cases hd
    · cases hm
  have hopen : '[' ∉ netloc := by
    intro hopen
    have hclose := hbrackets.mp hopen
    have hin : ∀ c, c ≠ ':' → Json.isDigit c = false → c ∈ netloc → c ∈ host := fun c hc hd hm =>
      (List.mem_append.mp (hsub c hm)).resolve_right (hport c hc hd)
    rcases hshape with ⟨hno, -⟩ | hno
    · exact hno (hin '[' (by decide) (by decide) hopen)
    · exact hno (hin ']' (by decide) (by decide) hclose)
  refine ⟨s, (hostinfo netloc).1, q, hs, ⟨?_, ?_, ?_⟩, rfl⟩
  · exact fun c hc => hosted_suffix hh p c (hsub c (hmem c hc).1)
  · exact fun hm => hopen (hmem _ hm).1
  · have hinfo : '[' ∉ afterLast '@' netloc := fun hm => hopen (after_last_subset _ _ hm)
    rw [hostinfo, if_neg hinfo]
    intro hm
    simpa using List.mem_takeWhile_imp hm

/-- The origin of a plain origin loses no more than the spaces behind it. -/
theorem normalize_plain (hT : T.Steady) {s host : List Char} {p : Option Nat} {b : String}
    (hs : Scheme s) (hh : PlainHost T host)
    (h : normalizeTarget T (String.ofList (origin s (host ++ suffix p))) = some b) (hne : b ≠ "") :
    b = String.ofList (origin s ((host ++ suffix p).rdropWhile isSpace)) := by
  have hat : '@' ∉ host := fun hm => by simpa using (hh.hosted _ hm).2
  obtain ⟨netloc, q, rfl, -, hport, rfl⟩ := normalize_again hT hs hh.hosted h hne
  by_cases hp : suffix p = []
  · rw [hp, List.append_nil] at hport ⊢
    have hsub := (List.rdropWhile_prefix isSpace host).subset
    have hinfo := hostinfo_plain (fun hm => hat (hsub hm)) (fun hm => hh.bracket (hsub hm))
      (fun hm => hh.colon (hsub hm)) (Or.inl rfl)
    rw [List.append_nil] at hinfo
    simp only [port, hinfo, List.tail_nil, if_true, Option.some.injEq] at hport
    rw [hinfo, ← hport]
    simp [suffix]
  · rw [rdrop_suffix host hp] at hport ⊢
    cases p with
    | none => exact absurd rfl hp
    | some n =>
      cases n with
      | zero => exact absurd rfl hp
      | succ n =>
        have hinfo := hostinfo_plain hat hh.bracket hh.colon (Or.inr ⟨n + 1, rfl⟩ :
          suffix (some (n + 1)) = [] ∨ _)
        obtain ⟨c, cs, hcs, -⟩ := Json.decimal_head (n + 1)
        have htail : (suffix (some (n + 1))).tail = Json.decimal (n + 1) := rfl
        rw [htail] at hinfo
        simp only [port, hinfo] at hport
        rw [if_neg (by rw [hcs]; simp)] at hport
        split at hport
        · rw [hinfo, ← Option.some.inj hport, number_decimal]
        · cases hport

/-- From the third time on an origin stays as it is. -/
theorem normalize_fourth (hT : T.Steady) {value a b c d : String}
    (ha : normalizeTarget T value = some a) (hb : normalizeTarget T a = some b)
    (hc : normalizeTarget T b = some c) (hd : normalizeTarget T c = some d) (hne : d ≠ "") :
    d = c := by
  have hprev : ∀ {x y : String}, normalizeTarget T x = some y → y ≠ "" → x ≠ "" := by
    rintro x y hxy hy rfl
    exact hy (Option.some.inj hxy).symm
  have hcne := hprev hd hne
  obtain ⟨s, host, p, hs, hh, rfl⟩ := normalize_twice hT ha hb (hprev hc hcne)
  obtain rfl := normalize_plain hT hs hh hc hcne
  by_cases hp : suffix p = []
  · rw [hp, List.append_nil] at hd ⊢
    have hh' : PlainHost T (host.rdropWhile isSpace) :=
      have hsub := (List.rdropWhile_prefix isSpace host).subset
      ⟨fun c hc => hh.hosted c (hsub hc), fun hm => hh.bracket (hsub hm),
        fun hm => hh.colon (hsub hm)⟩
    have hnil : ∀ cs : List Char, cs = cs ++ suffix none := fun cs => (List.append_nil cs).symm
    rw [hnil (host.rdropWhile isSpace)] at hd
    rw [normalize_plain hT hs hh' hd hne, ← hnil, List.rdropWhile_idempotent]
  · rw [rdrop_suffix host hp] at hd ⊢
    rw [normalize_plain hT hs hh hd hne, rdrop_suffix host hp]

end Solvio.SecretVault
