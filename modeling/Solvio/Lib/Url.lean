import Solvio.Lib.PyString

namespace Solvio.Lib

/-! The part of `urllib.parse` that reads an origin out of a text. -/

def isAscii (c : Char) : Bool := c.toNat < 128

/-- What Python reads out of tables: the lower case of a text beyond ASCII,
which bracketed hosts are addresses, and which hosts stay hosts under NFKC. -/
structure TextTables where
  lower : List Char → List Char
  bracketed : List Char → Bool
  compatible : List Char → Bool
  lower_break : ∀ cs, '\n' ∈ lower cs → '\n' ∈ cs
  lower_last : ∀ cs, (lower cs).getLast? = some '\n' → cs.getLast? = some '\n'

/-- `str.lower`. -/
def TextTables.lowered (T : TextTables) (cs : List Char) : List Char :=
  if cs.all isAscii then asciiLower cs else T.lower cs

theorem TextTables.lowered_break {T : TextTables} {cs : List Char} (h : '\n' ∈ T.lowered cs) :
    '\n' ∈ cs := by
  unfold lowered at h
  split at h
  · obtain ⟨c, hc, he⟩ := List.mem_map.mp h
    exact ascii_lower_break he ▸ hc
  · exact T.lower_break cs h

theorem TextTables.lowered_last {T : TextTables} {cs : List Char}
    (h : (T.lowered cs).getLast? = some '\n') : cs.getLast? = some '\n' := by
  unfold lowered at h
  split at h
  · rw [asciiLower, List.getLast?_map] at h
    obtain ⟨c, hc, he⟩ := Option.map_eq_some_iff.mp h
    exact ascii_lower_break he ▸ hc
  · exact T.lower_last cs h

namespace Url

def afterFirst (c : Char) (cs : List Char) : List Char := (cs.dropWhile (· ≠ c)).tail

def afterLast (c : Char) (cs : List Char) : List Char := (cs.reverse.takeWhile (· ≠ c)).reverse

def isLetter (c : Char) : Bool :=
  (97 ≤ c.toNat && c.toNat ≤ 122) || (65 ≤ c.toNat && c.toNat ≤ 90)

def isDecimal (c : Char) : Bool := 48 ≤ c.toNat && c.toNat ≤ 57

/-- `scheme_chars`. -/
def isSchemeChar (c : Char) : Bool :=
  isLetter c || isDecimal c || c = '+' || c = '-' || c = '.'

/-- The scheme, if there is one, and what follows its colon. -/
def splitScheme (url : List Char) : List Char × List Char :=
  let head := url.takeWhile (· ≠ ':')
  if head.head?.any isLetter && head.all isSchemeChar && decide (head.length < url.length) then
    (asciiLower head, afterFirst ':' url)
  else ([], url)

/-- `_splitnetloc` behind two slashes. -/
def netlocOf : List Char → List Char
  | '/' :: '/' :: more => more.takeWhile (fun c => c ≠ '/' ∧ c ≠ '?' ∧ c ≠ '#')
  | _ => []

structure Split where
  scheme : List Char
  netloc : List Char

/-- `urlsplit`, as far as an origin needs it; `none` is a `ValueError`. -/
def split (T : TextTables) (text : List Char) : Option Split :=
  let url := (text.dropWhile (fun c => c.toNat ≤ 32)).filter
    (fun c => c ≠ '\t' ∧ c ≠ '\r' ∧ c ≠ '\n')
  let netloc := netlocOf (splitScheme url).2
  if decide ('[' ∈ netloc) != decide (']' ∈ netloc) then none
  else if '[' ∈ netloc ∧ T.bracketed netloc = false then none
  else if netloc.all isAscii = false ∧ T.compatible netloc = false then none
  else some ⟨(splitScheme url).1, netloc⟩

/-- `_hostinfo`: the host as it stands there, and the text of the port. -/
def hostinfo (netloc : List Char) : List Char × List Char :=
  let info := afterLast '@' netloc
  if '[' ∈ info then
    let bracketed := afterFirst '[' info
    (bracketed.takeWhile (· ≠ ']'), afterFirst ':' (afterFirst ']' bracketed))
  else (info.takeWhile (· ≠ ':'), afterFirst ':' info)

/-- `hostname`. A zone keeps its case. -/
def hostname (T : TextTables) (netloc : List Char) : List Char :=
  let host := (hostinfo netloc).1
  T.lowered (host.takeWhile (· ≠ '%')) ++ host.dropWhile (· ≠ '%')

def number (ds : List Char) : Nat := ds.foldl (fun n c => n * 10 + (c.toNat - 48)) 0

/-- `port`: none, or a number in range; the outer `none` is a `ValueError`. -/
def port (netloc : List Char) : Option (Option Nat) :=
  let text := (hostinfo netloc).2
  if text = [] then some none
  else if text.all isDecimal ∧ number text ≤ 65535 then some (some (number text))
  else none

/-! ### No part has a line break -/

theorem ascii_lower_line {cs : List Char} (h : '\n' ∉ cs) : '\n' ∉ asciiLower cs := by
  intro hm
  obtain ⟨c, hc, he⟩ := List.mem_map.mp hm
  exact h (ascii_lower_break he ▸ hc)

theorem after_first_subset (c : Char) (cs : List Char) : afterFirst c cs ⊆ cs :=
  fun _ h => (List.dropWhile_sublist _).subset (List.mem_of_mem_tail h)

theorem after_last_subset (c : Char) (cs : List Char) : afterLast c cs ⊆ cs := by
  intro d h
  rw [afterLast, List.mem_reverse] at h
  exact List.mem_reverse.mp ((List.takeWhile_sublist _).subset h)

theorem netloc_subset (rest : List Char) : netlocOf rest ⊆ rest := by
  intro c h
  unfold netlocOf at h
  split at h
  · simp [(List.takeWhile_sublist _).subset h]
  · cases h

/-- The parts of a split carry no line break. -/
theorem split_line {T : TextTables} {text : List Char} {s : Split} (h : split T text = some s) :
    '\n' ∉ s.scheme ∧ '\n' ∉ s.netloc := by
  unfold split at h
  generalize hurl : (text.dropWhile (fun c => c.toNat ≤ 32)).filter
    (fun c => c ≠ '\t' ∧ c ≠ '\r' ∧ c ≠ '\n') = url at h
  have hline : '\n' ∉ url := by
    rw [← hurl]
    simp
  have hscheme : '\n' ∉ (splitScheme url).1 := by
    unfold splitScheme
    simp only
    split
    · exact ascii_lower_line fun hm => hline ((List.takeWhile_sublist _).subset hm)
    · simp
  have hrest : '\n' ∉ (splitScheme url).2 := by
    unfold splitScheme
    simp only
    split
    · exact fun hm => hline (after_first_subset _ _ hm)
    · exact hline
  simp only at h
  split at h
  · simp at h
  split at h
  · simp at h
  split at h
  · simp at h
  obtain rfl := Option.some.inj h
  exact ⟨hscheme, fun hm => hrest (netloc_subset _ hm)⟩

theorem hostname_line {T : TextTables} {netloc : List Char} (h : '\n' ∉ netloc) :
    '\n' ∉ hostname T netloc := by
  have hinfo : '\n' ∉ afterLast '@' netloc := fun hm => h (after_last_subset _ _ hm)
  have hhost : '\n' ∉ (hostinfo netloc).1 := by
    unfold hostinfo
    simp only
    split
    · exact fun hm => hinfo (after_first_subset _ _ ((List.takeWhile_sublist _).subset hm))
    · exact fun hm => hinfo ((List.takeWhile_sublist _).subset hm)
  intro hm
  rcases List.mem_append.mp hm with hm | hm
  · exact hhost ((List.takeWhile_sublist _).subset (TextTables.lowered_break hm))
  · exact hhost ((List.dropWhile_sublist _).subset hm)

end Url

end Solvio.Lib
