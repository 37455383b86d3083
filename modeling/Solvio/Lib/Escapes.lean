import Mathlib.Data.List.Infix

namespace Solvio.Lib

/-! Texts in quotation marks: what `str.replace` escapes, and what replacing
the pairs in turn gives back. -/

section Replace

variable {α : Type} [DecidableEq α]

/-- `str.replace` of a text of one character. -/
def replaceOne (c : α) (out cs : List α) : List α :=
  cs.flatMap (fun x => if x = c then out else [x])

/-- `str.replace` of a text of two characters, from the left. -/
def replacePair (a b : α) (out : List α) : List α → List α
  | [] => []
  | [x] => [x]
  | x :: y :: rest =>
    if x = a ∧ y = b then out ++ replacePair a b out rest
    else x :: replacePair a b out (y :: rest)

variable {a b x : α} {out rest : List α}

theorem pair_hit : replacePair a b out (a :: b :: rest) = out ++ replacePair a b out rest := by
  simp [replacePair]

theorem pair_pass (h : ¬ (x = a ∧ rest.head? = some b)) :
    replacePair a b out (x :: rest) = x :: replacePair a b out rest := by
  cases rest with
  | nil => rfl
  | cons y rest =>
    rw [replacePair, if_neg]
    simpa only [List.head?_cons, Option.some.injEq] using h

theorem pair_skip (h : x ≠ a) :
    replacePair a b out (x :: rest) = x :: replacePair a b out rest :=
  pair_pass (fun hx => h hx.1)

theorem mem_replace_pair {c : α} (hout : c ∉ out) {cs : List α} (h : c ∉ cs) :
    c ∉ replacePair a b out cs := by
  induction cs using replacePair.induct (a := a) (b := b) with
  | case1 => exact h
  | case2 => simpa [replacePair] using h
  | case3 x y rest hpair ih =>
    simp only [List.mem_cons, not_or] at h
    rw [replacePair, if_pos hpair, List.mem_append, not_or]
    exact ⟨hout, ih h.2.2⟩
  | case4 x y rest hpair ih =>
    rw [replacePair, if_neg hpair, List.mem_cons, not_or]
    exact ⟨fun hx => h (by simp [hx]), ih (fun hy => h (List.mem_cons_of_mem _ hy))⟩

/-- A pair that is replaced by another one is changed wherever it stands. -/
theorem replace_pair_eq_iff {u v : α} (hne : [u, v] ≠ [a, b]) {cs : List α} :
    replacePair a b [u, v] cs = cs ↔ ¬ [a, b] <:+: cs := by
  induction cs using replacePair.induct (a := a) (b := b) with
  | case1 => simp [replacePair]
  | case2 x =>
    have hshort : ¬ [a, b] <:+: [x] := fun h => absurd h.length_le (by simp)
    simpa [replacePair] using hshort
  | case3 x y rest hpair ih =>
    obtain ⟨rfl, rfl⟩ := hpair
    rw [pair_hit]
    constructor
    · intro h
      have happend : [u, v] ++ replacePair x y [u, v] rest = [x, y] ++ rest := h
      exact absurd (List.append_inj happend rfl).1 hne
    · intro h
      exact absurd (List.prefix_append [x, y] rest).isInfix h
  | case4 x y rest hpair ih =>
    have hhead : ¬ [a, b] <+: x :: y :: rest := by
      intro h
      obtain ⟨tail, htail⟩ := h
      obtain ⟨rfl, rfl, -⟩ := by simpa using htail
      exact hpair ⟨rfl, rfl⟩
    rw [replacePair, if_neg hpair, List.infix_cons_iff, List.cons_inj_right, ih]
    tauto

end Replace

/-- The escapes one after another: the backslash, the quotation mark, the line
break; carriage returns are dropped. -/
def escaped (cs : List Char) : List Char :=
  replaceOne '\r' [] (replaceOne '\n' ['\\', 'n']
    (replaceOne '"' ['\\', '"'] (replaceOne '\\' ['\\', '\\'] cs)))

/-- The quotation mark is read back first, the backslash last. -/
def unescaped (cs : List Char) : List Char :=
  replacePair '\\' '\\' ['\\'] (replacePair '\\' 'n' ['\n'] (replacePair '\\' '"' ['"'] cs))

def escapedChar (c : Char) : List Char :=
  if c = '\\' then ['\\', '\\'] else if c = '"' then ['\\', '"']
  else if c = '\n' then ['\\', 'n'] else if c = '\r' then [] else [c]

/-- Escaped, with the quotation marks read back. -/
def slashedChar (c : Char) : List Char :=
  if c = '\\' then ['\\', '\\'] else if c = '\n' then ['\\', 'n']
  else if c = '\r' then [] else [c]

theorem escaped_eq (cs : List Char) : escaped cs = cs.flatMap escapedChar := by
  simp only [escaped, replaceOne, List.flatMap_assoc]
  congr 1
  funext c
  by_cases h1 : c = '\\'
  · subst h1
    decide
  by_cases h2 : c = '"'
  · subst h2
    decide
  by_cases h3 : c = '\n'
  · subst h3
    decide
  by_cases h4 : c = '\r'
  · subst h4
    decide
  simp [escapedChar, h1, h2, h3, h4]

theorem escaped_head (cs : List Char) : (cs.flatMap escapedChar).head? ≠ some '"' := by
  induction cs with
  | nil => simp
  | cons c cs ih =>
    rw [List.flatMap_cons]
    by_cases h : c = '\r'
    · subst h
      simpa [escapedChar] using ih
    · simp only [escapedChar, h, if_false]
      split_ifs <;> simp_all

/-- A line break is never written. -/
theorem escaped_line (cs : List Char) : '\n' ∉ escaped cs := by
  rw [escaped_eq, List.mem_flatMap]
  rintro ⟨c, -, hc⟩
  simp only [escapedChar] at hc
  split_ifs at hc with h1 h2 h3 h4
  · simp at hc
  · simp at hc
  · simp at hc
  · simp at hc
  · exact h3 (List.mem_singleton.mp hc).symm

theorem read_marks (cs : List Char) :
    replacePair '\\' '"' ['"'] (cs.flatMap escapedChar) = cs.flatMap slashedChar := by
  induction cs with
  | nil => rfl
  | cons c cs ih =>
    rw [List.flatMap_cons, List.flatMap_cons, ← ih]
    have hhead := escaped_head cs
    by_cases h1 : c = '\\'
    · subst h1
      change replacePair '\\' '"' ['"'] ('\\' :: '\\' :: cs.flatMap escapedChar) =
        '\\' :: '\\' :: replacePair '\\' '"' ['"'] (cs.flatMap escapedChar)
      rw [pair_pass (by simp), pair_pass (fun h => hhead h.2)]
    by_cases h2 : c = '"'
    · subst h2
      exact pair_hit
    by_cases h3 : c = '\n'
    · subst h3
      change replacePair '\\' '"' ['"'] ('\\' :: 'n' :: cs.flatMap escapedChar) =
        '\\' :: 'n' :: replacePair '\\' '"' ['"'] (cs.flatMap escapedChar)
      rw [pair_pass (by simp), pair_skip (by decide)]
    by_cases h4 : c = '\r'
    · subst h4
      rfl
    · simp only [escapedChar, slashedChar, h1, h2, h3, h4, if_false, List.singleton_append]
      exact pair_skip h1

theorem slashed_head {cs : List Char} (hr : '\r' ∉ cs) (h : cs.head? ≠ some 'n') :
    (cs.flatMap slashedChar).head? ≠ some 'n' := by
  cases cs with
  | nil => simp
  | cons c cs =>
    have hc : c ≠ '\r' := fun hc => hr (by simp [hc])
    rw [List.flatMap_cons]
    simp only [slashedChar, hc, if_false]
    split_ifs <;> simp_all

/-- One character that does not start a backslash with its letter is read back. -/
theorem read_char {c : Char} {cs : List Char} (hr : '\r' ∉ c :: cs)
    (hpair : ¬ (c = '\\' ∧ cs.head? = some 'n')) :
    replacePair '\\' '\\' ['\\'] (replacePair '\\' 'n' ['\n'] ((c :: cs).flatMap slashedChar)) =
      c :: replacePair '\\' '\\' ['\\']
        (replacePair '\\' 'n' ['\n'] (cs.flatMap slashedChar)) := by
  simp only [List.mem_cons, not_or] at hr
  rw [List.flatMap_cons]
  by_cases h1 : c = '\\'
  · subst h1
    have hhead := slashed_head hr.2 (fun h => hpair ⟨rfl, h⟩)
    change replacePair _ _ _ (replacePair _ _ _ ('\\' :: '\\' :: cs.flatMap slashedChar)) = _
    rw [pair_pass (by simp), pair_pass (fun h => hhead h.2), pair_hit]
    rfl
  by_cases h2 : c = '\n'
  · subst h2
    change replacePair _ _ _ (replacePair _ _ _ ('\\' :: 'n' :: cs.flatMap slashedChar)) = _
    rw [pair_hit]
    exact pair_skip (by decide)
  · simp only [slashedChar, h1, h2, Ne.symm hr.1, if_false, List.singleton_append]
    rw [pair_skip h1, pair_skip h1]

theorem read_slashed {cs : List Char} (hr : '\r' ∉ cs) :
    replacePair '\\' '\\' ['\\'] (replacePair '\\' 'n' ['\n'] (cs.flatMap slashedChar)) =
      replacePair '\\' 'n' ['\\', '\n'] cs := by
  induction cs using replacePair.induct (a := '\\') (b := 'n') with
  | case1 => rfl
  | case2 c =>
    rw [read_char hr (by simp)]
    rfl
  | case3 x y rest hpair ih =>
    obtain ⟨rfl, rfl⟩ := hpair
    rw [List.flatMap_cons, List.flatMap_cons, pair_hit, ← ih (fun h => hr (by simp [h]))]
    change replacePair _ _ _
      (replacePair _ _ _ ('\\' :: '\\' :: 'n' :: rest.flatMap slashedChar)) = _
    rw [pair_pass (by simp), pair_hit]
    change replacePair _ _ _ ('\\' :: '\n' :: _) = _
    rw [pair_pass (by simp), pair_skip (by decide)]
    rfl
  | case4 x y rest hpair ih =>
    have hhead : ¬ (x = '\\' ∧ (y :: rest).head? = some 'n') := by
      simpa only [List.head?_cons, Option.some.injEq] using hpair
    rw [read_char hr hhead, ih (fun h => hr (List.mem_cons_of_mem _ h)),
      pair_pass hhead]

/-- What a text comes back as: without carriage returns, and a backslash before
the letter has the line break behind it. -/
theorem unescaped_escaped (cs : List Char) :
    unescaped (escaped cs) =
      replacePair '\\' 'n' ['\\', '\n'] (cs.filter (fun c => c ≠ '\r')) := by
  have hfilter : cs.flatMap slashedChar =
      (cs.filter (fun c => c ≠ '\r')).flatMap slashedChar := by
    induction cs with
    | nil => rfl
    | cons c cs ih =>
      by_cases h : c = '\r'
      · subst h
        simpa [slashedChar] using ih
      · simp [h, ih]
  rw [unescaped, escaped_eq, read_marks, hfilter, read_slashed (by simp)]

/-- A text that comes back as it is. -/
def Plain (cs : List Char) : Prop := '\r' ∉ cs ∧ ¬ ['\\', 'n'] <:+: cs

instance (cs : List Char) : Decidable (Plain cs) := inferInstanceAs (Decidable (_ ∧ _))

theorem unescaped_escaped_iff (cs : List Char) : unescaped (escaped cs) = cs ↔ Plain cs := by
  have hback := unescaped_escaped cs
  constructor
  · intro h
    have hr : '\r' ∉ cs := by
      rw [← h, hback]
      exact mem_replace_pair (by decide) (by simp)
    rw [List.filter_eq_self.mpr (fun c hc => by simpa using fun e : c = '\r' => hr (e ▸ hc)), h]
      at hback
    exact ⟨hr, (replace_pair_eq_iff (by decide)).mp hback.symm⟩
  · intro h
    rw [hback, List.filter_eq_self.mpr
      (fun c hc => by simpa using fun e : c = '\r' => h.1 (e ▸ hc))]
    exact (replace_pair_eq_iff (by decide)).mpr h.2

end Solvio.Lib
