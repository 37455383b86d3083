import Solvio.Communication.Bindings

namespace Solvio.Communication
open Solvio.Lib

/-! ### White space -/

theorem squeezed_solid {c : Char} (hc : isSpace c = false) (cs : List Char) :
    squeezed (c :: cs) = c :: squeezed cs := by
  cases cs with
  | nil => simp [squeezed, hc]
  | cons d cs => simp [squeezed, hc]

theorem squeezed_space {c d : Char} (hc : isSpace c = true) (hd : isSpace d = true)
    (cs : List Char) : squeezed (c :: d :: cs) = squeezed (d :: cs) := by
  simp [squeezed, hc, hd]

theorem squeezed_gap {c d : Char} (hc : isSpace c = true) (hd : isSpace d = false)
    (cs : List Char) : squeezed (c :: d :: cs) = ' ' :: squeezed (d :: cs) := by
  simp [squeezed, hc, hd]

/-- One character more: it is no white space, it is the last, or the next decides. -/
theorem squeezed_cases {motive : List Char → Prop} (nil : motive [])
    (solid : ∀ c cs, isSpace c = false → motive cs → motive (c :: cs))
    (last : ∀ c, isSpace c = true → motive [c])
    (space : ∀ c d cs, isSpace c = true → isSpace d = true → motive (d :: cs) →
      motive (c :: d :: cs))
    (gap : ∀ c d cs, isSpace c = true → isSpace d = false → motive (d :: cs) →
      motive (c :: d :: cs)) (cs : List Char) : motive cs := by
  induction cs with
  | nil => exact nil
  | cons c cs ih =>
    cases hc : isSpace c with
    | false => exact solid c cs hc ih
    | true =>
      cases cs with
      | nil => exact last c hc
      | cons d cs =>
        cases hd : isSpace d with
        | false => exact gap c d cs hc hd ih
        | true => exact space c d cs hc hd ih

/-- A map that keeps white space can be done before or after. -/
theorem squeezed_map {g : Char → Char} (hs : ∀ c, isSpace (g c) = isSpace c) (hb : g ' ' = ' ')
    (cs : List Char) : squeezed (cs.map g) = (squeezed cs).map g := by
  induction cs using squeezed_cases with
  | nil => rfl
  | solid c cs hc ih =>
    rw [List.map_cons, squeezed_solid (by rw [hs, hc]), squeezed_solid hc, List.map_cons, ih]
  | last c hc => simp [squeezed, hs, hc, hb]
  | space c d cs hc hd ih =>
    rw [List.map_cons, List.map_cons, squeezed_space (by rw [hs, hc]) (by rw [hs, hd]),
      squeezed_space hc hd, ← ih, List.map_cons]
  | gap c d cs hc hd ih =>
    rw [List.map_cons, List.map_cons, squeezed_gap (by rw [hs, hc]) (by rw [hs, hd]),
      squeezed_gap hc hd, List.map_cons, ← ih, List.map_cons, hb]

theorem squeezed_again (cs : List Char) : squeezed (squeezed cs) = squeezed cs := by
  induction cs using squeezed_cases with
  | nil => rfl
  | solid c cs hc ih => rw [squeezed_solid hc, squeezed_solid hc, ih]
  | last c hc =>
    simp only [squeezed, hc, if_true]
    decide
  | space c d cs hc hd ih => rw [squeezed_space hc hd, ih]
  | gap c d cs hc hd ih =>
    rw [squeezed_solid hd] at ih
    rw [squeezed_gap hc hd, squeezed_solid hd, squeezed_gap (by decide) hd, ih]

theorem squeezed_head {cs : List Char} (h : ∀ c ∈ cs.head?, isSpace c = false) :
    ∀ c ∈ (squeezed cs).head?, isSpace c = false := by
  cases cs with
  | nil => exact h
  | cons c cs =>
    have hc : isSpace c = false := h c rfl
    rw [squeezed_solid hc]
    exact h

theorem squeezed_last {cs : List Char} (h : ∀ c ∈ cs.getLast?, isSpace c = false) :
    ∀ c ∈ (squeezed cs).getLast?, isSpace c = false := by
  have hcons : ∀ {x : Char} {xs : List Char}, isSpace x = false →
      (∀ c ∈ xs.getLast?, isSpace c = false) → ∀ c ∈ (x :: xs).getLast?, isSpace c = false := by
    intro x xs hx hxs c hc
    cases xs with
    | nil => cases hc; exact hx
    | cons y ys => exact hxs c (by simpa using hc)
  induction cs using squeezed_cases with
  | nil => exact h
  | solid c cs hc ih =>
    rw [squeezed_solid hc]
    apply hcons hc (ih _)
    cases cs with
    | nil => simp
    | cons d cs => simpa using h
  | last c hc => simp [hc] at h
  | space c d cs hc hd ih =>
    rw [squeezed_space hc hd]
    exact ih (by simpa using h)
  | gap c d cs hc hd ih =>
    rw [squeezed_gap hc hd]
    intro x hx
    apply ih (by simpa using h)
    rw [squeezed_solid hd] at hx ⊢
    simpa using hx

/-! ### Letters -/

theorem spelled_space {c : Char} (hc : isSpace c = true) : spelledOut c = [c] := by
  have hne : ∀ d : Char, isSpace d = false → c ≠ d := fun d hd heq => by simp [heq, hd] at hc
  unfold spelledOut
  rw [if_neg (hne 'ä' (by decide)), if_neg (hne 'ö' (by decide)), if_neg (hne 'ü' (by decide)),
    if_neg (hne 'ß' (by decide))]

def spellings : List Char := ['a', 'o', 'u', 's', 'e']

/-- What a letter becomes. -/
theorem spelled_cases (c : Char) : spelledOut c = [c] ∨
    ∃ a b, spelledOut c = [a, b] ∧ a ∈ spellings ∧ b ∈ spellings := by
  unfold spelledOut
  split
  · exact .inr ⟨_, _, rfl, by decide, by decide⟩
  split
  · exact .inr ⟨_, _, rfl, by decide, by decide⟩
  split
  · exact .inr ⟨_, _, rfl, by decide, by decide⟩
  split
  · exact .inr ⟨_, _, rfl, by decide, by decide⟩
  · exact .inl rfl

theorem spelled_again (cs : List Char) :
    (cs.flatMap spelledOut).flatMap spelledOut = cs.flatMap spelledOut := by
  rw [List.flatMap_assoc]
  apply List.flatMap_congr
  intro c _
  rcases spelled_cases c with h | ⟨a, b, h, ha, hb⟩
  · simp [h]
  · have hfix : ∀ x ∈ spellings, spelledOut x = [x] := by simp [spellings, spelledOut]
    rw [h, List.flatMap_cons, List.flatMap_cons, hfix a ha, hfix b hb]
    rfl

theorem spelled_solid {c : Char} (hc : isSpace c = false) :
    ∀ d ∈ spelledOut c, isSpace d = false := by
  rcases spelled_cases c with h | ⟨a, b, h, ha, hb⟩
  · simpa [h] using hc
  · have hletters : ∀ x ∈ spellings, isSpace x = false := by simp [spellings, isSpace]
    simp [h, hletters a ha, hletters b hb]

theorem squeezed_solids {ds : List Char} (hds : ∀ d ∈ ds, isSpace d = false) (rest : List Char) :
    squeezed (ds ++ rest) = ds ++ squeezed rest := by
  induction ds with
  | nil => rfl
  | cons d ds ih =>
    rw [List.cons_append, squeezed_solid (hds d (List.mem_cons_self ..)),
      ih (fun x hx => hds x (List.mem_cons_of_mem _ hx)), List.cons_append]

/-- Letters that are spelled out stay apart from white space. -/
theorem squeezed_spelled (cs : List Char) :
    squeezed (cs.flatMap spelledOut) = (squeezed cs).flatMap spelledOut := by
  induction cs using squeezed_cases with
  | nil => rfl
  | solid c cs hc ih =>
    rw [List.flatMap_cons, squeezed_solid hc, List.flatMap_cons, squeezed_solids (spelled_solid hc),
      ih]
  | last c hc =>
    rw [List.flatMap_cons, spelled_space hc]
    simp [squeezed, hc, spelled_space (show isSpace ' ' = true by decide)]
  | space c d cs hc hd ih =>
    rw [squeezed_space hc hd, ← ih, List.flatMap_cons, List.flatMap_cons, spelled_space hc,
      spelled_space hd]
    exact squeezed_space hc hd _
  | gap c d cs hc hd ih =>
    rw [squeezed_gap hc hd, List.flatMap_cons (x := ' '), ← ih, List.flatMap_cons,
      List.flatMap_cons, spelled_space hc, spelled_space (show isSpace ' ' = true by decide)]
    have hsolid := spelled_solid hd
    rcases spelled_cases d with h | ⟨a, b, h, -⟩
    · rw [h] at hsolid ⊢
      exact squeezed_gap hc (hsolid d (by simp)) _
    · rw [h] at hsolid ⊢
      exact squeezed_gap hc (hsolid a (by simp)) _

theorem spelled_head {cs : List Char} (h : ∀ c ∈ cs.head?, isSpace c = false) :
    ∀ c ∈ (cs.flatMap spelledOut).head?, isSpace c = false := by
  cases cs with
  | nil => exact h
  | cons c cs =>
    have hsolid := spelled_solid (h c rfl)
    rw [List.flatMap_cons]
    rcases spelled_cases c with heq | ⟨a, b, heq, -⟩
    · rw [heq] at hsolid ⊢
      simpa using hsolid
    · rw [heq] at hsolid ⊢
      intro x hx
      exact hsolid x (by cases hx; simp)

theorem spelled_last {cs : List Char} (h : ∀ c ∈ cs.getLast?, isSpace c = false) :
    ∀ c ∈ (cs.flatMap spelledOut).getLast?, isSpace c = false := by
  rcases List.eq_nil_or_concat cs with rfl | ⟨cs, c, rfl⟩
  · exact h
  · have hsolid := spelled_solid (h c (by simp))
    rw [List.concat_eq_append, List.flatMap_append]
    rcases spelled_cases c with heq | ⟨a, b, heq, -⟩
    · rw [heq] at hsolid
      simpa [heq] using hsolid
    · rw [heq] at hsolid
      simpa [heq] using hsolid b (by simp)

/-- The lower case of an ASCII letter. -/
def lowerLetter (c : Char) : Char :=
  if 65 ≤ c.toNat ∧ c.toNat ≤ 90 then Char.ofNat (c.toNat + 32) else c

theorem lower_letter_cases (c : Char) : lowerLetter c = c ∨
    (65 ≤ c.toNat ∧ c.toNat ≤ 90 ∧ (lowerLetter c).toNat = c.toNat + 32) := by
  unfold lowerLetter
  split
  · rename_i hc
    exact .inr ⟨hc.1, hc.2, lower_letter hc⟩
  · exact .inl rfl

theorem lower_letter_space (c : Char) : isSpace (lowerLetter c) = isSpace c := by
  rcases lower_letter_cases c with h | ⟨hge, hle, h⟩
  · rw [h]
  · have hletter : ∀ d : Char, 65 ≤ d.toNat → d.toNat ≤ 122 → isSpace d = false := by
      intro d hge hle
      simp only [isSpace, Bool.or_eq_false_iff, Bool.and_eq_false_iff, decide_eq_false_iff_not]
      omega
    rw [hletter _ (by omega) (by omega), hletter _ hge (by omega)]

theorem lower_letter_again (c : Char) : lowerLetter (lowerLetter c) = lowerLetter c := by
  rcases lower_letter_cases c with h | ⟨hge, hle, h⟩
  · rw [h, h]
  · rw [lowerLetter, if_neg (by omega)]

/-- What is spelled out is in lower case. -/
theorem lower_letter_spelled (c : Char) :
    (spelledOut (lowerLetter c)).map lowerLetter = spelledOut (lowerLetter c) := by
  rcases spelled_cases (lowerLetter c) with h | ⟨a, b, h, ha, hb⟩
  · rw [h, List.map_singleton, lower_letter_again]
  · have hletters : ∀ x ∈ spellings, lowerLetter x = x := by
      simp [spellings, lowerLetter]
    rw [h, List.map_cons, List.map_singleton, hletters a ha, hletters b hb]

theorem strip_map {g : Char → Char} (hs : ∀ c, isSpace (g c) = isSpace c) (cs : List Char) :
    strip isSpace (cs.map g) = (strip isSpace cs).map g := by
  have hdrop : ∀ ds : List Char, (ds.map g).dropWhile isSpace = (ds.dropWhile isSpace).map g := by
    intro ds
    rw [List.dropWhile_map]
    congr 2
    exact funext hs
  rw [strip, hdrop, ← List.map_reverse, hdrop, ← List.map_reverse, strip]

/-! ### Tables for ASCII -/

/-- Tables that leave alone what is beyond ASCII. -/
def asciiTables : TextTables where
  lower := asciiLower
  bracketed _ := true
  compatible _ := true
  lower_break := mem_ascii_lower
  lower_last := last_ascii_lower

theorem ascii_lowered (cs : List Char) : asciiTables.lowered cs = cs.map lowerLetter := by
  unfold TextTables.lowered
  split <;> rfl

theorem ascii_stripped (s : String) : lowerStripped asciiTables s =
    String.ofList ((strip isSpace s.toList).map lowerLetter) := by
  rw [lowerStripped, ascii_lowered]

/-- `normalize_alias` on these tables. -/
theorem ascii_alias (s : String) : normalizeAlias asciiTables s =
    String.ofList (((squeezed (strip isSpace s.toList)).map lowerLetter).flatMap spelledOut) := by
  delta normalizeAlias
  rw [ascii_stripped, collapsed, String.toList_ofList, String.toList_ofList,
    strip_map lower_letter_space, strip_idem, squeezed_map lower_letter_space (by decide)]

theorem squeezed_ends (cs : List Char) :
    strip isSpace (squeezed (strip isSpace cs)) = squeezed (strip isSpace cs) :=
  strip_ends (squeezed_head strip_head) (squeezed_last strip_last)

theorem map_lower_again (cs : List Char) :
    (cs.map lowerLetter).map lowerLetter = cs.map lowerLetter := by
  rw [List.map_map]
  exact List.map_congr_left (fun c _ => lower_letter_again c)

theorem ascii_alias_collapsed (s : String) :
    normalizeAlias asciiTables (collapsed s) = normalizeAlias asciiTables s := by
  rw [ascii_alias, ascii_alias, collapsed, String.toList_ofList, squeezed_ends, squeezed_again]

theorem spelled_lower (cs : List Char) :
    ((cs.map lowerLetter).flatMap spelledOut).map lowerLetter =
      (cs.map lowerLetter).flatMap spelledOut := by
  rw [List.map_flatMap, List.flatMap_map, List.flatMap_map]
  apply List.flatMap_congr
  intro c _
  exact lower_letter_spelled c

theorem ascii_alias_again (s : String) :
    normalizeAlias asciiTables (normalizeAlias asciiTables s) = normalizeAlias asciiTables s := by
  rw [ascii_alias s, ascii_alias, String.toList_ofList]
  have hmap : ∀ cs : List Char, (squeezed cs).map lowerLetter = squeezed (cs.map lowerLetter) :=
    fun cs => (squeezed_map lower_letter_space (by decide) cs).symm
  have hends : strip isSpace (((squeezed (strip isSpace s.toList)).map lowerLetter).flatMap
      spelledOut) = ((squeezed (strip isSpace s.toList)).map lowerLetter).flatMap spelledOut := by
    rw [← squeezed_ends, ← strip_map lower_letter_space]
    exact strip_ends (spelled_head strip_head) (spelled_last strip_last)
  rw [hends, hmap (List.flatMap spelledOut _), spelled_lower, squeezed_spelled, hmap,
    squeezed_again, spelled_again]

/-- The laws hold there. -/
def asciiWriting : Writing where
  toTextTables := asciiTables
  lower_again s := by
    rw [ascii_stripped, ascii_stripped, String.toList_ofList, strip_map lower_letter_space,
      strip_idem, map_lower_again]
  norm_again := ascii_alias_again
  norm_collapsed := ascii_alias_collapsed

end Solvio.Communication
