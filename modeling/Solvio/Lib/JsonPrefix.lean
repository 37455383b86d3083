import Mathlib.Data.List.TakeWhile
import Solvio.Lib.JsonLoads

namespace Solvio.Lib.Json

/-! ### Brackets outside of strings -/

/-- Outside of the strings, in one of them, or behind a backslash in one. -/
inductive Spot where
  | outside | inside | escaped
deriving DecidableEq

structure Scan where
  depth : Int
  spot : Spot
deriving DecidableEq

def Scan.step (s : Scan) (c : Char) : Scan :=
  match s.spot with
  | .escaped => { s with spot := .inside }
  | .inside =>
    if c = '"' then { s with spot := .outside }
    else if c = '\\' then { s with spot := .escaped }
    else s
  | .outside =>
    if c = '"' then { s with spot := .inside }
    else if c = '[' ∨ c = '{' then { s with depth := s.depth + 1 }
    else if c = ']' ∨ c = '}' then { s with depth := s.depth - 1 }
    else s

/-- The scan of a text gets from one place to the other, and is never less deep. -/
def Above (d : Int) : Scan → List Char → Scan → Prop
  | s, [], t => s = t ∧ d ≤ s.depth
  | s, c :: cs, t => d ≤ s.depth ∧ Above d (s.step c) cs t

theorem Above.append {d : Int} {s t u : Scan} {cs ds : List Char} (h : Above d s cs t)
    (g : Above d t ds u) : Above d s (cs ++ ds) u := by
  induction cs generalizing s with
  | nil =>
    obtain ⟨rfl, -⟩ := h
    exact g
  | cons c cs ih => exact ⟨h.1, ih h.2⟩

theorem Above.lower {d e : Int} {s t : Scan} {cs : List Char} (h : Above d s cs t) (he : e ≤ d) :
    Above e s cs t := by
  induction cs generalizing s with
  | nil => exact ⟨h.1, he.trans h.2⟩
  | cons c cs ih => exact ⟨he.trans h.1, ih h.2⟩

theorem Above.scanned {d : Int} {s t : Scan} {cs : List Char} (h : Above d s cs t) :
    cs.foldl Scan.step s = t := by
  induction cs generalizing s with
  | nil => exact h.1
  | cons c cs ih => exact ih h.2

theorem Above.prefixed {d : Int} {s t : Scan} {p q : List Char} (h : Above d s (p ++ q) t) :
    d ≤ (p.foldl Scan.step s).depth := by
  induction p generalizing s with
  | nil =>
    cases q with
    | nil => exact h.2
    | cons c q => exact h.1
  | cons c p ih => exact ih h.2

/-- Every bracket that is opened is closed, and no other. -/
def Closed (cs : List Char) : Prop := ∀ d, Above d ⟨d, .outside⟩ cs ⟨d, .outside⟩

theorem Closed.nil : Closed [] := fun d => ⟨rfl, Int.le_refl d⟩

theorem Closed.append {cs ds : List Char} (h : Closed cs) (g : Closed ds) : Closed (cs ++ ds) :=
  fun d => (h d).append (g d)

/-- Neither a quote nor a bracket. -/
def plain (c : Char) : Bool := c ∉ ['"', '[', ']', '{', '}']

theorem step_plain {c : Char} (hc : plain c = true) (d : Int) :
    (⟨d, .outside⟩ : Scan).step c = ⟨d, .outside⟩ := by
  simp only [plain, List.mem_cons, List.not_mem_nil, or_false, not_or, decide_eq_true_eq] at hc
  obtain ⟨h1, h2, h3, h4, h5⟩ := hc
  simp [Scan.step, h1, h2, h3, h4, h5]

theorem plain_all {cs : List Char} (h : cs.all plain = true) : ∀ c ∈ cs, plain c = true :=
  List.all_eq_true.mp h

theorem Closed.of_plain {cs : List Char} (h : ∀ c ∈ cs, plain c = true) : Closed cs := by
  induction cs with
  | nil => exact .nil
  | cons c cs ih =>
    intro d
    refine ⟨Int.le_refl d, ?_⟩
    rw [step_plain (h c (List.mem_cons_self ..))]
    exact ih (fun c hc => h c (List.mem_cons_of_mem _ hc)) d

theorem Closed.nested {o c : Char} {cs : List Char} (h : Closed cs) (ho : o = '[' ∨ o = '{')
    (hc : c = ']' ∨ c = '}') : Closed (o :: (cs ++ [c])) := by
  intro d
  have hopen : (⟨d, .outside⟩ : Scan).step o = ⟨d + 1, .outside⟩ := by
    rcases ho with rfl | rfl <;> rfl
  have hclose : (⟨d + 1, .outside⟩ : Scan).step c = ⟨d, .outside⟩ := by
    rcases hc with rfl | rfl <;> simp [Scan.step]
  refine ⟨Int.le_refl d, ?_⟩
  rw [hopen]
  refine Above.append ((h (d + 1)).lower (by omega)) ⟨Int.le_of_lt (Int.lt_succ d), ?_⟩
  rw [hclose]
  exact ⟨rfl, Int.le_refl d⟩

/-! ### What a reader takes off a text -/

theorem hex_plain {c : Char} {n : Nat} (h : hexValue c = some n) : c ≠ '"' ∧ c ≠ '\\' := by
  constructor
  · rintro rfl
    cases h
  · rintro rfl
    cases h

theorem inside_char {d : Int} {c : Char} (hq : c ≠ '"') (hb : c ≠ '\\') :
    (⟨d, .inside⟩ : Scan).step c = ⟨d, .inside⟩ := by
  simp [Scan.step, hq, hb]

/-- A string ends outside of strings. -/
theorem string_body_closed {cs : List Char} {s : Text} {rest : List Char}
    (h : stringBody cs = some (s, rest)) :
    ∃ used, cs = used ++ rest ∧ ∀ d, Above d ⟨d, .inside⟩ used ⟨d, .outside⟩ := by
  induction cs using stringBody.induct generalizing s rest with
  | case1 => cases h
  | case2 rest' =>
    unfold stringBody at h
    obtain ⟨-, rfl⟩ := Prod.mk.inj (Option.some.inj h)
    exact ⟨['"'], rfl, fun d => ⟨Int.le_refl d, rfl, Int.le_refl d⟩⟩
  | case3 a b c e rest' hne ih =>
    unfold stringBody at h
    simp only [hne, if_false, if_true, Option.bind_eq_bind, Option.bind_eq_some_iff] at h
    obtain ⟨n, hn, ⟨t, rest'⟩, ht, h⟩ := h
    obtain ⟨-, rfl⟩ := Prod.mk.inj (Option.some.inj h)
    obtain ⟨used, rfl, hused⟩ := ih ht
    simp only [hex4, Option.bind_eq_bind, Option.bind_eq_some_iff] at hn
    obtain ⟨_, ha, _, hb, _, hc, _, he, -⟩ := hn
    have ha := hex_plain ha
    have hb := hex_plain hb
    have hc := hex_plain hc
    have he := hex_plain he
    refine ⟨'\\' :: 'u' :: a :: b :: c :: e :: used, rfl, fun d => ?_⟩
    have hstep : ∀ x : Char, x ≠ '"' ∧ x ≠ '\\' → (⟨d, .inside⟩ : Scan).step x = ⟨d, .inside⟩ :=
      fun x hx => inside_char hx.1 hx.2
    have hopen : ((⟨d, .inside⟩ : Scan).step '\\').step 'u' = ⟨d, .inside⟩ := rfl
    simp only [Above, hopen, hstep a ha, hstep b hb, hstep c hc, hstep e he]
    exact ⟨Int.le_refl d, Int.le_refl d, Int.le_refl d, Int.le_refl d, Int.le_refl d,
      Int.le_refl d, hused d⟩
  | case4 e rest' hother hne ih =>
    unfold stringBody at h
    simp only [hne, if_false, if_true] at h
    simp only [Option.bind_eq_bind, Option.bind_eq_some_iff] at h
    obtain ⟨n, -, ⟨t, rest''⟩, ht, h⟩ := h
    obtain ⟨-, rfl⟩ := Prod.mk.inj (Option.some.inj h)
    obtain ⟨used, rfl, hused⟩ := ih ht
    refine ⟨'\\' :: e :: used, rfl, fun d => ?_⟩
    exact ⟨Int.le_refl d, Int.le_refl d, hused d⟩
  | case5 hne =>
    unfold stringBody at h
    simp only [hne, if_false, if_true] at h
    cases h
  | case6 c rest' hq hb hlow =>
    unfold stringBody at h
    simp only [if_neg hq, if_neg hb, if_pos hlow] at h
    cases h
  | case7 c rest' hq hb hlow ih =>
    unfold stringBody at h
    simp only [if_neg hq, if_neg hb, if_neg hlow, Option.bind_eq_bind,
      Option.bind_eq_some_iff] at h
    obtain ⟨⟨t, rest''⟩, ht, h⟩ := h
    obtain ⟨-, rfl⟩ := Prod.mk.inj (Option.some.inj h)
    obtain ⟨used, rfl, hused⟩ := ih ht
    refine ⟨c :: used, rfl, fun d => ⟨Int.le_refl d, ?_⟩⟩
    rw [inside_char hq hb]
    exact hused d

theorem Closed.string {used : List Char} (h : ∀ d, Above d ⟨d, .inside⟩ used ⟨d, .outside⟩) :
    Closed ('"' :: used) :=
  fun d => ⟨Int.le_refl d, h d⟩

theorem skipped (cs : List Char) : ∃ gap, cs = gap ++ skipWs cs ∧ Closed gap := by
  refine ⟨cs.takeWhile isWs, (List.takeWhile_append_dropWhile).symm, .of_plain (fun c hc => ?_)⟩
  have hws := List.mem_takeWhile_imp hc
  simp only [isWs, Bool.or_eq_true, beq_iff_eq] at hws
  rcases hws with ((rfl | rfl) | rfl) | rfl <;> decide

/-! Numbers. -/

theorem digits_split (cs : List Char) :
    cs = (digits cs).1 ++ (digits cs).2 ∧ ∀ c ∈ (digits cs).1, plain c = true := by
  rw [digits, List.span_eq_takeWhile_dropWhile]
  refine ⟨List.takeWhile_append_dropWhile.symm, fun c hc => ?_⟩
  have hne : ∀ d, isDigit d = false → c ≠ d := fun d hd => digit_ne (List.mem_takeWhile_imp hc) hd
  simp [plain, hne '"' (by decide), hne '[' (by decide), hne ']' (by decide),
    hne '{' (by decide), hne '}' (by decide)]

/-- A mark, a sign and digits are taken off, if there are digits. -/
theorem marked_split {cs r : List Char} (m : Char) (sign : List Char) (hm : plain m = true)
    (hsign : ∀ c ∈ sign, plain c = true) (hcs : cs = m :: (sign ++ r)) {p : List Char × List Char}
    (hp : (match digits r with
      | (ds, rest) => if ds = [] then ([], cs) else (m :: sign ++ ds, rest)) = p) :
    cs = p.1 ++ p.2 ∧ ∀ c ∈ p.1, plain c = true := by
  obtain ⟨hr, hds⟩ := digits_split r
  generalize digits r = ds at *
  obtain ⟨ds, rest⟩ := ds
  simp only at hp
  split at hp
  · subst hp
    exact ⟨rfl, by simp⟩
  · subst hp
    simp only at hr hds
    refine ⟨by rw [hcs, hr]; simp, fun c hc => ?_⟩
    rw [List.cons_append, List.mem_cons, List.mem_append] at hc
    rcases hc with rfl | hc | hc
    · exact hm
    · exact hsign c hc
    · exact hds c hc

theorem fraction_split (cs : List Char) :
    cs = (fraction cs).1 ++ (fraction cs).2 ∧ ∀ c ∈ (fraction cs).1, plain c = true := by
  generalize hf : fraction cs = f
  unfold fraction at hf
  split at hf
  · exact marked_split '.' [] (by decide) (by simp) rfl hf
  · subst hf
    exact ⟨rfl, by simp⟩

theorem exponent_split (cs : List Char) :
    cs = (exponent cs).1 ++ (exponent cs).2 ∧ ∀ c ∈ (exponent cs).1, plain c = true := by
  generalize he : exponent cs = e
  unfold exponent at he
  split at he
  · split at he
    · rename_i hm
      have hplain : ∀ m : Char, m = 'e' ∨ m = 'E' → plain m = true := by
        rintro m (rfl | rfl) <;> decide
      split at he
      · rename_i hsign
        split at hsign
        · obtain ⟨rfl, rfl⟩ := Prod.mk.inj hsign
          exact marked_split _ ['+'] (hplain _ hm) (plain_all rfl) rfl he
        · obtain ⟨rfl, rfl⟩ := Prod.mk.inj hsign
          exact marked_split _ ['-'] (hplain _ hm) (plain_all rfl) rfl he
        · obtain ⟨rfl, rfl⟩ := Prod.mk.inj hsign
          exact marked_split _ [] (hplain _ hm) (by simp) rfl he
    · subst he
      exact ⟨rfl, by simp⟩
  · subst he
    exact ⟨rfl, by simp⟩

theorem unsigned_split {neg : Bool} {cs rest : List Char} {v : Json}
    (h : unsigned neg cs = some (v, rest)) :
    ∃ used, cs = used ++ rest ∧ ∀ c ∈ used, plain c = true := by
  have htail : ∀ ds r : List Char, (∀ c ∈ ds, plain c = true) → cs = ds ++ r →
      rest = (exponent (fraction r).2).2 →
      ∃ used, cs = used ++ rest ∧ ∀ c ∈ used, plain c = true := by
    intro ds r hds hcs hrest
    obtain ⟨hf, hfrac⟩ := fraction_split r
    obtain ⟨he, hexp⟩ := exponent_split (fraction r).2
    refine ⟨ds ++ ((fraction r).1 ++ (exponent (fraction r).2).1), ?_, fun c hc => ?_⟩
    · rw [hrest, hcs, List.append_assoc, List.append_assoc, ← he, ← hf]
    · rw [List.mem_append, List.mem_append] at hc
      rcases hc with hc | hc | hc
      · exact hds c hc
      · exact hfrac c hc
      · exact hexp c hc
  unfold unsigned at h
  split at h
  · cases h
  · rename_i c r
    split at h
    · by_cases hc : c = '0'
      · subst hc
        simp only [if_true] at h
        refine htail ['0'] r (plain_all rfl) rfl ?_
        split at h <;> cases h <;> rfl
      · obtain ⟨hds, hplain⟩ := digits_split (c :: r)
        simp only [if_neg hc] at h
        refine htail _ _ hplain hds ?_
        split at h <;> cases h <;> rfl
    · cases h

theorem literal_split {name cs rest : List Char} {v w : Json} (hname : ∀ c ∈ name, plain c = true)
    (h : literal name v cs = some (w, rest)) :
    ∃ used, cs = used ++ rest ∧ ∀ c ∈ used, plain c = true := by
  unfold literal at h
  split at h
  · rename_i hprefix
    obtain ⟨-, rfl⟩ := Prod.mk.inj (Option.some.inj h)
    obtain ⟨r, rfl⟩ := List.isPrefixOf_iff_prefix.mp hprefix
    exact ⟨name, by rw [List.drop_left], hname⟩
  · cases h

theorem number_split {cs rest : List Char} {v : Json} (h : number cs = some (v, rest)) :
    ∃ used, cs = used ++ rest ∧ ∀ c ∈ used, plain c = true := by
  unfold number at h
  split at h
  · rename_i r
    have hsigned : ∀ used : List Char, r = used ++ rest → (∀ c ∈ used, plain c = true) →
        ∃ used, '-' :: r = used ++ rest ∧ ∀ c ∈ used, plain c = true := by
      intro used hr hused
      refine ⟨'-' :: used, by rw [hr]; rfl, fun c hc => ?_⟩
      rcases List.mem_cons.mp hc with rfl | hc
      · decide
      · exact hused c hc
    split at h
    · obtain ⟨used, hr, hused⟩ := literal_split (plain_all rfl) h
      exact hsigned used hr hused
    · obtain ⟨used, hr, hused⟩ := unsigned_split h
      exact hsigned used hr hused
  · exact unsigned_split h

/-! Values. -/

/-- What a parser takes off, up to the closing bracket. -/
structure Reads (n : Nat) : Prop where
  value : ∀ cs v rest, value n cs = some (v, rest) → ∃ used, cs = used ++ rest ∧ Closed used
  elements : ∀ cs xs rest, elements n cs = some (xs, rest) →
    ∃ used, cs = used ++ ']' :: rest ∧ Closed used
  members : ∀ cs kvs rest, members n cs = some (kvs, rest) →
    ∃ used, cs = used ++ '}' :: rest ∧ Closed used

theorem object_split {n : Nat} (h : ∀ cs kvs rest, members n cs = some (kvs, rest) →
    ∃ used, cs = used ++ '}' :: rest ∧ Closed used) {r rest : List Char} {v : Json}
    (hv : value (n + 1) ('{' :: r) = some (v, rest)) :
    ∃ used, r = used ++ '}' :: rest ∧ Closed used := by
  obtain ⟨gap, hgap, hclosed⟩ := skipped r
  simp only [value, Char.reduceEq, if_false, if_true] at hv
  split at hv
  · rename_i hhead
    obtain ⟨-, rfl⟩ := Prod.mk.inj (Option.some.inj hv)
    obtain ⟨t, ht⟩ := List.head?_eq_some_iff.mp hhead
    refine ⟨gap, ?_, hclosed⟩
    rw [ht, List.tail_cons, ← ht, ← hgap]
  · simp only [Option.bind_eq_bind, Option.bind_eq_some_iff] at hv
    obtain ⟨⟨kvs, rest'⟩, hkvs, hv⟩ := hv
    obtain ⟨-, rfl⟩ := Prod.mk.inj (Option.some.inj hv)
    obtain ⟨used, hused, hin⟩ := h _ _ _ hkvs
    refine ⟨gap ++ used, ?_, hclosed.append hin⟩
    rw [List.append_assoc, ← hused, ← hgap]

theorem array_split {n : Nat} (h : ∀ cs xs rest, elements n cs = some (xs, rest) →
    ∃ used, cs = used ++ ']' :: rest ∧ Closed used) {r rest : List Char} {v : Json}
    (hv : value (n + 1) ('[' :: r) = some (v, rest)) :
    ∃ used, r = used ++ ']' :: rest ∧ Closed used := by
  obtain ⟨gap, hgap, hclosed⟩ := skipped r
  simp only [value, Char.reduceEq, if_false, if_true] at hv
  split at hv
  · rename_i hhead
    obtain ⟨-, rfl⟩ := Prod.mk.inj (Option.some.inj hv)
    obtain ⟨t, ht⟩ := List.head?_eq_some_iff.mp hhead
    refine ⟨gap, ?_, hclosed⟩
    rw [ht, List.tail_cons, ← ht, ← hgap]
  · simp only [Option.bind_eq_bind, Option.bind_eq_some_iff] at hv
    obtain ⟨⟨xs, rest'⟩, hxs, hv⟩ := hv
    obtain ⟨-, rfl⟩ := Prod.mk.inj (Option.some.inj hv)
    obtain ⟨used, hused, hin⟩ := h _ _ _ hxs
    refine ⟨gap ++ used, ?_, hclosed.append hin⟩
    rw [List.append_assoc, ← hused, ← hgap]

theorem value_split {n : Nat} (h : Reads n) {cs rest : List Char} {v : Json}
    (hv : value (n + 1) cs = some (v, rest)) : ∃ used, cs = used ++ rest ∧ Closed used := by
  have hplain : (∃ used, cs = used ++ rest ∧ ∀ c ∈ used, plain c = true) →
      ∃ used, cs = used ++ rest ∧ Closed used := by
    rintro ⟨used, hcs, hused⟩
    exact ⟨used, hcs, .of_plain hused⟩
  cases cs with
  | nil => simp [value] at hv
  | cons c r =>
    have hword : ∀ (name : List Char) (w : Json), plain c = true →
        (∀ c ∈ name, plain c = true) → literal name w r = some (v, rest) →
        ∃ used, c :: r = used ++ rest ∧ ∀ c ∈ used, plain c = true := by
      intro name w hc hname hl
      obtain ⟨used, rfl, hused⟩ := literal_split hname hl
      exact ⟨c :: used, rfl, List.forall_mem_cons.mpr ⟨hc, hused⟩⟩
    by_cases hq : c = '"'
    · subst hq
      simp only [value, if_true, Option.bind_eq_bind, Option.bind_eq_some_iff] at hv
      obtain ⟨⟨s, rest'⟩, hs, hv⟩ := hv
      obtain ⟨-, rfl⟩ := Prod.mk.inj (Option.some.inj hv)
      obtain ⟨used, rfl, hused⟩ := string_body_closed hs
      exact ⟨'"' :: used, rfl, .string hused⟩
    by_cases ho : c = '{'
    · subst ho
      obtain ⟨used, rfl, hused⟩ := object_split h.members hv
      exact ⟨'{' :: (used ++ ['}']), by simp, hused.nested (.inr rfl) (.inr rfl)⟩
    by_cases ha : c = '['
    · subst ha
      obtain ⟨used, rfl, hused⟩ := array_split h.elements hv
      exact ⟨'[' :: (used ++ [']']), by simp, hused.nested (.inl rfl) (.inl rfl)⟩
    simp only [value, if_neg hq, if_neg ho, if_neg ha] at hv
    apply hplain
    split at hv
    · rename_i hc
      exact hword _ _ (by rw [hc]; decide) (plain_all rfl) hv
    split at hv
    · rename_i hc
      exact hword _ _ (by rw [hc]; decide) (plain_all rfl) hv
    split at hv
    · rename_i hc
      exact hword _ _ (by rw [hc]; decide) (plain_all rfl) hv
    split at hv
    · rename_i hc
      exact hword _ _ (by rw [hc]; decide) (plain_all rfl) hv
    split at hv
    · rename_i hc
      exact hword _ _ (by rw [hc]; decide) (plain_all rfl) hv
    · exact number_split hv

theorem elements_split {n : Nat} (h : Reads n) {cs rest : List Char} {xs : List Json}
    (hv : elements (n + 1) cs = some (xs, rest)) :
    ∃ used, cs = used ++ ']' :: rest ∧ Closed used := by
  simp only [elements, Option.bind_eq_bind, Option.bind_eq_some_iff] at hv
  obtain ⟨⟨v, r⟩, hvalue, hv⟩ := hv
  obtain ⟨first, rfl, hfirst⟩ := h.value _ _ _ hvalue
  obtain ⟨gap, hgap, hclosed⟩ := skipped r
  simp only at hv
  split at hv
  · rename_i more hmore
    obtain ⟨⟨ys, rest'⟩, hys, hv⟩ := Option.bind_eq_some_iff.mp hv
    obtain ⟨-, rfl⟩ := Prod.mk.inj (Option.some.inj hv)
    obtain ⟨gap', hgap', hclosed'⟩ := skipped more
    obtain ⟨used, hused, hin⟩ := h.elements _ _ _ hys
    refine ⟨first ++ (gap ++ ([','] ++ (gap' ++ used))), ?_,
      hfirst.append (hclosed.append (.append (.of_plain (plain_all rfl)) (hclosed'.append hin)))⟩
    rw [hgap, hmore, hgap', hused]
    simp
  · rename_i rest' hrest
    obtain ⟨-, rfl⟩ := Prod.mk.inj (Option.some.inj hv)
    refine ⟨first ++ gap, ?_, hfirst.append hclosed⟩
    rw [List.append_assoc, ← hrest, ← hgap]
  · cases hv

theorem members_split {n : Nat} (h : Reads n) {cs rest : List Char} {kvs : List (Text × Json)}
    (hv : members (n + 1) cs = some (kvs, rest)) :
    ∃ used, cs = used ++ '}' :: rest ∧ Closed used := by
  unfold members at hv
  split at hv
  · rename_i r
    simp only [Option.bind_eq_bind, Option.bind_eq_some_iff] at hv
    obtain ⟨⟨k, r'⟩, hk, hv⟩ := hv
    obtain ⟨key, rfl, hkey⟩ := string_body_closed hk
    obtain ⟨gap, hgap, hclosed⟩ := skipped r'
    simp only at hv
    split at hv
    · rename_i t ht
      obtain ⟨gap₁, hgap₁, hclosed₁⟩ := skipped t
      obtain ⟨⟨v, r''⟩, hvalue, hv⟩ := Option.bind_eq_some_iff.mp hv
      obtain ⟨first, hsplit, hfirst⟩ := h.value _ _ _ hvalue
      obtain ⟨gap₂, hgap₂, hclosed₂⟩ := skipped r''
      have hhead : Closed ('"' :: (key ++ (gap ++ ([':'] ++ (gap₁ ++ (first ++ gap₂)))))) := by
        rw [← List.cons_append]
        exact Closed.append (.string hkey) (hclosed.append (.append (.of_plain (plain_all rfl))
          (hclosed₁.append (hfirst.append hclosed₂))))
      simp only at hv
      split at hv
      · rename_i more hmore
        obtain ⟨⟨kws, rest'⟩, hkws, hv⟩ := Option.bind_eq_some_iff.mp hv
        obtain ⟨-, rfl⟩ := Prod.mk.inj (Option.some.inj hv)
        obtain ⟨gap₃, hgap₃, hclosed₃⟩ := skipped more
        obtain ⟨used, hused, hin⟩ := h.members _ _ _ hkws
        refine ⟨_, ?_, hhead.append (.append (.of_plain (plain_all (rfl : [','].all plain = true)))
          (hclosed₃.append hin))⟩
        rw [hgap, ht, hgap₁, hsplit, hgap₂, hmore, hgap₃, hused]
        simp
      · rename_i rest' hrest
        obtain ⟨-, rfl⟩ := Prod.mk.inj (Option.some.inj hv)
        refine ⟨_, ?_, hhead⟩
        rw [hgap, ht, hgap₁, hsplit, hgap₂, hrest]
        simp
      · cases hv
    · cases hv
  · cases hv

theorem reads (n : Nat) : Reads n := by
  induction n with
  | zero =>
    refine ⟨fun cs v rest h => ?_, fun cs xs rest h => ?_, fun cs kvs rest h => ?_⟩
    · simp [value] at h
    · simp [elements] at h
    · simp [members] at h
  | succ n ih =>
    exact ⟨fun _ _ _ => value_split ih, fun _ _ _ => elements_split ih,
      fun _ _ _ => members_split ih⟩

/-! ### A text that is cut off -/

/-- A text does not go on within its brackets behind the one that closes it. -/
theorem closed_within {used m r r' : List Char} (h : Closed used) (hlong : Closed (used ++ m))
    (he : used ++ '}' :: r = (used ++ m) ++ '}' :: r') : m = [] := by
  cases m with
  | nil => rfl
  | cons c m =>
    rw [List.append_assoc, List.cons_append, List.append_cancel_left_eq] at he
    obtain ⟨rfl, -⟩ := List.cons.inj he
    have hlong := hlong 0
    rw [show used ++ '}' :: m = (used ++ ['}']) ++ m by simp] at hlong
    have hdepth := hlong.prefixed
    rw [List.foldl_append, (h 0).scanned] at hdepth
    exact absurd hdepth (by decide)

theorem closed_unique {used used' r r' : List Char} (h : Closed used) (h' : Closed used')
    (he : used ++ '}' :: r = used' ++ '}' :: r') : used = used' := by
  rcases List.append_eq_append_iff.mp he with ⟨m, rfl, -⟩ | ⟨m, rfl, -⟩
  · rw [closed_within h h' he, List.append_nil]
  · rw [closed_within h' h he.symm, List.append_nil]

theorem write_object (gap : List Char) (kvs : List (Text × Json)) :
    ∃ t, write gap (.obj kvs) = '{' :: t := by
  cases kvs with
  | nil => exact ⟨_, rfl⟩
  | cons p kvs => exact ⟨_, rfl⟩

/-- An object that is cut off is not read at all. -/
theorem loads_prefix {gap : List Char} (hg : Blank gap) {kvs : List (Text × Json)}
    (h : ReadableMembers kvs) {p q : List Char} (hcut : write gap (.obj kvs) = p ++ q)
    (hq : q ≠ []) : loads p = none := by
  obtain ⟨t, ht⟩ := write_object gap kvs
  have hwhole := value_write hg (.obj kvs) _ [] h (Nat.le_refl _) (by simp [Ends])
  rw [List.append_nil, ht] at hwhole
  obtain ⟨whole, rfl, hclosed⟩ := object_split (reads _).members hwhole
  rw [ht] at hcut
  cases p with
  | nil => rfl
  | cons c p =>
    obtain ⟨rfl, hrest⟩ := List.cons.inj hcut
    rw [Option.eq_none_iff_forall_not_mem]
    intro v hv
    simp only [loads, skip_solid (by decide : isWs '{' = false), List.head?_cons,
      Option.some.injEq, Char.reduceEq, if_false, Option.bind_eq_bind, Option.mem_def,
      Option.bind_eq_some_iff] at hv
    obtain ⟨⟨w, rest⟩, hread, -⟩ := hv
    obtain ⟨used, rfl, hused⟩ := object_split (reads _).members hread
    have hsame : used ++ '}' :: (rest ++ q) = whole ++ ['}'] := by
      rw [hrest]
      simp
    obtain rfl := closed_unique hused hclosed hsame
    rw [List.append_cancel_left_eq] at hsame
    obtain ⟨-, hnil⟩ := List.append_eq_nil_iff.mp (List.cons.inj hsame).2
    exact hq hnil

/-! ### Texts with code points that are no characters -/

/-- What stands for such a code point. -/
def mendCode (n : Nat) : Nat := if n.isValidChar then n else 65

def mendText (s : Text) : Text := s.map mendCode

mutual

def mend : Json → Json
  | .str s => .str (mendText s)
  | .arr xs => .arr (mendElements xs)
  | .obj kvs => .obj (mendMembers kvs)
  | v => v

def mendElements : List Json → List Json
  | [] => []
  | x :: xs => mend x :: mendElements xs

def mendMembers : List (Text × Json) → List (Text × Json)
  | [] => []
  | (k, v) :: kvs => (mendText k, mend v) :: mendMembers kvs

end

mutual

/-- A value whose other numbers are written with a point or an exponent. -/
def Numeric : Json → Prop
  | .float cs => Floating cs
  | .arr xs => NumericElements xs
  | .obj kvs => NumericMembers kvs
  | _ => True

def NumericElements : List Json → Prop
  | [] => True
  | x :: xs => Numeric x ∧ NumericElements xs

def NumericMembers : List (Text × Json) → Prop
  | [] => True
  | (_, v) :: kvs => Numeric v ∧ NumericMembers kvs

end

/-- A code point that is no character is written as the one character that is never
written otherwise. -/
def mendChar (c : Char) : Char := if c = '\x00' then 'A' else c

theorem escape_solid {n : Nat} (hn : n.isValidChar) : ∀ c ∈ escapeChar n, c ≠ '\x00' := by
  intro c hc
  by_cases hlow : n < 32
  · have hall : ∀ m < 32, (escapeChar m).all (fun c => decide (c ≠ '\x00')) = true := by decide
    exact of_decide_eq_true (List.all_eq_true.mp (hall n hlow) c hc)
  · rw [escapeChar] at hc
    repeat' split at hc
    all_goals try omega
    all_goals simp only [List.mem_cons, List.not_mem_nil, or_false] at hc
    · rcases hc with rfl | rfl <;> decide
    · rcases hc with rfl | rfl <;> decide
    · rintro rfl
      have hnat := char_of_nat hn
      rw [← hc] at hnat
      change 0 = n at hnat
      omega

theorem escape_invalid {n : Nat} (hn : ¬ n.isValidChar) : escapeChar n = ['\x00'] := by
  have hbig : 55296 ≤ n := by
    by_contra hlt
    exact hn (.inl (by omega))
  have hchar : Char.ofNat n = '\x00' := dif_neg hn
  rw [escapeChar, if_neg (by omega), if_neg (by omega), if_neg (by omega), if_neg (by omega),
    if_neg (by omega), if_neg (by omega), if_neg (by omega), if_neg (by omega), hchar]

theorem mend_solid {cs : List Char} (h : ∀ c ∈ cs, c ≠ '\x00') : cs.map mendChar = cs := by
  induction cs with
  | nil => rfl
  | cons c cs ih =>
    rw [List.map_cons, ih (fun c hc => h c (List.mem_cons_of_mem _ hc)),
      show mendChar c = c from if_neg (h c (List.mem_cons_self ..))]

theorem mend_escape (n : Nat) : escapeChar (mendCode n) = (escapeChar n).map mendChar := by
  unfold mendCode
  split
  · rename_i hn
    rw [mend_solid (escape_solid hn)]
  · rename_i hn
    rw [escape_invalid hn]
    rfl

theorem mend_quote (s : Text) : quote (mendText s) = (quote s).map mendChar := by
  have hbody : (mendText s).flatMap escapeChar = (s.flatMap escapeChar).map mendChar := by
    induction s with
    | nil => rfl
    | cons n s ih =>
      rw [mendText, List.map_cons, List.flatMap_cons, List.flatMap_cons, List.map_append,
        ← mend_escape, ← ih]
      rfl
  rw [quote, quote, hbody]
  simp [mendChar]

theorem mended (s : Text) : Spelled (mendText s) := by
  intro n hn
  obtain ⟨m, -, rfl⟩ := List.mem_map.mp hn
  unfold mendCode
  split
  · rename_i hm
    exact hm
  · exact .inl (by decide)

/-- A text without the mark was spelled in characters. -/
theorem spelled_of_quote {s : Text} (h : '\x00' ∉ quote s) : Spelled s := by
  intro n hn
  by_contra hinvalid
  apply h
  rw [quote, List.cons_append, List.mem_cons, List.mem_append, List.mem_flatMap]
  exact .inr (.inl ⟨n, hn, by rw [escape_invalid hinvalid]; exact List.mem_cons_self ..⟩)

theorem digit_solid {c : Char} (h : isDigit c = true) : c ≠ '\x00' := digit_ne h (by decide)

theorem floating_solid {cs : List Char} (h : Floating cs) : ∀ c ∈ cs, c ≠ '\x00' := by
  obtain ⟨neg, whole, frac, exp, rfl, ⟨_, _, -, hwhole, -⟩, hfrac, hexp, -⟩ := h
  intro c hc
  simp only [List.mem_append] at hc
  rcases hc with hc | hc | hc | hc
  · cases neg with
    | true => rw [List.mem_singleton.mp hc]; decide
    | false => cases hc
  · exact digit_solid (hwhole c hc)
  · rcases hfrac with rfl | ⟨ds, rfl, -, hds⟩
    · cases hc
    · rcases List.mem_cons.mp hc with rfl | hc
      · decide
      · exact digit_solid (hds c hc)
  · rcases hexp with rfl | ⟨m, sign, ds, rfl, hm, hsign, -, hds⟩
    · cases hc
    · rw [List.mem_cons, List.mem_append] at hc
      rcases hc with rfl | hc | hc
      · rcases hm with rfl | rfl <;> decide
      · rcases hsign with rfl | rfl | rfl
        · cases hc
        · rw [List.mem_singleton.mp hc]; decide
        · rw [List.mem_singleton.mp hc]; decide
      · exact digit_solid (hds c hc)

theorem int_solid (n : Int) : ∀ c ∈ renderInt n, c ≠ '\x00' := by
  intro c hc
  rcases render_int_chars n c hc with rfl | hd
  · decide
  · exact digit_solid hd

theorem blank_solid {gap : List Char} (hg : Blank gap) : ∀ c ∈ gap, c ≠ '\x00' := by
  rintro c hc rfl
  exact absurd (hg _ hc) (by decide)

mutual

theorem write_mend {gap : List Char} (hg : Blank gap) : ∀ v : Json, Numeric v →
    write gap (mend v) = (write gap v).map mendChar
  | .null, _ => rfl
  | .bool true, _ => rfl
  | .bool false, _ => rfl
  | .int n, _ => (mend_solid (int_solid n)).symm
  | .float _, h => (mend_solid (floating_solid h)).symm
  | .str s, _ => mend_quote s
  | .arr [], _ => rfl
  | .arr (x :: xs), h => by
    simp only [mend, mendElements, write, List.map_cons, List.map_append, write_mend hg x h.1,
      write_mend_elements hg xs h.2]
    rfl
  | .obj [], _ => rfl
  | .obj ((k, v) :: kvs), h => by
    simp only [mend, mendMembers, write, List.map_cons, List.map_append, mend_quote,
      mend_solid (blank_solid hg), write_mend hg v h.1, write_mend_members hg kvs h.2]
    rfl

theorem write_mend_elements {gap : List Char} (hg : Blank gap) : ∀ xs : List Json,
    NumericElements xs → writeElements gap (mendElements xs) = (writeElements gap xs).map mendChar
  | [], _ => rfl
  | x :: xs, h => by
    simp only [mendElements, writeElements, List.map_cons, List.map_append,
      mend_solid (blank_solid hg), write_mend hg x h.1, write_mend_elements hg xs h.2]
    rfl

theorem write_mend_members {gap : List Char} (hg : Blank gap) : ∀ kvs : List (Text × Json),
    NumericMembers kvs → writeMembers gap (mendMembers kvs) = (writeMembers gap kvs).map mendChar
  | [], _ => rfl
  | (k, v) :: kvs, h => by
    simp only [mendMembers, writeMembers, List.map_cons, List.map_append, mend_quote,
      mend_solid (blank_solid hg), write_mend hg v h.1, write_mend_members hg kvs h.2]
    rfl

end

mutual

theorem mend_readable : ∀ v : Json, Numeric v → Readable (mend v)
  | .null, _ => trivial
  | .bool _, _ => trivial
  | .int _, _ => trivial
  | .float _, h => h
  | .str s, _ => mended s
  | .arr xs, h => mend_readable_elements xs h
  | .obj kvs, h => mend_readable_members kvs h

theorem mend_readable_elements : ∀ xs : List Json, NumericElements xs →
    ReadableElements (mendElements xs)
  | [], _ => trivial
  | x :: xs, h => ⟨mend_readable x h.1, mend_readable_elements xs h.2⟩

theorem mend_readable_members : ∀ kvs : List (Text × Json), NumericMembers kvs →
    ReadableMembers (mendMembers kvs)
  | [], _ => trivial
  | (k, v) :: kvs, h => ⟨mended k, mend_readable v h.1, mend_readable_members kvs h.2⟩

end

mutual

/-- What is written without the mark can be read. -/
theorem readable_of_write {gap : List Char} : ∀ v : Json, Numeric v →
    '\x00' ∉ write gap v → Readable v
  | .null, _, _ => trivial
  | .bool _, _, _ => trivial
  | .int _, _, _ => trivial
  | .float _, h, _ => h
  | .str _, _, hw => spelled_of_quote hw
  | .arr [], _, _ => trivial
  | .arr (x :: xs), h, hw => by
    simp only [write, List.mem_cons, List.mem_append, not_or] at hw
    exact ⟨readable_of_write x h.1 hw.2.1, readable_of_write_elements xs h.2 hw.2.2⟩
  | .obj [], _, _ => trivial
  | .obj ((k, v) :: kvs), h, hw => by
    simp only [write, List.mem_cons, List.mem_append, not_or] at hw
    exact ⟨spelled_of_quote hw.2.1, readable_of_write v h.1 hw.2.2.2.2.1,
      readable_of_write_members kvs h.2 hw.2.2.2.2.2⟩

theorem readable_of_write_elements {gap : List Char} : ∀ xs : List Json, NumericElements xs →
    '\x00' ∉ writeElements gap xs → ReadableElements xs
  | [], _, _ => trivial
  | x :: xs, h, hw => by
    simp only [writeElements, List.mem_cons, List.mem_append, not_or] at hw
    exact ⟨readable_of_write x h.1 hw.2.2.1, readable_of_write_elements xs h.2 hw.2.2.2⟩

theorem readable_of_write_members {gap : List Char} : ∀ kvs : List (Text × Json),
    NumericMembers kvs → '\x00' ∉ writeMembers gap kvs → ReadableMembers kvs
  | [], _, _ => trivial
  | (k, v) :: kvs, h, hw => by
    simp only [writeMembers, List.mem_cons, List.mem_append, not_or] at hw
    exact ⟨spelled_of_quote hw.2.2.1, readable_of_write v h.1 hw.2.2.2.2.2.1,
      readable_of_write_members kvs h.2 hw.2.2.2.2.2.2⟩

end

/-- The same of an object whose texts need not consist of characters, as long as what
is left of its text does. -/
theorem loads_cut {gap : List Char} (hg : Blank gap) {kvs : List (Text × Json)}
    (h : NumericMembers kvs) {p q : List Char} (hcut : write gap (.obj kvs) = p ++ q)
    (hq : q ≠ []) (hp : '\x00' ∉ p) : loads p = none := by
  have hmend := write_mend hg (.obj kvs) h
  rw [hcut, List.map_append, mend_solid (fun c hc he => hp (he ▸ hc))] at hmend
  exact loads_prefix hg (mend_readable_members kvs h) hmend (by simpa using hq)

end Solvio.Lib.Json
