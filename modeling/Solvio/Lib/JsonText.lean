import Mathlib.Data.List.TakeDrop
import Solvio.Lib.Json

namespace Solvio.Lib.Json

/-! ### A text determines its value -/

theorem char_of_nat {n : Nat} (h : n.isValidChar) : (Char.ofNat n).toNat = n := by
  rw [Char.ofNat, dif_pos h]
  rfl

/-- Every code point of the text is a character. -/
def Spelled (s : Text) : Prop := ∀ n ∈ s, n.isValidChar

theorem spelled_of_string (s : String) : Spelled (Text.ofString s) := by
  intro n hn
  obtain ⟨c, _, rfl⟩ := List.mem_map.mp hn
  exact c.valid

theorem hex4_low {n : Nat} (h : n < 32) :
    hex4 '0' '0' (hexDigit (n / 16)) (hexDigit (n % 16)) = some n := by
  have hhi := hex_value_digit (n := n / 16) (by omega)
  have hlo := hex_value_digit (n := n % 16) (by omega)
  have hzero : hexValue '0' = some 0 := by decide
  simp only [hex4, hhi, hlo, hzero, Option.bind_eq_bind, Option.bind_some, Option.some.injEq]
  omega

/-- A written character is read back. -/
theorem string_body_escape {n : Nat} (hn : n.isValidChar) (rest : List Char) :
    stringBody (escapeChar n ++ rest) = (stringBody rest).map (fun p => (n :: p.1, p.2)) := by
  unfold escapeChar
  split
  · rename_i h; subst h; rw [Option.map_eq_bind]; rfl
  split
  · rename_i h; subst h; rw [Option.map_eq_bind]; rfl
  split
  · rename_i h; subst h; rw [Option.map_eq_bind]; rfl
  split
  · rename_i h; subst h; rw [Option.map_eq_bind]; rfl
  split
  · rename_i h; subst h; rw [Option.map_eq_bind]; rfl
  split
  · rename_i h; subst h; rw [Option.map_eq_bind]; rfl
  split
  · rename_i h; subst h; rw [Option.map_eq_bind]; rfl
  split
  · rename_i h
    have hread := hex4_low h
    simp only [List.cons_append, List.nil_append]
    rw [stringBody, if_neg (by decide), if_pos rfl]
    simp only [hread, Option.bind_eq_bind, Option.bind_some, Option.map_eq_bind]
    rfl
  · rename_i h34 h92 h10 h13 h9 h12 h8 h32
    have hc := char_of_nat hn
    have hne : ∀ c : Char, c.toNat ≠ n → Char.ofNat n ≠ c := by
      intro c hc' he
      exact hc' (by rw [← he, hc])
    simp only [List.cons_append, List.nil_append]
    rw [stringBody.eq_def]
    simp only [if_neg (hne '"' (Ne.symm h34)), if_neg (hne '\\' (Ne.symm h92)), hc, if_neg h32,
      Option.map_eq_bind]
    rfl

/-- A quoted text is read back, whatever follows it. -/
theorem string_body_quote {s : Text} (hs : Spelled s) (rest : List Char) :
    stringBody (s.flatMap escapeChar ++ '"' :: rest) = some (s, rest) := by
  induction s with
  | nil =>
    rw [List.flatMap_nil, List.nil_append, stringBody.eq_def]
    rfl
  | cons n s ih =>
    rw [List.flatMap_cons, List.append_assoc, string_body_escape (hs n (List.mem_cons_self ..)),
      ih (fun m hm => hs m (List.mem_cons_of_mem _ hm))]
    rfl

theorem quote_cancel {s t : Text} (hs : Spelled s) (ht : Spelled t) {r r' : List Char}
    (h : quote s ++ r = quote t ++ r') : s = t ∧ r = r' := by
  simp only [quote, List.cons_append, List.append_assoc, List.nil_append, List.cons.injEq,
    true_and] at h
  have hread := string_body_quote hs r
  rw [h, string_body_quote ht r'] at hread
  obtain ⟨rfl, rfl⟩ := Prod.mk.inj (Option.some.inj hread)
  exact ⟨rfl, rfl⟩

/-! ### Numbers -/

theorem digit_char {d : Nat} (h : d < 10) : (Char.ofNat (48 + d)).toNat = 48 + d := by
  interval_cases d <;> decide

theorem nat_of_digits_concat (ds : List Char) (c : Char) :
    natOfDigits (ds ++ [c]) = natOfDigits ds * 10 + (c.toNat - 48) := by
  simp [natOfDigits]

/-- One digit more for each factor of ten. -/
theorem decimal_rev_step {fuel n : Nat} (h : n < fuel) (hn : 10 ≤ n) :
    decimalRev fuel n = Char.ofNat (48 + n % 10) :: decimalRev (fuel - 1) (n / 10) := by
  cases fuel with
  | zero => omega
  | succ fuel => rw [decimalRev, if_neg (by omega)]; rfl

theorem decimal_rev_small {fuel n : Nat} (h : n < fuel) (hn : n < 10) :
    decimalRev fuel n = [Char.ofNat (48 + n)] := by
  cases fuel with
  | zero => omega
  | succ fuel => rw [decimalRev, if_pos hn, Nat.mod_eq_of_lt hn]

theorem nat_of_decimal_rev {fuel n : Nat} (h : n < fuel) :
    natOfDigits (decimalRev fuel n).reverse = n := by
  induction fuel generalizing n with
  | zero => omega
  | succ fuel ih =>
    by_cases hn : n < 10
    · rw [decimal_rev_small h hn]
      simp [natOfDigits, digit_char hn]
    · rw [decimal_rev_step h (by omega), List.reverse_cons, nat_of_digits_concat,
        Nat.add_sub_cancel, ih (by omega), digit_char (Nat.mod_lt n (by omega))]
      omega

theorem nat_of_decimal (n : Nat) : natOfDigits (decimal n) = n :=
  nat_of_decimal_rev (Nat.lt_succ_self n)

theorem decimal_rev_digits {fuel n : Nat} (h : n < fuel) :
    ∀ c ∈ decimalRev fuel n, isDigit c = true := by
  induction fuel generalizing n with
  | zero => omega
  | succ fuel ih =>
    have hd : ∀ d, d < 10 → isDigit (Char.ofNat (48 + d)) = true := by
      intro d hd
      simp only [isDigit, digit_char hd, Bool.and_eq_true, decide_eq_true_eq]
      omega
    by_cases hn : n < 10
    · rw [decimal_rev_small h hn]
      simpa using hd n hn
    · rw [decimal_rev_step h (by omega), Nat.add_sub_cancel]
      intro c hc
      rcases List.mem_cons.mp hc with rfl | hc
      · exact hd _ (Nat.mod_lt n (by omega))
      · exact ih (by omega) c hc

theorem decimal_digits (n : Nat) : ∀ c ∈ decimal n, isDigit c = true := by
  intro c hc
  exact decimal_rev_digits (Nat.lt_succ_self n) c (List.mem_reverse.mp hc)

/-- A number starts with a digit, which is zero for zero only. -/
theorem decimal_head (n : Nat) : ∃ c ds, decimal n = c :: ds ∧ isDigit c = true ∧
    (c = '0' → ds = []) := by
  have hne : ∀ fuel n, n < fuel → ∃ c ds, (decimalRev fuel n).reverse = c :: ds ∧
      (c = '0' → ds = [] ∧ n = 0) := by
    intro fuel
    induction fuel with
    | zero => intro n h; omega
    | succ fuel ih =>
      intro n h
      by_cases hn : n < 10
      · rw [decimal_rev_small h hn]
        refine ⟨_, [], rfl, fun hc => ⟨rfl, ?_⟩⟩
        have := congrArg Char.toNat hc
        rw [digit_char hn] at this
        simpa using this
      · obtain ⟨c, ds, hcs, h0⟩ := ih (n / 10) (by omega)
        rw [decimal_rev_step h (by omega), List.reverse_cons, Nat.add_sub_cancel, hcs]
        refine ⟨c, ds ++ [Char.ofNat (48 + n % 10)], rfl, fun hc => ?_⟩
        have := (h0 hc).2
        omega
  obtain ⟨c, ds, hcs, h0⟩ := hne (n + 1) n (Nat.lt_succ_self n)
  refine ⟨c, ds, hcs, decimal_digits n c ?_, fun hc => (h0 hc).1⟩
  rw [decimal, hcs]
  exact List.mem_cons_self ..

/-- The next character does not continue a number. -/
def Closes (rest : List Char) : Prop := ∀ c ∈ rest.head?, isDigit c = false

theorem digits_append {ds rest : List Char} (h : ∀ c ∈ ds, isDigit c = true) (hr : Closes rest) :
    digits (ds ++ rest) = (ds, rest) := by
  have htake : (rest.takeWhile isDigit) = [] := by
    cases rest with
    | nil => rfl
    | cons c rest => simp [hr c rfl]
  have hdrop : (rest.dropWhile isDigit) = rest := by
    cases rest with
    | nil => rfl
    | cons c rest => simp [hr c rfl]
  rw [digits, List.span_eq_takeWhile_dropWhile, List.takeWhile_append_of_pos h,
    List.dropWhile_append_of_pos h, htake, hdrop, List.append_nil]

theorem decimal_cancel {n m : Nat} {r r' : List Char} (hr : Closes r) (hr' : Closes r')
    (h : decimal n ++ r = decimal m ++ r') : n = m ∧ r = r' := by
  have hread := digits_append (decimal_digits n) hr
  rw [h, digits_append (decimal_digits m) hr'] at hread
  obtain ⟨hd, rfl⟩ := Prod.mk.inj hread
  refine ⟨?_, rfl⟩
  rw [← nat_of_decimal n, ← hd, nat_of_decimal]

theorem render_int_head (n : Int) : ∃ c cs, renderInt n = c :: cs ∧ (c = '-' ∨ isDigit c = true) := by
  cases n with
  | ofNat n =>
    obtain ⟨c, ds, hcs, hc, _⟩ := decimal_head n
    exact ⟨c, ds, hcs, Or.inr hc⟩
  | negSucc n => exact ⟨'-', _, rfl, Or.inl rfl⟩

theorem render_int_cancel {n m : Int} {r r' : List Char} (hr : Closes r) (hr' : Closes r')
    (h : renderInt n ++ r = renderInt m ++ r') : n = m ∧ r = r' := by
  cases n with
  | ofNat n =>
    cases m with
    | ofNat m =>
      obtain ⟨rfl, rfl⟩ := decimal_cancel hr hr' h
      exact ⟨rfl, rfl⟩
    | negSucc m =>
      obtain ⟨c, ds, hcs, hc, _⟩ := decimal_head n
      simp only [renderInt, hcs, List.cons_append, List.cons.injEq] at h
      rw [h.1] at hc
      exact absurd hc (by decide)
  | negSucc n =>
    cases m with
    | ofNat m =>
      obtain ⟨c, ds, hcs, hc, _⟩ := decimal_head m
      simp only [renderInt, hcs, List.cons_append, List.cons.injEq] at h
      rw [← h.1] at hc
      exact absurd hc (by decide)
    | negSucc m =>
      simp only [renderInt, List.cons_append, List.cons.injEq, true_and] at h
      obtain ⟨he, rfl⟩ := decimal_cancel hr hr' h
      exact ⟨by rw [Nat.succ.inj he], rfl⟩

theorem render_int_injective {n m : Int} (h : renderInt n = renderInt m) : n = m := by
  have hclose : Closes [] := by simp [Closes]
  refine (render_int_cancel hclose hclose (?_ : renderInt n ++ [] = renderInt m ++ [])).1
  rw [h]

theorem render_int_chars (n : Int) : ∀ c ∈ renderInt n, c = '-' ∨ isDigit c = true := by
  intro c hc
  cases n with
  | ofNat n => exact Or.inr (decimal_digits n c hc)
  | negSucc n =>
    rcases List.mem_cons.mp hc with rfl | hc
    · exact Or.inl rfl
    · exact Or.inr (decimal_digits _ c hc)

/-! ### Values -/

mutual

/-- A value without floating-point numbers, whose texts consist of characters. -/
def Plain : Json → Prop
  | .float _ => False
  | .str s => Spelled s
  | .arr xs => PlainElements xs
  | .obj kvs => PlainMembers kvs
  | _ => True

def PlainElements : List Json → Prop
  | [] => True
  | x :: xs => Plain x ∧ PlainElements xs

def PlainMembers : List (Text × Json) → Prop
  | [] => True
  | (k, v) :: kvs => Spelled k ∧ Plain v ∧ PlainMembers kvs

end

/-! A text is told from what follows it by what can follow a value. -/

def closer (c : Char) : Bool := c = ',' || c = ']' || c = '\x7d'

def Ends (rest : List Char) : Prop := ∀ c ∈ rest.head?, closer c = true

theorem Ends.closes {rest : List Char} (h : Ends rest) : Closes rest := by
  intro c hc
  have hcloser := h c hc
  simp only [closer, Bool.or_eq_true, decide_eq_true_eq] at hcloser
  rcases hcloser with (rfl | rfl) | rfl <;> decide

theorem token_cancel {xs ys r r' : List Char} (hx : ∀ c ∈ xs, closer c = false)
    (hy : ∀ c ∈ ys, closer c = false) (hr : Ends r) (hr' : Ends r') (h : xs ++ r = ys ++ r') :
    xs = ys ∧ r = r' := by
  have hread : ∀ zs t : List Char, (∀ c ∈ zs, closer c = false) → Ends t →
      (zs ++ t).takeWhile (fun c => !closer c) = zs := by
    intro zs t hz ht
    rw [List.takeWhile_append_of_pos (fun c hc => by simp [hz c hc])]
    cases t with
    | nil => simp
    | cons c t => simp [ht c rfl]
  have hsame : xs = ys := by rw [← hread xs r hx hr, h, hread ys r' hy hr']
  subst hsame
  exact ⟨rfl, List.append_cancel_left h⟩

/-- The text of a number that is not an integer. -/
structure Lexeme (cs : List Char) : Prop where
  token : ∀ c ∈ cs, closer c = false
  broken : ∃ c ∈ cs, c ≠ '-' ∧ isDigit c = false

mutual

/-- A value whose texts consist of characters, and whose other numbers are written
as such. -/
def Written : Json → Prop
  | .float cs => Lexeme cs ∧ ∀ c ∈ cs.head?, c ∉ ['n', 't', 'f', '"', '[', '\x7b']
  | .str s => Spelled s
  | .arr xs => WrittenElements xs
  | .obj kvs => WrittenMembers kvs
  | _ => True

def WrittenElements : List Json → Prop
  | [] => True
  | x :: xs => Written x ∧ WrittenElements xs

def WrittenMembers : List (Text × Json) → Prop
  | [] => True
  | (k, v) :: kvs => Spelled k ∧ Written v ∧ WrittenMembers kvs

end

mutual

theorem Plain.written {v : Json} (h : Plain v) : Written v := by
  match v with
  | .float _ => exact h.elim
  | .str s => exact h
  | .arr xs => exact PlainElements.written h
  | .obj kvs => exact PlainMembers.written h
  | .null => trivial
  | .bool _ => trivial
  | .int _ => trivial

theorem PlainElements.written {xs : List Json} (h : PlainElements xs) : WrittenElements xs := by
  match xs with
  | [] => trivial
  | x :: xs => exact ⟨Plain.written h.1, PlainElements.written h.2⟩

theorem PlainMembers.written {kvs : List (Text × Json)} (h : PlainMembers kvs) :
    WrittenMembers kvs := by
  match kvs with
  | [] => trivial
  | (k, v) :: kvs => exact ⟨h.1, Plain.written h.2.1, PlainMembers.written h.2.2⟩

end

/-- What the first character of a text says about its value. -/
def leads (c : Char) : Nat :=
  if c = 'n' then 0 else if c = 't' then 1 else if c = 'f' then 2 else if c = '"' then 3
  else if c = '[' then 4 else if c = '\x7b' then 5 else 6

def kind : Json → Nat
  | .null => 0
  | .bool true => 1
  | .bool false => 2
  | .str _ => 3
  | .arr _ => 4
  | .obj _ => 5
  | _ => 6

theorem leads_number {c : Char} (h : c = '-' ∨ isDigit c = true) : leads c = 6 := by
  have hne : ∀ d : Char, d ≠ '-' → isDigit d = false → c ≠ d := by
    rintro d hd hd' rfl
    rcases h with h | h
    · exact hd h
    · rw [hd'] at h
      cases h
  unfold leads
  rw [if_neg (hne _ (by decide) (by decide)), if_neg (hne _ (by decide) (by decide)),
    if_neg (hne _ (by decide) (by decide)), if_neg (hne _ (by decide) (by decide)),
    if_neg (hne _ (by decide) (by decide)), if_neg (hne _ (by decide) (by decide))]

theorem render_int_token (n : Int) : ∀ c ∈ renderInt n, closer c = false := by
  intro c hc
  by_contra hcloser
  simp only [Bool.not_eq_false, closer, Bool.or_eq_true, decide_eq_true_eq] at hcloser
  have hchar := render_int_chars n c hc
  rcases hcloser with (rfl | rfl) | rfl <;> exact absurd hchar (by decide)

theorem render_int_whole (n : Int) {cs : List Char} (h : Lexeme cs) : renderInt n ≠ cs := by
  rintro rfl
  obtain ⟨c, hc, hminus, hdigit⟩ := h.broken
  rcases render_int_chars n c hc with he | he
  · exact hminus he
  · exact absurd (hdigit.symm.trans he) (by decide)

theorem render_head {v : Json} (h : Written v) : ∃ c cs, render v = c :: cs ∧ leads c = kind v := by
  match v with
  | .null => exact ⟨_, _, rfl, rfl⟩
  | .bool true => exact ⟨_, _, rfl, rfl⟩
  | .bool false => exact ⟨_, _, rfl, rfl⟩
  | .int n =>
    obtain ⟨c, cs, hcs, hc⟩ := render_int_head n
    exact ⟨c, cs, hcs, leads_number hc⟩
  | .float cs =>
    obtain ⟨⟨-, c, hc, -⟩, hhead⟩ := h
    cases cs with
    | nil => cases hc
    | cons d ds =>
      have hd := hhead d rfl
      simp only [List.mem_cons, List.not_mem_nil, or_false, not_or] at hd
      obtain ⟨h1, h2, h3, h4, h5, h6⟩ := hd
      exact ⟨d, ds, by rw [render], by simp [leads, kind, h1, h2, h3, h4, h5, h6]⟩
  | .str s => exact ⟨'"', _, by rw [render, quote, List.cons_append], rfl⟩
  | .arr [] => exact ⟨'[', _, by rw [render], rfl⟩
  | .arr (x :: xs) => exact ⟨'[', _, by rw [render, List.cons_append], rfl⟩
  | .obj [] => exact ⟨'\x7b', _, by rw [render], rfl⟩
  | .obj ((k, v) :: kvs) => exact ⟨'\x7b', _, by rw [render, List.cons_append, List.cons_append], rfl⟩

theorem render_head_not_close {v : Json} (h : Written v) : ∀ r, render v ≠ ']' :: r := by
  intro r he
  have hclose : ¬ (']' = '-' ∨ isDigit ']' = true) := by decide
  match v with
  | .null => simp [render] at he
  | .bool true => simp [render] at he
  | .bool false => simp [render] at he
  | .int n =>
    obtain ⟨c, cs, hcs, hc⟩ := render_int_head n
    rw [render, hcs, List.cons.injEq] at he
    exact hclose (he.1 ▸ hc)
  | .float cs =>
    rw [render] at he
    exact absurd (h.1.token ']' (he ▸ List.mem_cons_self ..)) (by decide)
  | .str s => simp [render, quote] at he
  | .arr [] => simp [render] at he
  | .arr (x :: xs) => simp [render] at he
  | .obj [] => simp [render] at he
  | .obj ((k, v) :: kvs) => simp [render] at he

theorem kind_eq {v w : Json} (hv : Written v) (hw : Written w) {r r' : List Char}
    (h : render v ++ r = render w ++ r') : kind v = kind w := by
  obtain ⟨c, cs, hc, hk⟩ := render_head hv
  obtain ⟨d, ds, hd, hk'⟩ := render_head hw
  rw [hc, hd, List.cons_append, List.cons_append, List.cons.injEq] at h
  rw [← hk, ← hk', h.1]

theorem ends_elements (xs : List Json) (r : List Char) : Ends (renderElements xs ++ r) := by
  intro c hc
  cases xs with
  | nil =>
    rw [renderElements] at hc
    cases hc
    decide
  | cons x xs =>
    rw [renderElements] at hc
    cases hc
    decide

theorem ends_members (kvs : List (Text × Json)) (r : List Char) :
    Ends (renderMembers kvs ++ r) := by
  intro c hc
  match kvs with
  | [] =>
    rw [renderMembers] at hc
    cases hc
    decide
  | (k, v) :: kvs =>
    rw [renderMembers] at hc
    cases hc
    decide

mutual

/-- No text of a value is the beginning of another value's text. -/
theorem render_cancel {v w : Json} (hv : Written v) (hw : Written w) {r r' : List Char}
    (hr : Ends r) (hr' : Ends r') (h : render v ++ r = render w ++ r') : v = w ∧ r = r' := by
  have hkind := kind_eq hv hw h
  match v, w with
  | .null, .null => exact ⟨rfl, by simpa [render] using h⟩
  | .bool true, .bool true => exact ⟨rfl, by simpa [render] using h⟩
  | .bool false, .bool false => exact ⟨rfl, by simpa [render] using h⟩
  | .int n, .int m =>
    obtain ⟨rfl, rfl⟩ := render_int_cancel hr.closes hr'.closes h
    exact ⟨rfl, rfl⟩
  | .int n, .float cs =>
    have hsame := (token_cancel (render_int_token n) hw.1.token hr hr' h).1
    exact absurd hsame (render_int_whole n hw.1)
  | .float cs, .int n =>
    have hsame := (token_cancel hv.1.token (render_int_token n) hr hr' h).1
    exact absurd hsame.symm (render_int_whole n hv.1)
  | .float cs, .float ds =>
    obtain ⟨rfl, rfl⟩ := token_cancel hv.1.token hw.1.token hr hr' h
    exact ⟨rfl, rfl⟩
  | .str s, .str t =>
    obtain ⟨rfl, rfl⟩ := quote_cancel hv hw h
    exact ⟨rfl, rfl⟩
  | .arr [], .arr [] => exact ⟨rfl, by simpa [render] using h⟩
  | .arr [], .arr (y :: ys) =>
    obtain ⟨c, cs, hc, _⟩ := render_head hw.1
    simp only [render, hc, List.cons_append, List.nil_append, List.cons.injEq, true_and] at h
    exact absurd (h.1 ▸ hc) (render_head_not_close hw.1 _)
  | .arr (x :: xs), .arr [] =>
    obtain ⟨c, cs, hc, _⟩ := render_head hv.1
    simp only [render, hc, List.cons_append, List.nil_append, List.cons.injEq, true_and] at h
    exact absurd (h.1 ▸ hc) (render_head_not_close hv.1 _)
  | .arr (x :: xs), .arr (y :: ys) =>
    simp only [render, List.cons_append, List.append_assoc, List.cons.injEq, true_and] at h
    obtain ⟨rfl, hrest⟩ := render_cancel hv.1 hw.1 (ends_elements xs r) (ends_elements ys r') h
    obtain ⟨rfl, rfl⟩ := elements_cancel hv.2 hw.2 hrest
    exact ⟨rfl, rfl⟩
  | .obj [], .obj [] => exact ⟨rfl, by simpa [render] using h⟩
  | .obj [], .obj ((l, w) :: kws) => simp [render, quote] at h
  | .obj ((k, v) :: kvs), .obj [] => simp [render, quote] at h
  | .obj ((k, v) :: kvs), .obj ((l, w) :: kws) =>
    simp only [render, List.cons_append, List.append_assoc, List.cons.injEq, true_and] at h
    obtain ⟨rfl, hval⟩ := quote_cancel hv.1 hw.1 h
    simp only [List.cons.injEq, true_and] at hval
    obtain ⟨rfl, hrest⟩ := render_cancel hv.2.1 hw.2.1 (ends_members kvs r)
      (ends_members kws r') hval
    obtain ⟨rfl, rfl⟩ := members_cancel hv.2.2 hw.2.2 hrest
    exact ⟨rfl, rfl⟩

theorem elements_cancel {xs ys : List Json} (hx : WrittenElements xs) (hy : WrittenElements ys)
    {r r' : List Char} (h : renderElements xs ++ r = renderElements ys ++ r') :
    xs = ys ∧ r = r' := by
  match xs, ys with
  | [], [] => exact ⟨rfl, by simpa [renderElements] using h⟩
  | [], y :: ys => simp [renderElements] at h
  | x :: xs, [] => simp [renderElements] at h
  | x :: xs, y :: ys =>
    simp only [renderElements, List.cons_append, List.append_assoc, List.cons.injEq,
      true_and] at h
    obtain ⟨rfl, hrest⟩ := render_cancel hx.1 hy.1 (ends_elements xs r) (ends_elements ys r') h
    obtain ⟨rfl, rfl⟩ := elements_cancel hx.2 hy.2 hrest
    exact ⟨rfl, rfl⟩

theorem members_cancel {kvs kws : List (Text × Json)} (hv : WrittenMembers kvs)
    (hw : WrittenMembers kws) {r r' : List Char}
    (h : renderMembers kvs ++ r = renderMembers kws ++ r') : kvs = kws ∧ r = r' := by
  match kvs, kws with
  | [], [] => exact ⟨rfl, by simpa [renderMembers] using h⟩
  | [], (l, w) :: kws => simp [renderMembers] at h
  | (k, v) :: kvs, [] => simp [renderMembers] at h
  | (k, v) :: kvs, (l, w) :: kws =>
    simp only [renderMembers, List.cons_append, List.append_assoc, List.cons.injEq,
      true_and] at h
    obtain ⟨rfl, hval⟩ := quote_cancel hv.1 hw.1 h
    simp only [List.cons.injEq, true_and] at hval
    obtain ⟨rfl, hrest⟩ := render_cancel hv.2.1 hw.2.1 (ends_members kvs r)
      (ends_members kws r') hval
    obtain ⟨rfl, rfl⟩ := members_cancel hv.2.2 hw.2.2 hrest
    exact ⟨rfl, rfl⟩

end

theorem written_injective {v w : Json} (hv : Written v) (hw : Written w)
    (h : render v = render w) : v = w := by
  have hnil : Ends [] := fun _ hc => (by cases hc)
  have happ : render v ++ [] = render w ++ [] := by rw [h]
  exact (render_cancel hv hw hnil hnil happ).1

theorem render_injective {v w : Json} (hv : Plain v) (hw : Plain w) (h : render v = render w) :
    v = w :=
  written_injective hv.written hw.written h

/-! ### Sorted keys -/

theorem written_members {kvs : List (Text × Json)} :
    WrittenMembers kvs ↔ ∀ p ∈ kvs, Spelled p.1 ∧ Written p.2 := by
  induction kvs with
  | nil => simp [WrittenMembers]
  | cons p kvs ih =>
    obtain ⟨k, v⟩ := p
    rw [WrittenMembers, ih]
    simp [and_assoc]

mutual

theorem Written.sorted {v : Json} (h : Written v) : Written (sortKeys v) := by
  match v with
  | .arr xs => exact WrittenElements.sorted h
  | .obj kvs =>
    have hsorted := Iff.mp written_members (WrittenMembers.sorted h)
    exact Iff.mpr written_members (fun p hp => hsorted p ((List.mem_insertionSort _).mp hp))
  | .str s => exact h
  | .float cs => exact h
  | .null => trivial
  | .bool _ => trivial
  | .int _ => trivial

theorem WrittenElements.sorted {xs : List Json} (h : WrittenElements xs) :
    WrittenElements (sortElements xs) := by
  match xs with
  | [] => trivial
  | x :: xs => exact ⟨Written.sorted h.1, WrittenElements.sorted h.2⟩

theorem WrittenMembers.sorted {kvs : List (Text × Json)} (h : WrittenMembers kvs) :
    WrittenMembers (sortMembers kvs) := by
  match kvs with
  | [] => trivial
  | (k, v) :: kvs => exact ⟨h.1, Written.sorted h.2.1, WrittenMembers.sorted h.2.2⟩

end

/-- A list of texts, as an array. -/
theorem plain_strings (ss : List String) : PlainElements (ss.map string) := by
  induction ss with
  | nil => trivial
  | cons s ss ih => exact ⟨spelled_of_string s, ih⟩

theorem strings_injective {ss ts : List String} (h : ss.map string = ts.map string) : ss = ts := by
  refine List.map_injective_iff.mpr (fun s t he => ?_) h
  exact text_injective (Json.str.inj he)

end Solvio.Lib.Json
