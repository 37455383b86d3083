import Solvio.Lib.JsonText

namespace Solvio.Lib.Json

/-! ### Writing with gaps -/

mutual

/-- The text of a value, with a gap behind every comma and every colon. -/
def write (gap : List Char) : Json → List Char
  | .null => "null".toList
  | .bool true => "true".toList
  | .bool false => "false".toList
  | .int n => renderInt n
  | .float lexeme => lexeme
  | .str s => quote s
  | .arr [] => ['[', ']']
  | .arr (x :: xs) => '[' :: (write gap x ++ writeElements gap xs)
  | .obj [] => ['{', '}']
  | .obj ((k, v) :: kvs) =>
    '{' :: (quote k ++ ':' :: (gap ++ (write gap v ++ writeMembers gap kvs)))

def writeElements (gap : List Char) : List Json → List Char
  | [] => [']']
  | x :: xs => ',' :: (gap ++ (write gap x ++ writeElements gap xs))

def writeMembers (gap : List Char) : List (Text × Json) → List Char
  | [] => ['}']
  | (k, v) :: kvs =>
    ',' :: (gap ++ (quote k ++ ':' :: (gap ++ (write gap v ++ writeMembers gap kvs))))

end

mutual

theorem write_compact : ∀ v : Json, write [] v = render v
  | .null => rfl
  | .bool true => rfl
  | .bool false => rfl
  | .int _ => rfl
  | .float _ => rfl
  | .str _ => rfl
  | .arr [] => rfl
  | .arr (x :: xs) => by simp [write, render, write_compact x, write_compact_elements xs]
  | .obj [] => rfl
  | .obj ((k, v) :: kvs) => by simp [write, render, write_compact v, write_compact_members kvs]

theorem write_compact_elements : ∀ xs : List Json, writeElements [] xs = renderElements xs
  | [] => rfl
  | x :: xs => by
    simp [writeElements, renderElements, write_compact x, write_compact_elements xs]

theorem write_compact_members : ∀ kvs : List (Text × Json), writeMembers [] kvs = renderMembers kvs
  | [] => rfl
  | (k, v) :: kvs => by
    simp [writeMembers, renderMembers, write_compact v, write_compact_members kvs]

end

/-! ### Numbers that are read -/

/-- The digits in front of the point. -/
def Whole (ds : List Char) : Prop :=
  ∃ c cs, ds = c :: cs ∧ (∀ d ∈ ds, isDigit d = true) ∧ (c = '0' → cs = [])

def Fractional (f : List Char) : Prop :=
  f = [] ∨ ∃ ds, f = '.' :: ds ∧ ds ≠ [] ∧ ∀ d ∈ ds, isDigit d = true

def Exponential (e : List Char) : Prop :=
  e = [] ∨ ∃ m sign ds, e = m :: (sign ++ ds) ∧ (m = 'e' ∨ m = 'E') ∧
    (sign = [] ∨ sign = ['+'] ∨ sign = ['-']) ∧ ds ≠ [] ∧ ∀ d ∈ ds, isDigit d = true

/-- A number that is written with a point or an exponent. -/
def Floating (cs : List Char) : Prop :=
  ∃ (neg : Bool) (whole frac exp : List Char),
    cs = (if neg then ['-'] else []) ++ (whole ++ (frac ++ exp)) ∧
    Whole whole ∧ Fractional frac ∧ Exponential exp ∧ ¬ (frac = [] ∧ exp = [])

theorem digit_ne {c d : Char} (hc : isDigit c = true) (hd : isDigit d = false) : c ≠ d := by
  rintro rfl
  rw [hc] at hd
  cases hd

theorem ends_ne {rest : List Char} (h : Ends rest) {c : Char} (hc : closer c = false) :
    rest.head? ≠ some c := by
  intro hrest
  rw [h c hrest] at hc
  cases hc

theorem decimal_whole (n : Nat) : Whole (decimal n) := by
  obtain ⟨c, ds, hcs, -, h0⟩ := decimal_head n
  exact ⟨c, ds, hcs, decimal_digits n, h0⟩

theorem fraction_append {f r : List Char} (hf : Fractional f) (hr : Closes r)
    (hdot : r.head? ≠ some '.') : fraction (f ++ r) = (f, r) := by
  rcases hf with rfl | ⟨ds, rfl, hne, hds⟩
  · unfold fraction
    split
    · rename_i t ht
      rw [List.nil_append] at ht
      rw [ht] at hdot
      exact absurd rfl hdot
    · rfl
  · simp [fraction, digits_append hds hr, hne]

theorem exponent_append {e r : List Char} (he : Exponential e) (hr : Ends r) :
    exponent (e ++ r) = (e, r) := by
  rcases he with rfl | ⟨m, sign, ds, rfl, hm, hsign, hne, hds⟩
  · unfold exponent
    split
    · rename_i c t ht
      rw [List.nil_append] at ht
      rw [if_neg]
      · rfl
      · rintro (rfl | rfl)
        · exact ends_ne hr (by decide : closer 'e' = false) (by rw [ht]; rfl)
        · exact ends_ne hr (by decide : closer 'E' = false) (by rw [ht]; rfl)
    · rename_i ht
      rw [List.nil_append] at ht
      rw [ht]
      rfl
  · have hread := digits_append hds hr.closes
    rcases hsign with rfl | rfl | rfl
    · obtain ⟨d, ds, rfl⟩ := List.exists_cons_of_ne_nil hne
      have hd := hds d (List.mem_cons_self ..)
      have hplus := digit_ne hd (by decide : isDigit '+' = false)
      have hminus := digit_ne hd (by decide : isDigit '-' = false)
      simp only [List.cons_append, List.nil_append] at hread ⊢
      simp only [exponent, if_pos hm]
      split
      · rename_i t ht
        exact absurd (List.cons.inj ht).1 hplus
      · rename_i t ht
        exact absurd (List.cons.inj ht).1 hminus
      · simp [hread]
    · simp [exponent, hm, hread, hne]
    · simp [exponent, hm, hread, hne]

/-- What is left of an unsigned number behind its first digits. -/
theorem unsigned_whole (neg : Bool) {ds tail : List Char} (hds : Whole ds) (ht : Closes tail) :
    unsigned neg (ds ++ tail) =
      if (fraction tail).1 = [] ∧ (exponent (fraction tail).2).1 = [] then
        some (.int (if neg then -(natOfDigits ds : Int) else natOfDigits ds),
          (exponent (fraction tail).2).2)
      else some (.float ((if neg then ['-'] else []) ++ ds ++ (fraction tail).1 ++
        (exponent (fraction tail).2).1), (exponent (fraction tail).2).2) := by
  obtain ⟨c, cs, rfl, hall, h0⟩ := hds
  have hread := digits_append hall ht
  rw [List.cons_append] at hread ⊢
  simp only [unsigned, hall c (List.mem_cons_self ..), if_true]
  by_cases hc : c = '0'
  · obtain rfl := h0 hc
    subst hc
    simp
  · simp [hc, hread]

theorem number_int (n : Int) {rest : List Char} (hr : Ends rest) :
    number (renderInt n ++ rest) = some (.int n, rest) := by
  have hfrac : fraction rest = ([], rest) :=
    fraction_append (Or.inl rfl) hr.closes (ends_ne hr (by decide))
  have hexp : exponent rest = ([], rest) := exponent_append (Or.inl rfl) hr
  cases n with
  | ofNat n =>
    have hread := unsigned_whole false (decimal_whole n) hr.closes
    obtain ⟨c, ds, hcs, hc, -⟩ := decimal_head n
    have hminus := digit_ne hc (by decide : isDigit '-' = false)
    simp only [renderInt]
    unfold number
    split
    · rename_i t ht
      rw [hcs, List.cons_append] at ht
      exact absurd (List.cons.inj ht).1 hminus
    · rw [hread, hfrac, hexp]
      simp [nat_of_decimal]
  | negSucc n =>
    have hread := unsigned_whole true (decimal_whole (n + 1)) hr.closes
    obtain ⟨c, ds, hcs, hc, -⟩ := decimal_head (n + 1)
    have hinf := digit_ne hc (by decide : isDigit 'I' = false)
    simp only [renderInt, List.cons_append, number]
    rw [if_neg (by rw [hcs]; simpa using hinf), hread, hfrac, hexp]
    simp [nat_of_decimal, Int.negSucc_eq]

theorem exponential_closes {e rest : List Char} (he : Exponential e) (hr : Ends rest) :
    Closes (e ++ rest) ∧ (e ++ rest).head? ≠ some '.' := by
  rcases he with rfl | ⟨m, sign, ds, rfl, hm, -⟩
  · exact ⟨hr.closes, ends_ne hr (by decide)⟩
  · rcases hm with rfl | rfl <;> simp [Closes, isDigit]

theorem fractional_closes {f e rest : List Char} (hf : Fractional f) (he : Exponential e)
    (hr : Ends rest) : Closes (f ++ (e ++ rest)) := by
  rcases hf with rfl | ⟨ds, rfl, -⟩
  · exact (exponential_closes he hr).1
  · simp [Closes, isDigit]

theorem number_float {cs : List Char} (h : Floating cs) {rest : List Char} (hr : Ends rest) :
    number (cs ++ rest) = some (.float cs, rest) := by
  obtain ⟨neg, whole, frac, exp, rfl, hwhole, hfrac, hexp, hne⟩ := h
  obtain ⟨hclose, hdot⟩ := exponential_closes hexp hr
  have hread := unsigned_whole neg hwhole (fractional_closes hfrac hexp hr)
  rw [fraction_append hfrac hclose hdot] at hread
  simp only [exponent_append hexp hr, if_neg hne] at hread
  obtain ⟨c, ds, rfl, hall, -⟩ := hwhole
  have hc := hall c (List.mem_cons_self ..)
  cases neg with
  | true =>
    have hinf := digit_ne hc (by decide : isDigit 'I' = false)
    simp only [if_true, List.cons_append, List.nil_append, List.append_assoc, number] at hread ⊢
    rw [if_neg (by simpa using hinf), hread]
  | false =>
    have hminus := digit_ne hc (by decide : isDigit '-' = false)
    simp only [Bool.false_eq_true, if_false, List.cons_append, List.nil_append,
      List.append_assoc] at hread ⊢
    unfold number
    split
    · rename_i t ht
      exact absurd (List.cons.inj ht).1 hminus
    · exact hread

/-! ### A written value is read back -/

mutual

/-- A value whose texts consist of characters, and whose other numbers are
written with a point or an exponent. -/
def Readable : Json → Prop
  | .float cs => Floating cs
  | .str s => Spelled s
  | .arr xs => ReadableElements xs
  | .obj kvs => ReadableMembers kvs
  | _ => True

def ReadableElements : List Json → Prop
  | [] => True
  | x :: xs => Readable x ∧ ReadableElements xs

def ReadableMembers : List (Text × Json) → Prop
  | [] => True
  | (k, v) :: kvs => Spelled k ∧ Readable v ∧ ReadableMembers kvs

end

def isWs (c : Char) : Bool := c == ' ' || c == '\t' || c == '\n' || c == '\r'

/-- What a reader skips. -/
def Blank (gap : List Char) : Prop := ∀ c ∈ gap, isWs c = true

theorem skip_blank {gap : List Char} (hg : Blank gap) (cs : List Char) :
    skipWs (gap ++ cs) = skipWs cs :=
  List.dropWhile_append_of_pos hg

theorem skip_solid {c : Char} (hc : isWs c = false) (cs : List Char) :
    skipWs (c :: cs) = c :: cs :=
  List.dropWhile_cons_of_neg (by simpa [isWs] using hc)

/-- What a value starts with. -/
def starts (c : Char) : Bool := c ∈ ['"', '[', '{', 'n', 't', 'f', '-'] || isDigit c

theorem starts_ne {c d : Char} (hc : starts c = true) (hd : starts d = false) : c ≠ d := by
  rintro rfl
  rw [hc] at hd
  cases hd

theorem starts_solid {c : Char} (hc : starts c = true) : isWs c = false := by
  have hne : ∀ d, starts d = false → (c == d) = false := fun d hd => by
    simpa using starts_ne hc hd
  simp [isWs, hne ' ' (by decide), hne '\t' (by decide), hne '\n' (by decide),
    hne '\r' (by decide)]

theorem number_starts {c : Char} (h : c = '-' ∨ isDigit c = true) : starts c = true := by
  rcases h with rfl | h
  · decide
  · simp [starts, h]

theorem floating_head {cs : List Char} (h : Floating cs) :
    ∃ c t, cs = c :: t ∧ (c = '-' ∨ isDigit c = true) := by
  obtain ⟨neg, whole, frac, exp, rfl, ⟨c, t, rfl, hall, -⟩, -⟩ := h
  cases neg with
  | true => exact ⟨'-', _, rfl, Or.inl rfl⟩
  | false => exact ⟨c, _, rfl, Or.inr (hall c (List.mem_cons_self ..))⟩

theorem write_head (gap : List Char) {v : Json} (h : Readable v) :
    ∃ c t, write gap v = c :: t ∧ starts c = true := by
  cases v with
  | null => exact ⟨'n', _, rfl, by decide⟩
  | bool b =>
    cases b with
    | true => exact ⟨'t', _, rfl, by decide⟩
    | false => exact ⟨'f', _, rfl, by decide⟩
  | int n =>
    obtain ⟨c, t, ht, hc⟩ := render_int_head n
    exact ⟨c, t, ht, number_starts hc⟩
  | float cs =>
    obtain ⟨c, t, ht, hc⟩ := floating_head h
    exact ⟨c, t, ht, number_starts hc⟩
  | str s => exact ⟨'"', _, rfl, by decide⟩
  | arr xs =>
    cases xs with
    | nil => exact ⟨'[', _, rfl, by decide⟩
    | cons x xs => exact ⟨'[', _, rfl, by decide⟩
  | obj kvs =>
    cases kvs with
    | nil => exact ⟨'{', _, rfl, by decide⟩
    | cons p kvs => exact ⟨'{', _, rfl, by decide⟩

theorem join_spelled {s : Text} (hs : Spelled s) : joinSurrogates s = s := by
  induction s with
  | nil => rfl
  | cons n s ih =>
    cases s with
    | nil => rfl
    | cons m s =>
      have hn := hs n (List.mem_cons_self ..)
      rw [joinSurrogates, if_neg, ih (fun k hk => hs k (List.mem_cons_of_mem _ hk))]
      rintro ⟨⟨hlo, hhi⟩, -⟩
      rcases hn with hn | hn <;> omega

theorem value_number {n : Nat} {c : Char} (hc : c = '-' ∨ isDigit c = true) (r : List Char) :
    value (n + 1) (c :: r) = number (c :: r) := by
  have hne : ∀ d, d ≠ '-' → isDigit d = false → c ≠ d := by
    rintro d hd hdig rfl
    rcases hc with hc | hc
    · exact hd hc
    · rw [hc] at hdig
      cases hdig
  simp only [value, if_neg (hne '"' (by decide) (by decide)),
    if_neg (hne '{' (by decide) (by decide)), if_neg (hne '[' (by decide) (by decide)),
    if_neg (hne 'n' (by decide) (by decide)), if_neg (hne 't' (by decide) (by decide)),
    if_neg (hne 'f' (by decide) (by decide)), if_neg (hne 'N' (by decide) (by decide)),
    if_neg (hne 'I' (by decide) (by decide))]

theorem ends_write_elements (gap : List Char) (xs : List Json) (r : List Char) :
    Ends (writeElements gap xs ++ r) := by
  cases xs <;> simp [writeElements, Ends, closer]

theorem ends_write_members (gap : List Char) (kvs : List (Text × Json)) (r : List Char) :
    Ends (writeMembers gap kvs ++ r) := by
  cases kvs <;> simp [writeMembers, Ends, closer]

mutual

theorem value_write {gap : List Char} (hg : Blank gap) : ∀ (v : Json) (n : Nat) (r : List Char),
    Readable v → (write gap v).length ≤ n → Ends r →
      value (n + 1) (write gap v ++ r) = some (v, r)
  | .null, n, r, _, _, _ => rfl
  | .bool true, n, r, _, _, _ => rfl
  | .bool false, n, r, _, _, _ => rfl
  | .int m, n, r, _, _, hr => by
    obtain ⟨c, t, ht, hc⟩ := render_int_head m
    have hread := number_int m hr
    rw [ht, List.cons_append] at hread
    rw [write, ht, List.cons_append, value_number hc, hread]
  | .float cs, n, r, h, _, hr => by
    obtain ⟨c, t, rfl, hc⟩ := floating_head h
    have hread := number_float h hr
    rw [List.cons_append] at hread
    rw [write, List.cons_append, value_number hc, hread]
  | .str s, n, r, h, _, _ => by
    have hbody := string_body_quote h r
    simp only [write, quote, List.cons_append, List.append_assoc, List.nil_append, value,
      if_true, hbody, Option.bind_eq_bind, Option.bind_some, join_spelled h]
  | .arr [], n, r, _, _, _ => rfl
  | .arr (x :: xs), n, r, h, hn, _ => by
    obtain ⟨c, t, ht, hc⟩ := write_head gap h.1
    have hread := elements_write hg x xs n r h.1 h.2
      (by simp only [write, List.length_cons, List.length_append] at hn; omega)
    have hskip : skipWs (write gap x ++ (writeElements gap xs ++ r)) =
        write gap x ++ (writeElements gap xs ++ r) := by
      rw [ht, List.cons_append, skip_solid (starts_solid hc)]
    have hopen : (write gap x ++ (writeElements gap xs ++ r)).head? ≠ some ']' := by
      rw [ht, List.cons_append, List.head?_cons]
      simpa using starts_ne hc (by decide : starts ']' = false)
    simp only [write, List.cons_append, List.append_assoc, value, Char.reduceEq, if_false, if_true,
      hskip, if_neg hopen, hread, Option.bind_eq_bind, Option.bind_some]
  | .obj [], n, r, _, _, _ => rfl
  | .obj ((k, v) :: kvs), n, r, h, hn, _ => by
    have hread := members_write hg k v kvs n r h.1 h.2.1 h.2.2
      (by simp only [write, List.length_cons, List.length_append] at hn; omega)
    have hskip : ∀ t, skipWs (quote k ++ t) = quote k ++ t := fun t => by
      rw [quote, List.cons_append, List.cons_append, skip_solid (by decide)]
    have hopen : ∀ t, (quote k ++ t).head? ≠ some '}' := fun t => by simp [quote]
    simp only [write, List.cons_append, List.append_assoc, value, Char.reduceEq, if_false, if_true,
      hskip, if_neg (hopen _), hread, Option.bind_eq_bind, Option.bind_some]
termination_by v => sizeOf v

theorem elements_write {gap : List Char} (hg : Blank gap) :
    ∀ (x : Json) (xs : List Json) (n : Nat) (r : List Char), Readable x → ReadableElements xs →
      (write gap x).length + (writeElements gap xs).length + 1 ≤ n →
      elements n (write gap x ++ (writeElements gap xs ++ r)) = some (x :: xs, r)
  | x, xs, 0, r, _, _, hn => by omega
  | x, xs, 1, r, _, _, hn => by
    have hlen : 1 ≤ (writeElements gap xs).length := by cases xs <;> simp [writeElements]
    omega
  | x, [], n + 2, r, hx, _, hn => by
    have hread := value_write hg x n (']' :: r) hx
      (by simp only [writeElements, List.length_cons, List.length_nil] at hn; omega)
      (by simp [Ends, closer])
    have hskip : skipWs (']' :: r) = ']' :: r := skip_solid (by decide) r
    simp only [writeElements, List.cons_append, List.nil_append, elements, hread, hskip,
      Option.bind_eq_bind, Option.bind_some]
  | x, y :: ys, n + 2, r, hx, hy, hn => by
    obtain ⟨c, t, ht, hc⟩ := write_head gap hy.1
    simp only [writeElements, List.length_cons, List.length_append] at hn
    have hread := value_write hg x n (writeElements gap (y :: ys) ++ r) hx (by omega)
      (ends_write_elements gap _ r)
    have hrest := elements_write hg y ys (n + 1) r hy.1 hy.2 (by omega)
    have hcomma : ∀ t, skipWs (',' :: t) = ',' :: t := skip_solid (by decide)
    have hskip : skipWs (gap ++ (write gap y ++ (writeElements gap ys ++ r))) =
        write gap y ++ (writeElements gap ys ++ r) := by
      rw [skip_blank hg, ht, List.cons_append, skip_solid (starts_solid hc)]
    simp only [writeElements, List.cons_append, List.append_assoc] at hread ⊢
    rw [elements]
    simp only [hread, hcomma, hskip, hrest, Option.bind_eq_bind, Option.bind_some]
termination_by x xs => sizeOf x + sizeOf xs

theorem members_write {gap : List Char} (hg : Blank gap) :
    ∀ (k : Text) (v : Json) (kvs : List (Text × Json)) (n : Nat) (r : List Char), Spelled k →
      Readable v → ReadableMembers kvs →
      (write gap v).length + (writeMembers gap kvs).length + 1 ≤ n →
      members n (quote k ++ ':' :: (gap ++ (write gap v ++ (writeMembers gap kvs ++ r)))) =
        some ((k, v) :: kvs, r)
  | k, v, kvs, 0, r, _, _, _, hn => by omega
  | k, v, kvs, 1, r, _, _, _, hn => by
    have hlen : 1 ≤ (writeMembers gap kvs).length := by cases kvs <;> simp [writeMembers]
    omega
  | k, v, [], n + 2, r, hk, hv, _, hn => by
    obtain ⟨c, t, ht, hc⟩ := write_head gap hv
    have hread := value_write hg v n ('}' :: r) hv
      (by simp only [writeMembers, List.length_cons, List.length_nil] at hn; omega)
      (by simp [Ends, closer])
    have hcolon : ∀ t, skipWs (':' :: t) = ':' :: t := skip_solid (by decide)
    have hclose : ∀ t, skipWs ('}' :: t) = '}' :: t := skip_solid (by decide)
    have hskip : skipWs (gap ++ (write gap v ++ '}' :: r)) = write gap v ++ '}' :: r := by
      rw [skip_blank hg, ht, List.cons_append, skip_solid (starts_solid hc)]
    simp only [quote, writeMembers, List.cons_append, List.append_assoc, List.nil_append, members,
      string_body_quote hk, hcolon, hskip, hread, hclose, join_spelled hk,
      Option.bind_eq_bind, Option.bind_some]
  | k, v, (k', v') :: kvs, n + 2, r, hk, hv, hkvs, hn => by
    obtain ⟨c, t, ht, hc⟩ := write_head gap hv
    simp only [writeMembers, List.length_cons, List.length_append] at hn
    have hread := value_write hg v n (writeMembers gap ((k', v') :: kvs) ++ r) hv (by omega)
      (ends_write_members gap _ r)
    have hrest := members_write hg k' v' kvs (n + 1) r hkvs.1 hkvs.2.1 hkvs.2.2 (by omega)
    have hcolon : ∀ t, skipWs (':' :: t) = ':' :: t := skip_solid (by decide)
    have hcomma : ∀ t, skipWs (',' :: t) = ',' :: t := skip_solid (by decide)
    have hskip : ∀ t, skipWs (gap ++ (write gap v ++ t)) = write gap v ++ t := fun s => by
      rw [skip_blank hg, ht, List.cons_append, skip_solid (starts_solid hc)]
    have hquote : ∀ t, skipWs (gap ++ (quote k' ++ t)) = quote k' ++ t := fun s => by
      rw [skip_blank hg, quote, List.cons_append, List.cons_append, skip_solid (by decide)]
    simp only [writeMembers, List.cons_append, List.append_assoc] at hread
    rw [show quote k = '"' :: (k.flatMap escapeChar ++ ['"']) from rfl]
    simp only [writeMembers, List.cons_append, List.append_assoc, List.nil_append]
    rw [members]
    simp only [string_body_quote hk, hcolon, hskip, hread, hcomma, hquote, hrest, join_spelled hk,
      Option.bind_eq_bind, Option.bind_some]
termination_by _ v kvs => sizeOf v + sizeOf kvs

end

/-- What was written is read back. -/
theorem loads_write {gap : List Char} (hg : Blank gap) {v : Json} (h : Readable v) :
    loads (write gap v) = some v := by
  obtain ⟨c, t, ht, hc⟩ := write_head gap h
  have hread := value_write hg v (write gap v).length [] h (Nat.le_refl _) (by simp [Ends])
  have hskip : skipWs (write gap v) = write gap v := by
    rw [ht, skip_solid (starts_solid hc)]
  have hbom : (write gap v).head? ≠ some '\uFEFF' := by
    rw [ht, List.head?_cons]
    simpa using starts_ne hc (by decide : starts '\uFEFF' = false)
  rw [List.append_nil] at hread
  simp only [loads, if_neg hbom, hskip, hread, Option.bind_eq_bind, Option.bind_some]
  rfl

theorem loads_render {v : Json} (h : Readable v) : loads (render v) = some v := by
  rw [← write_compact]
  exact loads_write (by simp [Blank]) h

end Solvio.Lib.Json
