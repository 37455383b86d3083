import Solvio.Knowledge.Frontmatter

namespace Solvio.Knowledge
open Solvio.Lib

variable {F : Type} {N : Numbers F} {i : Nat} {k : Str} {rest : List Row}

/-! ### Documents -/

/-- The pairs of one item of a list; the first stands behind the dash. -/
structure Record (F : Type) where
  first : Str × Scalar F
  more : List (Str × Scalar F)

/-- What stands under a key of the head. -/
inductive Entry (F : Type) where
  | leaf (v : Leaf F)
  | table (records : List (Record F))
  | block (pairs : List (Str × Leaf F))

/-- What `_scalar` writes where it writes. -/
def textOf (N : Numbers F) : Scalar F → Str
  | .null => "null".toList
  | .bool b => if b then "true".toList else "false".toList
  | .int n => Json.renderInt n
  | .float x => N.repr x
  | .str s => quote s

theorem scalar_text {s : Scalar F} (h : s.Writable) : scalar N s = .ok (textOf N s) := by
  cases s with
  | int n => exact if_pos h
  | _ => rfl

theorem text_written {s : Scalar F} (h : s.Writable) : Written N (textOf N s) s :=
  scalar_written (scalar_text h)

def pairRow (N : Numbers F) (i : Nat) (p : Str × Scalar F) : Row :=
  (i, pairText p.1 (textOf N p.2))

def itemRow (N : Numbers F) (i : Nat) (s : Scalar F) : Row := (i, '-' :: ' ' :: textOf N s)

def leafRows (N : Numbers F) (i : Nat) : Str × Leaf F → List Row
  | (k, .scalar s) => [pairRow N i (k, s)]
  | (k, .list items) => (i, k ++ [':']) :: items.map (itemRow N (i + 2))

def recordRows (N : Numbers F) (r : Record F) : List Row :=
  (2, '-' :: ' ' :: pairText r.first.1 (textOf N r.first.2)) :: r.more.map (pairRow N 4)

def entryRows (N : Numbers F) : Str × Entry F → List Row
  | (k, .leaf v) => leafRows N 0 (k, v)
  | (k, .table records) => (0, k ++ [':']) :: records.flatMap (recordRows N)
  | (k, .block pairs) => (0, k ++ [':']) :: pairs.flatMap (leafRows N 2)

/-! ### What is read of them -/

def rereadPair (p : Str × Scalar F) : Str × Val F := (p.1, .scalar p.2.reread)

/-- A list without items is read as `None`. -/
def Leaf.reread : Leaf F → Val F
  | .scalar s => .scalar s.reread
  | .list [] => .scalar .null
  | .list items => .list (items.map (fun s => .scalar s.reread))

def Record.reread (r : Record F) : Val F := .dict ((r.first :: r.more).map rereadPair)

def rereadLeaf (p : Str × Leaf F) : Str × Val F := (p.1, p.2.reread)

def Entry.reread : Entry F → Val F
  | .leaf v => v.reread
  | .table records => .list (records.map Record.reread)
  | .block pairs => .dict (pairs.map rereadLeaf)

def rereadEntry (p : Str × Entry F) : Str × Val F := (p.1, p.2.reread)

def Leaf.Writable : Leaf F → Prop
  | .scalar s => s.Writable
  | .list items => ∀ s ∈ items, s.Writable

/-- Keys that are names, each once, and scalars that are written. -/
structure Record.Sound (r : Record F) : Prop where
  names : ∀ p ∈ r.first :: r.more, Identifier p.1
  distinct : ((r.first :: r.more).map Prod.fst).Nodup
  writable : ∀ p ∈ r.first :: r.more, p.2.Writable

def Entry.Sound : Entry F → Prop
  | .leaf v => v.Writable
  | .table records => records ≠ [] ∧ ∀ r ∈ records, r.Sound
  | .block pairs => pairs ≠ [] ∧ (pairs.map Prod.fst).Nodup ∧
      ∀ p ∈ pairs, Identifier p.1 ∧ p.2.Writable

/-! ### One pair -/

/-- Nothing deeper comes next. -/
def Low (i : Nat) (rest : List Row) : Prop := ∀ r ∈ rest.head?, r.1 ≤ i

def Below (i : Nat) (rest : List Row) : Prop := ∀ r ∈ rest.head?, r.1 < i

theorem Below.low (h : Below i rest) : Low i rest := fun r hr => le_of_lt (h r hr)

theorem Low.below (h : Low i rest) {j : Nat} (hij : i < j) : Below j rest :=
  fun r hr => lt_of_le_of_lt (h r hr) hij

/-- These rows are one pair of their column. -/
def PairRows (N : Numbers F) (i : Nat) (rows : List Row) (p : Str × Val F) : Prop :=
  ∃ text tail, rows = (i, text) :: tail ∧ isItem text = false ∧
    ∀ n rest, Low i rest → 3 * (tail ++ rest).length + 3 ≤ n →
      parsePair N n text (tail ++ rest) i = .ok (p, rest)

theorem strip_blank (text : Str) : strip isSpace (' ' :: text) = strip isSpace text := rfl

theorem pair_row_reads {p : Str × Scalar F} (hk : Identifier p.1) (hs : p.2.Writable) :
    PairRows N i [pairRow N i p] (rereadPair p) := by
  obtain ⟨hpart, hkey, hitem, hstrip⟩ := keyed_row hk (' ' :: textOf N p.2)
  have hw := text_written (N := N) hs
  refine ⟨_, [], rfl, hitem, fun n rest _ hn => ?_⟩
  obtain ⟨n, rfl⟩ : ∃ m, n = m + 1 := ⟨n - 1, by omega⟩
  have hvalue : strip isSpace (' ' :: textOf N p.2) = textOf N p.2 :=
    (strip_blank _).trans hw.whole
  rw [parsePair, pairText]
  simp only [hkey, hpart, hvalue, hstrip, not_true_eq_false, if_false]
  rw [if_pos hw.full, hw.back]
  rfl

theorem items_read (hrest : Below i rest) (items : List (Scalar F))
    (h : ∀ s ∈ items, s.Writable) {n : Nat} (hn : items.length + 1 ≤ n) :
    parseItems N n (items.map (itemRow N i) ++ rest) i =
      .ok (items.map (fun s => .scalar s.reread), rest) := by
  induction items generalizing n with
  | nil =>
    obtain ⟨n, rfl⟩ : ∃ m, n = m + 1 := ⟨n - 1, by omega⟩
    cases rest with
    | nil => simp only [List.map_nil, List.nil_append, parseItems]
    | cons row rest =>
      have hrow : ¬ (row.1 = i ∧ isItem row.2 = true) :=
        fun hi => absurd hi.1 (Nat.ne_of_lt (hrest row rfl))
      simp only [List.map_nil, List.nil_append, parseItems, if_neg hrow]
  | cons s items ih =>
    simp only [List.length_cons] at hn
    obtain ⟨n, rfl⟩ : ∃ m, n = m + 1 := ⟨n - 1, by omega⟩
    have hw := text_written (N := N) (h s (List.mem_cons_self ..))
    have hitems := ih (fun s hs => h s (List.mem_cons_of_mem _ hs)) (by omega : _ ≤ n)
    have hitem : isItem (itemRow N i s).2 = true := by
      simp [itemRow, isItem, List.isPrefixOf]
    have hinner : strip isSpace ((itemRow N i s).2.drop 2) = textOf N s := hw.whole
    rw [List.map_cons, List.cons_append, parseItems, if_pos ⟨rfl, hitem⟩]
    simp only [hinner, hw.keyless, hitems, hw.back]
    rfl

theorem leaf_rows_read {p : Str × Leaf F} (hk : Identifier p.1) (hs : p.2.Writable) :
    PairRows N i (leafRows N i p) (rereadLeaf p) := by
  obtain ⟨k, v⟩ := p
  cases v with
  | scalar s => exact pair_row_reads (p := (k, s)) hk hs
  | list items =>
    obtain ⟨hpart, hkey, hitem, hstrip⟩ := keyed_row hk []
    refine ⟨_, _, rfl, hitem, fun n rest hrest hn => ?_⟩
    simp only [List.length_append, List.length_map] at hn
    obtain ⟨n, rfl⟩ : ∃ m, n = m + 3 := ⟨n - 3, by omega⟩
    have hempty : ¬ (strip isSpace ([] : Str) ≠ []) := fun h => h rfl
    rw [parsePair]
    simp only [hkey, hpart, hstrip, not_true_eq_false, if_false, if_neg hempty]
    cases items with
    | nil =>
      cases rest with
      | nil => rfl
      | cons row rest =>
        have hrow : ¬ i < row.1 := Nat.not_lt.mpr (hrest row rfl)
        simp only [List.map_nil, List.nil_append, if_neg hrow]
        rfl
    | cons s items =>
      simp only [List.length_cons] at hn
      have hread := items_read (N := N) (hrest.below (by omega : i < i + 2)) (s :: items) hs
        (by simp; omega : (s :: items).length + 1 ≤ n + 1)
      have hdash : isItem (itemRow N (i + 2) s).2 = true := by
        simp [itemRow, isItem, List.isPrefixOf]
      have hdeep : i < (itemRow N (i + 2) s).1 := by simp [itemRow]
      rw [List.map_cons, List.cons_append] at hread ⊢
      simp only [if_pos hdeep]
      rw [parseBlock, if_pos hdash]
      change ((parseItems N (n + 1) _ (i + 2) >>= fun x => Except.ok (Val.list x.1, x.2)) >>=
        fun x => Except.ok ((k, x.1), x.2)) = _
      rw [hread]
      rfl

/-! ### The pairs of a column -/

theorem put_new {entries : List (Str × Val F)} {p : Str × Val F}
    (h : p.1 ∉ entries.map Prod.fst) : put entries p = entries ++ [p] := by
  apply if_neg
  intro hany
  obtain ⟨q, hq, hkey⟩ := List.any_eq_true.mp hany
  exact h (of_decide_eq_true hkey ▸ List.mem_map_of_mem hq)

theorem pairs_read (hrest : Below i rest) {blocks : List (List Row × (Str × Val F))}
    (h : ∀ b ∈ blocks, PairRows N i b.1 b.2) (entries : List (Str × Val F))
    (hkeys : (entries.map Prod.fst ++ blocks.map (fun b => b.2.1)).Nodup) {n : Nat}
    (hn : 3 * (blocks.flatMap Prod.fst ++ rest).length + 1 ≤ n) :
    parsePairs N n (blocks.flatMap Prod.fst ++ rest) i entries =
      .ok (entries ++ blocks.map Prod.snd, rest) := by
  induction blocks generalizing n entries with
  | nil =>
    obtain ⟨n, rfl⟩ : ∃ m, n = m + 1 := ⟨n - 1, by omega⟩
    cases rest with
    | nil => simp [parsePairs]
    | cons row rest =>
      have hrow : ¬ (row.1 = i ∧ ¬ isItem row.2 = true) :=
        fun hi => absurd hi.1 (Nat.ne_of_lt (hrest row rfl))
      simp only [List.flatMap_nil, List.nil_append, parsePairs, if_neg hrow]
      simp
  | cons b blocks ih =>
    obtain ⟨rows, p⟩ := b
    obtain ⟨text, tail, rfl, hitem, hpair⟩ := h _ (List.mem_cons_self ..)
    rw [List.flatMap_cons, List.append_assoc, List.cons_append] at hn ⊢
    have hlow : Low i (blocks.flatMap Prod.fst ++ rest) := by
      cases blocks with
      | nil => exact hrest.low
      | cons c blocks =>
        obtain ⟨text', tail', hrows, -⟩ := h c (by simp)
        intro r hr
        rw [List.flatMap_cons, hrows] at hr
        obtain rfl := Option.some.inj hr
        exact le_refl _
    have hp : p.1 ∉ entries.map Prod.fst := by
      intro hmem
      rw [List.nodup_append] at hkeys
      exact hkeys.2.2 _ hmem p.1 (by simp) rfl
    simp only [List.length_cons, List.length_append] at hn
    obtain ⟨n, rfl⟩ : ∃ m, n = m + 1 := ⟨n - 1, by omega⟩
    have hread := hpair n _ hlow (by simp only [List.length_append]; omega)
    have hmore := ih (fun c hc => h c (List.mem_cons_of_mem _ hc))
      (entries ++ [p]) (by simpa using hkeys) (n := n)
      (by simp only [List.length_append]; omega)
    rw [parsePairs, if_pos ⟨rfl, by simp [hitem]⟩]
    change (parsePair N n text _ i >>= fun r => parsePairs N n r.2 i (put entries r.1)) = _
    rw [hread]
    change parsePairs N n _ i (put entries p) = _
    rw [put_new hp, hmore]
    simp

/-- The same, for things that become pairs. -/
theorem pairs_of_read {α : Type} (rows : α → List Row) (pair : α → Str × Val F) (xs : List α)
    (h : ∀ x ∈ xs, PairRows N i (rows x) (pair x)) (hrest : Below i rest)
    (entries : List (Str × Val F))
    (hkeys : (entries.map Prod.fst ++ xs.map (fun x => (pair x).1)).Nodup) {n : Nat}
    (hn : 3 * (xs.flatMap rows ++ rest).length + 1 ≤ n) :
    parsePairs N n (xs.flatMap rows ++ rest) i entries = .ok (entries ++ xs.map pair, rest) := by
  have hblocks : (xs.map (fun x => (rows x, pair x))).flatMap Prod.fst = xs.flatMap rows := by
    rw [List.flatMap_map]
  rw [← hblocks] at hn ⊢
  rw [pairs_read hrest (fun b hb => ?_) entries (by simpa [Function.comp_def] using hkeys) hn]
  · simp [Function.comp_def]
  · obtain ⟨x, hx, rfl⟩ := List.mem_map.mp hb
    exact h x hx

theorem flat_map_pure {α β : Type} (f : α → β) (xs : List α) :
    xs.flatMap (fun x => [f x]) = xs.map f := by
  induction xs with
  | nil => rfl
  | cons x xs ih => rw [List.flatMap_cons, ih]; rfl

theorem records_read (hrest : Below 2 rest) {records : List (Record F)}
    (h : ∀ r ∈ records, r.Sound) {n : Nat}
    (hn : 3 * (records.flatMap (recordRows N) ++ rest).length + 1 ≤ n) :
    parseItems N n (records.flatMap (recordRows N) ++ rest) 2 =
      .ok (records.map Record.reread, rest) := by
  induction records generalizing n with
  | nil => simpa using items_read (N := N) hrest [] (by simp) (by omega : 0 + 1 ≤ n)
  | cons r records ih =>
    have hr := h r (List.mem_cons_self ..)
    have hfirst := hr.names r.first (List.mem_cons_self ..)
    have hw := text_written (N := N) (hr.writable r.first (List.mem_cons_self ..))
    obtain ⟨hpart, hkey, -, hstrip⟩ := keyed_row hfirst (' ' :: textOf N r.first.2)
    rw [List.flatMap_cons, recordRows, List.append_assoc, List.cons_append] at hn ⊢
    simp only [List.length_cons, List.length_append, List.length_map] at hn
    obtain ⟨n, rfl⟩ : ∃ m, n = m + 1 := ⟨n - 1, by omega⟩
    have hbelow : Below 4 (records.flatMap (recordRows N) ++ rest) := by
      cases records with
      | nil => exact hrest.low.below (by omega)
      | cons r' records =>
        intro row hrow
        obtain rfl := Option.some.inj
          (show some _ = some row from by simpa [recordRows] using hrow)
        exact show 2 < 4 by decide
    have hmore := pairs_of_read (N := N) (fun p => [pairRow N 4 p]) rereadPair r.more
      (fun p hp => pair_row_reads (hr.names p (List.mem_cons_of_mem _ hp))
        (hr.writable p (List.mem_cons_of_mem _ hp))) hbelow
      [rereadPair r.first]
      (by simpa [rereadPair, Function.comp_def] using hr.distinct) (n := n)
      (by rw [flat_map_pure]; simp only [List.length_append, List.length_map]; omega)
    rw [flat_map_pure] at hmore
    have hitem : isItem ('-' :: ' ' :: pairText r.first.1 (textOf N r.first.2)) = true := by
      simp [isItem, List.isPrefixOf]
    have hinner : strip isSpace (pairText r.first.1 (textOf N r.first.2)) =
        pairText r.first.1 (textOf N r.first.2) :=
      (keyed_row_text hfirst hw.spaced.1 hw.spaced.2).whole
    have hvalue : strip isSpace (' ' :: textOf N r.first.2) = textOf N r.first.2 :=
      (strip_blank _).trans hw.whole
    have hrecords := ih (fun r' hr' => h r' (List.mem_cons_of_mem _ hr')) (n := n)
      (by simp only [List.length_append]; omega)
    rw [parseItems, if_pos ⟨rfl, hitem⟩]
    have hdrop : ('-' :: ' ' :: pairText r.first.1 (textOf N r.first.2)).drop 2 =
        r.first.1 ++ ':' :: ' ' :: textOf N r.first.2 := rfl
    simp only [pairText] at hinner
    simp only [hdrop, hinner, hkey, hpart, hstrip, hvalue, hw.full, hw.back, if_true, if_false]
    change (parsePairs N n _ 4 [rereadPair r.first] >>= fun e =>
      parseItems N n e.2 2 >>= fun x => Except.ok (Val.dict e.1 :: x.1, x.2)) = _
    rw [hmore]
    change (parseItems N n _ 2 >>= fun x => Except.ok (Val.dict _ :: x.1, x.2)) = _
    rw [hrecords]
    rfl

/-! ### The head -/

theorem heading_reads (hk : Identifier k) {below : List Row} (hne : below ≠ [])
    (hdeep : ∀ r ∈ below.head?, r.1 = i + 2) {v : Val F}
    (h : ∀ n rest, Below (i + 2) rest → 3 * (below ++ rest).length + 2 ≤ n →
      parseBlock N n (below ++ rest) (i + 2) = .ok (v, rest)) :
    PairRows N i ((i, k ++ [':']) :: below) (k, v) := by
  obtain ⟨hpart, hkey, hitem, hstrip⟩ := keyed_row hk []
  refine ⟨_, _, rfl, hitem, fun n rest hrest hn => ?_⟩
  obtain ⟨n, rfl⟩ : ∃ m, n = m + 1 := ⟨n - 1, by omega⟩
  have hempty : ¬ (strip isSpace ([] : Str) ≠ []) := fun h => h rfl
  have hread := h n rest (hrest.below (by omega)) (by omega)
  rw [parsePair]
  simp only [hkey, hpart, hstrip, not_true_eq_false, if_false, if_neg hempty]
  cases below with
  | nil => exact absurd rfl hne
  | cons row below =>
    have hrow := hdeep row rfl
    rw [List.cons_append] at hread ⊢
    simp only [hrow]
    rw [if_pos (by omega), hread]
    rfl

theorem entry_rows_read {p : Str × Entry F} (hk : Identifier p.1) (hs : p.2.Sound) :
    PairRows N 0 (entryRows N p) (rereadEntry p) := by
  obtain ⟨k, e⟩ := p
  cases e with
  | leaf v => exact leaf_rows_read (p := (k, v)) hk hs
  | table records =>
    obtain ⟨hne, hsound⟩ := hs
    cases records with
    | nil => exact absurd rfl hne
    | cons r records =>
      refine heading_reads hk (by simp [recordRows]) (by simp [recordRows]) (fun n rest hrest hn => ?_)
      obtain ⟨n, rfl⟩ : ∃ m, n = m + 1 := ⟨n - 1, by omega⟩
      have hread := records_read hrest hsound (n := n) (N := N) (by omega)
      rw [List.flatMap_cons, recordRows, List.cons_append, List.cons_append] at hread ⊢
      rw [parseBlock, if_pos (by simp [isItem, List.isPrefixOf]), hread]
      rfl
  | block pairs =>
    obtain ⟨hne, hdistinct, hsound⟩ := hs
    cases pairs with
    | nil => exact absurd rfl hne
    | cons q pairs =>
      obtain ⟨text, tail, hrows, hitem, -⟩ := leaf_rows_read (N := N) (i := 2)
        (hsound q (List.mem_cons_self ..)).1 (hsound q (List.mem_cons_self ..)).2
      refine heading_reads hk (by simp [hrows]) (by simp [hrows]) (fun n rest hrest hn => ?_)
      obtain ⟨n, rfl⟩ : ∃ m, n = m + 1 := ⟨n - 1, by omega⟩
      have hread := pairs_of_read (N := N) (leafRows N 2) rereadLeaf (q :: pairs)
        (fun p hp => leaf_rows_read (hsound p hp).1 (hsound p hp).2) hrest []
        (by simpa [rereadLeaf, Function.comp_def] using hdistinct) (n := n) (by omega)
      rw [List.flatMap_cons, hrows, List.cons_append, List.cons_append] at hread ⊢
      rw [parseBlock, if_neg (by simp [hitem]), hread]
      rfl

/-- A document of distinct names is read back entry by entry. -/
theorem document_read {document : List (Str × Entry F)} (hne : document ≠ [])
    (hkeys : (document.map Prod.fst).Nodup)
    (hsound : ∀ p ∈ document, Identifier p.1 ∧ p.2.Sound) :
    parseBlock N (fuelFor (document.flatMap (entryRows N))) (document.flatMap (entryRows N)) 0 =
      .ok (.dict (document.map rereadEntry), []) := by
  have hread := pairs_of_read (N := N) (entryRows N) rereadEntry document
    (fun p hp => entry_rows_read (hsound p hp).1 (hsound p hp).2)
    (fun r (hr : r ∈ ([] : List Row).head?) => by cases hr) []
    (by simpa [rereadEntry, Function.comp_def] using hkeys)
    (n := 3 * (document.flatMap (entryRows N)).length + 1) (by simp)
  rw [List.append_nil] at hread
  cases document with
  | nil => exact absurd rfl hne
  | cons p document =>
    obtain ⟨text, tail, hrows, hitem, -⟩ := entry_rows_read (N := N)
      (hsound p (List.mem_cons_self ..)).1 (hsound p (List.mem_cons_self ..)).2
    rw [fuelFor]
    rw [List.flatMap_cons, hrows, List.cons_append] at hread ⊢
    rw [parseBlock, if_neg (by simp [hitem]), hread]
    rfl

end Solvio.Knowledge
