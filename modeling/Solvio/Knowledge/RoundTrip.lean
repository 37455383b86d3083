import Solvio.Knowledge.Documents

namespace Solvio.Knowledge
open Solvio.Lib

variable {F : Type} {N : Numbers F}

/-! ### A concept as a document -/

def textEntry (s : Str) : Entry F := .leaf (.scalar (.str s))

def optionalEntry (key : Str) : Option Str → List (Str × Entry F)
  | none => []
  | some [] => []
  | some s => [(key, textEntry s)]

/-- A text or `None`. -/
def textOrNull : Option Str → Scalar F
  | none => .null
  | some s => .str s

def given (fields : List (Str × Option Str)) : List (Str × Scalar F) :=
  fields.filterMap (fun p => p.2.map (fun s => (p.1, .str s)))

def Source.record (s : Source) : Record F where
  first := ("id".toList, .str s.id)
  more := ("resource".toList, .str s.resource) ::
    given [("title".toList, s.title), ("author".toList, s.author),
      ("last_modified".toList, s.lastModified)]

def Verification.record (v : Verification) : Record F where
  first := ("by".toList, textOrNull v.doneBy)
  more := [("at".toList, textOrNull v.doneAt)]

/-- The keys of a concept and what stands under them, in the order of the page. -/
def document (c : Concept F) : List (Str × Entry F) :=
  [("type".toList, textEntry c.type), ("title".toList, textEntry c.title)] ++
  optionalEntry "description".toList c.description ++
  (if c.tags = [] then []
    else [("tags".toList, .leaf (.list ((c.tags.insertionSort (· ≤ ·)).map .str)))]) ++
  [("status".toList, textEntry c.status)] ++ optionalEntry "stale_after".toList c.staleAfter ++
  (if c.sources = [] then []
    else [("sources".toList, .table (c.sources.map Source.record))]) ++
  [("generated".toList, .block ((given [("by".toList, some c.generatedBy),
    ("at".toList, c.generatedAt)]).map (fun p => (p.1, .scalar p.2))))] ++
  (if c.verified = [] then []
    else [("verified".toList, .table (c.verified.map Verification.record))]) ++
  [("solvio".toList, .block c.solvio.sorted)]

def headNames : List Str :=
  ["type".toList, "title".toList, "description".toList, "tags".toList, "status".toList,
    "stale_after".toList, "sources".toList, "generated".toList, "verified".toList,
    "solvio".toList]

theorem optional_names (key : Str) (s : Option Str) :
    ((optionalEntry (F := F) key s).map Prod.fst).Sublist [key] := by
  cases s with
  | none => exact List.nil_sublist _
  | some s => cases s <;> simp [optionalEntry]

theorem unless_names {p : Prop} [Decidable p] (key : Str) (e : Entry F) :
    ((if p then [] else [(key, e)]).map Prod.fst).Sublist [key] := by
  split <;> simp

/-- The head has no other names than these, in this order. -/
theorem document_names (c : Concept F) : ((document c).map Prod.fst).Sublist headNames := by
  simp only [document, List.map_append, List.map_cons, List.map_nil]
  exact (((((((((List.Sublist.refl [_, _]).append (optional_names _ _)).append
    (unless_names _ _)).append (.refl [_])).append (optional_names _ _)).append
    (unless_names _ _)).append (.refl [_])).append (unless_names _ _)).append (.refl [_]))

/-! ### Its lines -/

def lineOf (r : Row) : Str := indented r.1 r.2

theorem optional_lines (key : Str) (s : Option Str) :
    optional key s = ((optionalEntry key s).flatMap (entryRows N)).map lineOf := by
  cases s with
  | none => rfl
  | some s => cases s <;> rfl

theorem tag_lines (tags : List Str) : tagLines tags =
    ((if tags = [] then []
      else [("tags".toList, Entry.leaf (.list ((tags.insertionSort (· ≤ ·)).map .str)))]).flatMap
        (entryRows N)).map lineOf := by
  unfold tagLines
  split
  · rfl
  · simp [entryRows, leafRows, itemRow, lineOf, indented, textOf, Function.comp_def]

theorem given_lines (i : Nat) (fields : List (Str × Option Str)) :
    fields.filterMap (fun p => p.2.map (fun v => indented i (pairText p.1 (quote v)))) =
      ((given fields).map (pairRow N i)).map lineOf := by
  rw [given, List.map_map, List.map_filterMap]
  congr 1
  funext p
  cases p.2 <;> rfl

theorem null_text (s : Option Str) : quoteOr s = textOf N (textOrNull s) := by
  cases s <;> rfl

theorem source_lines (s : Source) : sourceLines s = (recordRows N s.record).map lineOf := by
  rw [sourceLines, given_lines (N := N)]
  rfl

/-- A list of tables under its name. -/
theorem table_lines {α : Type} (key : Str) (xs : List α) (record : α → Record F)
    (write : α → List Str) (h : ∀ x, write x = (recordRows N (record x)).map lineOf) :
    (if xs = [] then [] else (key ++ [':']) :: xs.flatMap write) =
      ((if xs = [] then [] else [(key, Entry.table (xs.map record))]).flatMap
        (entryRows N)).map lineOf := by
  split
  · rfl
  · have hwrite : xs.flatMap write = xs.flatMap (fun x => (recordRows N (record x)).map lineOf) :=
      congrArg xs.flatMap (funext h)
    simp [entryRows, lineOf, indented, List.map_flatMap, List.flatMap_map, hwrite]

theorem sources_lines (sources : List Source) : sourcesLines sources =
    ((if sources = [] then []
      else [("sources".toList, Entry.table (sources.map Source.record))]).flatMap
        (entryRows N)).map lineOf :=
  table_lines "sources".toList sources Source.record sourceLines source_lines

theorem verified_lines (verified : List Verification) : verifiedLines verified =
    ((if verified = [] then []
      else [("verified".toList, Entry.table (verified.map Verification.record))]).flatMap
        (entryRows N)).map lineOf := by
  refine table_lines "verified".toList verified Verification.record _ (fun v => ?_)
  rw [null_text (N := N), null_text (N := N)]
  rfl

theorem map_ok {α β : Type} {f : α → Except Fault β} {g : α → β} {P : α → Prop}
    (hf : ∀ x y, f x = .ok y → P x ∧ y = g x) {xs : List α} {ys : List β}
    (h : xs.mapM f = .ok ys) : (∀ x ∈ xs, P x) ∧ ys = xs.map g := by
  induction xs generalizing ys with
  | nil =>
    cases h
    exact ⟨fun x hx => absurd hx (List.not_mem_nil), rfl⟩
  | cons x xs ih =>
    rw [List.mapM_cons] at h
    cases hx : f x with
    | error e =>
      rw [hx] at h
      cases h
    | ok y =>
      cases hxs : xs.mapM f with
      | error e =>
        rw [hx, hxs] at h
        cases h
      | ok zs =>
        rw [hx, hxs] at h
        cases h
        obtain ⟨hP, rfl⟩ := ih hxs
        obtain ⟨hPx, rfl⟩ := hf x y hx
        exact ⟨List.forall_mem_cons.mpr ⟨hPx, hP⟩, rfl⟩

theorem map_some {α β : Type} {f : α → Except Fault β} {xs : List α}
    (h : ∀ x ∈ xs, ∃ y, f x = .ok y) : ∃ ys, xs.mapM f = .ok ys := by
  induction xs with
  | nil => exact ⟨[], rfl⟩
  | cons x xs ih =>
    obtain ⟨y, hy⟩ := h x (List.mem_cons_self ..)
    obtain ⟨ys, hys⟩ := ih (fun x hx => h x (List.mem_cons_of_mem _ hx))
    rw [List.mapM_cons, hy, hys]
    exact ⟨y :: ys, rfl⟩

theorem scalar_ok {s : Scalar F} {text : Str} (h : scalar N s = .ok text) :
    s.Writable ∧ text = textOf N s := by
  have hw : s.Writable := scalar_ok_iff.mp ⟨text, h⟩
  rw [scalar_text hw] at h
  exact ⟨hw, (Except.ok.inj h).symm⟩

theorem space_line {p : Str × Leaf F} {lines : List Str} (h : spaceLines N p = .ok lines) :
    p.2.Writable ∧ lines = (leafRows N 2 p).map lineOf := by
  obtain ⟨key, v⟩ := p
  cases v with
  | scalar s =>
    simp only [spaceLines] at h
    cases hs : scalar N s with
    | error f =>
      rw [hs] at h
      cases h
    | ok text =>
      rw [hs] at h
      cases h
      obtain ⟨hw, rfl⟩ := scalar_ok hs
      exact ⟨hw, rfl⟩
  | list items =>
    simp only [spaceLines] at h
    cases hs : items.mapM (scalar N) with
    | error f =>
      rw [hs] at h
      cases h
    | ok texts =>
      rw [hs] at h
      cases h
      obtain ⟨hw, rfl⟩ := map_ok (fun _ _ => scalar_ok) hs
      refine ⟨hw, ?_⟩
      simp [leafRows, itemRow, lineOf, indented]

/-- What `render_concept` writes between the bars, and that `str` took every number. -/
theorem head_lines {c : Concept F} {head : List Str} (h : headLines N c = .ok head) :
    (∀ p ∈ c.solvio.sorted, p.2.Writable) ∧
      head = ((document c).flatMap (entryRows N)).map lineOf := by
  rw [headLines] at h
  cases hs : c.solvio.sorted.mapM (spaceLines N) with
  | error f =>
    rw [hs] at h
    cases h
  | ok space =>
    obtain ⟨hw, rfl⟩ := map_ok (fun _ _ => space_line) hs
    rw [hs] at h
    refine ⟨hw, (Except.ok.inj h).symm.trans ?_⟩
    have hgenerated : blockLines "generated".toList
        [("by".toList, some c.generatedBy), ("at".toList, c.generatedAt)] =
          ((entryRows N) ("generated".toList, .block ((given [("by".toList, some c.generatedBy),
            ("at".toList, c.generatedAt)]).map (fun p => (p.1, .scalar p.2))))).map lineOf := by
      cases c.generatedAt <;> rfl
    rw [hgenerated, optional_lines (N := N), optional_lines (N := N), tag_lines (N := N),
      sources_lines (N := N), verified_lines (N := N)]
    simp only [document, List.flatMap_append, List.map_append, List.flatMap_cons, List.flatMap_nil,
      List.append_nil]
    have hsolvio : ["solvio:".toList] ++
        (c.solvio.sorted.map (fun p => (leafRows N 2 p).map lineOf)).flatten =
          (entryRows N ("solvio".toList, .block c.solvio.sorted)).map lineOf := by
      rw [entryRows, List.map_cons, List.map_flatMap, List.flatMap_def]
      rfl
    rw [← hsolvio]
    simp only [List.append_assoc]
    rfl

/-! ### Its soundness -/

def recordNames : List Str :=
  ["id".toList, "resource".toList, "title".toList, "author".toList, "last_modified".toList]

def doneNames : List Str := ["by".toList, "at".toList]

/-- Every key that the format has of its own. -/
theorem names_identify :
    ∀ k ∈ headNames ++ recordNames ++ doneNames ++ [authorityEffect], Identifier k := by
  decide

theorem given_names (fields : List (Str × Option Str)) :
    ((given (F := F) fields).map Prod.fst).Sublist (fields.map Prod.fst) := by
  induction fields with
  | nil => exact .slnil
  | cons p fields ih =>
    obtain ⟨k, v⟩ := p
    cases v with
    | none => exact ih.cons _
    | some v => exact ih.cons_cons _

theorem given_writable (fields : List (Str × Option Str)) :
    ∀ p ∈ given (F := F) fields, p.2.Writable := by
  intro p hp
  obtain ⟨q, -, hq⟩ := List.mem_filterMap.mp hp
  obtain ⟨v, -, rfl⟩ := Option.map_eq_some_iff.mp hq
  exact trivial

theorem text_or_null_writable (s : Option Str) : (textOrNull (F := F) s).Writable := by
  cases s <;> exact trivial

/-- Keys that are some of the given names. -/
theorem record_sound {r : Record F} (names : List Str)
    (hsub : ((r.first :: r.more).map Prod.fst).Sublist names) (hnodup : names.Nodup)
    (hnames : ∀ k ∈ names, Identifier k) (hw : ∀ p ∈ r.first :: r.more, p.2.Writable) :
    r.Sound where
  names _ hp := hnames _ (hsub.subset (List.mem_map_of_mem hp))
  distinct := hnodup.sublist hsub
  writable := hw

theorem source_sound (s : Source) : (s.record (F := F)).Sound := by
  apply record_sound recordNames ?_ (by decide)
    (fun k hk => names_identify k (by simp [hk]))
  · intro p hp
    simp only [Source.record, List.mem_cons] at hp
    rcases hp with rfl | rfl | hp
    · exact trivial
    · exact trivial
    · exact given_writable _ p hp
  · exact ((given_names [("title".toList, s.title), ("author".toList, s.author),
      ("last_modified".toList, s.lastModified)]).cons_cons _).cons_cons _

theorem verification_sound (v : Verification) : (v.record (F := F)).Sound := by
  apply record_sound doneNames (.refl _) (by decide)
    (fun k hk => names_identify k (by simp [hk]))
  intro p hp
  simp only [Verification.record, List.mem_cons, List.not_mem_nil, or_false] at hp
  rcases hp with rfl | rfl
  · exact text_or_null_writable _
  · exact text_or_null_writable _

theorem Space.with_effect (s : Space F) : (s.withEffect.map Prod.fst).Nodup ∧
    ∀ p ∈ s.withEffect, Identifier p.1 := by
  unfold Space.withEffect
  split
  · exact ⟨s.distinct, s.identifiers⟩
  · rename_i hany
    have hnew : authorityEffect ∉ s.entries.map Prod.fst := by
      intro hin
      obtain ⟨p, hp, hkey⟩ := List.mem_map.mp hin
      exact hany (List.any_eq_true.mpr ⟨p, hp, decide_eq_true hkey⟩)
    constructor
    · rw [List.map_append, List.nodup_append]
      refine ⟨s.distinct, List.nodup_singleton _, ?_⟩
      rintro k hk _ hnone rfl
      rw [List.map_singleton, List.mem_singleton] at hnone
      rw [hnone] at hk
      exact hnew hk
    · intro p hp
      rcases List.mem_append.mp hp with hp | hp
      · exact s.identifiers p hp
      · rw [List.mem_singleton.mp hp]
        exact names_identify authorityEffect (by simp)

theorem Space.sorted_perm (s : Space F) : s.sorted.Perm s.withEffect :=
  List.perm_insertionSort _ _

theorem Space.sorted_sound {s : Space F} (hw : ∀ p ∈ s.sorted, p.2.Writable) :
    (Entry.block s.sorted).Sound := by
  obtain ⟨hnodup, hnames⟩ := s.with_effect
  refine ⟨?_, (s.sorted_perm.map Prod.fst).nodup_iff.mpr hnodup,
    fun p hp => ⟨hnames p (s.sorted_perm.mem_iff.mp hp), hw p hp⟩⟩
  intro hnil
  have hlen := s.sorted_perm.length_eq
  have hsome : s.withEffect ≠ [] := by
    unfold Space.withEffect
    split
    · rename_i hin
      intro h
      rw [h] at hin
      cases hin
    · simp
  rw [hnil] at hlen
  exact hsome (List.length_eq_zero_iff.mp hlen.symm)

theorem document_sound {c : Concept F} (hw : ∀ p ∈ c.solvio.sorted, p.2.Writable) :
    ∀ p ∈ document c, Identifier p.1 ∧ p.2.Sound := by
  intro p hp
  have hname : p.1 ∈ headNames := (document_names c).subset (List.mem_map_of_mem hp)
  refine ⟨names_identify p.1 (by simp [hname]), ?_⟩
  have hoptional : ∀ key s, p ∈ optionalEntry (F := F) key s → p.2.Sound := by
    intro key s hp
    cases s with
    | none => cases hp
    | some s =>
      cases s with
      | nil => cases hp
      | cons a s =>
        rw [List.mem_singleton.mp hp]
        exact trivial
  simp only [document, List.mem_append, List.mem_cons, List.not_mem_nil, or_false] at hp
  rcases hp with (((((((((rfl | rfl) | hp) | hp) | rfl) | hp) | hp) | rfl) | hp) | rfl)
  · exact trivial
  · exact trivial
  · exact hoptional _ _ hp
  · split at hp
    · cases hp
    · rw [List.mem_singleton.mp hp]
      intro s hs
      obtain ⟨t, -, rfl⟩ := List.mem_map.mp hs
      exact trivial
  · exact trivial
  · exact hoptional _ _ hp
  · split at hp
    · cases hp
    · rename_i hne
      rw [List.mem_singleton.mp hp]
      refine ⟨by simpa using hne, fun r hr => ?_⟩
      obtain ⟨s, -, rfl⟩ := List.mem_map.mp hr
      exact source_sound s
  · refine ⟨by simp [given], ?_, ?_⟩
    · rw [List.map_map]
      exact (show doneNames.Nodup by decide).sublist (given_names _)
    · intro q hq
      obtain ⟨p, hp, rfl⟩ := List.mem_map.mp hq
      have hname := (given_names (F := F) _).subset (List.mem_map_of_mem (f := Prod.fst) hp)
      have hdone : p.1 ∈ doneNames := hname
      exact ⟨names_identify p.1 (by simp [hdone]), given_writable _ p hp⟩
  · split at hp
    · cases hp
    · rename_i hne
      rw [List.mem_singleton.mp hp]
      refine ⟨by simpa using hne, fun r hr => ?_⟩
      obtain ⟨s, -, rfl⟩ := List.mem_map.mp hr
      exact verification_sound s
  · exact Space.sorted_sound hw

/-! ### The page -/

/-- A line between the bars: it does not begin with a dash. -/
def Inner (l : Str) : Prop := '\n' ∉ l ∧ ∃ c cs, l = c :: cs ∧ c ≠ '-'

def broken (lines : List Str) : Str := lines.flatMap (fun l => '\n' :: l)

theorem joined_broken (l : Str) (lines : List Str) : joined (l :: lines) = l ++ broken lines := by
  induction lines generalizing l with
  | nil => simp [joined, broken]
  | cons l' lines ih =>
    have hnext := ih l'
    simp only [joined, broken] at hnext ⊢
    rw [List.intercalate_cons_cons, hnext]
    simp

theorem all_lines_broken {l : Str} {lines : List Str} (h : ∀ x ∈ l :: lines, '\n' ∉ x) :
    allLines '\n' (l ++ broken lines) = l :: lines := by
  induction lines generalizing l with
  | nil =>
    have hline : '\n' ∉ l := h l (List.mem_cons_self ..)
    simp [broken, allLines, cut_open hline]
  | cons l' lines ih =>
    rw [broken, List.flatMap_cons, List.cons_append, all_lines_line (h l (List.mem_cons_self ..))]
    exact congrArg (l :: ·) (ih (fun x hx => h x (List.mem_cons_of_mem _ hx)))

theorem find_pass {pattern l : Str} (h : '\n' ∉ l) (rest : Str) :
    find ('\n' :: pattern) (l ++ rest) = (find ('\n' :: pattern) rest).map (· + l.length) := by
  induction l with
  | nil => simp
  | cons c l ih =>
    have hne : ¬ '\n' :: pattern <+: c :: (l ++ rest) := by
      rintro ⟨tail, htail⟩
      exact h (List.mem_cons.mpr (.inl (List.cons.inj htail).1))
    rw [List.cons_append, find, if_neg hne, ih (fun hm => h (List.mem_cons_of_mem _ hm)),
      Option.map_map]
    congr 1

/-- The first bar on a line of its own is the one behind the inner lines. -/
theorem find_bar {lines : List Str} (h : ∀ l ∈ lines, Inner l) (rest : Str) :
    find ('\n' :: bar) (broken lines ++ '\n' :: bar ++ rest) = some (broken lines).length := by
  induction lines with
  | nil => rfl
  | cons l lines ih =>
    obtain ⟨hline, c, cs, rfl, hc⟩ := h l (List.mem_cons_self ..)
    have hne : ¬ '\n' :: bar <+: '\n' :: (c :: cs ++ (broken lines ++ '\n' :: bar ++ rest)) := by
      rintro ⟨tail, htail⟩
      exact hc (List.cons.inj (List.cons.inj htail).2).1.symm
    have hsplit : broken ((c :: cs) :: lines) ++ '\n' :: bar ++ rest =
        '\n' :: (c :: cs ++ (broken lines ++ '\n' :: bar ++ rest)) := by
      simp [broken]
    rw [hsplit, find, if_neg hne, find_pass hline,
      ih (fun x hx => h x (List.mem_cons_of_mem _ hx)), Option.map_some, Option.map_some]
    simp only [broken, List.flatMap_cons, List.length_append, List.length_cons]
    congr 1
    omega

theorem split_page {l : Str} {lines : List Str} (h : ∀ x ∈ l :: lines, Inner x) (body : Str) :
    splitFrontmatter (joined (bar :: (l :: lines) ++ [bar]) ++ body) =
      .ok (l ++ broken lines, lstripLines body) := by
  have hpage : joined (bar :: (l :: lines) ++ [bar]) ++ body =
      bar ++ (broken (l :: lines) ++ '\n' :: bar ++ body) := by
    rw [List.cons_append, joined_broken]
    simp [broken]
  have hfind := find_bar h body
  rw [hpage]
  unfold splitFrontmatter
  rw [if_neg (not_not.mpr (List.prefix_append ..)), show (bar ++ (broken (l :: lines) ++
    '\n' :: bar ++ body)).drop 3 = broken (l :: lines) ++ '\n' :: bar ++ body from rfl, hfind]
  have hhead : bar ++ (broken (l :: lines) ++ '\n' :: bar ++ body) =
      (bar ++ broken (l :: lines)) ++ (('\n' :: bar) ++ body) := by simp
  have hlen : (broken (l :: lines)).length + 3 = (bar ++ broken (l :: lines)).length := by
    rw [List.length_append, bar, List.length_cons, List.length_cons, List.length_cons,
      List.length_nil, Nat.add_comm]
  simp only [hlen, hhead, List.take_left, ← List.drop_drop, List.drop_left]
  rfl

/-! ### Rows of a document -/

theorem pair_row_text {k : Str} (hk : Identifier k) {s : Scalar F} (hs : s.Writable) :
    RowText (pairText k (textOf N s)) := by
  have hw := text_written (N := N) hs
  exact keyed_row_text hk hw.spaced.1 hw.spaced.2

theorem heading_row_text {k : Str} (hk : Identifier k) : RowText (k ++ ':' :: []) := by
  apply keyed_row_text hk
  · simp
  · simp

theorem dash_row_text {text : Str} (h : RowText text) : RowText ('-' :: ' ' :: text) := by
  obtain ⟨c, cs, rfl, -, -⟩ := h.head
  apply item_row_text (List.cons_ne_nil _ _) _ h.oneLine
  rw [← h.whole]
  exact strip_last

theorem leaf_row_text {p : Str × Leaf F} (hk : Identifier p.1) (hp : p.2.Writable) (i : Nat) :
    ∀ r ∈ leafRows N i p, RowText r.2 := by
  obtain ⟨k, v⟩ := p
  cases v with
  | scalar s =>
    intro r hr
    rw [List.mem_singleton.mp hr]
    exact pair_row_text hk hp
  | list items =>
    intro r hr
    rcases List.mem_cons.mp hr with rfl | hr
    · exact heading_row_text hk
    · obtain ⟨s, hs, rfl⟩ := List.mem_map.mp hr
      have hw := text_written (N := N) (hp s hs)
      exact item_row_text hw.full hw.last hw.oneLine

theorem record_row_text {r : Record F} (hr : r.Sound) : ∀ x ∈ recordRows N r, RowText x.2 := by
  intro x hx
  rcases List.mem_cons.mp hx with rfl | hx
  · exact dash_row_text (pair_row_text (hr.names _ (List.mem_cons_self ..))
      (hr.writable _ (List.mem_cons_self ..)))
  · obtain ⟨p, hp, rfl⟩ := List.mem_map.mp hx
    exact pair_row_text (hr.names _ (List.mem_cons_of_mem _ hp))
      (hr.writable _ (List.mem_cons_of_mem _ hp))

theorem entry_row_text {p : Str × Entry F} (hk : Identifier p.1) (hs : p.2.Sound) :
    ∀ r ∈ entryRows N p, RowText r.2 := by
  obtain ⟨k, e⟩ := p
  cases e with
  | leaf v => exact leaf_row_text (p := (k, v)) hk hs 0
  | table records =>
    intro r hr
    rcases List.mem_cons.mp hr with rfl | hr
    · exact heading_row_text hk
    · obtain ⟨record, hrecord, hr⟩ := List.mem_flatMap.mp hr
      exact record_row_text (hs.2 record hrecord) r hr
  | block pairs =>
    intro r hr
    rcases List.mem_cons.mp hr with rfl | hr
    · exact heading_row_text hk
    · obtain ⟨p, hp, hr⟩ := List.mem_flatMap.mp hr
      exact leaf_row_text (hs.2.2 p hp).1 (hs.2.2 p hp).2 2 r hr

theorem document_rows {c : Concept F} (hw : ∀ p ∈ c.solvio.sorted, p.2.Writable) :
    ∀ r ∈ (document c).flatMap (entryRows N), RowText r.2 := by
  intro r hr
  obtain ⟨p, hp, hr⟩ := List.mem_flatMap.mp hr
  obtain ⟨hk, hs⟩ := document_sound hw p hp
  exact entry_row_text hk hs r hr

theorem leaf_columns {i : Nat} {p : Str × Leaf F} :
    ∀ r ∈ leafRows N i p, i < r.1 ∨ r.1 = i ∧ ∃ value, r.2 = p.1 ++ value := by
  obtain ⟨k, v⟩ := p
  cases v with
  | scalar s =>
    intro r hr
    rw [List.mem_singleton.mp hr]
    exact .inr ⟨rfl, _, rfl⟩
  | list items =>
    intro r hr
    rcases List.mem_cons.mp hr with rfl | hr
    · exact .inr ⟨rfl, _, rfl⟩
    · obtain ⟨s, -, rfl⟩ := List.mem_map.mp hr
      exact .inl (show i < i + 2 by omega)

/-- In the first column there are keys only. -/
theorem entry_columns {p : Str × Entry F} :
    ∀ r ∈ entryRows N p, 0 < r.1 ∨ ∃ value, r.2 = p.1 ++ value := by
  obtain ⟨k, e⟩ := p
  cases e with
  | leaf v =>
    intro r hr
    exact (leaf_columns (p := (k, v)) r hr).imp_right And.right
  | table records =>
    intro r hr
    rcases List.mem_cons.mp hr with rfl | hr
    · exact .inr ⟨_, rfl⟩
    · obtain ⟨record, -, hr⟩ := List.mem_flatMap.mp hr
      rcases List.mem_cons.mp hr with rfl | hr
      · exact .inl (show 0 < 2 by decide)
      · obtain ⟨p, -, rfl⟩ := List.mem_map.mp hr
        exact .inl (show 0 < 4 by decide)
  | block pairs =>
    intro r hr
    rcases List.mem_cons.mp hr with rfl | hr
    · exact .inr ⟨_, rfl⟩
    · obtain ⟨p, -, hr⟩ := List.mem_flatMap.mp hr
      rcases leaf_columns r hr with h | ⟨h, -⟩
      · exact .inl (by omega)
      · exact .inl (by omega)

theorem inner_lines {c : Concept F} (hw : ∀ p ∈ c.solvio.sorted, p.2.Writable) :
    ∀ r ∈ (document c).flatMap (entryRows N), Inner (lineOf r) := by
  intro r hr
  have htext := document_rows hw r hr
  obtain ⟨p, hp, hr⟩ := List.mem_flatMap.mp hr
  have hk := (document_sound hw p hp).1
  refine ⟨by simp [lineOf, indented, htext.oneLine], ?_⟩
  rcases entry_columns r hr with hcol | ⟨value, hvalue⟩
  · obtain ⟨n, hn⟩ : ∃ n, r.1 = n + 1 := ⟨r.1 - 1, by omega⟩
    exact ⟨' ', List.replicate n ' ' ++ r.2, by simp [lineOf, indented, hn, List.replicate_succ],
      by decide⟩
  · cases hcol : r.1 with
    | zero =>
      obtain ⟨k, e⟩ := p
      cases k with
      | nil => exact absurd rfl hk.1
      | cons c cs =>
        exact ⟨c, cs ++ value, by simp [lineOf, indented, hcol, hvalue],
          (name_char (hk.2 c (List.mem_cons_self ..))).2.2.2.2.2.1⟩
    | succ n =>
      exact ⟨' ', List.replicate n ' ' ++ r.2,
        by simp [lineOf, indented, hcol, List.replicate_succ], by decide⟩

theorem rows_back {rows : List Row} (h : ∀ r ∈ rows, RowText r.2) :
    (rows.map lineOf).filterMap rowOf = rows := by
  induction rows with
  | nil => rfl
  | cons r rows ih =>
    have hrow : rowOf (lineOf r) = some r := row_of_indented (h r (List.mem_cons_self ..)) r.1
    rw [List.map_cons, List.filterMap_cons_some hrow,
      ih (fun x hx => h x (List.mem_cons_of_mem _ hx))]

/-! ### Written and read -/

theorem space_ok {p : Str × Leaf F} (h : p.2.Writable) : ∃ lines, spaceLines N p = .ok lines := by
  obtain ⟨key, v⟩ := p
  cases v with
  | scalar s =>
    rw [spaceLines, scalar_text h]
    exact ⟨_, rfl⟩
  | list items =>
    obtain ⟨texts, htexts⟩ := map_some (fun s hs => ⟨_, scalar_text (N := N) (h s hs)⟩)
    rw [spaceLines, htexts]
    exact ⟨_, rfl⟩

/-- Which concepts have a page. -/
theorem page_iff {c : Concept F} : (∃ page, renderConcept N c = .ok page) ↔
    strip isSpace c.type ≠ [] ∧ c.status ∈ statuses ∧ ∀ p ∈ c.solvio.sorted, p.2.Writable := by
  have hknown : c.status ∈ statuses ↔ statuses.any (fun s => s = c.status) = true := by
    simp [List.any_eq_true]
  rw [hknown]
  unfold renderConcept
  constructor
  · rintro ⟨page, h⟩
    split at h
    · cases h
    rename_i htype
    split at h
    · cases h
    rename_i hstatus
    cases hhead : headLines N c with
    | error f =>
      rw [hhead] at h
      cases h
    | ok head => exact ⟨htype, not_not.mp hstatus, (head_lines hhead).1⟩
  · rintro ⟨htype, hstatus, hw⟩
    obtain ⟨space, hspace⟩ := map_some (fun p hp => space_ok (N := N) (hw p hp))
    rw [if_neg htype, if_neg (not_not.mpr hstatus), headLines, hspace]
    exact ⟨_, rfl⟩

/-- The text between the bars of a page. -/
def frontText (N : Numbers F) (c : Concept F) : Str :=
  ((document c).flatMap (entryRows N)).head?.elim [] lineOf ++
    broken (((document c).flatMap (entryRows N)).tail.map lineOf)

theorem document_head (c : Concept F) : ∃ first rows,
    (document c).flatMap (entryRows N) = first :: rows ∧ first.1 = 0 := ⟨_, _, rfl, rfl⟩

theorem page_split {c : Concept F} {page : Str} (h : renderConcept N c = .ok page) :
    splitFrontmatter page =
      .ok (frontText N c, lstripLines (rstripLines c.body ++ ['\n'])) := by
  unfold renderConcept at h
  split at h
  · cases h
  split at h
  · cases h
  cases hhead : headLines N c with
  | error f =>
    rw [hhead] at h
    cases h
  | ok head =>
    rw [hhead] at h
    obtain rfl := Except.ok.inj h
    obtain ⟨hw, rfl⟩ := head_lines hhead
    have hinner := inner_lines (N := N) hw
    obtain ⟨first, rows, hrows, -⟩ := document_head (N := N) c
    rw [frontText, hrows]
    rw [hrows] at hinner
    have hlines : ∀ l ∈ lineOf first :: rows.map lineOf, Inner l := by
      intro l hl
      obtain ⟨r, hr, rfl⟩ := List.mem_map.mp (show l ∈ (first :: rows).map lineOf from hl)
      exact hinner r hr
    rw [List.append_assoc, List.append_assoc, List.map_cons, split_page hlines]
    rfl

theorem front_parsed {c : Concept F} (hw : ∀ p ∈ c.solvio.sorted, p.2.Writable) :
    parseFrontmatter N (frontText N c) = .ok ((document c).map rereadEntry) := by
  have htexts := document_rows (N := N) hw
  have hinner := inner_lines (N := N) hw
  have hsome : document c ≠ [] := List.cons_ne_nil _ _
  have hread := document_read (N := N) hsome
    ((show headNames.Nodup by decide).sublist (document_names c)) (document_sound hw)
  obtain ⟨first, rows, hrows, hcol⟩ := document_head (N := N) c
  rw [frontText, hrows]
  rw [hrows] at htexts hinner hread
  have hlines : ∀ l ∈ lineOf first :: rows.map lineOf, '\n' ∉ l := by
    intro l hl
    obtain ⟨r, hr, rfl⟩ := List.mem_map.mp (show l ∈ (first :: rows).map lineOf from hl)
    exact (hinner r hr).1
  unfold parseFrontmatter
  rw [List.head?_cons, Option.elim_some, List.tail_cons, all_lines_broken hlines,
    ← List.map_cons, rows_back htexts]
  simp only [List.head?_cons, Option.map_some, Option.getD_some, hcol, hread]
  rfl

/-- The page of a concept is split at its own bars and read back entry by
entry, whatever the texts are. -/
theorem page_reads {c : Concept F} {page : Str} (h : renderConcept N c = .ok page) :
    ∃ raw, splitFrontmatter page = .ok (raw, lstripLines (rstripLines c.body ++ ['\n'])) ∧
      parseFrontmatter N raw = .ok ((document c).map rereadEntry) :=
  ⟨frontText N c, page_split h, front_parsed (Iff.mp page_iff ⟨page, h⟩).2.2⟩

/-! ### What is lost -/

/-- As it was put in. -/
def Leaf.value : Leaf F → Val F
  | .scalar s => .scalar s
  | .list items => .list (items.map .scalar)

def Record.value (r : Record F) : Val F :=
  .dict ((r.first :: r.more).map (fun p => (p.1, .scalar p.2)))

def Entry.value : Entry F → Val F
  | .leaf v => v.value
  | .table records => .list (records.map Record.value)
  | .block pairs => .dict (pairs.map (fun p => (p.1, p.2.value)))

def Scalar.Kept : Scalar F → Prop
  | .str s => Plain s
  | _ => True

def Leaf.Kept : Leaf F → Prop
  | .scalar s => s.Kept
  | .list items => items ≠ [] ∧ ∀ s ∈ items, s.Kept

/-- Every text comes back as it is, and no list is without items. -/
def Entry.Kept : Entry F → Prop
  | .leaf v => v.Kept
  | .table records => ∀ r ∈ records, ∀ p ∈ r.first :: r.more, p.2.Kept
  | .block pairs => ∀ p ∈ pairs, p.2.Kept

instance (s : Scalar F) : Decidable s.Kept :=
  match s with
  | .str s => inferInstanceAs (Decidable (Plain s))
  | .null | .bool _ | .int _ | .float _ => isTrue trivial

instance (v : Leaf F) : Decidable v.Kept :=
  match v with
  | .scalar s => inferInstanceAs (Decidable s.Kept)
  | .list items =>
    match items with
    | [] => isFalse (fun h => h.1 rfl)
    | s :: items =>
      decidable_of_iff (∀ x ∈ s :: items, x.Kept)
        ⟨fun h => ⟨List.cons_ne_nil _ _, h⟩, And.right⟩

instance (e : Entry F) : Decidable e.Kept :=
  match e with
  | .leaf v => inferInstanceAs (Decidable v.Kept)
  | .table records =>
    inferInstanceAs (Decidable (∀ r ∈ records, ∀ p ∈ r.first :: r.more, p.2.Kept))
  | .block pairs => inferInstanceAs (Decidable (∀ p ∈ pairs, p.2.Kept))

theorem Scalar.reread_iff {s : Scalar F} : s.reread = s ↔ s.Kept := by
  cases s with
  | str s =>
    rw [Scalar.reread, Scalar.str.injEq]
    exact unescaped_escaped_iff s
  | _ => exact iff_of_true rfl trivial

theorem map_same_iff {α β : Type} {f g : α → β} {P : α → Prop} {xs : List α}
    (h : ∀ x ∈ xs, f x = g x ↔ P x) : xs.map f = xs.map g ↔ ∀ x ∈ xs, P x := by
  rw [List.map_inj_left]
  exact forall₂_congr h

theorem pairs_same_iff (pairs : List (Str × Scalar F)) :
    pairs.map rereadPair = pairs.map (fun p => (p.1, .scalar p.2)) ↔ ∀ p ∈ pairs, p.2.Kept := by
  apply map_same_iff
  intro p _
  rw [rereadPair, Prod.mk.injEq, Val.scalar.injEq, eq_self, true_and, Scalar.reread_iff]

theorem items_same_iff (items : List (Scalar F)) :
    items.map (fun s => Val.scalar s.reread) = items.map (fun s => .scalar s) ↔
      ∀ s ∈ items, s.Kept := by
  apply map_same_iff
  intro s _
  rw [Val.scalar.injEq, Scalar.reread_iff]

theorem Leaf.reread_iff {v : Leaf F} : v.reread = v.value ↔ v.Kept := by
  cases v with
  | scalar s =>
    rw [Leaf.reread, Leaf.value, Val.scalar.injEq]
    exact Scalar.reread_iff
  | list items =>
    cases items with
    | nil => exact iff_of_false (fun h => by cases h) (fun h => h.1 rfl)
    | cons s items =>
      rw [Leaf.reread, Leaf.value, Val.list.injEq, items_same_iff]
      · exact ⟨fun h => ⟨List.cons_ne_nil _ _, h⟩, And.right⟩
      · exact List.cons_ne_nil _ _

theorem Entry.reread_iff {e : Entry F} : e.reread = e.value ↔ e.Kept := by
  cases e with
  | leaf v => exact Leaf.reread_iff
  | table records =>
    rw [Entry.reread, Entry.value, Val.list.injEq]
    apply map_same_iff
    intro r _
    rw [Record.reread, Record.value, Val.dict.injEq]
    exact pairs_same_iff _
  | block pairs =>
    rw [Entry.reread, Entry.value, Val.dict.injEq]
    apply map_same_iff
    intro p _
    rw [rereadLeaf, Prod.mk.injEq, eq_self, true_and, Leaf.reread_iff]

/-- `int` of a text of decimal digits. -/
def intOfDigits : Str → Option Int
  | '-' :: ds => if ds ≠ [] ∧ ds.all Json.isDigit then some (-(Json.natOfDigits ds)) else none
  | ds => if ds ≠ [] ∧ ds.all Json.isDigit then some (Json.natOfDigits ds) else none

theorem int_of_render (n : Int) : intOfDigits (Json.renderInt n) = some n := by
  have hdigits : ∀ m, Json.decimal m ≠ [] ∧ (Json.decimal m).all Json.isDigit = true := by
    intro m
    obtain ⟨c, ds, hcs, -⟩ := Json.decimal_head m
    exact ⟨by rw [hcs]; exact List.cons_ne_nil _ _,
      List.all_eq_true.mpr (Json.decimal_digits m)⟩
  cases n with
  | ofNat m =>
    have hminus : ∀ ds, Json.decimal m ≠ '-' :: ds := by
      intro ds h
      exact absurd (Json.decimal_digits m '-' (h ▸ List.mem_cons_self ..)) (by decide)
    rw [Json.renderInt, intOfDigits, if_pos (hdigits m), Json.nat_of_decimal]
    · rfl
    · exact hminus
  | negSucc m =>
    rw [Json.renderInt, intOfDigits, if_pos (hdigits (m + 1)), Json.nat_of_decimal]
    rfl

/-- Numbers without floats. -/
def wholeNumbers : Numbers Empty where
  repr x := x.elim
  int? := intOfDigits
  float? _ := none
  int_written n _ := int_of_render n
  int_repr x := x.elim
  float_repr x := x.elim
  repr_chars x := x.elim

/-- A title that tries to end the head, and one tag. -/
def sampleConcept : Concept Empty where
  type := "fact".toList
  title := "a\"\n---\nauthority: true".toList
  body := "text".toList
  description := none
  tags := ["tag".toList]
  sources := []
  generatedBy := "compiler".toList
  generatedAt := none
  verified := []
  status := "stable".toList
  staleAfter := none
  solvio := { entries := [], distinct := List.nodup_nil, identifiers := by simp }

theorem sample_page : ∃ page, renderConcept wholeNumbers sampleConcept = .ok page :=
  page_iff.mpr ⟨by decide, by decide, by
    intro p hp
    rw [List.mem_singleton.mp hp]
    exact trivial⟩

theorem page_reads_sample : ∃ page raw, splitFrontmatter page = .ok (raw, "text\n".toList) ∧
    parseFrontmatter wholeNumbers raw = .ok ((document sampleConcept).map rereadEntry) := by
  obtain ⟨page, hpage⟩ := sample_page
  obtain ⟨raw, hsplit, hparse⟩ := page_reads hpage
  exact ⟨page, raw, hsplit, hparse⟩

end Solvio.Knowledge
