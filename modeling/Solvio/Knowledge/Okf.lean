import Mathlib.Data.Char
import Mathlib.Data.List.DropRight
import Mathlib.Data.List.Lex
import Mathlib.Data.List.Sort
import Solvio.Lib.Chunks
import Solvio.Lib.Escapes
import Solvio.Lib.Json
import Solvio.Lib.Lines
import Solvio.Lib.PyString

namespace Solvio.Knowledge
open Solvio.Lib

abbrev Str : Type := List Char

/-! ### What is written -/

/-- A value without parts. -/
inductive Scalar (F : Type) where
  | null
  | bool (b : Bool)
  | int (n : Int)
  | float (x : F)
  | str (s : Str)
  deriving DecidableEq

/-- A value of the `solvio` map. -/
inductive Leaf (F : Type) where
  | scalar (s : Scalar F)
  | list (items : List (Scalar F))

/-- More digits are refused by `str` with a `ValueError`. -/
def digitLimit : Nat := 4300

def Short (n : Int) : Prop := (Json.decimal n.natAbs).length ≤ digitLimit

instance (n : Int) : Decidable (Short n) := inferInstanceAs (Decidable (_ ≤ _))

def floatChars : Str :=
  ['0', '1', '2', '3', '4', '5', '6', '7', '8', '9', '+', '-', '.', 'e', 'i', 'n', 'f', 'a']

/-- The texts of numbers: `str` of a float, `int` and `float` of a text. All the
not-a-number floats are one. -/
structure Numbers (F : Type) where
  repr : F → Str
  int? : Str → Option Int
  float? : Str → Option F
  int_written : ∀ n, Short n → int? (Json.renderInt n) = some n
  int_repr : ∀ x, int? (repr x) = none
  float_repr : ∀ x, float? (repr x) = some x
  repr_chars : ∀ x, repr x ≠ [] ∧ ∀ c ∈ repr x, c ∈ floatChars

/-- Neither a blank nor a sign of the format. Every identifier is made of these. -/
def nameChar (c : Char) : Bool := !isSpace c && c ∉ [':', '"', '\'', '#', '-']

def Identifier (k : Str) : Prop := k ≠ [] ∧ ∀ c ∈ k, nameChar c = true

instance (k : Str) : Decidable (Identifier k) :=
  decidable_of_iff (k ≠ [] ∧ k.all nameChar = true) (by rw [Identifier, List.all_eq_true])

variable {F : Type}

structure Source where
  id : Str
  resource : Str
  title : Option Str
  author : Option Str
  lastModified : Option Str

/-- An entry of `verified`; what it lacks is `None`. -/
structure Verification where
  doneBy : Option Str
  doneAt : Option Str

/-- A dict of keys that name something, each once. -/
structure Space (F : Type) where
  entries : List (Str × Leaf F)
  distinct : (entries.map Prod.fst).Nodup
  identifiers : ∀ p ∈ entries, Identifier p.1

structure Concept (F : Type) where
  type : Str
  title : Str
  body : Str
  description : Option Str
  tags : List Str
  sources : List Source
  generatedBy : Str
  generatedAt : Option Str
  verified : List Verification
  status : Str
  staleAfter : Option Str
  solvio : Space F

/-- Why `OkfInvalid` is raised. -/
inductive OkfInvalid where
  | typeRequired
  | unknownStatus (status : Str)
  | noFrontmatter
  | notClosed
  | indentation
  | keyless (row : Str)

/-- Its text; `repr` is that of Python. -/
def OkfInvalid.message (repr : Str → String) : OkfInvalid → String
  | typeRequired => "`type` ist Pflicht und darf nicht leer sein"
  | unknownStatus status => "Unbekannter Lebenszyklus-Wert: " ++ repr status
  | noFrontmatter => "kein Frontmatter"
  | notClosed => "Frontmatter ist nicht geschlossen"
  | indentation => "Einrueckung ergibt keinen Sinn"
  | keyless row => "Zeile ohne Schluessel: " ++ repr (row.take 40)

inductive Fault where
  | okf (reason : OkfInvalid)
  | value
  | fuel

def statuses : List Str := ["draft".toList, "stable".toList, "deprecated".toList]

def noAuthority : Str := "none".toList

def authorityEffect : Str := "authority_effect".toList

/-- `_scalar` of a text. -/
def quote (s : Str) : Str := '"' :: (escaped s ++ ['"'])

/-- `_scalar`. -/
def scalar (N : Numbers F) : Scalar F → Except Fault Str
  | .null => .ok "null".toList
  | .bool b => .ok (if b then "true".toList else "false".toList)
  | .int n => if Short n then .ok (Json.renderInt n) else .error .value
  | .float x => .ok (N.repr x)
  | .str s => .ok (quote s)

/-- `_scalar` of a text or `None`. -/
def quoteOr : Option Str → Str
  | none => "null".toList
  | some s => quote s

/-- `key: value`. -/
def pairText (key value : Str) : Str := key ++ ':' :: ' ' :: value

def indented (n : Nat) (text : Str) : Str := List.replicate n ' ' ++ text

/-- The lines of an optional text; the empty one is left out. -/
def optional (key : Str) : Option Str → List Str
  | none => []
  | some [] => []
  | some s => [pairText key (quote s)]

/-- The pairs that `_block` writes. -/
def blockLines (name : Str) (mapping : List (Str × Option Str)) : List Str :=
  let written := mapping.filterMap (fun p =>
    p.2.map (fun s => indented 2 (pairText p.1 (quote s))))
  if written = [] then [] else (name ++ [':']) :: written

def tagLines (tags : List Str) : List Str :=
  if tags = [] then []
  else "tags:".toList :: (tags.insertionSort (· ≤ ·)).map
    (fun tag => indented 2 ('-' :: ' ' :: quote tag))

def sourceLines (s : Source) : List Str :=
  [indented 2 ('-' :: ' ' :: pairText "id".toList (quote s.id)),
    indented 4 (pairText "resource".toList (quote s.resource))] ++
  [("title".toList, s.title), ("author".toList, s.author),
    ("last_modified".toList, s.lastModified)].filterMap
      (fun p => p.2.map (fun v => indented 4 (pairText p.1 (quote v))))

def sourcesLines (sources : List Source) : List Str :=
  if sources = [] then [] else "sources:".toList :: sources.flatMap sourceLines

def verifiedLines (verified : List Verification) : List Str :=
  if verified = [] then []
  else "verified:".toList :: verified.flatMap (fun v =>
    [indented 2 ('-' :: ' ' :: pairText "by".toList (quoteOr v.doneBy)),
      indented 4 (pairText "at".toList (quoteOr v.doneAt))])

/-- `setdefault("authority_effect", "none")`. -/
def Space.withEffect (s : Space F) : List (Str × Leaf F) :=
  if s.entries.any (fun p => p.1 = authorityEffect) then s.entries
  else s.entries ++ [(authorityEffect, .scalar (.str noAuthority))]

/-- The pairs in the order of `sorted(space)`. -/
def Space.sorted (s : Space F) : List (Str × Leaf F) :=
  s.withEffect.insertionSort (fun p q => p.1 ≤ q.1)

def spaceLines (N : Numbers F) : Str × Leaf F → Except Fault (List Str)
  | (key, .list items) => do
    let written ← items.mapM (scalar N)
    .ok (indented 2 (key ++ [':']) ::
      written.map (fun text => indented 4 ('-' :: ' ' :: text)))
  | (key, .scalar s) => do
    let text ← scalar N s
    .ok [indented 2 (pairText key text)]

/-- The lines between the two bars. -/
def headLines (N : Numbers F) (c : Concept F) : Except Fault (List Str) := do
  let space ← c.solvio.sorted.mapM (spaceLines N)
  .ok ([pairText "type".toList (quote c.type), pairText "title".toList (quote c.title)] ++
    optional "description".toList c.description ++ tagLines c.tags ++
    [pairText "status".toList (quote c.status)] ++ optional "stale_after".toList c.staleAfter ++
    sourcesLines c.sources ++
    blockLines "generated".toList
      [("by".toList, some c.generatedBy), ("at".toList, c.generatedAt)] ++
    verifiedLines c.verified ++ ["solvio:".toList] ++ space.flatten)

def bar : Str := ['-', '-', '-']

/-- `str.rstrip("\n")`. -/
def rstripLines (s : Str) : Str := s.rdropWhile (· = '\n')

/-- `str.lstrip("\n")`. -/
def lstripLines (s : Str) : Str := s.dropWhile (· = '\n')

def renderConcept (N : Numbers F) (c : Concept F) : Except Fault Str :=
  if strip isSpace c.type = [] then .error (.okf .typeRequired)
  else if ¬ statuses.any (fun s => s = c.status) then .error (.okf (.unknownStatus c.status))
  else do
    let head ← headLines N c
    .ok (joined (bar :: head ++ [bar]) ++ ['\n', '\n'] ++ rstripLines c.body ++ ['\n'])

/-! ### What is read -/

inductive Val (F : Type) where
  | scalar (s : Scalar F)
  | list (items : List (Val F))
  | dict (entries : List (Str × Val F))

/-- `str.find`. -/
def find (pattern : Str) : Str → Option Nat
  | [] => if pattern = [] then some 0 else none
  | c :: rest =>
    if pattern <+: c :: rest then some 0 else (find pattern rest).map (· + 1)

def splitFrontmatter (text : Str) : Except Fault (Str × Str) :=
  if ¬ bar <+: text then .error (.okf .noFrontmatter)
  else match find ('\n' :: bar) (text.drop 3) with
    | none => .error (.okf .notClosed)
    | some i => .ok ((text.take (i + 3)).drop 4, lstripLines (text.drop (i + 3 + 4)))

/-- `str.partition(":")`, without the colon. -/
def partitionColon (s : Str) : Str × Str :=
  (s.takeWhile (· ≠ ':'), (s.dropWhile (· ≠ ':')).drop 1)

def looksLikeKey : Str → Bool
  | [] => false
  | c :: cs =>
    let key := (partitionColon (c :: cs)).1
    c ≠ '"' && c ≠ '\'' && ':' ∈ c :: cs && '"' ∉ key && ' ' ∉ strip isSpace key

/-- `int(text)`, or `float(text)`, or the text. -/
def readNumber (N : Numbers F) (text : Str) : Scalar F :=
  match N.int? text with
  | some n => .int n
  | none => match N.float? text with
    | some x => .float x
    | none => .str text

def unscalar (N : Numbers F) (raw : Str) : Scalar F :=
  let text := strip isSpace raw
  if 2 ≤ text.length ∧ text.head? = text.getLast? ∧
      (text.head? = some '"' ∨ text.head? = some '\'') then
    .str (unescaped (text.drop 1).dropLast)
  else if text = "null".toList then .null
  else if text = "true".toList then .bool true
  else if text = "false".toList then .bool false
  else readNumber N text

/-- Its indentation and its text. -/
abbrev Row : Type := Nat × Str

def isItem (row : Str) : Bool := ['-', ' '].isPrefixOf row

/-- `dict.update` with one pair. -/
def put (entries : List (Str × Val F)) (p : Str × Val F) : List (Str × Val F) :=
  if entries.any (fun q => q.1 = p.1) then entries.map (fun q => if q.1 = p.1 then p else q)
  else entries ++ [p]

mutual

/-- `_parse_block`; the rows are those from the index on. -/
def parseBlock (N : Numbers F) : Nat → List Row → Nat → Except Fault (Val F × List Row)
  | 0, _, _ => .error .fuel
  | _ + 1, [], _ => .ok (.dict [], [])
  | n + 1, row :: rest, indent =>
    if isItem row.2 then do
      let (items, rest) ← parseItems N n (row :: rest) indent
      .ok (.list items, rest)
    else do
      let (mapping, rest) ← parsePairs N n (row :: rest) indent []
      .ok (.dict mapping, rest)

/-- The loop over the items of a list. -/
def parseItems (N : Numbers F) : Nat → List Row → Nat → Except Fault (List (Val F) × List Row)
  | 0, _, _ => .error .fuel
  | _ + 1, [], _ => .ok ([], [])
  | n + 1, row :: rest, indent =>
    if row.1 = indent ∧ isItem row.2 then
      let inner := strip isSpace (row.2.drop 2)
      if looksLikeKey inner then do
        let (key, value) := partitionColon inner
        let (first, rest) ←
          if strip isSpace value = [] then parseBlock N n rest (row.1 + 4)
          else .ok (.scalar (unscalar N (strip isSpace value)), rest)
        let (entry, rest) ← parsePairs N n rest (row.1 + 2) [(strip isSpace key, first)]
        let (items, rest) ← parseItems N n rest indent
        .ok (.dict entry :: items, rest)
      else do
        let (items, rest) ← parseItems N n rest indent
        .ok (.scalar (unscalar N inner) :: items, rest)
    else .ok ([], row :: rest)

/-- The loop over the pairs of one column. -/
def parsePairs (N : Numbers F) : Nat → List Row → Nat → List (Str × Val F) →
    Except Fault (List (Str × Val F) × List Row)
  | 0, _, _, _ => .error .fuel
  | _ + 1, [], _, entries => .ok (entries, [])
  | n + 1, row :: rest, indent, entries =>
    if row.1 = indent ∧ ¬ isItem row.2 then do
      let (pair, rest) ← parsePair N n row.2 rest indent
      parsePairs N n rest indent (put entries pair)
    else .ok (entries, row :: rest)

/-- `_parse_pair`. -/
def parsePair (N : Numbers F) : Nat → Str → List Row → Nat →
    Except Fault ((Str × Val F) × List Row)
  | 0, _, _, _ => .error .fuel
  | n + 1, body, rest, indent =>
    if ¬ looksLikeKey body then .error (.okf (.keyless body))
    else
      let (key, value) := partitionColon body
      if strip isSpace value ≠ [] then
        .ok ((strip isSpace key, .scalar (unscalar N (strip isSpace value))), rest)
      else match rest with
        | [] => .ok ((strip isSpace key, .scalar .null), [])
        | next :: rest =>
          if indent < next.1 then do
            let (child, rest) ← parseBlock N n (next :: rest) next.1
            .ok ((strip isSpace key, child), rest)
          else .ok ((strip isSpace key, .scalar .null), next :: rest)

end

/-- The row of a line; blank lines and comments have none. -/
def rowOf (line : Str) : Option Row :=
  if strip isSpace line = [] ∨ (line.dropWhile isSpace).head? = some '#' then none
  else some (line.length - (line.dropWhile (· = ' ')).length, strip isSpace line)

/-- Fuel for every call that a row can cause. -/
def fuelFor (rows : List Row) : Nat := 3 * rows.length + 2

def parseFrontmatter (N : Numbers F) (raw : Str) : Except Fault (List (Str × Val F)) := do
  let rows := (allLines '\n' raw).filterMap rowOf
  let (value, rest) ← parseBlock N (fuelFor rows) rows ((rows.head?.map Prod.fst).getD 0)
  if rest ≠ [] then .error (.okf .indentation)
  else match value with
    | .dict entries => .ok entries
    | _ => .ok []

/-! ### The reader ends -/

/-- It did not run out of fuel, and no row is left twice. -/
def Ended {α : Type} (left : Nat) : Except Fault (α × List Row) → Prop
  | .error f => f ≠ .fuel
  | .ok (_, rest) => rest.length ≤ left

theorem Ended.mono {α : Type} {m n : Nat} (h : m ≤ n) {x : Except Fault (α × List Row)}
    (hx : Ended m x) : Ended n x := by
  cases x with
  | error f => exact hx
  | ok r => exact le_trans hx h

theorem Ended.bind {α β : Type} {m n : Nat} {x : Except Fault (α × List Row)}
    {f : α × List Row → Except Fault (β × List Row)} (hx : Ended m x)
    (hf : ∀ v rest, rest.length ≤ m → Ended n (f (v, rest))) : Ended n (x >>= f) := by
  cases x with
  | error f => exact hx
  | ok r => exact hf r.1 r.2 hx

theorem parse_ended (N : Numbers F) (n : Nat) :
    (∀ rows indent, 3 * rows.length + 2 ≤ n → Ended rows.length (parseBlock N n rows indent)) ∧
    (∀ rows indent, 3 * rows.length + 1 ≤ n → Ended rows.length (parseItems N n rows indent)) ∧
    (∀ rows indent entries, 3 * rows.length + 1 ≤ n →
      Ended rows.length (parsePairs N n rows indent entries)) ∧
    ∀ body rest indent, 3 * rest.length + 3 ≤ n →
      Ended rest.length (parsePair N n body rest indent) := by
  induction n with
  | zero => exact ⟨by omega, by omega, by omega, by omega⟩
  | succ n ih =>
    obtain ⟨hblock, hitems, hpairs, hpair⟩ := ih
    refine ⟨fun rows indent h => ?_, fun rows indent h => ?_, fun rows indent entries h => ?_,
      fun body rest indent h => ?_⟩
    · cases rows with
      | nil => simp [parseBlock, Ended]
      | cons row rest =>
        rw [parseBlock]
        split
        · exact (hitems _ _ (by omega)).bind (fun _ _ h => h)
        · exact (hpairs _ _ _ (by omega)).bind (fun _ _ h => h)
    · cases rows with
      | nil => simp [parseItems, Ended]
      | cons row rest =>
        simp only [List.length_cons] at h
        rw [parseItems]
        split
        · have hnext : ∀ (f : List (Val F) → List (Val F)) (rest' : List Row),
              rest'.length ≤ rest.length → Ended (row :: rest).length
                (do let (items, rest) ← parseItems N n rest' indent
                    .ok (f items, rest)) := by
            intro f rest' hrest
            exact (hitems _ _ (by omega)).bind (fun _ _ h => by simp [Ended]; omega)
          dsimp only
          split
          · have hmore : ∀ (key : Str) (first : Val F) (rest' : List Row),
                rest'.length ≤ rest.length → Ended (row :: rest).length
                  (do let (entry, rest) ← parsePairs N n rest' (row.1 + 2) [(key, first)]
                      let (items, rest) ← parseItems N n rest indent
                      .ok (.dict entry :: items, rest)) := by
              intro key first rest' hrest
              apply (hpairs _ _ _ (by omega)).bind
              intro entry rest'' hrest'
              exact hnext _ _ (hrest'.trans hrest)
            split
            · exact (hblock _ _ (by omega)).bind (fun first rest' h => hmore _ _ _ h)
            · exact hmore _ _ _ le_rfl
          · exact hnext _ _ le_rfl
        · exact le_refl _
    · cases rows with
      | nil => simp [parsePairs, Ended]
      | cons row rest =>
        simp only [List.length_cons] at h
        rw [parsePairs]
        split
        · apply (hpair _ _ _ (by omega)).bind
          intro pair rest' hrest
          exact (hpairs _ _ _ (by omega)).mono (by simp; omega)
        · exact le_refl _
    · rw [parsePair]
      split
      · simp [Ended]
      dsimp only
      split
      · exact le_refl _
      · cases rest with
        | nil => simp [Ended]
        | cons next rest =>
          simp only [List.length_cons] at h
          dsimp only
          split
          · exact (hblock _ _ (by simp; omega)).bind (fun _ _ h => h)
          · exact le_refl _

/-- The fuel is enough for every frontmatter. -/
theorem frontmatter_ends (N : Numbers F) (raw : Str) :
    parseFrontmatter N raw ≠ .error .fuel := by
  intro h
  have hended := (parse_ended N (fuelFor ((allLines '\n' raw).filterMap rowOf))).1
    ((allLines '\n' raw).filterMap rowOf)
    ((((allLines '\n' raw).filterMap rowOf).head?.map Prod.fst).getD 0) le_rfl
  simp only [parseFrontmatter] at h
  cases hparse : parseBlock N (fuelFor ((allLines '\n' raw).filterMap rowOf))
      ((allLines '\n' raw).filterMap rowOf)
      ((((allLines '\n' raw).filterMap rowOf).head?.map Prod.fst).getD 0) with
  | error f =>
    rw [hparse] at h hended
    exact hended (Except.error.inj h)
  | ok r =>
    obtain ⟨value, rest⟩ := r
    rw [hparse] at h
    by_cases hrest : rest = []
    · subst hrest
      cases value <;> cases h
    · simp [bind, Except.bind, hrest] at h

end Solvio.Knowledge
