import Mathlib.Data.List.Basic

namespace Solvio.Lib

/-- Where a pattern is tried: the character before, and what is left. -/
structure Cursor where
  before : Option Char
  rest : List Char

/-- A pattern with backtracking: all the ways to match from here, the preferred
one first. -/
abbrev Pattern (α : Type) : Type := Cursor → List (α × Cursor)

namespace Pattern

variable {α β : Type}

def done (a : α) : Pattern α := fun c => [(a, c)]

/-- One after the other: the first pattern is tried in another way only if the
second one fails in all its ways. -/
def andThen (p : Pattern α) (f : α → Pattern β) : Pattern β :=
  fun c => (p c).flatMap (fun m => f m.1 m.2)

instance : Monad Pattern where
  pure := done
  bind := andThen

/-- `p|q`. -/
def orElse (p q : Pattern α) : Pattern α := fun c => p c ++ q c

/-- One character of a class. -/
def one (p : Char → Bool) : Pattern Char := fun c =>
  match c.rest with
  | [] => []
  | x :: xs => if p x then [(x, ⟨some x, xs⟩)] else []

/-- A greedy `*` over a class: the longest way first. -/
def manyFrom (p : Char → Bool) : Option Char → List Char → List (List Char × Cursor)
  | before, [] => [([], ⟨before, []⟩)]
  | before, x :: xs =>
    if p x then (manyFrom p (some x) xs).map (fun m => (x :: m.1, m.2)) ++ [([], ⟨before, x :: xs⟩)]
    else [([], ⟨before, x :: xs⟩)]

def many (p : Char → Bool) : Pattern (List Char) := fun c => manyFrom p c.before c.rest

/-- A greedy `+`. -/
def oneOrMore (p : Char → Bool) : Pattern (List Char) := do
  let x ← one p
  let xs ← many p
  done (x :: xs)

/-- A text as it is. -/
def word (w : List Char) : Pattern Unit := fun c =>
  if w <+: c.rest then [((), ⟨w.getLast?.or c.before, c.rest.drop w.length⟩)] else []

/-- `\b`, between a character of a word and another. -/
def boundary (isWord : Char → Bool) : Pattern Unit := fun c =>
  if c.before.any isWord ≠ c.rest.head?.any isWord then [((), c)] else []

/-- `re.search`: the preferred way at the first place where there is one. -/
def searchFrom (p : Pattern α) : Option Char → List Char → Option α
  | before, [] => (p ⟨before, []⟩).head?.map Prod.fst
  | before, x :: xs => match p ⟨before, x :: xs⟩ with
    | m :: _ => some m.1
    | [] => searchFrom p (some x) xs

def search (p : Pattern α) (s : String) : Option α := searchFrom p none s.toList

end Pattern

end Solvio.Lib
