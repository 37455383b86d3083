import Solvio.Lib.Codec
import Mathlib.Data.List.Lex
import Mathlib.Data.List.Sort
import Mathlib.Data.Nat.Basic

namespace Solvio.Lib

/-- Text as a list of code points. An escape may name a lone surrogate, so
this is wider than `String`. -/
abbrev Text := List Nat

def Text.ofString (s : String) : Text := s.toList.map Char.toNat

theorem text_injective {s t : String} (h : Text.ofString s = Text.ofString t) : s = t := by
  have hinj : Function.Injective Char.toNat := fun a b h => Char.toNat_inj.mp h
  exact String.toList_injective (List.map_injective_iff.mpr hinj h)

/-- A parsed document. An object keeps every pair in the order of the text, so
that duplicate keys stay visible. -/
inductive Json where
  | null
  | bool (b : Bool)
  | int (n : Int)
  | float (lexeme : List Char)
  | str (s : Text)
  | arr (xs : List Json)
  | obj (kvs : List (Text × Json))

namespace Json

def string (s : String) : Json := .str (Text.ofString s)

def field (k : String) (v : Json) : Text × Json := (Text.ofString k, v)

/-- A dictionary built from the pairs keeps the last value of a key. -/
def get? (v : Json) (k : String) : Option Json :=
  match v with
  | .obj kvs => (kvs.reverse.find? (fun p => p.1 == Text.ofString k)).map Prod.snd
  | _ => none

/-! ### Reading -/

def skipWs (cs : List Char) : List Char :=
  cs.dropWhile (fun c => c == ' ' || c == '\t' || c == '\n' || c == '\r')

def escape (c : Char) : Option Nat :=
  if c = '"' then some 34 else if c = '\\' then some 92 else if c = '/' then some 47
  else if c = 'b' then some 8 else if c = 'f' then some 12 else if c = 'n' then some 10
  else if c = 'r' then some 13 else if c = 't' then some 9 else none

def hex4 (a b c d : Char) : Option Nat := do
  let a ← hexValue a
  let b ← hexValue b
  let c ← hexValue c
  let d ← hexValue d
  some (((a * 16 + b) * 16 + c) * 16 + d)

/-- The characters after an opening quote, up to the closing one. -/
def stringBody : List Char → Option (Text × List Char)
  | [] => none
  | c :: rest =>
    if c = '"' then some ([], rest)
    else if c = '\\' then
      match rest with
      | 'u' :: a :: b :: c :: d :: rest => do
        let n ← hex4 a b c d
        let (s, rest) ← stringBody rest
        some (n :: s, rest)
      | e :: rest => do
        let n ← escape e
        let (s, rest) ← stringBody rest
        some (n :: s, rest)
      | [] => none
    else if c.toNat < 32 then none
    else do
      let (s, rest) ← stringBody rest
      some (c.toNat :: s, rest)

/-- Two adjacent surrogate escapes denote one code point. -/
def joinSurrogates : Text → Text
  | hi :: lo :: rest =>
    if (0xD800 ≤ hi ∧ hi ≤ 0xDBFF) ∧ (0xDC00 ≤ lo ∧ lo ≤ 0xDFFF) then
      (0x10000 + (hi - 0xD800) * 0x400 + (lo - 0xDC00)) :: joinSurrogates rest
    else hi :: joinSurrogates (lo :: rest)
  | s => s

def natOfDigits (ds : List Char) : Nat := ds.foldl (fun n c => n * 10 + (c.toNat - 48)) 0

def isDigit (c : Char) : Bool := 48 ≤ c.toNat && c.toNat ≤ 57

def digits (cs : List Char) : List Char × List Char := cs.span isDigit

/-- An optional part of a number is taken only when it has a digit. -/
def fraction (cs : List Char) : List Char × List Char :=
  match cs with
  | '.' :: r =>
    let (ds, rest) := digits r
    if ds = [] then ([], cs) else ('.' :: ds, rest)
  | _ => ([], cs)

def exponent (cs : List Char) : List Char × List Char :=
  match cs with
  | e :: r =>
    if e = 'e' ∨ e = 'E' then
      let (sign, r) := match r with
        | '+' :: r' => (['+'], r')
        | '-' :: r' => (['-'], r')
        | _ => ([], r)
      let (ds, rest) := digits r
      if ds = [] then ([], cs) else (e :: sign ++ ds, rest)
    else ([], cs)
  | [] => ([], cs)

/-- What follows the sign of a number. -/
def unsigned (neg : Bool) (cs : List Char) : Option (Json × List Char) :=
  match cs with
  | [] => none
  | c :: r =>
    if isDigit c then
      let (ds, r) := if c = '0' then (['0'], r) else ((digits (c :: r)).1, (digits (c :: r)).2)
      let (frac, r) := fraction r
      let (exp, r) := exponent r
      if frac = [] ∧ exp = [] then
        some (.int (if neg then -(natOfDigits ds : Int) else natOfDigits ds), r)
      else some (.float ((if neg then ['-'] else []) ++ ds ++ frac ++ exp), r)
    else none

def literal (name : List Char) (v : Json) (cs : List Char) : Option (Json × List Char) :=
  if name.isPrefixOf cs then some (v, cs.drop name.length) else none

def number (cs : List Char) : Option (Json × List Char) :=
  match cs with
  | '-' :: r =>
    if r.head? = some 'I' then
      literal "Infinity".toList (.float "-Infinity".toList) r
    else unsigned true r
  | _ => unsigned false cs

mutual

/-- One value at the head of the text. Every call below it has less fuel. -/
def value : Nat → List Char → Option (Json × List Char)
  | 0, _ => none
  | _, [] => none
  | n + 1, c :: r =>
    if c = '"' then do
      let (s, rest) ← stringBody r
      some (.str (joinSurrogates s), rest)
    else if c = '{' then
      if (skipWs r).head? = some '}' then some (.obj [], (skipWs r).tail)
      else do
        let (kvs, rest) ← members n (skipWs r)
        some (.obj kvs, rest)
    else if c = '[' then
      if (skipWs r).head? = some ']' then some (.arr [], (skipWs r).tail)
      else do
        let (xs, rest) ← elements n (skipWs r)
        some (.arr xs, rest)
    else if c = 'n' then literal "ull".toList .null r
    else if c = 't' then literal "rue".toList (.bool true) r
    else if c = 'f' then literal "alse".toList (.bool false) r
    else if c = 'N' then literal "aN".toList (.float "NaN".toList) r
    else if c = 'I' then literal "nfinity".toList (.float "Infinity".toList) r
    else number (c :: r)

def elements : Nat → List Char → Option (List Json × List Char)
  | 0, _ => none
  | n + 1, cs => do
    let (v, rest) ← value n cs
    match skipWs rest with
    | ',' :: more => do
      let (vs, rest) ← elements n (skipWs more)
      some (v :: vs, rest)
    | ']' :: rest => some ([v], rest)
    | _ => none

def members : Nat → List Char → Option (List (Text × Json) × List Char)
  | 0, _ => none
  | n + 1, cs =>
    match cs with
    | '"' :: r => do
      let (k, rest) ← stringBody r
      match skipWs rest with
      | ':' :: rest => do
        let (v, rest) ← value n (skipWs rest)
        match skipWs rest with
        | ',' :: more => do
          let (kvs, rest) ← members n (skipWs more)
          some ((joinSurrogates k, v) :: kvs, rest)
        | '}' :: rest => some ([(joinSurrogates k, v)], rest)
        | _ => none
      | _ => none
    | _ => none

end

def loads (cs : List Char) : Option Json :=
  if cs.head? = some '\uFEFF' then none
  else do
    let (v, rest) ← value (cs.length + 1) (skipWs cs)
    if skipWs rest = [] then some v else none

mutual

/-- No object of the document names a key twice. -/
def distinctKeys : Json → Bool
  | .arr xs => distinctElements xs
  | .obj kvs => decide (kvs.map Prod.fst).Nodup && distinctMembers kvs
  | _ => true

def distinctElements : List Json → Bool
  | [] => true
  | x :: xs => distinctKeys x && distinctElements xs

def distinctMembers : List (Text × Json) → Bool
  | [] => true
  | (_, v) :: kvs => distinctKeys v && distinctMembers kvs

end

/-! ### Writing -/

def escapeChar (n : Nat) : List Char :=
  if n = 34 then ['\\', '"'] else if n = 92 then ['\\', '\\'] else if n = 10 then ['\\', 'n']
  else if n = 13 then ['\\', 'r'] else if n = 9 then ['\\', 't'] else if n = 12 then ['\\', 'f']
  else if n = 8 then ['\\', 'b']
  else if n < 32 then ['\\', 'u', '0', '0', hexDigit (n / 16), hexDigit (n % 16)]
  else [Char.ofNat n]

def quote (s : Text) : List Char := '"' :: s.flatMap escapeChar ++ ['"']

/-- Least significant digit first; the fuel only has to exceed the number. -/
def decimalRev : Nat → Nat → List Char
  | 0, _ => []
  | fuel + 1, n =>
    Char.ofNat (48 + n % 10) :: if n < 10 then [] else decimalRev fuel (n / 10)

def decimal (n : Nat) : List Char := (decimalRev (n + 1) n).reverse

def renderInt : Int → List Char
  | .ofNat n => decimal n
  | .negSucc n => '-' :: decimal (n + 1)

mutual

/-- Compact text, pairs in the order given, non-ASCII characters as they are. -/
def render : Json → List Char
  | .null => "null".toList
  | .bool true => "true".toList
  | .bool false => "false".toList
  | .int n => renderInt n
  | .float lexeme => lexeme
  | .str s => quote s
  | .arr [] => ['[', ']']
  | .arr (x :: xs) => '[' :: render x ++ renderElements xs
  | .obj [] => ['{', '}']
  | .obj ((k, v) :: kvs) => '{' :: quote k ++ ':' :: render v ++ renderMembers kvs

def renderElements : List Json → List Char
  | [] => [']']
  | x :: xs => ',' :: render x ++ renderElements xs

def renderMembers : List (Text × Json) → List Char
  | [] => ['}']
  | (k, v) :: kvs => ',' :: quote k ++ ':' :: render v ++ renderMembers kvs

end

mutual

/-- Every object's pairs in key order. -/
def sortKeys : Json → Json
  | .arr xs => .arr (sortElements xs)
  | .obj kvs => .obj ((sortMembers kvs).insertionSort (fun a b => a.1 ≤ b.1))
  | v => v

def sortElements : List Json → List Json
  | [] => []
  | x :: xs => sortKeys x :: sortElements xs

def sortMembers : List (Text × Json) → List (Text × Json)
  | [] => []
  | (k, v) :: kvs => (k, sortKeys v) :: sortMembers kvs

end

end Json

end Solvio.Lib
