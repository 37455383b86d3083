import Solvio.Lib.Json
import Mathlib.Data.List.Infix

namespace Solvio.Lib

/-- A Python float: how it is written, and what `int` makes of it, of which
`none` is that it raises. -/
structure PyFloat where
  text : String
  whole : Option Int
deriving DecidableEq

inductive Scalar where
  | none
  | bool (b : Bool)
  | int (n : Int)
  | float (f : PyFloat)
  | str (s : String)
deriving DecidableEq

/-- What a JSON document is in Python. A dictionary keeps its order. -/
inductive Data where
  | scalar (v : Scalar)
  | list (xs : List Data)
  | dict (kvs : List (String × Data))

/-- `needle in haystack`. -/
def within (needle haystack : String) : Bool :=
  decide (List.IsInfix needle.toList haystack.toList)

def endsWith (s suffix : String) : Bool := suffix.toList.isSuffixOf s.toList

/-- `s[:n]`. -/
def prefixOf (s : String) (n : Nat) : String := String.ofList (s.toList.take n)

/-- `f"{n:02d}"`. -/
def twoDigits (n : Int) : String :=
  let s := String.ofList (Json.renderInt n)
  if s.length < 2 then "0" ++ s else s

theorem two_digits_length : ∀ n : Fin 60, (twoDigits n.val).length = 2 := by
  decide

/-- The number is read off its two digits. -/
theorem two_digits_read : ∀ n : Fin 60, Json.natOfDigits (twoDigits n.val).toList = n.val := by
  decide

theorem two_digits_same (m n : Fin 60) (h : twoDigits m.val = twoDigits n.val) : m = n := by
  have hm := two_digits_read m
  rw [h, two_digits_read n] at hm
  exact Fin.ext hm.symm

namespace Scalar

/-- `str`. -/
def text : Scalar → String
  | none => "None"
  | bool b => if b then "True" else "False"
  | int n => String.ofList (Json.renderInt n)
  | float f => f.text
  | str s => s

/-- `bool`. -/
def truthy : Scalar → Bool
  | none => false
  | bool b => b
  | int n => n ≠ 0
  | float f => f.whole ≠ some 0 || f.text.toList.any (fun c => c ≠ '0' && c ≠ '.' && c ≠ '-')
  | str s => s ≠ ""

end Scalar

namespace Data

def string (s : String) : Data := .scalar (.str s)

/-- `dict.get`. -/
def get? : Data → String → Option Data
  | dict kvs, k => (kvs.find? (fun p => p.1 = k)).map Prod.snd
  | _, _ => none

/-- `bool`. -/
def truthy : Data → Bool
  | scalar v => v.truthy
  | list xs => !xs.isEmpty
  | dict kvs => !kvs.isEmpty

/-- `len`, of which `none` is that it raises. -/
def length? : Data → Option Nat
  | scalar (.str s) => some s.length
  | scalar _ => none
  | list xs => some xs.length
  | dict kvs => some kvs.length

/-! ### `json.dumps(.., ensure_ascii=False)` -/

def quoteChar (c : Char) : List Char :=
  if c = '"' then ['\\', '"'] else if c = '\\' then ['\\', '\\']
  else if c = '\n' then ['\\', 'n'] else if c = '\r' then ['\\', 'r']
  else if c = '\t' then ['\\', 't'] else if c.toNat = 8 then ['\\', 'b']
  else if c.toNat = 12 then ['\\', 'f']
  else if c.toNat < 32 then
    ['\\', 'u', '0', '0', hexDigit (c.toNat / 16), hexDigit (c.toNat % 16)]
  else [c]

def quoted (s : String) : List Char := '"' :: (s.toList.flatMap quoteChar ++ ['"'])

/-- A float that is no number is written otherwise than `str` writes it. -/
def jsonFloat (f : PyFloat) : String :=
  if f.text = "nan" then "NaN" else if f.text = "inf" then "Infinity"
  else if f.text = "-inf" then "-Infinity" else f.text

def dumpScalar : Scalar → List Char
  | .none => "null".toList
  | .bool b => if b then "true".toList else "false".toList
  | .int n => Json.renderInt n
  | .float f => (jsonFloat f).toList
  | .str s => quoted s

mutual
def dumpChars : Data → List Char
  | scalar v => dumpScalar v
  | list xs => '[' :: (dumpElements xs ++ [']'])
  | dict kvs => '\x7b' :: (dumpMembers kvs ++ ['\x7d'])

def dumpElements : List Data → List Char
  | [] => []
  | [x] => dumpChars x
  | x :: xs => dumpChars x ++ ',' :: ' ' :: dumpElements xs

def dumpMembers : List (String × Data) → List Char
  | [] => []
  | [(k, v)] => quoted k ++ ':' :: ' ' :: dumpChars v
  | (k, v) :: kvs => quoted k ++ ':' :: ' ' :: (dumpChars v ++ ',' :: ' ' :: dumpMembers kvs)
end

def dumps (d : Data) : String := String.ofList d.dumpChars

/-! The JSON document that is written. -/

def jsonScalar : Scalar → Json
  | .none => .null
  | .bool b => .bool b
  | .int n => .int n
  | .float f => .float (jsonFloat f).toList
  | .str s => .string s

mutual
def json : Data → Json
  | scalar v => jsonScalar v
  | list xs => .arr (jsonElements xs)
  | dict kvs => .obj (jsonMembers kvs)

def jsonElements : List Data → List Json
  | [] => []
  | x :: xs => json x :: jsonElements xs

def jsonMembers : List (String × Data) → List (Text × Json)
  | [] => []
  | (k, v) :: kvs => Json.field k (json v) :: jsonMembers kvs
end

/-! `sort_keys`. -/

def insertMember (p : String × Data) : List (String × Data) → List (String × Data)
  | [] => [p]
  | q :: qs => if q.1 < p.1 then q :: insertMember p qs else p :: q :: qs

mutual
def sortKeys : Data → Data
  | list xs => list (sortElements xs)
  | dict kvs => dict (sortMembers kvs)
  | d => d

def sortElements : List Data → List Data
  | [] => []
  | x :: xs => sortKeys x :: sortElements xs

def sortMembers : List (String × Data) → List (String × Data)
  | [] => []
  | (k, v) :: kvs => insertMember (k, sortKeys v) (sortMembers kvs)
end

end Data

end Solvio.Lib
