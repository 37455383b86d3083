import Solvio.Lib.Pattern
import Solvio.Lib.PyString
import Solvio.Proactive.Fingerprint
import Solvio.Proactive.Schedule

namespace Solvio.Capabilities.Background
open Solvio.Lib Solvio.Proactive

/-- The tables of the interpreter for texts: besides letters, the value of a
decimal digit, and the digits that are no decimals. -/
structure Script extends Letters where
  decimal : Char → Option Nat
  otherDigit : Char → Bool

/-- What is raised. -/
inductive Raised where
  | declined (reason : String)
  | scheduleError
  | overflowError
  | valueError
  | credentialRefused
deriving DecidableEq

/-! ### Numbers -/

/-- `_ZAHLWORT`. -/
def numeral : String → Option Nat
  | "eine" | "einer" | "ein" => some 1
  | "zwei" => some 2
  | "drei" => some 3
  | "vier" => some 4
  | "fuenf" | "fünf" => some 5
  | "sechs" => some 6
  | "sieben" => some 7
  | "acht" => some 8
  | "neun" => some 9
  | "zehn" => some 10
  | "elf" => some 11
  | "zwoelf" | "zwölf" => some 12
  | "fuenfzehn" | "fünfzehn" => some 15
  | "zwanzig" => some 20
  | "dreissig" | "dreißig" => some 30
  | "fuenfundvierzig" | "fünfundvierzig" => some 45
  | "sechzig" => some 60
  | "halbe" | "einhalb" => some 0
  | _ => none

/-- How many digits `int` takes. -/
def maxStrDigits : Nat := 4300

/-- The first whole number that is no float. -/
@[irreducible] def floatLimit : Nat := 2 ^ 1024 - 2 ^ 970

theorem float_limit_large : 300 < floatLimit := by
  unfold floatLimit
  decide +kernel

variable (R : Script)

/-- `str.isdigit`. -/
def isDigits (s : String) : Bool :=
  s ≠ "" && s.toList.all (fun c => (R.decimal c).isSome || R.otherDigit c)

/-- `int`, of a text of digits. -/
def int (s : String) : Except Raised Nat :=
  if s.toList.all (fun c => (R.decimal c).isSome) ∧ s.length ≤ maxStrDigits then
    .ok (s.toList.foldl (fun n c => n * 10 + (R.decimal c).getD 0) 0)
  else .error .valueError

/-- `_zahl`. -/
def zahl (text : String) : Except Raised (Option Nat) :=
  let word := R.lower (stripped text)
  if isDigits R word then (int R word).map some else .ok (numeral word)

/-! ### Phrases -/

open Pattern in
/-- `(\d+|[a-zäöüß]+)`. -/
def number : Pattern (List Char) :=
  orElse (oneOrMore (fun c => (R.decimal c).isSome))
    (oneOrMore (fun c => ('a' ≤ c && c ≤ 'z') || c = 'ä' || c = 'ö' || c = 'ü' || c = 'ß'))

open Pattern in
/-- `in\s+(..)\s*(?:minute|minuten|min)\b`, and the like. -/
def span (lead : String) (units : List String) (low : String) : Option String :=
  search (do
    word lead.toList
    let _ ← oneOrMore isSpace
    let n ← number R
    let _ ← many isSpace
    units.foldr (fun unit p => orElse (word unit.toList) p) (fun _ => [])
    boundary R.isWord
    done (String.ofList n)) low

def minuteUnits : List String := ["minute", "minuten", "min"]

def hourUnits : List String := ["stunde", "stunden", "h"]

open Pattern in
/-- `(\d{1,2})[:.](\d{2})`. -/
def clock (low : String) : Option (Nat × Nat) :=
  let digit : Pattern Nat := do
    let c ← one (fun c => (R.decimal c).isSome)
    done ((R.decimal c).getD 0)
  let two : Pattern Nat := do
    let a ← digit
    let b ← digit
    done (a * 10 + b)
  search (do
    let hour ← orElse two digit
    let _ ← one (fun c => c = ':' || c = '.')
    let minute ← two
    done (hour, minute)) low

/-- `_UHRZEIT`. -/
def spokenClocks : List (String × Nat × Nat) :=
  [("halb acht", 7, 30), ("halb sieben", 6, 30), ("halb neun", 8, 30), ("halb zehn", 9, 30),
    ("viertel nach sieben", 7, 15), ("sieben uhr dreissig", 7, 30), ("sieben uhr dreißig", 7, 30),
    ("acht uhr", 8, 0), ("sieben uhr", 7, 0), ("neun uhr", 9, 0), ("sechs uhr", 6, 0),
    ("zehn uhr", 10, 0)]

def spokenClock (low : String) : Option (Nat × Nat) :=
  (spokenClocks.find? (fun p => within p.1 low)).map Prod.snd

def dayNames : List (String × Nat) :=
  [("montag", 0), ("dienstag", 1), ("mittwoch", 2), ("donnerstag", 3), ("freitag", 4),
    ("samstag", 5), ("sonntag", 6)]

def daysIn (low : String) : List Nat := (dayNames.filter (fun p => within p.1 low)).map Prod.snd

def dailyWords : List String :=
  ["taeglich", "täglich", "jeden tag", "jeden morgen", "morgens", "jeden abend"]

/-! ### `parse_when` -/

/-- A number that a phrase names and that is not zero. -/
def quantity : Option String → Except Raised (Option Nat)
  | none => .ok none
  | some text => (zahl R text).map (fun n => n.filter (· ≠ 0))

/-- `in_seconds`, of which the sum is a float. -/
def inSeconds (seconds : Nat) (now : Rat) : Except Raised Schedule :=
  if floatLimit ≤ seconds then .error .overflowError
  else match Schedule.make (Proactive.inSeconds seconds now) with
    | some plan => .ok plan
    | none => .error .scheduleError

def make (r : Rule) : Except Raised Schedule :=
  match Schedule.make r with
  | some plan => .ok plan
  | none => .error .scheduleError

def clamped (seconds : Nat) : Except Raised (Option Schedule × String) := do
  let wanted := clampInterval seconds
  let plan ← make (every wanted.1)
  .ok (some plan, wanted.2)

def assumedDaily : String := "Ich habe das als taeglich verstanden."

/-- The forms with a clock, which is half past seven if nothing names it. -/
def atClock (low : String) : Except Raised (Option Schedule × String) := do
  let named := clock R low
  let spoken := spokenClock low
  let (hour, minute) := (named.or spoken).getD (7, 30)
  if daysIn low ≠ [] then
    let plan ← make (weekly (daysIn low) hour minute)
    .ok (some plan, "")
  else if dailyWords.any (fun w => within w low) then
    let plan ← make (daily hour minute)
    .ok (some plan, "")
  else if named.isSome || spoken.isSome then
    let plan ← make (daily hour minute)
    .ok (some plan, assumedDaily)
  else .ok (none, "")

def parseWhen (text : String) (now : Rat) : Except Raised (Option Schedule × String) := do
  let low := R.lower (stripped text)
  if low = "" then return (none, "")
  if let some minutes ← quantity R (span R "in" minuteUnits low) then
    return (some (← inSeconds (minutes * 60) now), "")
  if let some hours ← quantity R (span R "in" hourUnits low) then
    return (some (← inSeconds (hours * 3600) now), "")
  if let some minutes ← quantity R (span R "alle" minuteUnits low) then
    return (← clamped (minutes * 60))
  if let some hours ← quantity R (span R "alle" hourUnits low) then
    return (← clamped (hours * 3600))
  atClock R low

end Solvio.Capabilities.Background
