import Solvio.Lib.PyData
import Solvio.Lib.PyString
import Solvio.Lib.Sha256
import Mathlib.Data.List.Sort

namespace Solvio.Proactive
open Solvio.Lib

/-- The tables behind `str.lower` and `\w`. -/
structure Letters where
  lower : String → String
  isWord : Char → Bool

namespace Fingerprint

/-- `IDENTIFYING`. -/
def identifyingNames : List String :=
  ["id", "ids", "event_id", "message_id", "thread_id", "uid", "entity_id", "kennung", "start",
    "ende", "end", "beginn", "state", "zustand", "status", "titel", "title", "betreff", "subject",
    "von", "from", "absender", "datum", "date", "wert", "value", "helligkeit", "brightness"]

/-- `VOLATILE`. -/
def volatileNames : List String :=
  ["abgerufen", "fetched_at", "timestamp", "zeitstempel", "generated", "dauer", "elapsed",
    "call_id", "run_id", "task_id", "content_trust", "session", "cursor", "next_page", "etag"]

def maxParts : Nat := 200

def isVolatile (low : String) : Bool := volatileNames.any (fun v => within v low)

def isIdentifying (low : String) : Bool :=
  identifyingNames.any (fun name => low = name || endsWith low ("_" ++ name))

/-- `_scalar`. A float that is no number raises. -/
def scalarText : Scalar → Option String
  | .float f => f.whole.map (fun n => (Scalar.int n).text)
  | v => some (prefixOf v.text 200)

variable (L : Letters)

/-! `_identifiers`, with the first hundred entries of a list. -/

mutual
def identifiers (path : String) : Data → Option (List String)
  | .scalar _ => some []
  | .list xs => elementIdentifiers path 100 xs
  | .dict kvs => memberIdentifiers path kvs

def elementIdentifiers (path : String) : Nat → List Data → Option (List String)
  | n + 1, x :: xs => do
    let found ← identifiers path x
    let rest ← elementIdentifiers path n xs
    some (found ++ rest)
  | _, _ => some []

def memberIdentifiers (path : String) : List (String × Data) → Option (List String)
  | [] => some []
  | (key, value) :: kvs => do
    let low := L.lower key
    let found ← if isVolatile low then some [] else match value with
      | .scalar v => if isIdentifying low then
          (scalarText v).map (fun s => [path ++ low ++ "=" ++ s]) else some []
      | value => identifiers (path ++ low ++ ".") value
    let rest ← memberIdentifiers path kvs
    some (found ++ rest)
end

/-- `sorted(set(..))[:MAX_PARTS]`. -/
def parts (found : List String) : List String :=
  (found.dedup.insertionSort (· ≤ ·)).take maxParts

/-! `_text_digest`. -/

def isPunctuation (c : Char) : Bool :=
  !(L.isWord c || c = 'ä' || c = 'ö' || c = 'ü' || c = 'ß' || c = ' ')

/-- A run of characters becomes one blank. -/
def squeeze (p : Char → Bool) : List Char → List Char
  | [] => []
  | c :: cs =>
    if p c then match cs with
      | d :: _ => if p d then squeeze p cs else ' ' :: squeeze p cs
      | [] => [' ']
    else c :: squeeze p cs

def normalized (data : Data) : String :=
  let text := match data with
    | .scalar (.str s) => s
    | data => data.sortKeys.dumps
  stripped (String.ofList (squeeze isSpace (squeeze (isPunctuation L) (L.lower text).toList)))

/-- What is hashed: the parts, or else the text. -/
inductive Material where
  | parts (payload : String)
  | text (payload : String)
deriving DecidableEq

def material (data : Data) : Option Material := do
  let found ← identifiers L "" data
  some (if parts found = [] then .text (normalized L data)
    else .parts (String.intercalate "\n" (parts found)))

/-- The first half of the hash of a text. -/
def digest (s : String) : String := prefixOf (toHex (sha256 (encodeUtf8 s))) 32

def Material.payload : Material → String
  | .parts payload => payload
  | .text payload => payload

def Material.print : Material → String
  | .parts payload => "id:" ++ digest payload
  | .text payload => "txt:" ++ digest payload

/-- `of`. -/
def of (data : Data) : Option String := (material L data).map Material.print

/-- `changed`. -/
def changed (previous current : String) : Bool := previous = "" || previous ≠ current

end Fingerprint

end Solvio.Proactive
