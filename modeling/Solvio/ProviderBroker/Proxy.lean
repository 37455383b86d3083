import Mathlib.Data.List.Infix
import Solvio.Lib.Json
import Solvio.Lib.PyString

namespace Solvio.ProviderBroker
open Solvio.Lib

def forwardedPaths : List String := ["/v1/responses", "/v1/chat/completions"]

def miniModel : String := "gpt-5.4-mini"
def largeModel : String := "gpt-5.4"

/-- `MODEL_CONTEXT_LENGTHS`. -/
def modelContextLengths : List (String × Nat) := [(miniModel, 400000), (largeModel, 1050000)]

def maxModelContextLength : Nat := (modelContextLengths.map Prod.snd).foldl max 0

def contextLength (model : String) : Nat :=
  (modelContextLengths.lookup model).getD maxModelContextLength

def maxBodyBytes : Nat := 8 * 1024 * 1024
def maxDocumentBodyBytes : Nat := 27 * 1024 * 1024
def maxTotalBufferedBytes : Nat := 6 * maxBodyBytes
def defaultOutputEstimate : Nat := 4096
def bytesPerToken : Nat := 4

/-- `BodyRejected`, by its reason. -/
inductive BodyRejected where
  | modelNotAllowed
  | providerToolNotAllowed
  | inputShapeNotAllowed
  | bodyTooLarge
deriving DecidableEq

namespace BodyRejected

def reason : BodyRejected → String
  | modelNotAllowed => "model_not_allowed"
  | providerToolNotAllowed => "provider_tool_not_allowed"
  | inputShapeNotAllowed => "input_shape_not_allowed"
  | bodyTooLarge => "body_too_large"

def status : BodyRejected → Nat
  | bodyTooLarge => 413
  | _ => 403

end BodyRejected

/-- A JSON string that is one of these. -/
def oneOf (v : Json) (names : List String) : Option String :=
  match v with
  | .str s => names.find? (fun n => decide (Text.ofString n = s))
  | _ => none

/-- Exactly one `model` at the top level, out of the principal's own list. -/
def parseModel (raw : Bytes) (permitted : List String) : Except BodyRejected (String × Json) :=
  match decodeUtf8 raw with
  | none => .error .modelNotAllowed
  | some text =>
    match Json.loads text.toList with
    | some (.obj top) =>
      match top.filter (fun p => p.1 == Text.ofString "model") with
      | [(_, chosen)] =>
        match oneOf chosen permitted with
        | some model => .ok (model, .obj top)
        | none => .error .modelNotAllowed
      | _ => .error .modelNotAllowed
    | _ => .error .modelNotAllowed

/-- Every tool that the provider runs itself has to be on the list. -/
def checkProviderTools (body : Json) (allowed : List String) : Except BodyRejected Unit :=
  match body.get? "tools" with
  | some (.arr entries) =>
    if entries.all (fun entry => match entry with
      | .obj _ =>
        match entry.get? "type" with
        | some kind => (oneOf kind ("function" :: allowed)).isSome
        | none => false
      | _ => true) then .ok ()
    else .error .providerToolNotAllowed
  | _ => .ok ()

/-- The text before the first `;base64,` and the text after it. -/
def partitionBase64 : List Nat → List Nat → Option (List Nat × List Nat)
  | before, rest =>
    let mark := Text.ofString ";base64,"
    if mark.isPrefixOf rest then some (before.reverse, rest.drop mark.length)
    else match rest with
      | [] => none
      | c :: rest => partitionBase64 (c :: before) rest

def checkFileData (data : Text) (allowedMime : List String) : Bool :=
  match partitionBase64 [] data with
  | none => false
  | some (before, encoded) =>
    (Text.ofString "data:").isPrefixOf before && !encoded.isEmpty &&
      allowedMime.any (fun m => decide (Text.ofString m = before.drop 5)) &&
      encoded.all (fun n => n < 128) && (b64decodeChars (encoded.map Char.ofNat)).isSome

def checkPart (allowedMime : List String) (part : Json) : Bool :=
  match part, (part.get? "type").bind (oneOf · ["input_text", "input_file"]) with
  | .obj _, some "input_text" => match part.get? "text" with
    | some (.str _) => true
    | _ => false
  | .obj _, some "input_file" => match part.get? "file_data" with
    | some (.str data) => checkFileData data allowedMime
    | _ => false
  | _, _ => false

/-- Only text and embedded files of an allowed type. -/
def checkInputShape (body : Json) (allowedMime : List String) : Except BodyRejected Unit :=
  match body.get? "input" with
  | some (.arr (first :: rest)) =>
    if (first :: rest).all (fun item => match item, item.get? "content" with
      | .obj _, some (.arr (p :: ps)) => (p :: ps).all (checkPart allowedMime)
      | _, _ => false) then .ok ()
    else .error .inputShapeNotAllowed
  | _ => .error .inputShapeNotAllowed

/-- The precharge, from the buffered body. -/
def estimateTokens (raw : Bytes) (body : Json) (model : String) : Nat :=
  let approxInput := max 1 ((raw.length + bytesPerToken - 1) / bytesPerToken)
  let requested := ["max_output_tokens", "max_completion_tokens", "max_tokens"].findSome?
    (fun key => match body.get? key with
      | some (.int n) => if 0 < n ∧ n ≤ contextLength model then some n.toNat else none
      | _ => none)
  approxInput + requested.getD defaultOutputEstimate

theorem estimate_pos (raw : Bytes) (body : Json) (model : String) :
    0 < estimateTokens raw body model := by
  have h : 1 ≤ max 1 ((raw.length + bytesPerToken - 1) / bytesPerToken) := Nat.le_max_left ..
  exact Nat.lt_of_lt_of_le Nat.zero_lt_one (Nat.le_trans h (Nat.le_add_right ..))

inductive TokenSource where
  | reported
  | measured
  | estimated
deriving DecidableEq

/-- What is booked at the end of a request, and where the number comes from. -/
def settledCharge (seen : Bool) (inputTokens outputTokens estimate requestBytes sentBytes : Nat)
    (aborted : Bool) (status : Nat) : Nat × Nat × TokenSource :=
  if seen then (inputTokens, outputTokens, .reported)
  else if aborted ∧ status < 400 then
    (max 1 ((requestBytes + bytesPerToken - 1) / bytesPerToken),
      (sentBytes + bytesPerToken - 1) / bytesPerToken, .measured)
  else (estimate, 0, .estimated)

/-! ### Reading `usage` as it flows past -/

structure UsageSniffer where
  buffer : Bytes := []
  inputTokens : Nat := 0
  outputTokens : Nat := 0
  seen : Bool := false

def readUsage (usage : Json) : Option (Nat × Nat) :=
  let number (key : String) : Option Int := match usage.get? key with
    | some (.int n) => some n
    | some (.bool b) => some (if b then 1 else 0)
    | _ => none
  [("input_tokens", "output_tokens"), ("prompt_tokens", "completion_tokens")].findSome?
    (fun p => do
      let left ← number p.1
      let right ← number p.2
      some (left.toNat, right.toNat))

def usageCandidates (body : Json) : List Json :=
  let own (v : Json) : List Json := match v.get? "usage" with
    | some (.obj kvs) => [.obj kvs]
    | _ => []
  own body ++ (match body.get? "response" with
    | some (.obj kvs) => own (.obj kvs)
    | _ => [])

def asciiBytes (s : String) : Bytes := encodeUtf8 s

def stripBytes (b : Bytes) : Bytes :=
  let ws (x : UInt8) : Bool := x = 32 || (9 ≤ x && x ≤ 13)
  ((b.dropWhile ws).reverse.dropWhile ws).reverse

namespace UsageSniffer

def consider (u : UsageSniffer) (line : Bytes) : UsageSniffer :=
  if ¬ asciiBytes "\"usage\"" <:+: line then u
  else
    let payload := stripBytes line
    let payload := if (asciiBytes "data:").isPrefixOf payload then stripBytes (payload.drop 5)
      else payload
    if ¬ (asciiBytes "\x7b").isPrefixOf payload then u
    else match (decodeUtf8 payload).bind (fun text => Json.loads text.toList) with
      | none => u
      | some body => (usageCandidates body).foldl (fun u candidate => match readUsage candidate with
        | some got => { u with inputTokens := got.1, outputTokens := got.2, seen := true }
        | none => u) u

def maxLine : Nat := 1024 * 1024

/-- Every finished line of the buffer; the fuel is the buffer's length. -/
def lines : Nat → UsageSniffer → UsageSniffer
  | 0, u => u
  | fuel + 1, u =>
    match u.buffer.span (· ≠ 10) with
    | (_, []) => u
    | (line, _ :: rest) => lines fuel (consider { u with buffer := rest } line)

def feed (u : UsageSniffer) (chunk : Bytes) : UsageSniffer :=
  let u := { u with buffer := u.buffer ++ chunk }
  let u := lines (u.buffer.length + 1) u
  if maxLine < u.buffer.length then
    { u with buffer := u.buffer.drop (u.buffer.length - maxLine) }
  else u

def finish (u : UsageSniffer) : UsageSniffer :=
  if u.buffer = [] then u else { consider u u.buffer with buffer := [] }

end UsageSniffer

end Solvio.ProviderBroker
