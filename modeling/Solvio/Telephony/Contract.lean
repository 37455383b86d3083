import Solvio.Lib.PyData
import Solvio.Lib.PyString

namespace Solvio.Telephony
open Solvio.Lib

/-- The tables of the interpreter that the contract reads: letters, what `float`
takes, and how a list or a dictionary is written. -/
structure Readers where
  lower : String → String
  lowerChar : Char → List Char
  isAlnum : Char → Bool
  float : Scalar → Bool
  repr : Data → String

/-! ### The states of the connection and of the message -/

inductive CallState where
  | prepared | dialing | answered | noAnswer | busy | voicemail | completed | failed | unknown
deriving DecidableEq

/-- `TERMINAL_CALL_STATES`. -/
def CallState.terminal : CallState → Bool
  | prepared | dialing | unknown => false
  | _ => true

inductive DeliveryState where
  | notDelivered | deliveredByAgent | recipientAcknowledged | unknown
deriving DecidableEq

/-! ### `call_state_from_provider` -/

/-- `PROVIDER_STATUS_TERMINAL`. -/
def terminalStatus (status : String) : Bool := status = "done" || status = "failed"

variable (R : Readers)

def normalized (text : String) : String := R.lower (stripped text)

/-- `_ERROR_TO_CALL_STATE`. -/
def errorState : String → Option CallState
  | "line_busy" => some .busy
  | "no_answer" => some .noAnswer
  | _ => none

def callStateFromProvider (status : String) (accepted : Bool) (errorType : String) : CallState :=
  match errorState (normalized R errorType) with
  | some state => state
  | none =>
    match normalized R status with
    | "initiated" | "in-progress" | "processing" => .dialing
    | "failed" => if accepted then .completed else .failed
    | "done" => if accepted then .completed else .noAnswer
    | _ => .unknown

/-! ### `delivery_state_from_evidence` -/

/-- The evidence is true, false, or there is none. -/
def deliveryStateFromEvidence (state : CallState) (agentDelivered acknowledged : Option Bool) :
    DeliveryState :=
  if !state.terminal then .unknown
  else match state with
    | .noAnswer | .busy | .failed => .notDelivered
    | _ => match agentDelivered with
      | some false => .notDelivered
      | none => .unknown
      | some true => if acknowledged = some true then .recipientAcknowledged else .deliveredByAgent

/-! ### The evidence of a transcript -/

/-- `_MIN_CORE_WORDS`. -/
def minCoreWords : Nat := 4

def stopwords : List String :=
  ["der", "die", "das", "und", "ist", "ich", "du", "er", "sie", "es", "wir", "ihr", "ein", "eine",
    "einen", "einem", "einer", "dass", "den", "dem", "zu", "im", "in", "an", "am", "auf", "mit",
    "von", "fuer", "für", "bei", "hat", "habe", "haben", "wird", "werden", "war", "sein", "nicht",
    "auch", "noch", "dann", "so", "wie", "als", "aber", "oder", "bitte", "mal"]

/-- `str.split`. -/
def splitWords (cs : List Char) : List String :=
  ((cs.splitBy (fun a b => isSpace a = isSpace b)).filter (fun w => !w.any isSpace)).map
    String.ofList

/-- `_words`. -/
def words (text : String) : List String :=
  let cleaned := text.toList.flatMap (fun c => if R.isAlnum c then R.lowerChar c else [' '])
  (splitWords cleaned).filter (fun w => 2 < w.length && w ∉ stopwords)

/-- `str(value or "")`. -/
def textOf : Option Data → String
  | none => ""
  | some d => if d.truthy then match d with
      | .scalar v => v.text
      | d => R.repr d
    else ""

/-- What the agent says in a turn of a transcript, if the turn is one of his. -/
def agentTurn : Data → Option (List String)
  | .dict kvs =>
    let turn := Data.dict kvs
    if normalized R (textOf R (turn.get? "role")) = "agent" then
      some (words R (textOf R (turn.get? "message")))
    else none
  | _ => none

/-- The core of a message. -/
def core (message : String) : List String := (words R message).dedup

/-- What a turn covers of a core. -/
def covered (kern said : List String) : Nat := (kern.filter (· ∈ said)).length

/-- At least six words of ten. -/
def covers (kern said : List String) : Bool := 3 * kern.length ≤ 5 * covered kern said

/-- `message_evidence`, of a transcript that is a list. -/
def messageEvidence (transcript : List Data) (boundMessage : String) : Option Bool :=
  let kern := core R boundMessage
  let turns := transcript.filterMap (agentTurn R)
  if kern.length < minCoreWords then none
  else if turns = [] then none
  else if turns.all List.isEmpty then some false
  else if turns.any (covers kern) then some true
  else none

/-- `acknowledgement_evidence`. -/
def acknowledgementEvidence (_transcript : List Data) : Option Bool := none

end Solvio.Telephony
