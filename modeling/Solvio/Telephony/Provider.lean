import Solvio.Telephony.Contract

namespace Solvio.Telephony
open Solvio.Lib

/-- What comes back through the upstream: nothing has left the machine, nobody
knows, or a response, whose body is the parsed JSON or the text. -/
inductive UpstreamAnswer where
  | pathRefused
  | unreachable
  | response (status : Nat) (body : Data)

/-- A redirect is refused with the answer in hand. -/
def UpstreamAnswer.redirect : UpstreamAnswer → Bool
  | response status _ => 300 ≤ status && status < 400
  | _ => false

/-- A body that is no object counts as an empty one. -/
def payloadOf : Data → Data
  | .dict kvs => .dict kvs
  | _ => .dict []

/-! ### `start_call` -/

/-- The id of a conversation. -/
structure Thread where
  id : String
  named : id ≠ ""

theorem Thread.id_eq {a b : Thread} : a.id = b.id ↔ a = b := by
  cases a
  cases b
  simp

instance : DecidableEq Thread := fun _ _ => decidable_of_iff _ Thread.id_eq

/-- A `TelephonyError`, an `AmbiguousCall`, or a `StartedCall`. -/
inductive Start where
  | refused
  | ambiguous
  | started (thread : Thread)

variable (R : Readers)

def startCall (answer : UpstreamAnswer) : Start :=
  if answer.redirect then .ambiguous
  else match answer with
    | .pathRefused => .refused
    | .unreachable => .ambiguous
    | .response status body =>
      let payload := payloadOf body
      if 400 ≤ status || !((payload.get? "success").map Data.truthy).getD false then .refused
      else if h : textOf R (payload.get? "conversation_id") = "" then .ambiguous
      else .started ⟨textOf R (payload.get? "conversation_id"), h⟩

/-! ### `_outcome_from_conversation` -/

structure CallOutcome where
  callState : CallState
  finished : Bool
  accepted : Bool
  transcript : List Data

/-- `(body.get(key) or {})`, on which `get` is called. -/
def section? (body : Data) (key : String) : Option Data :=
  match (body.get? key).filter Data.truthy with
  | none => some (.dict [])
  | some (.dict kvs) => some (.dict kvs)
  | some _ => none

/-- A time is there, or not. What is no number raises. -/
def timeOf : Option Data → Option Bool
  | none => some false
  | some (.scalar .none) => some false
  | some (.scalar (.str s)) =>
    if s = "" then some false else if R.float (.str s) then some true else none
  | some (.scalar v) => if R.float v then some true else none
  | some _ => none

/-- `tuple(value or ())`. -/
def turnsOf (value : Option Data) : Option (List Data) :=
  match value.filter Data.truthy with
  | none => some []
  | some (.list xs) => some xs
  | some (.dict kvs) => some (kvs.map (fun p => Data.string p.1))
  | some (.scalar (.str s)) => some (s.toList.map (fun c => Data.string (String.singleton c)))
  | some (.scalar _) => none

/-- `cost_fiat`, of which a large integer is no float. -/
def costReadable (metadata : Data) : Bool :=
  match metadata.get? "cost_fiat" with
  | some (.scalar (.int n)) => R.float (.int n)
  | _ => true

/-- The reason of an error may stand at two places, or else the reason for the end. -/
def errorType (metadata error : Data) : String :=
  let reason := textOf R ((error.get? "reason").filter Data.truthy <|> error.get? "type")
  if reason = "" then textOf R (metadata.get? "termination_reason") else reason

/-- The outcome that a conversation tells, of which `none` is that it raises. -/
def outcomeFromConversation (body : Data) : Option CallOutcome := do
  let status := textOf R (body.get? "status")
  let metadata ← section? body "metadata"
  let _ ← section? body "analysis"
  let accepted ← timeOf R (metadata.get? "accepted_time_unix_secs")
  let error ← section? metadata "error"
  let _ ← timeOf R (metadata.get? "start_time_unix_secs")
  let transcript ← turnsOf (body.get? "transcript")
  if costReadable R metadata then
    some {
      callState := callStateFromProvider R status accepted (errorType R metadata error)
      finished := terminalStatus status
      accepted := accepted
      transcript := transcript }
  else none

/-- A conversation that can be read. -/
structure Conversation where
  body : Data
  outcome : CallOutcome
  read : outcomeFromConversation R body = some outcome

/-! ### `fetch_outcome` -/

/-- A `TelephonyError`, another exception, or the conversation. -/
inductive Fetched where
  | unavailable
  | raised
  | conversation (c : Conversation R)

def fetchOutcome (answer : UpstreamAnswer) : Fetched R :=
  if answer.redirect then .unavailable
  else match answer with
    | .pathRefused => .unavailable
    | .unreachable => .unavailable
    | .response status body =>
      if 400 ≤ status then .unavailable
      else match h : outcomeFromConversation R (payloadOf body) with
        | none => .raised
        | some outcome => .conversation ⟨payloadOf body, outcome, h⟩

end Solvio.Telephony
