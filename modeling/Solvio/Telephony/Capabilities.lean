import Solvio.Lib.Programs
import Solvio.Telephony.Ledger

namespace Solvio.Telephony
open Solvio.Lib

/-! ### What a call asks of the ledger and of the provider -/

/-- What the row tells before the wire is touched. -/
inductive Approach where
  | contact
  | polled (thread : String)
  | failed
  | attempted
deriving DecidableEq

/-- What has become of a started call. -/
inductive Dialed where
  | refused
  | ambiguous
  | conflict
  | polls (thread : String)

/-- What the rest of the start goes by: the row of this execution. -/
def approach (l : Ledger) (executionId : String) : Approach :=
  match l.find? executionId with
  | none => .contact
  | some row =>
    if row.conversationId ≠ "" then .polled row.conversationId
    else match row.callState with
      | .failed => .failed
      | .prepared => .contact
      | _ => .attempted

variable (R : Readers)

/-- The write that follows the answer to a start. -/
def settle (executionId : String) (answer : UpstreamAnswer) (l : Ledger) : Dialed × Ledger :=
  match startCall R answer with
  | .ambiguous => (.ambiguous, l.recordOutcome executionId ⟨.unknown, .unknown⟩)
  | .refused => (.refused, l.recordOutcome executionId ⟨.failed, .notDelivered⟩)
  | .started thread =>
    match l.attachConversation executionId thread with
    | (true, l) => (.polls thread.id, l)
    | (false, l) => (.conflict, l)

/-- A conversation that has ended. -/
structure Ended extends Conversation R where
  finished : outcome.finished = true

/-- What `_close` makes of it. -/
def closing (message : String) (c : Ended R) : Report where
  callState := c.outcome.callState
  deliveryState := deliveryStateFromEvidence c.outcome.callState
    (messageEvidence R c.outcome.transcript message)
    (acknowledgementEvidence c.outcome.transcript)

/-- What is written when the time is up. -/
def exhausting (last : Option (Conversation R)) : Report where
  callState := match last with
    | some c => if c.outcome.callState.terminal then c.outcome.callState else .unknown
    | none => .unknown
  deliveryState := .unknown

/-- A step on the ledger or an await. `approach` ends with the request to the
provider where the row allows it, and `dialed` is the answer to that request. -/
inductive Op where
  | prepare (executionId : String) (order : Order)
  | approach (executionId : String)
  | dialed (executionId : String)
  | conflict (executionId : String)
  | fetch (thread : String)
  | close (executionId message : String) (c : Ended R)
  | exhaust (executionId : String) (last : Option (Conversation R))
  | unfinished

abbrev Op.Reply : Op R → Type
  | .prepare .. => Unit
  | .approach _ => Approach
  | .dialed _ => Dialed
  | .conflict _ => Unit
  | .fetch _ => Fetched R
  | .close .. => Report
  | .exhaust .. => Report
  | .unfinished => List CallRow

/-- The ledger, and what the upstream answers. -/
abbrev shared : Shared Ledger where
  Op := Op R
  Input := UpstreamAnswer
  Reply := Op.Reply R
  step
    | .prepare executionId order, _, l => ((), l.prepare executionId order)
    | .approach executionId, _, l => (approach l executionId, l)
    | .dialed executionId, answer, l => settle R executionId answer l
    | .conflict executionId, _, l => ((), l.recordOutcome executionId ⟨.unknown, .unknown⟩)
    | .fetch _, answer, l => (fetchOutcome R answer, l)
    | .close executionId message c, _, l =>
      (closing R message c, l.recordOutcome executionId (closing R message c))
    | .exhaust executionId last, _, l =>
      (exhausting R last, l.recordOutcome executionId (exhausting R last))
    | .unfinished, _, l => (l.unfinished, l)
  init := Table.empty

abbrev Phone (α : Type) : Type := Prog (Op R) (Op.Reply R) α

/-! ### `call` -/

/-- What the caller learns: a report, or that nothing has happened, that nobody
knows, or that the provider has refused. -/
inductive Result where
  | report (r : Report)
  | safeFailure (reason : String)
  | ambiguous (reason : String)
  | unavailable

variable {R}

/-- `_await_outcome`, with as many rounds as there is time for. -/
def awaitOutcome (executionId thread message : String) :
    Nat → Option (Conversation R) → Phone R Result
  | 0, last => .ask (.exhaust executionId last) (fun report => .ret (.report report))
  | rounds + 1, _ => .ask (.fetch thread) (fun
    | .unavailable => awaitOutcome executionId thread message rounds none
    | .raised => .fail
    | .conversation c =>
      if h : c.outcome.finished = true then
        .ask (.close executionId message ⟨c, h⟩) (fun report => .ret (.report report))
      else awaitOutcome executionId thread message rounds (some c))

/-- The end of a start whose conversation belongs to another row. -/
def conflicted (executionId : String) : Phone R Result :=
  .ask (.conflict executionId) (fun _ => .ret (.ambiguous "telephony_thread_conflict"))

/-- The await of `start_call`. -/
def dialing (executionId message : String) (rounds : Nat) : Phone R Result :=
  .ask (.dialed executionId) (fun
    | .refused => .ret .unavailable
    | .ambiguous => .ret (.ambiguous "telephony_start_ambiguous")
    | .conflict => conflicted executionId
    | .polls thread => awaitOutcome executionId thread message rounds none)

def approaching (executionId message : String) (rounds : Nat) : Phone R Result :=
  .ask (.approach executionId) (fun
    | .contact => dialing executionId message rounds
    | .polled thread => awaitOutcome executionId thread message rounds none
    | .failed => .ret (.safeFailure "telephony_already_failed")
    | .attempted => .ret (.ambiguous "telephony_already_attempted"))

/-- `call`, of an order that has passed the checks before the wire. -/
def call (executionId : String) (order : Order) (rounds : Nat) : Phone R Result :=
  if executionId = "" then .ret (.safeFailure "no_execution_identity")
  else .ask (.prepare executionId order) (fun _ => approaching executionId order.message rounds)

/-! ### `recover_open_calls` -/

/-- `_recover_each`. -/
def recoverEach : List CallRow → Phone R Unit
  | [] => .ret ()
  | row :: rows => .ask (.fetch row.conversationId) (fun
    | .unavailable => recoverEach rows
    | .raised => .fail
    | .conversation c =>
      if h : c.outcome.finished = true then
        .ask (.close row.executionId row.order.message ⟨c, h⟩) (fun _ => recoverEach rows)
      else recoverEach rows)

def recoverOpenCalls : Phone R Unit := .ask .unfinished recoverEach

/-- The result of a call goes to its caller. -/
def finished (p : Phone R Result) : Phone R Unit := p >>= fun _ => .ret ()

/-- What runs: calls, and the recovery of open ones. -/
inductive Launched : Phone R Unit → Prop where
  | call (executionId : String) (order : Order) (rounds : Nat) :
    Launched (finished (call executionId order rounds))
  | recover : Launched recoverOpenCalls

/-! ### What a step leaves of the rows -/

/-- The row of an execution has its conversation. -/
def Threaded (l : Ledger) (executionId : String) : Prop :=
  ∃ row, l.find? executionId = some row ∧ row.conversationId ≠ ""

theorem Threaded.prepare {l : Ledger} {id : String} (h : Threaded l id) (k : String)
    (order : Order) : Threaded (l.prepare k order) id := by
  obtain ⟨row, hrow, hne⟩ := h
  refine ⟨row, ?_, hne⟩
  rw [Ledger.find_prepare, if_neg, hrow]
  rintro ⟨rfl, hnone⟩
  cases hrow.symm.trans hnone

theorem Threaded.record {l : Ledger} {id : String} (h : Threaded l id) (k : String) (r : Report) :
    Threaded (l.recordOutcome k r) id := by
  obtain ⟨row, hrow, hne⟩ := h
  by_cases hk : id = k
  · subst hk
    refine ⟨{ row with callState := r.callState, deliveryState := r.deliveryState }, ?_, hne⟩
    rw [Ledger.find_record, if_pos rfl, hrow]
    rfl
  · exact ⟨row, by rw [Ledger.find_record, if_neg hk, hrow], hne⟩

theorem Threaded.attach {l : Ledger} {id : String} (h : Threaded l id) (k : String)
    (thread : Thread) : Threaded (l.attachConversation k thread).2 id := by
  obtain ⟨row, hrow, hne⟩ := h
  rcases l.attach_cases k thread with ⟨-, heq⟩ | ⟨-, -, -, -, heq⟩ | ⟨-, row', hrow', hnone, hfind⟩
  · exact ⟨row, by rw [heq, hrow], hne⟩
  · exact ⟨row, by rw [heq, hrow], hne⟩
  · refine ⟨row, ?_, hne⟩
    rw [hfind, if_neg, hrow]
    rintro rfl
    cases hrow.symm.trans hrow'
    exact hne hnone

/-- A conversation stays with its row. -/
theorem Threaded.step {l : Ledger} {id : String} (h : Threaded l id) (op : Op R)
    (answer : UpstreamAnswer) : Threaded ((shared R).step op answer l).2 id := by
  cases op with
  | prepare k order => exact h.prepare k order
  | approach k => exact h
  | dialed k =>
    simp only [shared, settle]
    cases startCall R answer with
    | refused => exact h.record k _
    | ambiguous => exact h.record k _
    | started thread =>
      have hattach := h.attach k thread
      revert hattach
      dsimp only
      rcases l.attachConversation k thread with ⟨_ | _, l'⟩ <;> exact fun hthread => hthread
  | conflict k => exact h.record k _
  | fetch thread => exact h
  | close k message c => exact h.record k _
  | exhaust k last => exact h.record k _
  | unfinished => exact h

end Solvio.Telephony
