import Solvio.ProviderBroker.Service

namespace Solvio.ProviderBroker
open Solvio.Lib

def maxRows : Nat := 20000

/-- `DENIED_REASONS`: a reason outside of it is refused at the write. -/
def deniedReasons : List String :=
  ["bad_token", "stale_generation", "lease_absent", "rate_capped", "token_capped",
    "path_not_allowed", "model_not_allowed", "body_too_large", "principal_not_allowed",
    "no_credential", "credential_denied", "credential_malformed", "vault_unavailable",
    "provider_tool_not_allowed"]

inductive Outcome where
  | forwarded
  | denied
  | upstreamError
  | answeredLocally
  | clientAborted
deriving DecidableEq

/-- What Python raises at a write, or at the comparison of two tokens. -/
inductive Raised where
  | unknownDeniedReason
  | unencodable
  | notAscii
deriving DecidableEq

structure Entry where
  principal : String
  generation : Nat
  method : String
  path : String
  outcome : Outcome
  leaseId : String := ""
  taskRef : String := ""
  model : String := ""
  statusCode : Nat := 0
  requestBytes : Nat := 0
  responseBytes : Nat := 0
  inputTokens : Nat := 0
  outputTokens : Nat := 0
  tokensSource : Option TokenSource := none
  deniedReason : String := ""
  /-- The path holds a lone surrogate, which no UTF-8 text can. -/
  lone : Bool := false
deriving DecidableEq

structure Row where
  id : Nat
  moment : Time
  entry : Entry
deriving DecidableEq

/-- `broker_ledger`, in the order of the ids. -/
structure BrokerLedger where
  rows : List Row := []
  nextId : Nat := 0

/-- The outcomes that count against a day's caps. -/
def Outcome.counts : Outcome → Bool
  | forwarded => true
  | upstreamError => true
  | clientAborted => true
  | denied => false
  | answeredLocally => false

def Entry.tokens (e : Entry) : Nat := e.inputTokens + e.outputTokens

/-- A row of a request that went out for this principal. -/
def Row.spentBy (name : String) (row : Row) : Bool :=
  decide (row.entry.principal = name) && row.entry.outcome.counts

namespace BrokerLedger

/-- `_trim`: the newest rows stay. -/
def trim (l : BrokerLedger) : BrokerLedger :=
  if l.rows.length ≤ maxRows then l
  else { l with rows := l.rows.drop (l.rows.length - maxRows) }

def record (l : BrokerLedger) (e : Entry) (moment : Time) : Except Raised (Nat × BrokerLedger) :=
  if e.deniedReason ≠ "" ∧ e.deniedReason ∉ deniedReasons then .error .unknownDeniedReason
  else if e.lone then .error .unencodable
  else .ok (l.nextId, trim { rows := l.rows ++ [⟨l.nextId, moment, e⟩], nextId := l.nextId + 1 })

/-- The only update of a row: how its forwarding ended. -/
def settle (l : BrokerLedger) (rowId inputTokens outputTokens responseBytes statusCode : Nat)
    (outcome : Outcome) (tokensSource : TokenSource) : BrokerLedger :=
  { l with rows := l.rows.map (fun row => if row.id = rowId then
      { row with entry := { row.entry with
        inputTokens, outputTokens, responseBytes, statusCode, outcome
        tokensSource := some tokensSource } }
    else row) }

structure Usage where
  requests : Nat
  tokens : Nat
deriving DecidableEq

def usageOf (rows : List Row) : Usage :=
  ⟨rows.length, (rows.map (fun row => row.entry.tokens)).sum⟩

/-- What a principal has used since a moment. -/
def usageSince (l : BrokerLedger) (principal : String) (since : Time) : Usage :=
  usageOf (l.rows.filter (fun row => row.spentBy principal && decide (since ≤ row.moment)))

/-- The newest rows, as many as the ledger keeps. -/
def newest (rows : List Row) : List Row := rows.drop (rows.length - maxRows)

theorem trim_rows (l : BrokerLedger) : l.trim.rows = newest l.rows := by
  unfold trim newest
  split
  · rename_i h
    rw [Nat.sub_eq_zero_of_le h, List.drop_zero]
  · dsimp only

theorem trim_next (l : BrokerLedger) : l.trim.nextId = l.nextId := by
  unfold trim
  split <;> rfl

/-- The ledger takes an entry whose reason it knows and whose texts it can write. -/
theorem record_ok {l : BrokerLedger} {e : Entry} (moment : Time)
    (hreason : e.deniedReason = "" ∨ e.deniedReason ∈ deniedReasons) (hlone : e.lone = false) :
    ∃ l', l.record e moment = .ok (l.nextId, l') ∧
      l'.rows = newest (l.rows ++ [⟨l.nextId, moment, e⟩]) ∧ l'.nextId = l.nextId + 1 := by
  unfold record
  rw [if_neg (fun h => hreason.elim h.1 h.2), if_neg (by simp [hlone])]
  exact ⟨_, rfl, trim_rows _, trim_next _⟩

theorem record_unknown {l : BrokerLedger} {e : Entry} (moment : Time)
    (h : e.deniedReason ≠ "") (hr : e.deniedReason ∉ deniedReasons) :
    l.record e moment = .error .unknownDeniedReason := if_pos ⟨h, hr⟩

theorem record_lone {l : BrokerLedger} {e : Entry} (moment : Time) (h : e.lone = true) :
    ∃ x, l.record e moment = .error x := by
  unfold record
  split <;> exact ⟨_, rfl⟩

end BrokerLedger

end Solvio.ProviderBroker
