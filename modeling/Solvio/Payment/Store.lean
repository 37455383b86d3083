import Solvio.Payment.Instruments

namespace Solvio.Payment
open Solvio.Lib Solvio.Approval

/-- The UTC day of a reading. -/
def utcDay (now : Time) : Int := now / 86400000

inductive LedgerEvent where
  | created
  | quoted
  | approved
  | claimed
  | charged
  | declined
  | failed
  | ambiguous
  | reconciled
  | cancelled
  | refunded
  | denied
deriving DecidableEq

/-- A row of the payment ledger, as far as it is read again. -/
structure Row where
  bookedAt : Time := 0
  paymentIntentId : String
  event : LedgerEvent
  amountMinor : Nat := 0
  currency : String := ""
  instrumentRef : String := ""
  executionId : String := ""
  providerRef : String := ""
deriving DecidableEq

/-- A state that an intent's row was given. -/
structure Move where
  paymentIntentId : String
  before : Option PaymentState
  after : PaymentState

/-- `PaymentStore`. The ledger has its newest row first; `trail` records what
`put_intent` did to the states of the rows, and nothing reads it. -/
structure Store (F : Fence) where
  instruments : Table Instrument
  intents : Table (PaymentIntent F)
  ledger : List Row
  trail : List Move

inductive RecordError where
  | refused
  | duplicateCharge

namespace Store

variable {F : Fence}

def empty : Store F := ⟨.empty, .empty, [], []⟩

def instrument? (s : Store F) (ref : String) : Option Instrument := s.instruments.find? ref

def intent? (s : Store F) (id : String) : Option (PaymentIntent F) := s.intents.find? id

def putInstrument (s : Store F) (i : Instrument) : Store F :=
  { s with instruments := match s.instruments.insert? i with
      | some t => t
      | none => s.instruments.modify i.paymentRef
          (fun j => { i with paymentRef := j.paymentRef }) (fun _ => rfl) }

/-- `put_intent`: a row that is there keeps what the intent was made with. Its
texts have passed the fence when the intent was made. -/
def putIntent (s : Store F) (i : PaymentIntent F) : Store F :=
  { s with
    intents := match s.intents.insert? i with
      | some t => t
      | none => s.intents.modify i.paymentIntentId (fun r => { r with
          state := i.state
          quote := i.quote
          executionId := i.executionId
          approvalId := i.approvalId }) (fun _ => rfl)
    trail := ⟨i.paymentIntentId, (s.intent? i.paymentIntentId).map PaymentIntent.state, i.state⟩ ::
      s.trail }

def charged (s : Store F) (executionId : String) : Bool :=
  s.ledger.any (fun r => r.event = .charged && r.executionId = executionId)

/-- `record`: the provider's text passes the fence, and one execution has one
charge. -/
def record (s : Store F) (now : Time) (row : Row) (providerRef : String) :
    Except RecordError (Store F) :=
  if F.refuses providerRef then .error .refused
  else if row.event = .charged ∧ row.executionId ≠ "" ∧ s.charged row.executionId then
    .error .duplicateCharge
  else .ok { s with
    ledger := { row with bookedAt := now, providerRef := textPrefix 128 providerRef } :: s.ledger }

/-- `record` of a row that is no charge and quotes no provider. -/
def book (s : Store F) (now : Time) (row : Row) : Store F :=
  { s with ledger := { row with bookedAt := now, providerRef := "" } :: s.ledger }

/-- The newest rows of one intent. -/
def rowsOf (s : Store F) (id : String) (limit : Nat) : List Row :=
  (s.ledger.filter (fun r => r.paymentIntentId = id)).take limit

/-- `_existing_charge`, which looks at the newest thousand rows. -/
def existingCharge (s : Store F) (executionId : String) : Option Row :=
  (s.ledger.take 1000).find? (fun r => r.event = .charged && r.executionId = executionId)

def dayTotalMinor (s : Store F) (ref currency : String) (day : Int) : Nat :=
  ((s.ledger.filter (fun r => r.event = .charged && r.instrumentRef = ref &&
    utcDay r.bookedAt = day && r.currency = currency)).map Row.amountMinor).sum

def chargedRow (s : Store F) (id : String) : Option Row :=
  (s.rowsOf id 200).find? (fun r => r.event = .charged)

def refundedMinor (s : Store F) (id : String) : Nat :=
  (((s.rowsOf id 200).filter (fun r => r.event = .refunded)).map Row.amountMinor).sum

def refundAlreadyBooked (s : Store F) (id refundRef : String) : Bool :=
  (s.rowsOf id 200).any (fun r => r.event = .refunded && r.providerRef = refundRef)

theorem record_blank {s : Store F} {row : Row} (now : Time) (h : row.event ≠ .charged) :
    s.record now row "" = .ok (s.book now row) := by
  have hblank : textPrefix 128 "" = "" := rfl
  simp [record, book, F.empty, h, hblank]

theorem record_ok {s s' : Store F} {now : Time} {row : Row} {ref : String}
    (h : s.record now row ref = .ok s') :
    s' = { s with ledger := { row with bookedAt := now, providerRef := textPrefix 128 ref } :: s.ledger } ∧
      (row.event = .charged → row.executionId ≠ "" → s.charged row.executionId = false) := by
  simp only [record] at h
  split_ifs at h with h1 h2
  cases h
  refine ⟨rfl, fun hc hx => ?_⟩
  by_contra hb
  exact h2 ⟨hc, hx, by simpa using hb⟩

theorem record_duplicate {s : Store F} {now : Time} {row : Row} {ref : String}
    (h : s.record now row ref = .error .duplicateCharge) :
    row.event = .charged ∧ s.charged row.executionId = true := by
  unfold record at h
  split at h
  · cases h
  · split at h
    · rename_i hc
      exact ⟨hc.1, hc.2.2⟩
    · cases h

@[simp] theorem put_ledger (s : Store F) (i : PaymentIntent F) :
    (s.putIntent i).ledger = s.ledger := rfl

@[simp] theorem put_instruments (s : Store F) (i : PaymentIntent F) :
    (s.putIntent i).instruments = s.instruments := rfl

@[simp] theorem book_intents (s : Store F) (now : Time) (row : Row) :
    (s.book now row).intents = s.intents := rfl

@[simp] theorem book_trail (s : Store F) (now : Time) (row : Row) :
    (s.book now row).trail = s.trail := rfl

@[simp] theorem book_instruments (s : Store F) (now : Time) (row : Row) :
    (s.book now row).instruments = s.instruments := rfl

/-- The row that `put_intent` leaves. -/
def written (old : Option (PaymentIntent F)) (i : PaymentIntent F) : PaymentIntent F :=
  match old with
  | none => i
  | some r => { r with
    state := i.state
    quote := i.quote
    executionId := i.executionId
    approvalId := i.approvalId }

theorem intent_put (s : Store F) (i : PaymentIntent F) (k : String) :
    (s.putIntent i).intent? k =
      if k = i.paymentIntentId then some (written (s.intent? i.paymentIntentId) i)
      else s.intent? k := by
  unfold putIntent intent?
  cases hi : s.intents.insert? i with
  | some t =>
    obtain ⟨hnone, -⟩ := Table.insert_some hi
    have hnone : s.intents.find? i.paymentIntentId = none := hnone
    simp only [Table.find_insert hi, hnone]
    by_cases hk : k = i.paymentIntentId
    · simp [hk, written, Keyed.key]
    · simp [hk, Ne.symm hk, Keyed.key]
  | none =>
    obtain ⟨r, hr⟩ := Table.insert_none.mp hi
    have hr : s.intents.find? i.paymentIntentId = some r := hr
    simp only [Table.find_modify, hr, written, Option.map_some]

end Store

end Solvio.Payment
