import Solvio.Payment.Executor

namespace Solvio.Payment
open Solvio.Lib Solvio.Approval

/-! ### What the provider does with refunds -/

/-- A refund that the provider was asked for. -/
structure Ask where
  key : String
  paymentIntentId : String
  chargeRef : String
  amountMinor : Nat
deriving DecidableEq

/-- Under one idempotency key the provider honours one request. -/
structure Provider where
  asked : List Ask := []
  honoured : List Ask := []

def Provider.ask (p : Provider) (a : Ask) : Provider := { p with asked := p.asked ++ [a] }

def Provider.honour (p : Provider) (n : Nat) : Provider :=
  match p.asked[n]? with
  | none => p
  | some a =>
    if p.honoured.any (fun b => b.key = a.key) then p
    else { p with honoured := a :: p.honoured }

/-- A request that is lost on its way, or turned down. -/
def Provider.decline (p : Provider) (n : Nat) : Provider := { p with asked := p.asked.eraseIdx n }

/-- The store, and the part of the provider that refunds. -/
structure Desk (F : Fence) where
  store : Store F
  provider : Provider

inductive Call where
  | prepare (p : Prepare) (access : Access)
  | cancelIntent (vorgang : String)
  | purchase (vorgang pruefsumme : String) (identity : ExecutionIdentity) (access : Access)
  | reconcile (vorgang : String) (access : Access)
  | refund (vorgang : String) (amountMinor : Nat) (identity : ExecutionIdentity) (access : Access)
  | orderCancel (vorgang : String) (identity : ExecutionIdentity) (access : Access)
  | putInstrument (i : Instrument)
  | deleteInstrument (ref : String)
  /-- The provider honours a request for a refund. -/
  | honour (n : Nat)
  | decline (n : Nat)

/-- The key of an action that follows a purchase: its own approval's, else one
that is derived from the purchase. -/
def followingKey (identity : ExecutionIdentity) (capability detail executionId : String) :
    Option String :=
  if identity.usable ∧ identity.capability = capability then some identity.idempotencyKey
  else idempotencyKeyFor executionId (capability ++ detail)

def Refunding.ask {F : Fence} (r : Refunding F) : Ask :=
  ⟨r.key, r.intent.paymentIntentId, r.chargeRef, r.wanted⟩

namespace Store

variable {F : Fence}

/-- `refund`, up to the provider. -/
def refund? (s : Store F) (vorgang : String) (amountMinor : Nat) (identity : ExecutionIdentity)
    (access : Access) : Option (Refunding F) :=
  match s.intent? (stripped vorgang) with
  | none => none
  | some intent =>
    if h : intent.state.settled = true then
      match s.instrument? intent.paymentMethodRef, s.chargedRow intent.paymentIntentId with
      | some instrument, some charged =>
        let booked := charged.amountMinor
        let already := s.refundedMinor intent.paymentIntentId
        let wanted := if amountMinor = 0 then booked - already else amountMinor
        if hw : 0 < wanted ∧ already + wanted ≤ booked then
          match followingKey identity "refund_request" s!"|{already}|{wanted}"
              intent.executionId with
          | none => none
          | some key =>
            if access.configured && access.lent then
              some ⟨intent, h, instrument, booked, already, wanted, hw, key, charged.providerRef⟩
            else none
        else none
      | _, _ => none
    else none

def refundState (r : Refunding F) (amountMinor : Nat) : PaymentState :=
  if r.booked ≤ r.already + amountMinor then .refunded else .partiallyRefunded

theorem refundState_follows (r : Refunding F) (amountMinor : Nat) :
    r.intent.state.canTransition (refundState r amountMinor) = true := by
  unfold refundState
  split
  · exact (PaymentState.settled_refunds r.settled).2
  · exact (PaymentState.settled_refunds r.settled).1

/-- The rest of `refund`: the state is written before the row. -/
def refundAnswered (s : Store F) (r : Refunding F) (refunded : ProviderRefund) (now : Time) :
    Store F :=
  if refunded.refundRef ≠ "" ∧ s.refundAlreadyBooked r.intent.paymentIntentId refunded.refundRef
  then s
  else
    let s := s.putIntent (r.intent.withState (refundState r refunded.amountMinor)
      (refundState_follows r _))
    match s.record now
        { paymentIntentId := r.intent.paymentIntentId, event := .refunded,
          amountMinor := refunded.amountMinor, currency := refunded.currency,
          instrumentRef := r.instrument.paymentRef, executionId := r.intent.executionId }
        refunded.refundRef with
    | .ok s => s
    | .error _ => s

/-- `cancel_order`, up to the provider. -/
def orderCancel? (s : Store F) (vorgang : String) (identity : ExecutionIdentity)
    (access : Access) : Option (Cancelling F) :=
  match s.intent? (stripped vorgang) with
  | none => none
  | some intent =>
    if intent.state.settled then
      match s.instrument? intent.paymentMethodRef, s.chargedRow intent.paymentIntentId with
      | some instrument, some charged =>
        match followingKey identity "purchase_cancel" "" intent.executionId with
        | none => none
        | some key =>
          if access.configured && access.lent then
            some ⟨intent, instrument, key, charged.providerRef⟩
          else none
      | _, _ => none
    else none

def orderCancelled (s : Store F) (c : Cancelling F) (now : Time) : Store F :=
  s.book now
    { paymentIntentId := c.intent.paymentIntentId, event := .cancelled,
      instrumentRef := c.instrument.paymentRef, executionId := c.intent.executionId }

def deleteInstrument (s : Store F) (ref : String) : Store F :=
  { s with instruments := s.instruments.delete ref }

end Store

namespace Desk

variable {F : Fence}

def start (c : Call) (now : Time) (d : Desk F) : Option (Frame F) × Desk F :=
  match c with
  | .prepare p access =>
    let r := d.store.prepare p access now
    (r.1, { d with store := r.2 })
  | .cancelIntent vorgang => (none, { d with store := d.store.cancelIntent vorgang now })
  | .purchase vorgang pruefsumme identity access =>
    let r := d.store.purchase vorgang pruefsumme identity access now
    (r.1, { d with store := r.2 })
  | .reconcile vorgang access => (d.store.reconcile vorgang access, d)
  | .refund vorgang amountMinor identity access =>
    match d.store.refund? vorgang amountMinor identity access with
    | none => (none, d)
    | some r => (some (.refunding r), { d with provider := d.provider.ask r.ask })
  | .orderCancel vorgang identity access =>
    ((d.store.orderCancel? vorgang identity access).map .cancelling, d)
  | .putInstrument i => (none, { d with store := d.store.putInstrument i })
  | .deleteInstrument ref => (none, { d with store := d.store.deleteInstrument ref })
  | .honour n => (none, { d with provider := d.provider.honour n })
  | .decline n => (none, { d with provider := d.provider.decline n })

/-- Nothing waits twice. -/
def resume (f : Frame F) (a : Answer) (now : Time) (d : Desk F) : Option (Frame F) × Desk F :=
  match f, a with
  | .quoting q, .quoted p => (none, { d with store := d.store.present q p now })
  | .charging c, a => (none, { d with store := d.store.chargeAnswered c a now })
  | .lookingUp l, a => (none, { d with store := d.store.lookupAnswered l a now })
  | .refunding r, .refunded p => (none, { d with store := d.store.refundAnswered r p now })
  | .cancelling c, .orderCancelled => (none, { d with store := d.store.orderCancelled c now })
  | _, _ => (none, d)

end Desk

/-- The payments of one process. -/
abbrev payments (F : Fence) : EventLoop (Desk F) where
  Frame := Frame F
  Call := Call
  Answer := Answer
  start := Desk.start
  resume := Desk.resume
  init := ⟨.empty, {}⟩

end Solvio.Payment
