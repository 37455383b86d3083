import Solvio.Payment.Store
import Solvio.Lib.EventLoop

namespace Solvio.Payment
open Solvio.Lib Solvio.Approval

/-- `INTENT_TTL`. -/
def intentTtl : Time := 480000

def ceilingMinor : Nat := 50000

def maxAmountMinor : Nat := 100000000

/-- `EXPONENT_TWO`. -/
def exponentTwo : List String :=
  ["EUR", "USD", "GBP", "CHF", "SEK", "NOK", "DKK", "PLN", "CZK", "CAD", "AUD", "NZD", "SGD",
    "HKD", "ZAR", "BRL", "MXN", "TRY", "ILS", "RON"]

def normalizeCurrency (value : String) : Option String :=
  let code := String.ofList (asciiUpper (stripped value).toList)
  if code ∈ exponentTwo then some code else none

structure ExecutionIdentity where
  executionId : String := ""
  idempotencyKey : String := ""
  approvalId : String := ""
  capability : String := ""
deriving DecidableEq

def ExecutionIdentity.usable (x : ExecutionIdentity) : Bool :=
  x.executionId ≠ "" && x.idempotencyKey ≠ ""

/-! ### What a provider answers -/

structure ProviderQuote where
  quoteRef : String
  currency : String
  itemsTotalMinor : Nat
  extras : List (String × Int × String) := []
  totalMinor : Nat := 0
  chargedCurrency : String := ""
  chargedTotalMinor : Nat := 0
  recurring : Bool := false

inductive ChargeStatus where
  | succeeded
  | declined
  | scaRequired
  | merchantFailed
  | pending
deriving DecidableEq

structure ProviderCharge where
  status : ChargeStatus
  chargeRef : String := ""
  amountMinor : Nat := 0
  currency : String := ""
deriving DecidableEq

structure ProviderRefund where
  refundRef : String
  amountMinor : Nat
  currency : String
deriving DecidableEq

def ExtraKind.label : ExtraKind → String
  | shipping => "Versand"
  | tax => "Steuer"
  | tip => "Trinkgeld"
  | donation => "Spende"
  | warranty => "Garantieverlängerung"
  | insurance => "Versicherung"
  | subscription => "Abonnement"
  | fee => "Gebühr"
  | discount => "Rabatt"

/-- A surcharge without a known name is a refusal. -/
def Extra.make? (entry : String × Int × String) : Option Extra := do
  let kind ← ExtraKind.ofValue entry.1
  let amount := entry.2.1
  if (if kind = .discount then 0 < amount else amount < 0) ∨ maxAmountMinor < amount.natAbs then none
  else some ⟨kind, amount, if entry.2.2 = "" then kind.label else entry.2.2⟩

/-- The quote that an intent in this currency takes from the provider's. -/
def PaymentQuote.make? (currency : String) (p : ProviderQuote) (now : Time) :
    Option PaymentQuote := do
  if p.recurring then none
  let extras ← p.extras.mapM Extra.make?
  let code ← normalizeCurrency p.currency
  let chargedCurrency ←
    if p.chargedCurrency = "" then some "" else normalizeCurrency p.chargedCurrency
  if h : 0 < p.totalMinor ∧ code = currency ∧ p.totalMinor ≤ maxAmountMinor ∧
      p.itemsTotalMinor ≤ maxAmountMinor ∧ extras.length ≤ 20 ∧
      .subscription ∉ extras.map Extra.kind ∧ (extras.map Extra.kind).Nodup ∧
      (if chargedCurrency = "" then p.chargedTotalMinor = 0
        else p.chargedTotalMinor ≤ maxAmountMinor ∧ (chargedCurrency = code →
          p.chargedTotalMinor = 0 ∨ p.chargedTotalMinor = p.totalMinor)) then
    some
      { currency := code, itemsTotalMinor := p.itemsTotalMinor, extras,
        totalMinor := p.totalMinor, positive := h.1, version := 1, quotedAt := now,
        quoteRef := p.quoteRef, chargedCurrency, chargedTotalMinor := p.chargedTotalMinor }
  else none

/-! ### Where a task waits -/

structure Quoting (F : Fence) where
  draft : PaymentIntent F
  isDraft : draft.state = .draft
  unclaimed : draft.executionId = ""

/-- `provider.charge`: the intent is claimed for an execution. -/
structure Charging (F : Fence) where
  running : PaymentIntent F
  executing : running.state = .executing
  quote : PaymentQuote
  quoted : running.quote = some quote
  instrument : Instrument
  identity : ExecutionIdentity
  usable : identity.usable = true
  claimed : running.executionId = identity.executionId

/-- `provider.lookup`, which changes nothing. -/
structure LookingUp (F : Fence) where
  intent : PaymentIntent F
  unresolved : intent.state.unresolved = true
  identified : intent.executionId ≠ ""
  instrument : Instrument
  key : String

/-- `provider.refund`, for no more than was found open. -/
structure Refunding (F : Fence) where
  intent : PaymentIntent F
  settled : intent.state.settled = true
  instrument : Instrument
  booked : Nat
  already : Nat
  wanted : Nat
  isOpen : 0 < wanted ∧ already + wanted ≤ booked
  key : String
  chargeRef : String

/-- `provider.cancel`. -/
structure Cancelling (F : Fence) where
  intent : PaymentIntent F
  instrument : Instrument
  key : String
  chargeRef : String

inductive Frame (F : Fence) where
  | quoting (q : Quoting F)
  | charging (c : Charging F)
  | lookingUp (l : LookingUp F)
  | refunding (r : Refunding F)
  | cancelling (c : Cancelling F)

/-- What `provider.charge` is asked for. -/
structure ChargeRequest where
  idempotencyKey : String
  instrumentToken : String
  merchantId : String
  amountMinor : Nat
  currency : String
  quoteRef : String
  description : String

def Charging.request {F : Fence} (c : Charging F) : ChargeRequest :=
  { idempotencyKey := c.identity.idempotencyKey, instrumentToken := c.instrument.providerToken,
    merchantId := c.running.merchantId, amountMinor := c.quote.totalMinor,
    currency := c.quote.currency, quoteRef := c.quote.quoteRef,
    description := c.running.purpose.val }

inductive Answer where
  | quoted (q : ProviderQuote)
  | charged (c : ProviderCharge)
  | found (c : Option ProviderCharge)
  | refunded (r : ProviderRefund)
  | orderCancelled
  /-- Nothing was sent. -/
  | unavailable
  | failed
  | cancelled

/-- The arguments of `payment_intent_prepare`, read, with the identifier that
is drawn for the intent. -/
structure Prepare where
  paymentIntentId : String
  origin : String
  zahlungsmittel : String
  haendler : String
  waehrung : String
  zweck : String := ""
  posten : List (String × Nat × Nat)
  erwarteterBetrag : Nat := 0
  lieferung : String := ""

/-- What the vault and the configuration have for an instrument: a provider,
and a credential that is lent. -/
structure Access where
  configured : Bool
  lent : Bool

namespace Store

variable {F : Fence}

/-- A row with the provider's text, else without it. -/
def recordOrBlank (s : Store F) (now : Time) (row : Row) (providerRef : String) : Store F :=
  match s.record now row providerRef with
  | .ok s' => s'
  | .error _ => s.book now row

/-! ### Preparing -/

def makeItem (F : Fence) (p : String × Nat × Nat) : Option (LineItem F) :=
  (F.clear? p.1).map (fun d => ⟨d, p.2.1, p.2.2, ""⟩)

/-- The draft of `prepare`; `none` where a check refuses it. -/
def draft? (s : Store F) (p : Prepare) (now : Time) : Option (PaymentIntent F) := do
  let instrument ← s.instrument? (stripped p.zahlungsmittel)
  guard (canPay instrument.status)
  let merchant ← merchantForId p.haendler
  let currency ← normalizeCurrency p.waehrung
  let zweck := stripped p.zweck
  let purpose ← F.clear? (if zweck = "" then merchant.displayName else zweck)
  let items ← p.posten.mapM (makeItem F)
  guard (items ≠ [])
  some
    { paymentIntentId := p.paymentIntentId, origin := p.origin, merchantId := merchant.merchantId,
      merchantOrigin := merchant.origin, currency, paymentMethodRef := instrument.paymentRef,
      purpose, items, createdAt := now, expiresAt := now + intentTtl,
      agentExpectedTotalMinor := p.erwarteterBetrag, shippingLabel := stripped p.lieferung }

theorem draft_fresh {s : Store F} {p : Prepare} {now : Time} {i : PaymentIntent F}
    (h : s.draft? p now = some i) : i.state = .draft ∧ i.paymentIntentId = p.paymentIntentId ∧
      i.quote = none ∧ i.executionId = "" := by
  simp only [draft?, Option.bind_eq_bind, Option.bind_eq_some_iff] at h
  obtain ⟨instrument, -, -, -, merchant, -, currency, -, purpose, -, items, -, -, -, h⟩ := h
  cases h
  exact ⟨rfl, rfl, rfl, rfl⟩

/-- `prepare`, up to the question for the amount. -/
def prepare (s : Store F) (p : Prepare) (access : Access) (now : Time) :
    Option (Frame F) × Store F :=
  match hd : s.draft? p now with
  | none => (none, s)
  | some draft =>
    let s := (s.putIntent draft).book now
      { paymentIntentId := draft.paymentIntentId, event := .created,
        instrumentRef := draft.paymentMethodRef, currency := draft.currency }
    if access.configured && access.lent then
      (some (.quoting ⟨draft, (draft_fresh hd).1, (draft_fresh hd).2.2.2⟩), s)
    else (none, s)

/-- The rest of `prepare`, with the amount that the provider names. -/
def present (s : Store F) (q : Quoting F) (p : ProviderQuote) (now : Time) : Store F :=
  match PaymentQuote.make? q.draft.currency p now with
  | none => s
  | some quote =>
    let fresh := q.draft.withQuote quote (by rw [q.isDraft]; rfl)
    let s := (s.putIntent fresh).recordOrBlank now
      { paymentIntentId := fresh.paymentIntentId, event := .quoted, amountMinor := quote.totalMinor,
        currency := quote.currency, instrumentRef := fresh.paymentMethodRef } quote.quoteRef
    if ceilingMinor < quote.totalMinor then s.putIntent (fresh.withState .cancelled rfl)
    else s.putIntent (fresh.withState .readyForApproval rfl)

def cancelIntent (s : Store F) (vorgang : String) (now : Time) : Store F :=
  match s.intent? (stripped vorgang) with
  | none => s
  | some intent =>
    if h : intent.state.cancellable = true then
      (s.putIntent (intent.withState .cancelled (PaymentState.cancellable_cancels h))).book now
        { paymentIntentId := intent.paymentIntentId, event := .cancelled }
    else s

/-! ### Paying -/

/-- `purchase`, up to the charge: the intent, approved. -/
def approve (s : Store F) (vorgang pruefsumme : String) (identity : ExecutionIdentity)
    (now : Time) : Option (PaymentIntent F × Store F) := do
  guard identity.usable
  let intent ← s.intent? (stripped vorgang)
  let quote ← intent.quote
  guard (intent.economicDigest quote = stripped pruefsumme)
  guard (¬ intent.isExpired now)
  guard (quote.totalMinor ≤ ceilingMinor)
  if h : intent.state = .readyForApproval then
    let intent := { intent.withState .approved (by rw [h]; rfl) with
      approvalId := identity.approvalId }
    some (intent, (s.putIntent intent).book now
      { paymentIntentId := intent.paymentIntentId, event := .approved,
        executionId := identity.executionId, amountMinor := quote.totalMinor,
        currency := quote.currency, instrumentRef := intent.paymentMethodRef })
  else if intent.state = .approved then some (intent, s)
  else none

/-- The charge's row in the store, once the provider may be asked. -/
def claim (s : Store F) (c : Charging F) (access : Access) (now : Time) :
    Option (Frame F) × Store F :=
  let s := s.putIntent c.running
  match s.record now
      { paymentIntentId := c.running.paymentIntentId, event := .claimed,
        amountMinor := c.quote.totalMinor, currency := c.quote.currency,
        instrumentRef := c.instrument.paymentRef, executionId := c.identity.executionId }
      (textPrefix 12 c.identity.idempotencyKey) with
  | .error _ => (none, s)
  | .ok s =>
    if access.lent then (some (.charging c), s)
    else
      (none, (s.putIntent (c.running.withState .failed (by rw [c.executing]; rfl))).book now
        { paymentIntentId := c.running.paymentIntentId, event := .denied,
          executionId := c.identity.executionId, instrumentRef := c.instrument.paymentRef })

/-- `charge`, up to the provider. -/
def charge (s : Store F) (paymentIntentId : String) (identity : ExecutionIdentity)
    (access : Access) (now : Time) : Option (Frame F) × Store F :=
  if hu : identity.usable = true then
    match s.intent? paymentIntentId with
    | none => (none, s)
    | some intent =>
      if h : intent.state = .approved then
        if intent.isExpired now then (none, s)
        else match hq : intent.quote with
          | none => (none, s)
          | some quote =>
            if (s.existingCharge identity.executionId).isSome then (none, s)
            else match s.instrument? intent.paymentMethodRef with
              | none => (none, s)
              | some instrument =>
                if ¬ access.configured then (none, s)
                else match evaluate instrument quote.currency intent.merchantId quote.totalMinor
                    (s.dayTotalMinor instrument.paymentRef quote.currency (utcDay now)) with
                  | some _ =>
                    (none, (s.book now
                      { paymentIntentId := intent.paymentIntentId, event := .denied,
                        instrumentRef := instrument.paymentRef, amountMinor := quote.totalMinor,
                        currency := quote.currency,
                        executionId := identity.executionId }).putIntent
                      (intent.withState .failed (by rw [h]; rfl)))
                  | none =>
                    let running := { intent.withState .executing (by rw [h]; rfl) with
                      executionId := identity.executionId, approvalId := identity.approvalId }
                    s.claim ⟨running, rfl, quote, hq, instrument, identity, hu, rfl⟩ access now
      else (none, s)
  else (none, s)

def purchase (s : Store F) (vorgang pruefsumme : String) (identity : ExecutionIdentity)
    (access : Access) (now : Time) : Option (Frame F) × Store F :=
  match s.approve vorgang pruefsumme identity now with
  | none => (none, s)
  | some (intent, s) => s.charge intent.paymentIntentId identity access now

/-! ### What became of a charge -/

/-- `_settle`, once the charge is in the book. -/
def succeed (s : Store F) (c : Charging F) : Store F :=
  s.putIntent (c.running.withState .succeeded (by rw [c.executing]; rfl))

/-- `_book_charge`: with the provider's text, else without it. A charge that
is in the book already ends here, unless `_existing_charge` no longer sees it. -/
def bookCharge (s : Store F) (c : Charging F) (row : Row) (chargeRef : String) (now : Time) :
    Store F :=
  let replayed := if (s.existingCharge row.executionId).isSome then s else s.succeed c
  match s.record now row chargeRef with
  | .ok s => s.succeed c
  | .error .duplicateCharge => replayed
  | .error .refused => match s.record now row "" with
    | .ok s => s.succeed c
    | .error .duplicateCharge => replayed
    | .error .refused =>
      s.putIntent (c.running.withState .reconciliationRequired (by rw [c.executing]; rfl))

/-- A row that carries the start of the idempotency key; nothing follows where
the fence refuses that. -/
def noteAmbiguous (s : Store F) (c : Charging F) (amountMinor : Nat) (currency : String)
    (now : Time) : Store F :=
  match s.record now
      { paymentIntentId := c.running.paymentIntentId, event := .ambiguous,
        executionId := c.identity.executionId, instrumentRef := c.instrument.paymentRef,
        amountMinor, currency } (textPrefix 12 c.identity.idempotencyKey) with
  | .ok s => s
  | .error _ => s

def settle (s : Store F) (c : Charging F) (charged : ProviderCharge) (now : Time) : Store F :=
  let amountMinor := if charged.amountMinor = 0 then c.quote.totalMinor else charged.amountMinor
  let currency := if charged.currency = "" then c.quote.currency else charged.currency
  let row (event : LedgerEvent) : Row :=
    { paymentIntentId := c.running.paymentIntentId, event, amountMinor, currency,
      instrumentRef := c.instrument.paymentRef, executionId := c.identity.executionId }
  match charged.status with
  | .succeeded => s.bookCharge c (row .charged) charged.chargeRef now
  | .scaRequired =>
    (s.putIntent (c.running.withState .awaitingSca (by rw [c.executing]; rfl))).noteAmbiguous c
      amountMinor currency now
  | .declined =>
    (s.book now (row .declined)).putIntent
      (c.running.withState .failed (by rw [c.executing]; rfl))
  | _ =>
    (s.book now (row .failed)).putIntent (c.running.withState .failed (by rw [c.executing]; rfl))

/-- The rest of `charge`. -/
def chargeAnswered (s : Store F) (c : Charging F) (a : Answer) (now : Time) : Store F :=
  match a with
  | .charged p => s.settle c p now
  | .unavailable =>
    (s.putIntent (c.running.withState .failed (by rw [c.executing]; rfl))).book now
      { paymentIntentId := c.running.paymentIntentId, event := .failed,
        executionId := c.identity.executionId, instrumentRef := c.instrument.paymentRef }
  | .cancelled => s
  | _ =>
    (s.putIntent (c.running.withState .reconciliationRequired
      (by rw [c.executing]; rfl))).noteAmbiguous c c.quote.totalMinor c.quote.currency now

/-! ### Looking it up -/

def reconcile (s : Store F) (vorgang : String) (access : Access) : Option (Frame F) :=
  match s.intent? (stripped vorgang) with
  | none => none
  | some intent =>
    if h : intent.state.unresolved = true then
      if hx : intent.executionId = "" then none
      else match s.instrument? intent.paymentMethodRef with
        | none => none
        | some instrument =>
          if access.configured && access.lent then
            some (.lookingUp ⟨intent, h, hx, instrument,
              (idempotencyKeyFor intent.executionId "purchase_place").getD ""⟩)
          else none
    else none

/-- The charge was found. -/
def foundCharge (s : Store F) (l : LookingUp F) (found : ProviderCharge) (now : Time) : Store F :=
  let close (s : Store F) : Store F :=
    match s.record now
        { paymentIntentId := l.intent.paymentIntentId, event := .reconciled,
          executionId := l.intent.executionId } found.chargeRef with
    | .ok s => s.putIntent (l.intent.withState .succeeded
        (PaymentState.unresolved_succeeds l.unresolved))
    | .error _ => s
  match s.record now
      { paymentIntentId := l.intent.paymentIntentId, event := .charged,
        amountMinor := found.amountMinor, currency := found.currency,
        instrumentRef := l.instrument.paymentRef, executionId := l.intent.executionId }
      found.chargeRef with
  | .ok s => close s
  | .error .duplicateCharge => close s
  | .error .refused => s

def lookupAnswered (s : Store F) (l : LookingUp F) (a : Answer) (now : Time) : Store F :=
  let failed := l.intent.withState .failed (PaymentState.unresolved_fails l.unresolved)
  match a with
  | .found none =>
    (s.putIntent failed).book now
      { paymentIntentId := l.intent.paymentIntentId, event := .reconciled,
        executionId := l.intent.executionId, instrumentRef := l.instrument.paymentRef }
  | .found (some found) => match found.status with
    | .succeeded => s.foundCharge l found now
    | .scaRequired => s
    | _ =>
      (s.putIntent failed).book now
        { paymentIntentId := l.intent.paymentIntentId, event := .reconciled,
          executionId := l.intent.executionId }
  | _ => s

end Store

end Solvio.Payment
