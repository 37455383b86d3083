import Solvio.Lib.Json
import Solvio.Lib.PyString
import Solvio.Lib.Table
import Solvio.Approval.Execution

namespace Solvio.Payment
open Solvio.Lib Solvio.Approval

theorem hex_digit_not_blank {n : Nat} (h : n < 16) : isSpace (hexDigit n) = false := by
  interval_cases n <;> decide

/-- A digest has nothing that `str.strip` takes away. -/
theorem stripped_hexdigest (b : Bytes) : stripped (hexdigest b) = hexdigest b := by
  unfold stripped hexdigest toHex
  rw [String.toList_ofList, strip_none]
  intro c hc
  obtain ⟨x, -, hx⟩ := List.mem_flatMap.mp hc
  have hlt := x.toNat_lt
  simp only [List.mem_cons, List.not_mem_nil, or_false] at hx
  rcases hx with rfl | rfl
  · exact hex_digit_not_blank (by omega)
  · exact hex_digit_not_blank (by omega)

/-- Clock readings in milliseconds. -/
abbrev Time := Int

/-- `is_payment_material`: what may not be written down. Any such fence will
do, as long as it lets the empty text pass. -/
structure Fence where
  refuses : String → Bool
  empty : refuses "" = false

/-- A text that has passed the fence. -/
def Fence.Cleared (F : Fence) : Type := { s : String // F.refuses s = false }

instance (F : Fence) : DecidableEq F.Cleared :=
  inferInstanceAs (DecidableEq { s : String // F.refuses s = false })

def Fence.clear? (F : Fence) (s : String) : Option F.Cleared :=
  if h : F.refuses s = false then some ⟨s, h⟩ else none

def Fence.blank (F : Fence) : F.Cleared := ⟨"", F.empty⟩

inductive PaymentState where
  | draft
  | quoted
  | readyForApproval
  | approved
  | executing
  | awaitingSca
  | succeeded
  | failed
  | reconciliationRequired
  | cancelled
  | expired
  | partiallyRefunded
  | refunded
deriving DecidableEq

namespace PaymentState

def value : PaymentState → String
  | draft => "draft"
  | quoted => "quoted"
  | readyForApproval => "ready_for_approval"
  | approved => "approved"
  | executing => "executing"
  | awaitingSca => "awaiting_sca"
  | succeeded => "succeeded"
  | failed => "failed"
  | reconciliationRequired => "reconciliation_required"
  | cancelled => "cancelled"
  | expired => "expired"
  | partiallyRefunded => "partially_refunded"
  | refunded => "refunded"

/-- `TERMINAL_STATES`. -/
def terminal : PaymentState → Bool
  | failed | cancelled | expired | refunded => true
  | _ => false

/-- `TRANSITIONS`. -/
def transitions : PaymentState → List PaymentState
  | draft => [quoted, cancelled, expired, failed]
  | quoted => [quoted, readyForApproval, cancelled, expired, failed]
  | readyForApproval => [quoted, approved, cancelled, expired, failed]
  | approved => [executing, cancelled, expired, failed]
  | executing => [succeeded, failed, awaitingSca, reconciliationRequired]
  | awaitingSca => [succeeded, failed, reconciliationRequired, expired]
  | reconciliationRequired => [succeeded, failed]
  | succeeded => [partiallyRefunded, refunded]
  | partiallyRefunded => [partiallyRefunded, refunded]
  | failed | cancelled | expired | refunded => []

def canTransition (current target : PaymentState) : Bool := target ∈ current.transitions

theorem terminal_stays {s : PaymentState} (h : s.terminal = true) (t : PaymentState) :
    canTransition s t = false := by
  cases s <;> simp_all [terminal, canTransition, transitions]

/-- The gate of `cancel_intent`. -/
def cancellable : PaymentState → Bool
  | draft | quoted | readyForApproval | approved => true
  | _ => false

/-- The gate of `with_quote`. -/
def quotable : PaymentState → Bool
  | draft | quoted | readyForApproval => true
  | _ => false

/-- The gate of `reconcile`: whether money has moved is open. -/
def unresolved : PaymentState → Bool
  | reconciliationRequired | awaitingSca | executing => true
  | _ => false

/-- The gate of a refund and of an order's cancellation. -/
def settled : PaymentState → Bool
  | succeeded | partiallyRefunded => true
  | _ => false

theorem cancellable_cancels {s : PaymentState} (h : s.cancellable = true) :
    canTransition s .cancelled = true := by
  cases s <;> simp_all [cancellable, canTransition, transitions]

theorem unresolved_succeeds {s : PaymentState} (h : s.unresolved = true) :
    canTransition s .succeeded = true := by
  cases s <;> simp_all [unresolved, canTransition, transitions]

theorem unresolved_fails {s : PaymentState} (h : s.unresolved = true) :
    canTransition s .failed = true := by
  cases s <;> simp_all [unresolved, canTransition, transitions]

theorem settled_refunds {s : PaymentState} (h : s.settled = true) :
    canTransition s .partiallyRefunded = true ∧ canTransition s .refunded = true := by
  cases s <;> simp_all [settled, canTransition, transitions]

end PaymentState

structure LineItem (F : Fence) where
  description : F.Cleared
  quantity : Nat
  unitAmountMinor : Nat
  itemId : String := ""
deriving DecidableEq

def LineItem.totalMinor {F : Fence} (i : LineItem F) : Nat := i.quantity * i.unitAmountMinor

inductive ExtraKind where
  | shipping
  | tax
  | tip
  | donation
  | warranty
  | insurance
  | subscription
  | fee
  | discount
deriving DecidableEq

namespace ExtraKind

def value : ExtraKind → String
  | shipping => "shipping"
  | tax => "tax"
  | tip => "tip"
  | donation => "donation"
  | warranty => "warranty"
  | insurance => "insurance"
  | subscription => "subscription"
  | fee => "fee"
  | discount => "discount"

def all : List ExtraKind :=
  [shipping, tax, tip, donation, warranty, insurance, subscription, fee, discount]

/-- `ExtraKind(kind)`: `none` is its `ValueError`. -/
def ofValue (kind : String) : Option ExtraKind := all.find? (fun k => k.value = kind)

end ExtraKind

structure Extra where
  kind : ExtraKind
  amountMinor : Int
  label : String
deriving DecidableEq

/-- The amount as the provider has confirmed it. A quote moves a positive
amount, or there is none. -/
structure PaymentQuote where
  currency : String
  itemsTotalMinor : Nat
  extras : List Extra
  totalMinor : Nat
  positive : 0 < totalMinor
  version : Nat
  quotedAt : Time
  quoteRef : String
  chargedCurrency : String
  chargedTotalMinor : Nat
deriving DecidableEq

/-- Everything but `state`, `quote` and the identifiers of the execution stays
as it was made. -/
structure PaymentIntent (F : Fence) where
  paymentIntentId : String
  requestedBy : String := "model"
  origin : String
  merchantId : String
  merchantOrigin : String
  currency : String
  paymentMethodRef : String
  purpose : F.Cleared
  items : List (LineItem F)
  createdAt : Time
  expiresAt : Time
  agentExpectedTotalMinor : Nat
  shippingLabel : String
  shippingDestinationSha256 : String := ""
  state : PaymentState := .draft
  quote : Option PaymentQuote := none
  executionId : String := ""
  approvalId : String := ""
deriving DecidableEq

instance {F : Fence} : Keyed (PaymentIntent F) String := ⟨PaymentIntent.paymentIntentId⟩

/-! ### What an approval is about -/

structure Merchant where
  merchantId : String
  displayName : String
  origin : String

/-- `MERCHANTS`. -/
def merchants : List Merchant :=
  [⟨"sandbox-shop", "SOLVIO Testladen", "https://sandbox.solvio.invalid"⟩]

def merchantForId (merchantId : String) : Option Merchant :=
  merchants.find? (fun m => m.merchantId = String.ofList (asciiLower (stripped merchantId).toList))

namespace PaymentIntent

variable {F : Fence}

def isExpired (i : PaymentIntent F) (now : Time) : Bool := i.expiresAt ≠ 0 && i.expiresAt ≤ now

def merchantDisplayName (i : PaymentIntent F) : String :=
  ((merchantForId i.merchantId).map Merchant.displayName).getD i.merchantId

def totalQuantity (i : PaymentIntent F) : Nat := (i.items.map LineItem.quantity).sum

/-- A row that has moved to a state its own state leads to. -/
def withState (i : PaymentIntent F) (target : PaymentState)
    (_ : i.state.canTransition target = true) : PaymentIntent F := { i with state := target }

/-- `with_quote`, for an intent that may be quoted. -/
def withQuote (i : PaymentIntent F) (quote : PaymentQuote) (_ : i.state.quotable = true) :
    PaymentIntent F :=
  { i with
    quote := some { quote with version := match i.quote with
      | none => 1
      | some q => q.version + 1 }
    state := .quoted }

end PaymentIntent

/-- Python's text of a time in seconds. -/
def secondsText (t : Time) : List Char :=
  let ms := t.natAbs
  let frac := Json.decimal (1000 + ms % 1000)
  let digits := (frac.drop 1).reverse.dropWhile (· = '0')
  (if t < 0 then ['-'] else []) ++ Json.decimal (ms / 1000) ++
    '.' :: if digits = [] then ['0'] else digits.reverse

def LineItem.asDict {F : Fence} (i : LineItem F) : Json :=
  .obj [Json.field "description" (Json.string i.description.val),
    Json.field "quantity" (.int i.quantity),
    Json.field "unit_amount_minor" (.int i.unitAmountMinor),
    Json.field "total_minor" (.int i.totalMinor), Json.field "item_id" (Json.string i.itemId)]

def Extra.asDict (e : Extra) : Json :=
  .obj [Json.field "kind" (Json.string e.kind.value), Json.field "amount_minor" (.int e.amountMinor),
    Json.field "label" (Json.string e.label)]

namespace PaymentQuote

def computedTotalMinor (q : PaymentQuote) : Int :=
  q.itemsTotalMinor + (q.extras.map Extra.amountMinor).sum

def reconciles (q : PaymentQuote) : Bool := q.computedTotalMinor = q.totalMinor

end PaymentQuote

namespace PaymentIntent

variable {F : Fence}

/-- `economic_effect`, which needs a confirmed amount. -/
def economicEffect (i : PaymentIntent F) (q : PaymentQuote) : Json :=
  .obj [Json.field "payment_intent_id" (Json.string i.paymentIntentId),
    Json.field "purpose" (Json.string i.purpose.val),
    Json.field "merchant_id" (Json.string i.merchantId),
    Json.field "merchant_origin" (Json.string i.merchantOrigin),
    Json.field "merchant_display_name" (Json.string i.merchantDisplayName),
    Json.field "payment_method_ref" (Json.string i.paymentMethodRef),
    Json.field "currency" (Json.string q.currency),
    Json.field "total_minor" (.int q.totalMinor),
    Json.field "items_total_minor" (.int q.itemsTotalMinor),
    Json.field "extras" (.arr
      ((q.extras.insertionSort (fun a b => a.kind.value ≤ b.kind.value)).map Extra.asDict)),
    Json.field "items" (.arr (i.items.map LineItem.asDict)),
    Json.field "total_quantity" (.int i.totalQuantity),
    Json.field "shipping_label" (Json.string i.shippingLabel),
    Json.field "shipping_destination_sha256" (Json.string i.shippingDestinationSha256),
    Json.field "charged_currency" (Json.string q.chargedCurrency),
    Json.field "charged_total_minor" (.int q.chargedTotalMinor),
    Json.field "recurring" (.bool false),
    Json.field "quote_version" (.int q.version),
    Json.field "totals_agree" (.bool q.reconciles),
    Json.field "expires_at" (.float (secondsText i.expiresAt))]

def economicDigest (i : PaymentIntent F) (q : PaymentQuote) : String :=
  hexdigest (encodeUtf8 "SOLVIO_PAYMENT_ECONOMIC_V1" ++ 0 ::
    encodeUtf8 (String.ofList (i.economicEffect q).sortKeys.render))

end PaymentIntent

end Solvio.Payment
