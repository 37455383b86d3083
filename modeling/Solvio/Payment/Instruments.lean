import Solvio.Payment.Intent

namespace Solvio.Payment
open Solvio.Lib

inductive InstrumentKind where
  | virtualCard
  | providerToken
  | merchantSaved
  | wallet
deriving DecidableEq

inductive InstrumentStatus where
  | active
  | disabled
  | revoked
  | revalidationRequired
deriving DecidableEq

def canPay (status : InstrumentStatus) : Bool := status = .active

inductive Denied where
  | notActive
  | currencyNotAllowed
  | merchantNotAllowed
  | singleLimitExceeded
  | dailyLimitExceeded
deriving DecidableEq

def Denied.value : Denied → String
  | notActive => "not_active"
  | currencyNotAllowed => "currency_not_allowed"
  | merchantNotAllowed => "merchant_not_allowed"
  | singleLimitExceeded => "single_limit_exceeded"
  | dailyLimitExceeded => "daily_limit_exceeded"

structure Instrument where
  paymentRef : String
  kind : InstrumentKind
  provider : String
  status : InstrumentStatus := .active
  maxSingleMinor : Nat
  /-- Zero is no daily limit. -/
  dailyTotalMinor : Nat := 0
  allowedCurrencies : List String := []
  allowedMerchantIds : List String := []
  providerSecretRef : String := ""
  providerReadonlyRef : String := ""
  providerRefundRef : String := ""
  providerToken : String := ""
  version : Nat := 1
  displayName : String := ""
  displayHint : String := ""
deriving DecidableEq

instance : Keyed Instrument String := ⟨Instrument.paymentRef⟩

/-- `evaluate`, of a currency that is normalised already: `none` allows the
payment. -/
def evaluate (i : Instrument) (currency merchantId : String) (amountMinor dayTotalMinor : Nat) :
    Option Denied :=
  let wanted := String.ofList (asciiLower (stripped merchantId).toList)
  if ¬ canPay i.status then some .notActive
  else if currency ∉ i.allowedCurrencies then some .currencyNotAllowed
  else if wanted = "" ∨ wanted ∉ i.allowedMerchantIds then some .merchantNotAllowed
  else if amountMinor = 0 ∨ i.maxSingleMinor < amountMinor then some .singleLimitExceeded
  else if i.dailyTotalMinor ≠ 0 ∧ i.dailyTotalMinor < dayTotalMinor + amountMinor then
    some .dailyLimitExceeded
  else none

/-- A payment that is allowed stays within both limits. -/
theorem evaluate_none {i : Instrument} {currency merchantId : String}
    {amountMinor dayTotalMinor : Nat}
    (h : evaluate i currency merchantId amountMinor dayTotalMinor = none) :
    canPay i.status = true ∧ currency ∈ i.allowedCurrencies ∧ 0 < amountMinor ∧
      amountMinor ≤ i.maxSingleMinor ∧
      (i.dailyTotalMinor ≠ 0 → dayTotalMinor + amountMinor ≤ i.dailyTotalMinor) := by
  simp only [evaluate] at h
  split_ifs at h with h1 h2 h3 h4 h5
  refine ⟨by simpa using h1, by simpa using h2, by omega, by omega, fun hd => ?_⟩
  by_contra hlt
  exact h5 ⟨hd, Nat.lt_of_not_le hlt⟩

end Solvio.Payment
