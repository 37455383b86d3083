import Solvio.Payment.Executor
import Solvio.Payment.Instruments

namespace Solvio.Payment
open Solvio.Lib

/-- A payment as `evaluate` is asked about it. -/
structure Wanted where
  currency : String
  merchantId : String
  amountMinor : Int
  dayTotalMinor : Int := 0
deriving DecidableEq

namespace Instrument

/-- `evaluate`, of everything it may be asked; `none` allows the payment. -/
def verdict (i : Instrument) (p : Wanted) : Option Denied :=
  if ¬ canPay i.status then some .notActive
  else
    match normalizeCurrency p.currency with
    | none => some .currencyNotAllowed
    | some code =>
      let wanted := String.ofList (asciiLower (stripped p.merchantId).toList)
      if code ∉ i.allowedCurrencies then some .currencyNotAllowed
      else if wanted = "" ∨ wanted ∉ i.allowedMerchantIds then some .merchantNotAllowed
      else if p.amountMinor ≤ 0 then some .singleLimitExceeded
      else if (i.maxSingleMinor : Int) < p.amountMinor then some .singleLimitExceeded
      else if i.dailyTotalMinor ≠ 0 ∧
          (i.dailyTotalMinor : Int) < max 0 p.dayTotalMinor + p.amountMinor then
        some .dailyLimitExceeded
      else none

def allows (i : Instrument) (p : Wanted) : Prop := i.verdict p = none

instance (i : Instrument) (p : Wanted) : Decidable (i.allows p) :=
  inferInstanceAs (Decidable (i.verdict p = none))

/-- The checks that come before the limits. -/
def reaches (i : Instrument) (currency merchantId : String) : Prop :=
  canPay i.status = true ∧ (∃ code, normalizeCurrency currency = some code ∧
    code ∈ i.allowedCurrencies) ∧
  String.ofList (asciiLower (stripped merchantId).toList) ≠ "" ∧
  String.ofList (asciiLower (stripped merchantId).toList) ∈ i.allowedMerchantIds

/-- Of an amount and a total in cents, the executor's check is the same one. -/
theorem verdict_evaluate (i : Instrument) {currency code : String} (merchantId : String)
    (amount total : Nat) (hcode : normalizeCurrency currency = some code) :
    i.verdict ⟨currency, merchantId, amount, total⟩ = evaluate i code merchantId amount total := by
  have hzero : ((amount : Int) ≤ 0) ↔ amount = 0 := by omega
  have hsingle : ((i.maxSingleMinor : Int) < amount) ↔ i.maxSingleMinor < amount := by omega
  have hday : ((i.dailyTotalMinor : Int) < max 0 (total : Int) + amount) ↔
      i.dailyTotalMinor < total + amount := by omega
  simp only [verdict, evaluate, hcode, hzero, hsingle, hday]
  by_cases h0 : amount = 0
  · simp [h0]
  · by_cases h1 : i.maxSingleMinor < amount
    · simp [h1]
    · simp [h0, h1]

theorem allows_iff {i : Instrument} {p : Wanted} :
    i.allows p ↔ i.reaches p.currency p.merchantId ∧ 0 < p.amountMinor ∧
      p.amountMinor ≤ i.maxSingleMinor ∧
      (i.dailyTotalMinor = 0 ∨ max 0 p.dayTotalMinor + p.amountMinor ≤ i.dailyTotalMinor) := by
  constructor
  · intro h
    unfold allows verdict at h
    split at h
    · cases h
    rename_i hpay
    split at h
    · cases h
    rename_i code hcode
    dsimp only at h
    split_ifs at h with hin hmerchant hpos hsingle hday
    rw [not_or, not_not] at hmerchant
    rw [not_and_or, not_not, not_lt] at hday
    exact ⟨⟨by simpa using hpay, ⟨code, hcode, by simpa using hin⟩, hmerchant⟩, not_le.mp hpos,
      not_lt.mp hsingle, hday⟩
  · rintro ⟨⟨hpay, ⟨code, hcode, hin⟩, hmerchant⟩, hpos, hsingle, hday⟩
    unfold allows verdict
    rw [if_neg (by simp [hpay]), hcode]
    dsimp only
    rw [if_neg (not_not.mpr hin), if_neg (by rw [not_or, not_not]; exact hmerchant),
      if_neg (not_le.mpr hpos), if_neg (not_lt.mpr hsingle), if_neg]
    rw [not_and_or, not_not, not_lt]
    exact hday

/-- The order of limits, in which no daily limit is the widest. -/
def tighter (u i : Instrument) : Prop :=
  u.maxSingleMinor ≤ i.maxSingleMinor ∧
    (i.dailyTotalMinor ≠ 0 → u.dailyTotalMinor ≠ 0 ∧ u.dailyTotalMinor ≤ i.dailyTotalMinor)

/-- Everything but the limits is the same. -/
def sameScope (u i : Instrument) : Prop :=
  u.status = i.status ∧ u.allowedCurrencies = i.allowedCurrencies ∧
    u.allowedMerchantIds = i.allowedMerchantIds

theorem sameScope.reaches {u i : Instrument} (h : u.sameScope i) (currency merchantId : String) :
    u.reaches currency merchantId ↔ i.reaches currency merchantId := by
  obtain ⟨h1, h2, h3⟩ := h
  rw [Instrument.reaches, h1, h2, h3]
  rfl

/-- Tighter limits allow nothing new. -/
theorem tighter.allows {u i : Instrument} (h : u.tighter i) (hscope : u.sameScope i) {p : Wanted}
    (hu : u.allows p) : i.allows p := by
  rw [allows_iff] at hu ⊢
  obtain ⟨hreach, hpos, hsingle, hday⟩ := hu
  obtain ⟨hlimit, hcap⟩ := h
  refine ⟨(hscope.reaches _ _).mp hreach, hpos, by omega, ?_⟩
  by_cases h0 : i.dailyTotalMinor = 0
  · exact .inl h0
  · obtain ⟨hne, hle⟩ := hcap h0
    exact .inr (by omega)

/-- Limits that are not tighter allow something new, unless the daily limit
hides the raised one. -/
theorem allows_more {u i : Instrument} (hscope : u.sameScope i) (hpos : 0 < u.maxSingleMinor)
    {currency merchantId : String} (hreach : i.reaches currency merchantId)
    (hnot : ¬ u.tighter i)
    (hshown : u.maxSingleMinor ≤ i.maxSingleMinor ∨ u.dailyTotalMinor = 0 ∨
      i.maxSingleMinor < u.dailyTotalMinor) :
    ∃ p, u.allows p ∧ ¬ i.allows p := by
  have hureach := (hscope.reaches _ _).mpr hreach
  simp only [allows_iff]
  by_cases hd : i.dailyTotalMinor ≠ 0 ∧ u.dailyTotalMinor = 0
  · -- a day that is full already
    refine ⟨⟨currency, merchantId, 1, i.dailyTotalMinor⟩, ⟨hureach, Int.one_pos, ?_, .inl hd.2⟩, ?_⟩
    · change (1 : Int) ≤ u.maxSingleMinor
      omega
    · rintro ⟨-, -, -, h⟩
      dsimp only at h
      omega
  by_cases hr : i.dailyTotalMinor ≠ 0 ∧ i.dailyTotalMinor < u.dailyTotalMinor
  · -- the last cent that the new day leaves
    refine ⟨⟨currency, merchantId, 1, u.dailyTotalMinor - 1⟩, ⟨hureach, Int.one_pos, ?_, .inr ?_⟩, ?_⟩
    · change (1 : Int) ≤ u.maxSingleMinor
      omega
    · dsimp only
      omega
    · rintro ⟨-, -, -, h⟩
      dsimp only at h
      omega
  -- one cent more than a single payment was
  have hraised : i.maxSingleMinor < u.maxSingleMinor := by
    by_contra hle
    exact hnot ⟨by omega, fun h0 => ⟨fun hu => hd ⟨h0, hu⟩, by omega⟩⟩
  refine ⟨⟨currency, merchantId, i.maxSingleMinor + 1, 0⟩, ⟨hureach, ?_, ?_, ?_⟩, ?_⟩
  · dsimp only
    omega
  · dsimp only
    omega
  · dsimp only
    omega
  · rintro ⟨-, -, h, -⟩
    dsimp only at h
    omega

end Instrument

/-! ### Setting the limits -/

/-- `_wider`. -/
def wider (new old : List String) : Bool := new.any (fun x => decide (x ∉ old))

theorem wider_self (xs : List String) : wider xs xs = false := by
  simp [wider]

/-- `widens`: is anything of the new instrument beyond the old one? -/
def widens (previous following : Instrument) : Bool :=
  if previous.maxSingleMinor < following.maxSingleMinor then true
  else if previous.dailyTotalMinor ≠ 0 ∧ following.dailyTotalMinor = 0 then true
  else if previous.dailyTotalMinor < following.dailyTotalMinor then true
  else if wider following.allowedCurrencies previous.allowedCurrencies then true
  else if wider following.allowedMerchantIds previous.allowedMerchantIds then true
  else if ¬ canPay previous.status ∧ canPay following.status then true
  else false

/-- What the interpreter takes for digits, and the number that it reads of
them; `none` is its `ValueError`. -/
structure Numerals where
  isdigit : Char → Bool
  int : List Char → Option Nat

/-- `_minor`. -/
def Numerals.minor (N : Numerals) (text : Option String) (what : String) : Except String Nat :=
  let raw := (stripped (text.getD "")).toList
  if raw = [] then .ok 0
  else if ¬ raw.all N.isdigit then .error (what ++ "_not_an_integer")
  else
    match N.int raw with
    | none => .error "ValueError"
    | some value => if 100000000 < value then .error (what ++ "_out_of_range") else .ok value

inductive Direction where
  | lower | raise
deriving DecidableEq

/-- The instrument with the limits that a call names. A single limit of zero,
and a daily one that is not named, stay what they are. -/
def requestedLimits (N : Numerals) (i : Instrument) (single daily : Option String) :
    Except String Instrument := do
  let singleMinor ← N.minor single "grenze_einzeln"
  let dailyMinor ← N.minor daily "grenze_taeglich"
  .ok { i with
    maxSingleMinor := if singleMinor ≠ 0 then singleMinor else i.maxSingleMinor
    dailyTotalMinor := if daily.getD "" ≠ "" then dailyMinor else i.dailyTotalMinor
    version := i.version + 1 }

/-- `_set_limits`, up to the row that is written. -/
def setLimits (N : Numerals) (i : Instrument) (single daily : Option String)
    (direction : Direction) : Except String Instrument := do
  let updated ← requestedLimits N i single daily
  let widened := widens i updated
  if direction = .lower ∧ widened then .error "would_widen"
  else if direction = .raise ∧ ¬ widened then .error "nothing_raised"
  else .ok updated

theorem requested_scope {N : Numerals} {i u : Instrument} {single daily : Option String}
    (h : requestedLimits N i single daily = .ok u) :
    u.sameScope i ∧ (0 < i.maxSingleMinor → 0 < u.maxSingleMinor) := by
  unfold requestedLimits at h
  cases hs : N.minor single "grenze_einzeln" with
  | error e => rw [hs] at h; cases h
  | ok s =>
    cases hd : N.minor daily "grenze_taeglich" with
    | error e => rw [hs, hd] at h; cases h
    | ok d =>
      rw [hs, hd] at h
      cases h
      refine ⟨⟨rfl, rfl, rfl⟩, fun hpos => ?_⟩
      dsimp only
      split
      · omega
      · exact hpos

/-- Of limits alone, `widens` compares two numbers and the missing limit. -/
theorem widens_limits {u i : Instrument} (h : u.sameScope i) :
    widens i u = true ↔ i.maxSingleMinor < u.maxSingleMinor ∨
      (i.dailyTotalMinor ≠ 0 ∧ u.dailyTotalMinor = 0) ∨ i.dailyTotalMinor < u.dailyTotalMinor := by
  obtain ⟨hstatus, hcurrencies, hmerchants⟩ := h
  unfold widens
  simp only [hstatus, hcurrencies, hmerchants, wider_self]
  split
  · rename_i h1
    exact iff_of_true rfl (.inl h1)
  rename_i h1
  split
  · rename_i h2
    exact iff_of_true rfl (.inr (.inl h2))
  rename_i h2
  split
  · rename_i h3
    exact iff_of_true rfl (.inr (.inr h3))
  rename_i h3
  simp only [Bool.false_eq_true, if_false]
  refine iff_of_false ?_ (by tauto)
  simp

/-- Where no daily limit is set on an instrument that had none, `widens` is the
order of limits. -/
theorem widens_iff {u i : Instrument} (h : u.sameScope i)
    (hcap : i.dailyTotalMinor = 0 → u.dailyTotalMinor = 0) : widens i u = true ↔ ¬ u.tighter i := by
  rw [widens_limits h]
  unfold Instrument.tighter
  omega

theorem lower_accepts {N : Numerals} {i u : Instrument} {single daily : Option String}
    (h : requestedLimits N i single daily = .ok u) :
    setLimits N i single daily .lower = .ok u ↔ ¬ widens i u = true := by
  unfold setLimits
  rw [h]
  cases hw : widens i u with
  | true => simp [bind, Except.bind, hw]
  | false => simp [bind, Except.bind, hw]

theorem raise_accepts {N : Numerals} {i u : Instrument} {single daily : Option String}
    (h : requestedLimits N i single daily = .ok u) :
    setLimits N i single daily .raise = .ok u ↔ widens i u = true := by
  unfold setLimits
  rw [h]
  cases hw : widens i u with
  | true => simp [bind, Except.bind, hw]
  | false => simp [bind, Except.bind, hw]

/-- An accepted lowering allows nothing new, and what is newly allowed was
raised. Where no daily limit is set on an instrument that had none, lowering
and raising are told apart by the order of limits, which is the order of what
is allowed on a usable instrument whose daily limit hides no raised one. -/
theorem lowering_never_widens (N : Numerals) (i u : Instrument) (single daily : Option String)
    (hpos : 0 < i.maxSingleMinor) (hreq : requestedLimits N i single daily = .ok u) :
    (setLimits N i single daily .lower = .ok u → ∀ p, u.allows p → i.allows p) ∧
    ((∃ p, u.allows p ∧ ¬ i.allows p) → setLimits N i single daily .raise = .ok u) ∧
    ((i.dailyTotalMinor = 0 → u.dailyTotalMinor = 0) →
      (setLimits N i single daily .lower = .ok u ↔ u.tighter i) ∧
      (setLimits N i single daily .raise = .ok u ↔ ¬ u.tighter i) ∧
      ((∃ currency merchantId, i.reaches currency merchantId) →
        (u.maxSingleMinor ≤ i.maxSingleMinor ∨ u.dailyTotalMinor = 0 ∨
          i.maxSingleMinor < u.dailyTotalMinor) →
        (setLimits N i single daily .lower = .ok u ↔ ∀ p, u.allows p → i.allows p) ∧
        (setLimits N i single daily .raise = .ok u ↔ ∃ p, u.allows p ∧ ¬ i.allows p))) := by
  obtain ⟨hscope, hkeeps⟩ := requested_scope hreq
  rw [lower_accepts hreq, raise_accepts hreq]
  have htight : ¬ widens i u = true → u.tighter i := by
    rw [widens_limits hscope]
    unfold Instrument.tighter
    omega
  refine ⟨fun hnot p hu => (htight hnot).allows hscope hu, ?_, fun hcap => ?_⟩
  · rintro ⟨p, hu, hi⟩
    by_contra hnot
    exact hi ((htight hnot).allows hscope hu)
  · rw [widens_iff hscope hcap, not_not]
    refine ⟨Iff.rfl, Iff.rfl, ?_⟩
    rintro ⟨currency, merchantId, hreach⟩ hshown
    have hmore := fun hnot => Instrument.allows_more hscope (hkeeps hpos) hreach hnot hshown
    refine ⟨⟨fun ht p hu => ht.allows hscope hu, fun hall => ?_⟩, hmore, ?_⟩
    · by_contra hnot
      obtain ⟨p, hu, hi⟩ := hmore hnot
      exact hi (hall p hu)
    · rintro ⟨p, hu, hi⟩ ht
      exact hi (ht.allows hscope hu)

section sample

def sampleNumerals : Numerals := ⟨Json.isDigit, fun cs => some (Json.natOfDigits cs)⟩

def sampleLimited : Instrument where
  paymentRef := "pay:card"
  kind := .virtualCard
  provider := "provider"
  maxSingleMinor := 100
  dailyTotalMinor := 50
  allowedCurrencies := ["EUR"]
  allowedMerchantIds := ["shop"]

def sampleUpdated : Instrument := { sampleLimited with maxSingleMinor := 80, version := 2 }

theorem sample_lowered :
    setLimits sampleNumerals sampleLimited (some "80") none .lower = .ok sampleUpdated ∧
    ∀ p, sampleUpdated.allows p → sampleLimited.allows p :=
  ⟨by decide, (lowering_never_widens sampleNumerals sampleLimited sampleUpdated (some "80")
    none (by decide) (by decide)).1 (by decide)⟩

/-- A single limit that is raised behind the daily one counts as raised, though
it allows nothing new. -/
theorem hidden_raise_refused :
    setLimits sampleNumerals sampleLimited (some "200") none .lower = .error "would_widen" ∧
    requestedLimits sampleNumerals sampleLimited (some "200") none =
      .ok { sampleLimited with maxSingleMinor := 200, version := 2 } ∧
    ∀ p, Instrument.allows { sampleLimited with maxSingleMinor := 200, version := 2 } p →
      sampleLimited.allows p := by
  refine ⟨by decide, by decide, fun p hp => ?_⟩
  rw [Instrument.allows_iff] at hp ⊢
  obtain ⟨hreach, hpos, -, hday⟩ := hp
  have hday : 50 = 0 ∨ max 0 p.dayTotalMinor + p.amountMinor ≤ 50 := hday
  refine ⟨hreach, hpos, ?_, .inr ?_⟩
  · change p.amountMinor ≤ 100
    omega
  · change max 0 p.dayTotalMinor + p.amountMinor ≤ 50
    omega

end sample

end Solvio.Payment
