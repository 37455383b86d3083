import Solvio.Payment.Payments

namespace Solvio.Payment
open Solvio.Lib Solvio.Approval

/-- Rows that money is claimed or moves by. -/
def LedgerEvent.money : LedgerEvent → Bool
  | .claimed | .charged | .refunded => true
  | _ => false

/-- A check that a computation passes. -/
theorem guard_passes {α : Type} {p : Prop} [Decidable p] {x : Option α} {b : α} :
    (guard p >>= fun _ => x) = some b ↔ p ∧ x = some b := by
  by_cases h : p <;> simp [guard, h]

namespace Store

variable {F : Fence}

/-- Intents put one after the other, and rows booked, the newest first. -/
def wrote (s : Store F) (puts : List (PaymentIntent F)) (rows : List Row) : Store F :=
  { puts.foldl putIntent s with ledger := rows ++ s.ledger }

@[simp] theorem wrote_nil (s : Store F) : s.wrote [] [] = s := rfl

@[simp] theorem wrote_ledger (s : Store F) (puts : List (PaymentIntent F)) (rows : List Row) :
    (s.wrote puts rows).ledger = rows ++ s.ledger := rfl

@[simp] theorem wrote_instruments (s : Store F) (puts : List (PaymentIntent F)) (rows : List Row) :
    (s.wrote puts rows).instruments = s.instruments := by
  unfold wrote
  induction puts generalizing s with
  | nil => rfl
  | cons i puts ih => exact ih (s.putIntent i)

theorem intent_id {s : Store F} {k : String} {i : PaymentIntent F} (h : s.intent? k = some i) :
    i.paymentIntentId = k := Table.key_of_find h

/-- A row that was read, put back with another state and other identifiers of
its execution. -/
theorem written_back {r i : PaymentIntent F}
    (h : i = { r with
      state := i.state
      quote := i.quote
      executionId := i.executionId
      approvalId := i.approvalId }) : written (some r) i = i := h.symm

theorem book_wrote (s : Store F) (puts : List (PaymentIntent F)) (rows : List Row) (now : Time)
    (row : Row) : (s.wrote puts rows).book now row =
      s.wrote puts ({ row with bookedAt := now, providerRef := "" } :: rows) := rfl

theorem put_wrote (s : Store F) (puts : List (PaymentIntent F)) (rows : List Row)
    (i : PaymentIntent F) : (s.wrote puts rows).putIntent i = s.wrote (puts ++ [i]) rows := by
  simp [wrote, putIntent, intent?]

theorem wrote_put (s : Store F) (i : PaymentIntent F) (rows : List Row) :
    (s.putIntent i).wrote [] rows = s.wrote [i] rows := rfl

/-- What was recorded, if anything. -/
theorem record_wrote {s s' : Store F} {puts : List (PaymentIntent F)} {rows : List Row}
    {now : Time} {row : Row} {ref : String} (h : (s.wrote puts rows).record now row ref = .ok s') :
    s' = s.wrote puts ({ row with bookedAt := now, providerRef := textPrefix 128 ref } :: rows) :=
  (record_ok h).1

theorem recordOrBlank_wrote (s : Store F) (puts : List (PaymentIntent F)) (rows : List Row)
    (now : Time) (row : Row) (ref : String) : ∃ row' : Row, row'.event = row.event ∧
      row'.paymentIntentId = row.paymentIntentId ∧
      (s.wrote puts rows).recordOrBlank now row ref = s.wrote puts (row' :: rows) := by
  unfold recordOrBlank
  split
  · rename_i s' h
    exact ⟨{ row with bookedAt := now, providerRef := textPrefix 128 ref }, rfl, rfl,
      record_wrote h⟩
  · exact ⟨{ row with bookedAt := now, providerRef := "" }, rfl, rfl, rfl⟩

/-! ### What a segment writes -/

theorem present_wrote (s : Store F) (q : Quoting F) (p : ProviderQuote) (now : Time) :
    (PaymentQuote.make? q.draft.currency p now = none ∧ s.present q p now = s) ∨
    ∃ quote target row, PaymentQuote.make? q.draft.currency p now = some quote ∧
      (target = .cancelled ∨ target = .readyForApproval) ∧ row.event = .quoted ∧
      row.paymentIntentId = q.draft.paymentIntentId ∧
      s.present q p now = s.wrote [q.draft.withQuote quote (by rw [q.isDraft]; rfl),
        { q.draft.withQuote quote (by rw [q.isDraft]; rfl) with state := target }] [row] := by
  unfold present
  split
  · rename_i h
    exact Or.inl ⟨h, rfl⟩
  · rename_i quote h
    obtain ⟨row, he, hk, ht⟩ := recordOrBlank_wrote s [q.draft.withQuote quote (by rw [q.isDraft]; rfl)] []
      now
      { paymentIntentId := q.draft.paymentIntentId, event := .quoted,
        amountMinor := quote.totalMinor, currency := quote.currency,
        instrumentRef := q.draft.paymentMethodRef } quote.quoteRef
    refine Or.inr ⟨quote, if ceilingMinor < quote.totalMinor then .cancelled else .readyForApproval,
      row, h, ?_, he, hk, ?_⟩
    · split
      · exact Or.inl rfl
      · exact Or.inr rfl
    · simp only
      split
      · exact (congrArg (putIntent · _) ht).trans (put_wrote _ _ _ _)
      · exact (congrArg (putIntent · _) ht).trans (put_wrote _ _ _ _)

theorem cancelIntent_wrote (s : Store F) (vorgang : String) (now : Time) :
    s.cancelIntent vorgang now = s ∨ ∃ i row, s.intent? i.paymentIntentId = some i ∧
      i.state.cancellable = true ∧ row.event = .cancelled ∧
      row.paymentIntentId = i.paymentIntentId ∧
      s.cancelIntent vorgang now = s.wrote [{ i with state := .cancelled }] [row] := by
  unfold cancelIntent
  split
  · exact Or.inl rfl
  · rename_i i hi
    split
    · rename_i h
      exact Or.inr ⟨i, _, by rw [intent_id hi]; exact hi, h, rfl, rfl, rfl⟩
    · exact Or.inl rfl

/-- What `purchase` leaves before the charge: the intent, `approved`, and what
was written on the way. -/
structure Approves (s : Store F) (vorgang pruefsumme : String) (identity : ExecutionIdentity)
    (now : Time) (stored approved : PaymentIntent F) (quote : PaymentQuote)
    (puts : List (PaymentIntent F)) : Prop where
  found : s.intent? (stripped vorgang) = some stored
  quoted : stored.quote = some quote
  digest : stored.economicDigest quote = stripped pruefsumme
  usable : identity.usable = true
  live : stored.isExpired now = false
  ceiling : quote.totalMinor ≤ ceilingMinor
  state : approved.state = .approved
  same : approved = { stored with state := .approved, approvalId := approved.approvalId }
  written : (stored.state = .approved ∧ puts = []) ∨
    (stored.state = .readyForApproval ∧ puts = [approved])

theorem approve_wrote {s s' : Store F} {vorgang pruefsumme : String}
    {identity : ExecutionIdentity} {now : Time} {approved : PaymentIntent F}
    (h : s.approve vorgang pruefsumme identity now = some (approved, s')) :
    ∃ stored quote puts rows, s.Approves vorgang pruefsumme identity now stored approved quote puts ∧
      (∀ row ∈ rows, row.event = .approved ∧ row.paymentIntentId = approved.paymentIntentId) ∧
      s' = s.wrote puts rows ∧ s'.intent? approved.paymentIntentId = some approved := by
  simp only [approve, guard_passes] at h
  obtain ⟨hu, h⟩ := h
  obtain ⟨stored, hi, h⟩ := Option.bind_eq_some_iff.mp h
  obtain ⟨quote, hq, h⟩ := Option.bind_eq_some_iff.mp h
  simp only [guard_passes] at h
  obtain ⟨hd, he, hc, h⟩ := h
  have hid := intent_id hi
  split at h
  · rename_i hs
    cases h
    refine ⟨stored, quote, [_], [_], ⟨hi, hq, hd, hu, by simpa using he, hc, rfl, rfl,
      Or.inr ⟨hs, rfl⟩⟩, ?_, rfl, ?_⟩
    · intro row hr
      rw [List.mem_singleton.mp hr]
      exact ⟨rfl, rfl⟩
    · change (s.putIntent _).intent? _ = _
      rw [intent_put, if_pos rfl]
      change some (written (s.intent? stored.paymentIntentId) _) = _
      rw [hid, hi]
      rfl
  · split at h
    · rename_i hs
      simp only [Option.some.injEq, Prod.mk.injEq] at h
      obtain ⟨rfl, rfl⟩ := h
      exact ⟨stored, quote, [], [], ⟨hi, hq, hd, hu, by simpa using he, hc, hs,
        by rw [← hs], Or.inl ⟨hs, rfl⟩⟩, (fun row hr => by cases hr), rfl, by rw [hid]; exact hi⟩
    · cases h

/-- A purchase that names the digest of a presented intent approves it. -/
theorem approve_presented {s : Store F} {i : PaymentIntent F} {quote : PaymentQuote}
    (identity : ExecutionIdentity) (now : Time) (hid : stripped i.paymentIntentId = i.paymentIntentId)
    (hi : s.intent? i.paymentIntentId = some i) (hs : i.state = .readyForApproval)
    (hq : i.quote = some quote) (hu : identity.usable = true) (hl : i.isExpired now = false)
    (hc : quote.totalMinor ≤ ceilingMinor) :
    s.approve i.paymentIntentId (i.economicDigest quote) identity now =
      some ({ i with state := .approved, approvalId := identity.approvalId },
        (s.putIntent { i with state := .approved, approvalId := identity.approvalId }).book now
          { paymentIntentId := i.paymentIntentId, event := .approved,
            executionId := identity.executionId, amountMinor := quote.totalMinor,
            currency := quote.currency, instrumentRef := i.paymentMethodRef }) := by
  have hd : stripped (i.economicDigest quote) = i.economicDigest quote := stripped_hexdigest _
  simp [approve, guard, hid, hi, hs, hq, hu, hl, hc, hd, PaymentIntent.withState]

/-- What holds where an intent is claimed for its charge. -/
structure Claims (s : Store F) (identity : ExecutionIdentity) (now : Time)
    (intent : PaymentIntent F) (quote : PaymentQuote) (c : Charging F) : Prop where
  running : c.running = { intent with
    state := .executing
    executionId := identity.executionId
    approvalId := identity.approvalId }
  sameQuote : c.quote = quote
  sameIdentity : c.identity = identity
  instrument : s.instrument? intent.paymentMethodRef = some c.instrument
  allowed : evaluate c.instrument quote.currency intent.merchantId quote.totalMinor
    (s.dayTotalMinor c.instrument.paymentRef quote.currency (utcDay now)) = none

/-- Rows of one intent that no money moves by. -/
def Quiet (k : String) (rows : List Row) : Prop :=
  ∀ row ∈ rows, row.event.money = false ∧ row.paymentIntentId = k

theorem quiet_nil (k : String) : Quiet k [] := fun row hr => by cases hr

theorem quiet_cons {k : String} {row : Row} {rows : List Row} (hm : row.event.money = false)
    (hk : row.paymentIntentId = k) (h : Quiet k rows) : Quiet k (row :: rows) := by
  intro r hr
  rcases List.mem_cons.mp hr with rfl | hr
  · exact ⟨hm, hk⟩
  · exact h r hr

/-- The row of a claim. -/
structure Claimed (c : Charging F) (now : Time) (row : Row) : Prop where
  event : row.event = .claimed
  intent : row.paymentIntentId = c.running.paymentIntentId
  execution : row.executionId = c.identity.executionId
  instrument : row.instrumentRef = c.instrument.paymentRef
  amount : row.amountMinor = c.quote.totalMinor
  currency : row.currency = c.quote.currency
  moment : row.bookedAt = now

/-- What `charge` writes for an approved intent, and whether it waits. -/
inductive Charges (s : Store F) (identity : ExecutionIdentity) (now : Time)
    (intent : PaymentIntent F) (quote : PaymentQuote) :
    Option (Frame F) → List (PaymentIntent F) → List Row → Prop
  | refused : Charges s identity now intent quote none [] []
  | denied (row : Row) : Quiet intent.paymentIntentId [row] →
      Charges s identity now intent quote none [{ intent with state := .failed }] [row]
  | stuck (c : Charging F) : s.Claims identity now intent quote c →
      Charges s identity now intent quote none [c.running] []
  | withheld (c : Charging F) (row denial : Row) : s.Claims identity now intent quote c →
      Claimed c now row → Quiet c.running.paymentIntentId [denial] →
      Charges s identity now intent quote none
        [c.running, { c.running with state := .failed }] [denial, row]
  | sent (c : Charging F) (row : Row) : s.Claims identity now intent quote c → Claimed c now row →
      Charges s identity now intent quote (some (.charging c)) [c.running] [row]

theorem claim_wrote {s : Store F} {identity : ExecutionIdentity} {now : Time}
    {intent : PaymentIntent F} {quote : PaymentQuote} {c : Charging F}
    (hc : s.Claims identity now intent quote c) (access : Access) :
    ∃ puts rows, s.Charges identity now intent quote (s.claim c access now).1 puts rows ∧
      (s.claim c access now).2 = s.wrote puts rows := by
  unfold claim
  simp only
  split
  · exact ⟨_, _, .stuck c hc, rfl⟩
  · rename_i s' hs
    have hs' : s' = s.wrote [c.running] [_] := (record_ok hs).1
    split
    · exact ⟨_, _, .sent c _ hc ⟨rfl, rfl, rfl, rfl, rfl, rfl, rfl⟩, hs'⟩
    · have hw : ∀ row rows, Store.book (putIntent (s.wrote [c.running] rows)
          { c.running with state := .failed }) now row =
            s.wrote [c.running, { c.running with state := .failed }]
              ({ row with bookedAt := now, providerRef := "" } :: rows) := by
        intro row rows
        rw [put_wrote]
        rfl
      rw [hs']
      refine ⟨_, _, .withheld c _ _ hc ?_ ?_, hw _ _⟩
      · exact ⟨rfl, rfl, rfl, rfl, rfl, rfl, rfl⟩
      · exact quiet_cons rfl rfl (quiet_nil _)

theorem charge_wrote {s : Store F} {k : String} {intent : PaymentIntent F} {quote : PaymentQuote}
    (hi : s.intent? k = some intent) (hstate : intent.state = .approved)
    (hquote : intent.quote = some quote) (identity : ExecutionIdentity) (access : Access)
    (now : Time) :
    ∃ puts rows, s.Charges identity now intent quote (s.charge k identity access now).1 puts rows ∧
      (s.charge k identity access now).2 = s.wrote puts rows := by
  have hnone : ∃ puts rows, s.Charges identity now intent quote none puts rows ∧
      s = s.wrote puts rows := ⟨[], [], .refused, rfl⟩
  obtain rfl := intent_id hi
  unfold charge
  split
  · rw [hi]
    simp only [hstate, ↓reduceDIte]
    split
    · exact hnone
    · split
      · exact hnone
      · rename_i q hq
        obtain rfl : q = quote := Option.some.inj (hq.symm.trans hquote)
        split
        · exact hnone
        · split
          · exact hnone
          · rename_i instrument hins
            split
            · exact hnone
            · split
              · exact ⟨_, _, .denied _ (quiet_cons rfl rfl (quiet_nil _)), rfl⟩
              · rename_i hallowed
                apply claim_wrote
                exact ⟨rfl, rfl, rfl, hins, hallowed⟩
  · exact hnone

/-! ### What became of a charge -/

/-- A charge that is booked, or was booked before. -/
structure Booked (s : Store F) (row : Row) (rows : List Row) : Prop where
  charged : row.event = .charged
  once : (rows = [row] ∧ s.charged row.executionId = false) ∨
    (rows = [] ∧ s.charged row.executionId = true)

theorem record_booked {s s' : Store F} {now : Time} {row : Row} {ref : String}
    (hc : row.event = .charged) (hx : row.executionId ≠ "") (h : s.record now row ref = .ok s') :
    ∃ text, s.Booked { row with bookedAt := now, providerRef := text }
      [{ row with bookedAt := now, providerRef := text }] ∧
      s' = s.wrote [] [{ row with bookedAt := now, providerRef := text }] := by
  obtain ⟨hs, hfree⟩ := record_ok h
  exact ⟨_, ⟨hc, Or.inl ⟨rfl, hfree hc hx⟩⟩, hs⟩

theorem record_replayed {s : Store F} {now : Time} {row : Row} {ref : String}
    (h : s.record now row ref = .error .duplicateCharge) :
    s.Booked { row with bookedAt := now } [] := by
  obtain ⟨hc, hx⟩ := record_duplicate h
  exact ⟨hc, Or.inr ⟨rfl, hx⟩⟩

theorem charged_of_existing {s : Store F} {x : String} (h : (s.existingCharge x).isSome) :
    s.charged x = true := by
  obtain ⟨row, hrow⟩ := Option.isSome_iff_exists.mp h
  have hmem := List.mem_of_find?_eq_some hrow
  have hp := List.find?_some hrow
  exact List.any_eq_true.mpr ⟨row, List.mem_of_mem_take hmem, hp⟩

theorem record_blank_refused {s : Store F} {now : Time} {row : Row} :
    s.record now row "" ≠ .error .refused := by
  unfold record
  rw [F.empty]
  simp only [Bool.false_eq_true, ↓reduceIte]
  split
  · exact fun h => by cases h
  · exact fun h => by cases h

/-- The state that an answer of the provider stands for; `none` where it is not
written. -/
def chargeVerdict (s : Store F) (c : Charging F) (a : Answer) : Option PaymentState :=
  match a with
  | .charged p => match p.status with
    | .succeeded =>
      if (s.existingCharge c.identity.executionId).isSome then none else some .succeeded
    | .scaRequired => some .awaitingSca
    | _ => some .failed
  | .unavailable => some .failed
  | .cancelled => none
  | _ => some .reconciliationRequired

/-- The row of a charge that the provider has confirmed. -/
structure Confirms (c : Charging F) (p : ProviderCharge) (now : Time) (row : Row) : Prop where
  event : row.event = .charged
  intent : row.paymentIntentId = c.running.paymentIntentId
  execution : row.executionId = c.identity.executionId
  instrument : row.instrumentRef = c.instrument.paymentRef
  amount : row.amountMinor = if p.amountMinor = 0 then c.quote.totalMinor else p.amountMinor
  currency : row.currency = if p.currency = "" then c.quote.currency else p.currency
  moment : row.bookedAt = now

/-- What `chargeAnswered` writes: the verdict, and the rows with it. -/
inductive Settles (s : Store F) (c : Charging F) (a : Answer) (now : Time) :
    List (PaymentIntent F) → List Row → Prop
  | nothing : s.chargeVerdict c a = none → Settles s c a now [] []
  | charged (p : ProviderCharge) (row : Row) (rows : List Row) : a = .charged p →
      s.chargeVerdict c a = some .succeeded → Confirms c p now row → s.Booked row rows →
      Settles s c a now [{ c.running with state := .succeeded }] rows
  | other (target : PaymentState) (rows : List Row) : s.chargeVerdict c a = some target →
      (target = .failed ∨ target = .awaitingSca ∨ target = .reconciliationRequired) →
      Quiet c.running.paymentIntentId rows → Settles s c a now
        [{ c.running with state := target }] rows

theorem noteAmbiguous_wrote (s : Store F) (c : Charging F) (puts : List (PaymentIntent F))
    (amountMinor : Nat) (currency : String) (now : Time) : ∃ rows,
      Quiet c.running.paymentIntentId rows ∧
        (s.wrote puts []).noteAmbiguous c amountMinor currency now = s.wrote puts rows := by
  unfold noteAmbiguous
  split
  · rename_i s' h
    refine ⟨_, ?_, record_wrote h⟩
    exact quiet_cons rfl rfl (quiet_nil _)
  · exact ⟨[], quiet_nil _, rfl⟩

theorem Charging.identified (c : Charging F) : c.identity.executionId ≠ "" := by
  have h := c.usable
  simp only [ExecutionIdentity.usable, Bool.and_eq_true, decide_eq_true_eq] at h
  exact h.1

theorem bookCharge_wrote (s : Store F) (c : Charging F) (p : ProviderCharge) (row : Row)
    (now : Time) (hp : p.status = .succeeded) (hrow : Confirms c p now { row with bookedAt := now }) :
    ∃ puts rows, s.Settles c (.charged p) now puts rows ∧
      s.bookCharge c row p.chargeRef now = s.wrote puts rows := by
  have hx : row.executionId = c.identity.executionId := hrow.execution
  have he : row.event = .charged := hrow.event
  have hne : row.executionId ≠ "" := hx ▸ Charging.identified c
  have hv : s.chargeVerdict c (.charged p) =
      if (s.existingCharge row.executionId).isSome then none else some .succeeded := by
    simp only [chargeVerdict, hp, hx]
  have hbooked : ∀ ref s', s.record now row ref = .ok s' → ∃ puts rows,
      s.Settles c (.charged p) now puts rows ∧ s'.succeed c = s.wrote puts rows := by
    intro ref s' h
    obtain ⟨text, hb, hs⟩ := record_booked he hne h
    have hfree := (record_ok h).2 he hne
    have hnone : (s.existingCharge row.executionId).isSome = false := by
      by_contra hsome
      rw [charged_of_existing (Bool.eq_true_of_not_eq_false hsome)] at hfree
      cases hfree
    have hc : Confirms c p now { row with bookedAt := now, providerRef := text } :=
      ⟨hrow.event, hrow.intent, hrow.execution, hrow.instrument, hrow.amount, hrow.currency, rfl⟩
    refine ⟨_, _, .charged p _ _ rfl (by rw [hv, hnone]; rfl) hc hb, ?_⟩
    rw [hs]
    exact put_wrote _ [] _ _
  have hreplayed : ∀ ref, s.record now row ref = .error .duplicateCharge → ∃ puts rows,
      s.Settles c (.charged p) now puts rows ∧
        (if (s.existingCharge row.executionId).isSome then s else s.succeed c) =
          s.wrote puts rows := by
    intro ref h
    split
    · rename_i hsome
      exact ⟨[], [], .nothing (by rw [hv, if_pos hsome]), rfl⟩
    · rename_i hnone
      exact ⟨_, _, .charged p _ _ rfl (by rw [hv, if_neg hnone]) hrow (record_replayed h), rfl⟩
  unfold bookCharge
  simp only
  split
  · rename_i s' h
    exact hbooked _ _ h
  · rename_i h
    exact hreplayed _ h
  · split
    · rename_i s' h
      exact hbooked _ _ h
    · rename_i h
      exact hreplayed _ h
    · rename_i h
      exact absurd h record_blank_refused

theorem chargeAnswered_wrote (s : Store F) (c : Charging F) (a : Answer) (now : Time) :
    ∃ puts rows, s.Settles c a now puts rows ∧ s.chargeAnswered c a now = s.wrote puts rows := by
  have hambiguous : s.chargeVerdict c a = some .reconciliationRequired → ∃ puts rows,
      s.Settles c a now puts rows ∧ (s.putIntent { c.running with
        state := .reconciliationRequired }).noteAmbiguous c c.quote.totalMinor c.quote.currency
          now = s.wrote puts rows := by
    intro hv
    obtain ⟨rows, hq, hs⟩ := noteAmbiguous_wrote s c
      [{ c.running with state := .reconciliationRequired }] c.quote.totalMinor c.quote.currency now
    exact ⟨_, rows, .other _ rows hv (by simp) hq, hs⟩
  cases a with
  | charged p =>
    simp only [chargeAnswered, settle]
    cases hp : p.status with
    | succeeded => exact bookCharge_wrote s c p _ now hp ⟨rfl, rfl, rfl, rfl, rfl, rfl, rfl⟩
    | scaRequired =>
      obtain ⟨rows, hq, hs⟩ := noteAmbiguous_wrote s c
        [{ c.running with state := .awaitingSca }]
        (if p.amountMinor = 0 then c.quote.totalMinor else p.amountMinor)
        (if p.currency = "" then c.quote.currency else p.currency) now
      exact ⟨_, rows, .other .awaitingSca rows (by simp only [chargeVerdict, hp]) (by simp) hq, hs⟩
    | declined =>
      exact ⟨_, _, .other .failed _ (by simp only [chargeVerdict, hp]) (by simp)
        (quiet_cons rfl rfl (quiet_nil _)), rfl⟩
    | merchantFailed =>
      exact ⟨_, _, .other .failed _ (by simp only [chargeVerdict, hp]) (by simp)
        (quiet_cons rfl rfl (quiet_nil _)), rfl⟩
    | pending =>
      exact ⟨_, _, .other .failed _ (by simp only [chargeVerdict, hp]) (by simp)
        (quiet_cons rfl rfl (quiet_nil _)), rfl⟩
  | unavailable =>
    exact ⟨_, _, .other .failed _ rfl (by simp) (quiet_cons rfl rfl (quiet_nil _)), rfl⟩
  | cancelled => exact ⟨[], [], .nothing rfl, rfl⟩
  | quoted q => exact hambiguous rfl
  | found f => exact hambiguous rfl
  | refunded r => exact hambiguous rfl
  | orderCancelled => exact hambiguous rfl
  | failed => exact hambiguous rfl

/-! ### What a lookup found -/

def lookupVerdict (F : Fence) (a : Answer) : Option PaymentState :=
  match a with
  | .found none => some .failed
  | .found (some found) => match found.status with
    | .succeeded => if F.refuses found.chargeRef then none else some .succeeded
    | .scaRequired => none
    | _ => some .failed
  | _ => none

/-- The row of a charge that a lookup has found. -/
structure Finds (l : LookingUp F) (p : ProviderCharge) (now : Time) (row : Row) : Prop where
  event : row.event = .charged
  intent : row.paymentIntentId = l.intent.paymentIntentId
  execution : row.executionId = l.intent.executionId
  instrument : row.instrumentRef = l.instrument.paymentRef
  amount : row.amountMinor = p.amountMinor
  currency : row.currency = p.currency
  moment : row.bookedAt = now

/-- What `lookupAnswered` writes. -/
inductive Resolves (s : Store F) (l : LookingUp F) (a : Answer) (now : Time) :
    List (PaymentIntent F) → List Row → Prop
  | nothing : lookupVerdict F a = none → Resolves s l a now [] []
  | charged (p : ProviderCharge) (row : Row) (rows quiet : List Row) : a = .found (some p) →
      lookupVerdict F a = some .succeeded → Finds l p now row → s.Booked row rows →
      Quiet l.intent.paymentIntentId quiet → Resolves s l a now
        [{ l.intent with state := .succeeded }] (quiet ++ rows)
  | failed (rows : List Row) : lookupVerdict F a = some .failed →
      Quiet l.intent.paymentIntentId rows → Resolves s l a now
        [{ l.intent with state := .failed }] rows

theorem record_cleared {s : Store F} {row : Row} {ref : String} (now : Time)
    (hr : F.refuses ref = false) (he : row.event ≠ .charged) : s.record now row ref =
      .ok (s.wrote [] [{ row with bookedAt := now, providerRef := textPrefix 128 ref }]) := by
  simp [record, hr, he, wrote]

theorem record_refused (s : Store F) {ref : String} (now : Time) (row : Row)
    (hr : F.refuses ref = true) : s.record now row ref = .error .refused := by
  simp [record, hr]

theorem foundCharge_wrote (s : Store F) (l : LookingUp F) (p : ProviderCharge) (now : Time)
    (hp : p.status = .succeeded) : ∃ puts rows, s.Resolves l (.found (some p)) now puts rows ∧
      s.foundCharge l p now = s.wrote puts rows := by
  have hv : lookupVerdict F (.found (some p)) =
      if F.refuses p.chargeRef then none else some .succeeded := by
    simp only [lookupVerdict, hp]
  cases hr : F.refuses p.chargeRef with
  | true =>
    refine ⟨[], [], .nothing (by rw [hv, hr]; rfl), ?_⟩
    simp only [foundCharge, record_refused s now _ hr, wrote_nil]
  | false =>
    have hquiet : ∀ row : Row, row.event = .reconciled →
        row.paymentIntentId = l.intent.paymentIntentId → Quiet l.intent.paymentIntentId [row] :=
      fun row he hk => quiet_cons (by rw [he]; rfl) hk (quiet_nil _)
    have hne : LedgerEvent.reconciled ≠ .charged := fun h => by cases h
    rw [hr] at hv
    unfold foundCharge
    simp only
    split
    · rename_i s' h
      obtain ⟨text, hb, hs⟩ := record_booked rfl l.identified h
      rw [record_cleared now hr hne, hs]
      exact ⟨_, _, .charged p _ _ _ rfl hv ⟨rfl, rfl, rfl, rfl, rfl, rfl, rfl⟩ hb
        (hquiet _ rfl rfl), put_wrote _ [] _ _⟩
    · rename_i h
      rw [record_cleared now hr hne]
      exact ⟨_, _, .charged p _ _ _ rfl hv ⟨rfl, rfl, rfl, rfl, rfl, rfl, rfl⟩
        (record_replayed h) (hquiet _ rfl rfl), put_wrote _ [] _ _⟩
    · rename_i h
      unfold record at h
      rw [hr] at h
      simp only [Bool.false_eq_true, ↓reduceIte] at h
      split at h <;> cases h

theorem lookupAnswered_wrote (s : Store F) (l : LookingUp F) (a : Answer) (now : Time) :
    ∃ puts rows, s.Resolves l a now puts rows ∧ s.lookupAnswered l a now = s.wrote puts rows := by
  cases a with
  | found found =>
    cases found with
    | none => exact ⟨_, _, .failed _ rfl (quiet_cons rfl rfl (quiet_nil _)), rfl⟩
    | some p =>
      simp only [lookupAnswered]
      cases hp : p.status with
      | succeeded => exact foundCharge_wrote s l p now hp
      | scaRequired => exact ⟨[], [], .nothing (by simp only [lookupVerdict, hp]), rfl⟩
      | declined =>
        exact ⟨_, _, .failed _ (by simp only [lookupVerdict, hp])
          (quiet_cons rfl rfl (quiet_nil _)), rfl⟩
      | merchantFailed =>
        exact ⟨_, _, .failed _ (by simp only [lookupVerdict, hp])
          (quiet_cons rfl rfl (quiet_nil _)), rfl⟩
      | pending =>
        exact ⟨_, _, .failed _ (by simp only [lookupVerdict, hp])
          (quiet_cons rfl rfl (quiet_nil _)), rfl⟩
  | quoted q => exact ⟨[], [], .nothing rfl, rfl⟩
  | charged p => exact ⟨[], [], .nothing rfl, rfl⟩
  | refunded r => exact ⟨[], [], .nothing rfl, rfl⟩
  | orderCancelled => exact ⟨[], [], .nothing rfl, rfl⟩
  | unavailable => exact ⟨[], [], .nothing rfl, rfl⟩
  | failed => exact ⟨[], [], .nothing rfl, rfl⟩
  | cancelled => exact ⟨[], [], .nothing rfl, rfl⟩

/-! ### What a refund writes -/

def refundVerdict (s : Store F) (r : Refunding F) (a : Answer) : Option PaymentState :=
  match a with
  | .refunded p =>
    if p.refundRef ≠ "" ∧ s.refundAlreadyBooked r.intent.paymentIntentId p.refundRef then none
    else some (refundState r p.amountMinor)
  | _ => none

/-- What `refundAnswered` writes; the row is missing where the fence refuses
the provider's text. -/
inductive Repays (s : Store F) (r : Refunding F) (p : ProviderRefund) (now : Time) :
    List (PaymentIntent F) → List Row → Prop
  | nothing : s.refundVerdict r (.refunded p) = none → Repays s r p now [] []
  | refunded (row : Row) :
      s.refundVerdict r (.refunded p) = some (refundState r p.amountMinor) →
      F.refuses p.refundRef = false → row.event = .refunded →
      row.paymentIntentId = r.intent.paymentIntentId → row.amountMinor = p.amountMinor →
      row.providerRef = textPrefix 128 p.refundRef → Repays s r p now
        [{ r.intent with state := refundState r p.amountMinor }] [row]
  | unwritten : s.refundVerdict r (.refunded p) = some (refundState r p.amountMinor) →
      F.refuses p.refundRef = true → Repays s r p now
        [{ r.intent with state := refundState r p.amountMinor }] []

theorem refundAnswered_wrote (s : Store F) (r : Refunding F) (p : ProviderRefund) (now : Time) :
    ∃ puts rows, s.Repays r p now puts rows ∧ s.refundAnswered r p now = s.wrote puts rows := by
  unfold refundAnswered
  split
  · rename_i h
    exact ⟨[], [], .nothing (by simp only [refundVerdict]; rw [if_pos h]), rfl⟩
  · rename_i h
    have hv : s.refundVerdict r (.refunded p) = some (refundState r p.amountMinor) := by
      simp only [refundVerdict]
      rw [if_neg h]
    simp only
    cases hr : F.refuses p.refundRef with
    | true =>
      rw [record_refused _ now _ hr]
      exact ⟨_, _, .unwritten hv hr, rfl⟩
    | false =>
      rw [record_cleared now hr (fun h => by cases h)]
      refine ⟨_, _, ?_, wrote_put s _ _⟩
      exact .refunded _ hv hr rfl rfl rfl rfl

end Store

end Solvio.Payment
