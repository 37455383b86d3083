import Solvio.Payment.Bookings
import Solvio.Lib.Sums

namespace Solvio.Payment
open Solvio.Lib Solvio.Approval

variable {F : Fence}

/-- A claim that may still be booked: its execution is not charged, and its
intent is unresolved or in the hands of a task. -/
def isOpen (w : World F) (r : Row) : Bool :=
  !w.shared.store.charged r.executionId &&
    ((World.row w r.paymentIntentId).any (fun i => i.state.unresolved) ||
      w.waiting.any (fun f => Frame.pursued f = some r.paymentIntentId))

/-- The open claims of an instrument on a day. -/
def openClaim (w : World F) (ref currency : String) (day : Int) (r : Row) : Bool :=
  r.event = .claimed && r.instrumentRef = ref && r.currency = currency &&
    utcDay r.bookedAt = day && isOpen w r

def openTotal (w : World F) (ref currency : String) (day : Int) : Nat :=
  total (openClaim w ref currency day) Row.amountMinor (World.ledger w)

def charge (ref currency : String) (day : Int) (r : Row) : Bool :=
  r.event = .charged && r.instrumentRef = ref && utcDay r.bookedAt = day && r.currency = currency

/-- The provider charges what it is asked to, and finds a charge that it was
asked for. -/
structure Exact (e : Event F) : Prop where
  charged : ∀ i p c, e.call.turn = .resume i (Answer.charged p) →
    e.pre.waiting[i]? = some (Frame.charging c) → p.status = .succeeded →
      p.amountMinor = c.quote.totalMinor ∧ p.currency = c.quote.currency
  found : ∀ i p l, e.call.turn = .resume i (Answer.found (some p)) →
    e.pre.waiting[i]? = some (Frame.lookingUp l) → p.status = .succeeded →
      ∃ r ∈ World.ledger e.pre, r.event = .claimed ∧
        r.paymentIntentId = l.intent.paymentIntentId ∧ r.executionId = l.intent.executionId ∧
        r.amountMinor = p.amountMinor ∧ r.currency = p.currency

/-- A charge that goes out also passes the check with the day's open claims
added, and a charge is booked on the day of its claim. -/
structure Counted (e : Event F) : Prop where
  sent : ∀ c, EventLoop.Event.awaits e = some (Frame.charging c) →
    evaluate c.instrument c.quote.currency c.running.merchantId c.quote.totalMinor
      (e.pre.shared.store.dayTotalMinor c.instrument.paymentRef c.quote.currency
          (utcDay e.call.now) +
        openTotal e.pre c.instrument.paymentRef c.quote.currency (utcDay e.call.now)) = none
  booked : ∀ i a f, e.call.turn = .resume i a → e.pre.waiting[i]? = some f →
    Frame.verdict e.pre.shared.store f a e.call.now = some .succeeded → ∀ r ∈ World.ledger e.pre,
      r.event = .claimed → r.paymentIntentId = Frame.intentId f →
        e.pre.shared.store.charged r.executionId = false →
          utcDay r.bookedAt = utcDay e.call.now

/-- What the ledger and the tasks know of the claims. -/
structure Claiming (w : World F) : Prop where
  claimed : ∀ r ∈ World.ledger w, r.event = .claimed → ∃ i,
    World.row w r.paymentIntentId = some i ∧ i.state.past = true ∧
      i.paymentMethodRef = r.instrumentRef
  charging : ∀ c, Frame.charging c ∈ w.waiting → ∃ r ∈ World.ledger w, r.event = .claimed ∧
    r.paymentIntentId = c.running.paymentIntentId ∧ r.executionId = c.identity.executionId ∧
      r.amountMinor = c.quote.totalMinor ∧ r.currency = c.quote.currency ∧
        r.instrumentRef = c.instrument.paymentRef
  lookingUp : ∀ l, Frame.lookingUp l ∈ w.waiting →
    l.instrument.paymentRef = l.intent.paymentMethodRef ∧
      ∃ i, World.row w l.intent.paymentIntentId = some i ∧
        i.paymentMethodRef = l.intent.paymentMethodRef

/-- What a purchase that claims its intent leaves. -/
structure ClaimLeft (e : Event F) (c : Charging F) (r : Row) : Prop where
  row : Store.Claimed c e.call.now r
  stored : ∃ i, World.row e.pre c.running.paymentIntentId = some i ∧ i.state.past = false ∧
    c.instrument.paymentRef = i.paymentMethodRef ∧
      e.pre.shared.store.instrument? c.instrument.paymentRef = some c.instrument
  left : ∃ i, World.row e.post c.running.paymentIntentId = some i ∧ i.state.past = true ∧
    (EventLoop.Event.awaits e = none → i.state.unresolved = false)

theorem Store.Quiet.no_claim {k : String} {rows : List Row} (h : Store.Quiet k rows) :
    ∀ r ∈ rows, r.event ≠ .claimed := by
  intro r hr he
  have hm := (h r hr).1
  rw [he] at hm
  cases hm

theorem Store.Booked.no_claim {s : Store F} {row : Row} {rows : List Row} (h : s.Booked row rows) :
    ∀ r ∈ rows, r.event ≠ .claimed := by
  intro r hr he
  rcases h.once with ⟨rfl, -⟩ | ⟨rfl, -⟩
  · rw [List.mem_singleton.mp hr, h.charged] at he
    cases he
  · cases hr

/-- A turn books a claim, and nothing else that is one. -/
structure ClaimIn (e : Event F) (rows : List Row) (c : Charging F) (r : Row)
    (before after : List Row) : Prop where
  rows_eq : rows = before ++ r :: after
  before_none : ∀ x ∈ before, x.event ≠ .claimed
  after_none : ∀ x ∈ after, x.event ≠ .claimed
  left : ClaimLeft e c r
  resumed : EventLoop.Event.resumed e = none
  awaits : EventLoop.Event.awaits e = some (Frame.charging c) ∨ EventLoop.Event.awaits e = none

theorem instrument_found {s : Store F} {puts : List (PaymentIntent F)} {rows : List Row}
    {ref : String} {i : Instrument} (h : (s.wrote puts rows).instrument? ref = some i) :
    i.paymentRef = ref ∧ s.instrument? i.paymentRef = some i := by
  unfold Store.instrument? at h ⊢
  rw [Store.wrote_instruments] at h
  have hk : i.paymentRef = ref := Table.key_of_find h
  exact ⟨hk, hk ▸ h⟩

theorem Leaves.claims {e : Event F} {puts : List (PaymentIntent F)} {rows : List Row}
    (hl : Leaves e puts rows) : ((∀ r ∈ rows, r.event ≠ .claimed) ∧
      ∀ c, EventLoop.Event.awaits e ≠ some (Frame.charging c)) ∨
        ∃ c r before after, ClaimIn e rows c r before after := by
  have hstop : EventLoop.Event.awaits e = none →
      ∀ c, EventLoop.Event.awaits e ≠ some (Frame.charging c) := by
    intro hn c hc
    rw [hn] at hc
    cases hc
  have hnil : ∀ r ∈ ([] : List Row), r.event ≠ .claimed := fun r hr => by cases hr
  cases hl.deed with
  | nothing hn => exact Or.inl ⟨hnil, hstop hn⟩
  | looking l _ ha _ _ => exact Or.inl ⟨hnil, fun c hc => by rw [ha] at hc; cases hc⟩
  | asked vorgang amountMinor identity access r _ _ ha _ =>
    exact Or.inl ⟨hnil, fun c hc => by rw [ha] at hc; cases hc⟩
  | cancelling c _ ha => exact Or.inl ⟨hnil, fun c hc => by rw [ha] at hc; cases hc⟩
  | orderCancelled c row hn hq => exact Or.inl ⟨hq.no_claim, hstop hn⟩
  | prepared p access draft row _ _ _ hq hg =>
    refine Or.inl ⟨hq.no_claim, fun c hc => ?_⟩
    obtain ⟨hd, hx, he⟩ := hg _ hc
    cases he
  | presented i q p quote target row _ _ hn _ _ hq => exact Or.inl ⟨hq.no_claim, hstop hn⟩
  | withdrawn vorgang i row _ hn _ _ hq => exact Or.inl ⟨hq.no_claim, hstop hn⟩
  | settled i a c puts rows _ _ hn hs =>
    refine Or.inl ⟨?_, hstop hn⟩
    cases hs with
    | nothing _ => exact hnil
    | charged p row rows _ _ _ hb => exact hb.no_claim
    | other target rows _ _ hq => exact hq.no_claim
  | resolved i a l puts rows _ _ hn hs =>
    refine Or.inl ⟨?_, hstop hn⟩
    cases hs with
    | nothing _ => exact hnil
    | failed rows _ hq => exact hq.no_claim
    | charged p row rows quiet _ _ _ hb hq =>
      intro r hr
      rcases List.mem_append.mp hr with hr | hr
      · exact hq.no_claim r hr
      · exact hb.no_claim r hr
  | repaid i p r puts rows _ _ hn hs =>
    refine Or.inl ⟨?_, hstop hn⟩
    cases hs with
    | nothing _ => exact hnil
    | unwritten _ _ => exact hnil
    | refunded row _ _ he _ _ _ =>
      intro r hr
      rw [List.mem_singleton.mp hr, he]
      exact fun h => by cases h
  | bought vorgang pruefsumme identity access stored approved quote puts puts' rows rows' _ hres ha hq
      _ _ hch =>
    have hearly : stored.state.past = false := by
      rcases ha.written with ⟨hs, -⟩ | ⟨hs, -⟩ <;> rw [hs] <;> rfl
    have hstored : ∀ c : Charging F, Store.Claims (e.pre.shared.store.wrote puts rows) identity
        e.call.now approved quote c → ∃ i, World.row e.pre c.running.paymentIntentId = some i ∧
          i.state.past = false ∧ c.instrument.paymentRef = i.paymentMethodRef ∧
            e.pre.shared.store.instrument? c.instrument.paymentRef = some c.instrument := by
      intro c hc
      obtain ⟨href, hins⟩ := instrument_found hc.instrument
      refine ⟨stored, ?_, hearly, ?_, hins⟩
      · rw [hc.intent]
        exact ha.found_self
      · rw [href, ha.same]
    generalize hnext : EventLoop.Event.awaits e = next at hch hstop
    cases hch with
    | refused => exact Or.inl ⟨hq.no_claim, hstop rfl⟩
    | denied row hd =>
      refine Or.inl ⟨fun r hr => ?_, hstop rfl⟩
      rcases List.mem_cons.mp hr with rfl | hr
      · exact hd.no_claim r (List.mem_singleton_self r)
      · exact hq.no_claim r hr
    | stuck c hc => exact Or.inl ⟨hq.no_claim, hstop rfl⟩
    | sent c row hc hcl =>
      obtain ⟨r, hr, hrs, -⟩ := hl.row_last List.getLast?_concat
      rw [c.executing] at hrs
      refine Or.inr ⟨c, row, [], rows, rfl, hnil, hq.no_claim,
        ⟨hcl, hstored c hc, r, hr, by rw [hrs]; rfl, fun hn => ?_⟩, hres, Or.inl hnext⟩
      rw [hn] at hnext
      cases hnext
    | withheld c row denial hc hcl hd =>
      obtain ⟨r, hr, hrs, -⟩ := hl.row_last List.getLast?_append
      exact Or.inr ⟨c, row, [denial], rows, rfl, hd.no_claim, hq.no_claim,
        ⟨hcl, hstored c hc, r, hr, by rw [hrs]; rfl, fun _ => by rw [hrs]; rfl⟩, hres, Or.inr hnext⟩

namespace Claiming

variable {h : List (Event F)} {e : Event F}

theorem claimed_step (hc : Claiming e.pre) (ho : Once h e.pre) (hf : Fresh h e.call) {r : Row}
    (hr : r ∈ World.ledger e.post) (he : r.event = .claimed) : ∃ i,
      World.row e.post r.paymentIntentId = some i ∧ i.state.past = true ∧
        i.paymentMethodRef = r.instrumentRef := by
  obtain ⟨puts, rows, hl⟩ := leaves e
  have hledger : World.ledger e.post = rows ++ World.ledger e.pre := hl.ledger
  rw [hledger] at hr
  rcases List.mem_append.mp hr with hnew | hold
  · rcases hl.claims with ⟨hnone, -⟩ | ⟨c, row, before, after, hin⟩
    · exact absurd he (hnone r hnew)
    · have hrow : r = row := by
        rw [hin.rows_eq] at hnew
        rcases List.mem_append.mp hnew with hb | ha
        · exact absurd he (hin.before_none r hb)
        · rcases List.mem_cons.mp ha with rfl | ha
          · rfl
          · exact absurd he (hin.after_none r ha)
      subst hrow
      obtain ⟨i, hi, -, href, -⟩ := hin.left.stored
      obtain ⟨j, hj, hp, -⟩ := hin.left.left
      obtain ⟨j', hj', hm⟩ := hl.row_method hi
      rw [hj] at hj'
      cases hj'
      refine ⟨j, by rw [hin.left.row.intent]; exact hj, hp, ?_⟩
      rw [hm, ← href, hin.left.row.instrument]
  · obtain ⟨i, hi, hp, hm⟩ := hc.claimed r hold he
    obtain ⟨j, hj, hjp⟩ := ho.late_stays hf ⟨i, hi, hp⟩
    obtain ⟨j', hj', hm'⟩ := hl.row_method hi
    rw [hj] at hj'
    cases hj'
    exact ⟨j, hj, hjp, hm'.trans hm⟩

theorem step (hc : Claiming e.pre) (ho : Once h e.pre) (hf : Fresh h e.call) : Claiming e.post := by
  obtain ⟨puts, rows, hl⟩ := leaves e
  have hledger : World.ledger e.post = rows ++ World.ledger e.pre := hl.ledger
  refine ⟨fun r hr he => hc.claimed_step ho hf hr he, fun c hm => ?_, fun l hm => ?_⟩
  · rw [hledger]
    rcases EventLoop.mem_waiting hm with hold | hnew
    · obtain ⟨r, hr, hrest⟩ := hc.charging c hold
      exact ⟨r, List.mem_append_right _ hr, hrest⟩
    · rcases hl.claims with ⟨-, hnone⟩ | ⟨c', r, before, after, hin⟩
      · exact absurd hnew (hnone c)
      · rcases hin.awaits with ha | ha
        · obtain rfl : c = c' := by
            have h := Option.some.inj (hnew.symm.trans ha)
            cases h
            rfl
          have hcl := hin.left.row
          refine ⟨r, ?_, hcl.event, hcl.intent, hcl.execution, hcl.amount, hcl.currency,
            hcl.instrument⟩
          rw [hin.rows_eq]
          simp
        · have h := hnew.symm.trans ha
          cases h
  · rcases EventLoop.mem_waiting hm with hold | hnew
    · obtain ⟨href, i, hi, hm⟩ := hc.lookingUp l hold
      obtain ⟨j, hj, hjm⟩ := hl.row_method hi
      exact ⟨href, j, hj, hjm.trans hm⟩
    · cases (awaited hnew).1 with
      | lookingUp _ _ hr hins => exact ⟨Table.key_of_find hins, l.intent, hr, rfl⟩

theorem reach {w : World F} (hrun : (payments F).machine.Run Fresh h w) : Claiming w := by
  induction hrun with
  | start =>
    exact
      { claimed := fun _ hr => by cases hr
        charging := fun _ hm => by cases hm
        lookingUp := fun _ hm => by cases hm }
  | step hr hc ih => exact Claiming.step (e := ⟨_, _⟩) ih (Once.reach hr) hc

end Claiming

/-! ### The open claims -/

theorem charged_stays {e : Event F} {x : String} (h : e.pre.shared.store.charged x = true) :
    e.post.shared.store.charged x = true := by
  obtain ⟨puts, rows, hl⟩ := leaves e
  obtain ⟨r, hr, hx⟩ := List.any_eq_true.mp h
  refine List.any_eq_true.mpr ⟨r, ?_, hx⟩
  rw [hl.ledger]
  exact List.mem_append_right _ hr

/-- A claim that is no longer open stays so. -/
theorem open_before {h : List (Event F)} {e : Event F} (hc : Claiming e.pre) (ho : Once h e.pre)
    (hf : Fresh h e.call) {r : Row} (hr : r ∈ World.ledger e.pre) (he : r.event = .claimed)
    (hopen : isOpen e.post r = true) : isOpen e.pre r = true := by
  obtain ⟨i, hi, hp, -⟩ := hc.claimed r hr he
  simp only [isOpen, Bool.and_eq_true, Bool.not_eq_true', Bool.or_eq_true] at hopen ⊢
  obtain ⟨hfree, hhand⟩ := hopen
  refine ⟨?_, ?_⟩
  · by_contra hcharged
    rw [charged_stays (Bool.eq_true_of_not_eq_false hcharged)] at hfree
    cases hfree
  rcases hhand with hrow | hwait
  · cases hj : World.row e.post r.paymentIntentId with
    | none =>
      rw [hj] at hrow
      cases hrow
    | some j =>
      rw [hj] at hrow
      have hju : j.state.unresolved = true := hrow
      cases shift e r.paymentIntentId with
      | same hs =>
        left
        rw [← hs, hj]
        exact hju
      | drafted r' hd _ _ _ => exact absurd hd (ho.row_drawn hf hi)
      | presented n q r' hq _ hk _ _ =>
        obtain ⟨r'', hr'', -, hs⟩ := ho.quoting q (List.mem_of_getElem? hq)
        rw [hk, hi] at hr''
        cases hr''
        rcases hs with hs | hs <;> rw [hs] at hp <;> cases hp
      | withdrawn i' r' hi' hcan _ _ _ =>
        rw [hi] at hi'
        cases hi'
        rw [cancellable_early hcan] at hp
        cases hp
      | bought i' r' quote hi' _ hp' _ =>
        rw [hi] at hi'
        cases hi'
        rw [hp'] at hp
        cases hp
      | claimed f r' hm hk hr' _ hu =>
        rw [hj] at hr'
        cases hr'
        right
        refine List.any_eq_true.mpr ⟨f, hm, ?_⟩
        cases hpur : Frame.pursued f with
        | none =>
          rw [hu hpur] at hju
          cases hju
        | some k =>
          have hclaimed := execution_claimed hk
          rw [pursued_claimed hpur] at hclaimed
          simp [Option.some.inj hclaimed]
  · obtain ⟨f, hm, hpur⟩ := List.any_eq_true.mp hwait
    have hpur : Frame.pursued f = some r.paymentIntentId := by simpa using hpur
    rcases EventLoop.mem_waiting hm with hold | hnew
    · right
      exact List.any_eq_true.mpr ⟨f, hold, by simp [hpur]⟩
    · cases (awaited hnew).1 with
      | quoting q r' _ _ _ _ => cases hpur
      | refunding r' _ => cases hpur
      | cancelling c => cases hpur
      | charging c stored r' _ hst hearly _ _ _ =>
        rw [Option.some.inj hpur, hi] at hst
        cases hst
        rw [hearly] at hp
        cases hp
      | lookingUp l hpre _ _ =>
        left
        rw [← Option.some.inj hpur, hpre]
        exact l.unresolved

/-! ### Booking -/

/-- A charge that is booked was claimed with the same amount, today. -/
theorem Books.claim {e : Event F} {row : Row} (hb : Books e row) (hc : Claiming e.pre)
    (hx : Exact e) (hn : Counted e) (hfree : e.pre.shared.store.charged row.executionId = false) :
    ∃ r ∈ World.ledger e.pre, r.event = .claimed ∧ r.executionId = row.executionId ∧
      r.amountMinor = row.amountMinor ∧ r.currency = row.currency ∧
        r.instrumentRef = row.instrumentRef ∧ utcDay r.bookedAt = utcDay row.bookedAt ∧
          isOpen e.pre r = true := by
  cases hb with
  | settled i c p hcall hf hp hv hrow =>
    have hmem := List.mem_of_getElem? hf
    obtain ⟨r, hr, he, hid, hex, ham, hcur, href⟩ := hc.charging c hmem
    obtain ⟨hamount, hcurrency⟩ := hx.charged i p c hcall hf hp
    have hexr : r.executionId = row.executionId := hex.trans hrow.execution.symm
    have hday := hn.booked i _ _ hcall hf hv r hr he hid (by rw [hexr]; exact hfree)
    refine ⟨r, hr, he, hexr, ?_, ?_, href.trans hrow.instrument.symm,
      by rw [hday, hrow.moment], ?_⟩
    · rw [ham, hrow.amount, hamount]
      split
      · rfl
      · rfl
    · rw [hcur, hrow.currency, hcurrency]
      split
      · rfl
      · rfl
    · rw [isOpen, hexr, hfree]
      simp only [Bool.not_false, Bool.true_and, Bool.or_eq_true]
      exact Or.inr (List.any_eq_true.mpr ⟨_, hmem, by simp [Frame.pursued, hid]⟩)
  | found i l p hcall hf hp hv hrow =>
    have hmem := List.mem_of_getElem? hf
    obtain ⟨r, hr, he, hid, hex, ham, hcur⟩ := hx.found i p l hcall hf hp
    have hexr : r.executionId = row.executionId := hex.trans hrow.execution.symm
    have hday := hn.booked i _ _ hcall hf hv r hr he hid (by rw [hexr]; exact hfree)
    obtain ⟨href, j, hj, hjm⟩ := hc.lookingUp l hmem
    obtain ⟨j', hj', -, hjm'⟩ := hc.claimed r hr he
    rw [hid, hj] at hj'
    cases hj'
    refine ⟨r, hr, he, hexr, ham.trans hrow.amount.symm, hcur.trans hrow.currency.symm, ?_,
      by rw [hday, hrow.moment], ?_⟩
    · rw [hrow.instrument, href, ← hjm, hjm']
    · rw [isOpen, hexr, hfree]
      simp only [Bool.not_false, Bool.true_and, Bool.or_eq_true]
      exact Or.inr (List.any_eq_true.mpr ⟨_, hmem, by simp [Frame.pursued, hid]⟩)

section limit

variable {h : List (Event F)} {e : Event F} {ref currency : String} {day : Int}

theorem total_none {keep : Row → Bool} {event : LedgerEvent} {rows : List Row}
    (hk : ∀ r, keep r = true → r.event = event) (h : ∀ r ∈ rows, r.event ≠ event) :
    total keep Row.amountMinor rows = 0 := by
  refine total_zero (fun r hr => ?_)
  by_contra hkeep
  exact h r hr (hk r (Bool.eq_true_of_not_eq_false hkeep))

theorem charge_event {r : Row} (h : charge ref currency day r = true) : r.event = .charged := by
  simp only [charge, Bool.and_eq_true, decide_eq_true_eq] at h
  exact h.1.1.1

theorem openClaim_event {w : World F} {r : Row} (h : openClaim w ref currency day r = true) :
    r.event = .claimed := by
  simp only [openClaim, Bool.and_eq_true, decide_eq_true_eq] at h
  exact h.1.1.1.1

theorem open_mono (hc : Claiming e.pre) (ho : Once h e.pre) (hf : Fresh h e.call) :
    ∀ r ∈ World.ledger e.pre, openClaim e.post ref currency day r = true →
      openClaim e.pre ref currency day r = true := by
  intro r hr hopen
  simp only [openClaim, Bool.and_eq_true] at hopen ⊢
  exact ⟨hopen.1, open_before hc ho hf hr (by simpa using hopen.1.1.1.1) hopen.2⟩

/-- What a turn claims passes the check with the open claims counted. -/
theorem claim_counts (hc : Claiming e.pre) (ho : Once h e.pre) (hf : Fresh h e.call)
    (hn : Counted e) {L : Nat} {rows before after : List Row} {c : Charging F} {r : Row}
    (hin : ClaimIn e rows c r before after)
    (hlimit : utcDay e.call.now = day → ∀ i, e.pre.shared.store.instrument? ref = some i →
      0 < i.dailyTotalMinor ∧ i.dailyTotalMinor ≤ L)
    (hi : e.pre.shared.store.dayTotalMinor ref currency day + openTotal e.pre ref currency day ≤ L) :
    e.pre.shared.store.dayTotalMinor ref currency day +
      (total (openClaim e.post ref currency day) Row.amountMinor rows +
        total (openClaim e.post ref currency day) Row.amountMinor (World.ledger e.pre)) ≤ L := by
  have hmono : total (openClaim e.post ref currency day) Row.amountMinor (World.ledger e.pre) ≤
      openTotal e.pre ref currency day := total_mono (open_mono hc ho hf)
  have hrows : total (openClaim e.post ref currency day) Row.amountMinor rows =
      if openClaim e.post ref currency day r then r.amountMinor else 0 := by
    rw [hin.rows_eq, total_append, total_cons, total_none (fun _ => openClaim_event) hin.before_none,
      total_none (fun _ => openClaim_event) hin.after_none]
    omega
  rw [hrows]
  split
  · rename_i hopen
    simp only [openClaim, Bool.and_eq_true, decide_eq_true_eq] at hopen
    obtain ⟨⟨⟨⟨-, href⟩, hcur⟩, hday⟩, hopen⟩ := hopen
    have hrow := hin.left.row
    rw [hrow.instrument] at href
    rw [hrow.currency] at hcur
    rw [hrow.moment] at hday
    rcases hin.awaits with ha | ha
    · have hallowed := (evaluate_none (hn.sent c ha)).2.2.2.2
      obtain ⟨i, -, -, -, hins⟩ := hin.left.stored
      rw [href, hcur, hday] at hallowed
      obtain ⟨hpos, hle⟩ := hlimit hday c.instrument (href ▸ hins)
      have hcheck := hallowed (Nat.pos_iff_ne_zero.mp hpos)
      rw [hrow.amount]
      omega
    · exfalso
      obtain ⟨i, hi', hearly, -⟩ := hin.left.stored
      obtain ⟨j, hj, -, hu⟩ := hin.left.left
      simp only [isOpen, Bool.and_eq_true, Bool.or_eq_true] at hopen
      rcases hopen.2 with hrow' | hwait
      · rw [hrow.intent, hj] at hrow'
        have hju : j.state.unresolved = true := hrow'
        rw [hu ha] at hju
        cases hju
      · obtain ⟨f, hm, hpur⟩ := List.any_eq_true.mp hwait
        have hpur : Frame.pursued f = some r.paymentIntentId := by simpa using hpur
        rcases EventLoop.mem_waiting hm with hold | hnew
        · obtain ⟨i', hi'', hp⟩ := ho.claimed f hold _ (pursued_claimed hpur)
          rw [hrow.intent, hi'] at hi''
          cases hi''
          rw [hearly] at hp
          cases hp
        · have hnone := hnew.symm.trans ha
          cases hnone
  · omega

/-- What a turn books was an open claim of the day. -/
theorem booking_counts (hc : Claiming e.pre) (ho : Once h e.pre) (hf : Fresh h e.call)
    (hx : Exact e) (hn : Counted e) {quiet : List Row} {row : Row} {puts : List (PaymentIntent F)}
    (hl : Leaves e puts (quiet ++ [row])) (hq : ∀ r ∈ quiet, r.event ≠ .charged)
    (hfree : e.pre.shared.store.charged row.executionId = false) (hb : Books e row) :
    total (charge ref currency day) Row.amountMinor (quiet ++ [row]) +
      total (openClaim e.post ref currency day) Row.amountMinor (World.ledger e.pre) ≤
        openTotal e.pre ref currency day := by
  have hmono : ∀ r ∈ World.ledger e.pre, openClaim e.post ref currency day r = true →
      openClaim e.pre ref currency day r = true := open_mono hc ho hf
  rw [total_append, total_none (fun _ => charge_event) hq, total_cons, total_nil]
  split
  · rename_i hcharge
    simp only [charge, Bool.and_eq_true, decide_eq_true_eq] at hcharge
    obtain ⟨⟨⟨hevent, href⟩, hday⟩, hcur⟩ := hcharge
    obtain ⟨r, hr, he, hex, ham, hcur', href', hday', hopen⟩ := hb.claim hc hx hn hfree
    have hclosed : isOpen e.post r = false := by
      have hcharged : e.post.shared.store.charged r.executionId = true := by
        refine List.any_eq_true.mpr ⟨row, ?_, by simp [hevent, hex]⟩
        rw [hl.ledger]
        simp
      rw [isOpen, hcharged]
      rfl
    have hdrop : total (openClaim e.post ref currency day) Row.amountMinor (World.ledger e.pre) +
        r.amountMinor ≤ total (openClaim e.pre ref currency day) Row.amountMinor
          (World.ledger e.pre) :=
      total_drop hmono hr (by simp [openClaim, he, href', href, hcur', hcur, hday', hday, hopen])
        (by simp [openClaim, hclosed])
    rw [ham] at hdrop
    unfold openTotal
    omega
  · have hle : total (openClaim e.post ref currency day) Row.amountMinor (World.ledger e.pre) ≤
        openTotal e.pre ref currency day := total_mono hmono
    omega

theorem limit_step (hc : Claiming e.pre) (ho : Once h e.pre) (hf : Fresh h e.call)
    (hx : Exact e) (hn : Counted e) {L : Nat}
    (hlimit : utcDay e.call.now = day → ∀ i, e.pre.shared.store.instrument? ref = some i →
      0 < i.dailyTotalMinor ∧ i.dailyTotalMinor ≤ L)
    (hi : e.pre.shared.store.dayTotalMinor ref currency day + openTotal e.pre ref currency day ≤ L) :
    e.post.shared.store.dayTotalMinor ref currency day + openTotal e.post ref currency day ≤ L := by
  obtain ⟨puts, rows, hl⟩ := leaves e
  have hday : e.post.shared.store.dayTotalMinor ref currency day =
      total (charge ref currency day) Row.amountMinor rows +
        e.pre.shared.store.dayTotalMinor ref currency day := by
    have h := total_append (charge ref currency day) Row.amountMinor rows (World.ledger e.pre)
    rw [← show World.ledger e.post = rows ++ World.ledger e.pre from hl.ledger] at h
    exact h
  have hopen : openTotal e.post ref currency day =
      total (openClaim e.post ref currency day) Row.amountMinor rows +
        total (openClaim e.post ref currency day) Row.amountMinor (World.ledger e.pre) := by
    unfold openTotal
    rw [show World.ledger e.post = rows ++ World.ledger e.pre from hl.ledger, total_append]
  have hmono : total (openClaim e.post ref currency day) Row.amountMinor (World.ledger e.pre) ≤
      openTotal e.pre ref currency day := total_mono (open_mono hc ho hf)
  rw [hday, hopen]
  rcases hl.claims with ⟨hnone, -⟩ | ⟨c, r, before, after, hin⟩
  · rw [total_none (fun _ => openClaim_event) hnone]
    rcases hl.bookings with hq | ⟨quiet, row, rfl, hq, hfree, hb⟩
    · rw [total_none (fun _ => charge_event) hq]
      omega
    · have hcount : total (charge ref currency day) Row.amountMinor (quiet ++ [row]) +
          total (openClaim e.post ref currency day) Row.amountMinor (World.ledger e.pre) ≤
            openTotal e.pre ref currency day := booking_counts hc ho hf hx hn hl hq hfree hb
      omega
  · rcases hl.bookings with hq | ⟨quiet, row, rfl, hq, hfree, hb⟩
    · have hcount := claim_counts hc ho hf hn hin hlimit hi
      rw [total_none (fun _ => charge_event) hq]
      omega
    · exact absurd hin.resumed hb.resumed

end limit

/-- In a run whose charges go out within the limit with the open claims counted,
and are booked on the day of their claim, the day stays within the limit. -/
theorem day_limit_holds {h : List (Event F)} {w : World F}
    (hrun : (payments F).machine.Run Fresh h w) (hx : ∀ e ∈ h, Exact e) (hn : ∀ e ∈ h, Counted e)
    (ref currency : String) (day : Int) (L : Nat)
    (hlimit : ∀ e ∈ h, utcDay e.call.now = day →
      ∀ i, e.pre.shared.store.instrument? ref = some i → 0 < i.dailyTotalMinor ∧ i.dailyTotalMinor ≤ L) :
    w.shared.store.dayTotalMinor ref currency day ≤ L := by
  have hcount : w.shared.store.dayTotalMinor ref currency day + openTotal w ref currency day ≤ L := by
    induction hrun with
    | start => exact Nat.zero_le L
    | @step h w c hr hc ih =>
      have hmem : (⟨w, c⟩ : Event F) ∈ (⟨w, c⟩ : Event F) :: h := List.mem_cons_self ..
      exact limit_step (e := ⟨w, c⟩) (Claiming.reach hr) (Once.reach hr) hc (hx _ hmem) (hn _ hmem)
        (hlimit _ hmem) (ih (fun e he => hx e (List.mem_cons_of_mem _ he))
          (fun e he => hn e (List.mem_cons_of_mem _ he))
          (fun e he => hlimit e (List.mem_cons_of_mem _ he)))
  exact Nat.le_trans (Nat.le_add_right _ _) hcount

/-! ### Two purchases -/

/-- Two purchases go out before the provider answers the first. -/
def sampleTwice : List (Step sampleFence) :=
  [samplePurchase "pi-1" "x-1" 1000, samplePurchase "pi-2" "x-2" 2000, sampleAnswer "ch-1",
    sampleAnswer "ch-2"]

def sampleSent : World sampleFence := sampleBought sampleFirst "pi-2" "x-2" 2000

def sampleSettled : World sampleFence :=
  ((payments sampleFence).machine.step (sampleAnswer "ch-1") sampleSent).2

theorem sample_sent : ((payments sampleFence).machine.step (samplePurchase "pi-2" "x-2" 2000)
    sampleFirst).2 = sampleSent :=
  step_bought (by decide) (by decide) (by decide) (by decide)

theorem sample_twice : (payments sampleFence).machine.history [] (payments sampleFence).machine.init
    (samplePresented ++ sampleTwice) =
      ⟨sampleSettled, sampleAnswer "ch-2"⟩ :: ⟨sampleSent, sampleAnswer "ch-1"⟩ ::
        ⟨sampleFirst, samplePurchase "pi-2" "x-2" 2000⟩ ::
          ⟨sampleWorld sampleIds, samplePurchase "pi-1" "x-1" 1000⟩ ::
            (payments sampleFence).machine.history [] (payments sampleFence).machine.init
              samplePresented := by
  rw [Machine.history_append, sample_world]
  unfold sampleTwice
  rw [Machine.history_cons, sample_first, Machine.history_cons, sample_sent, Machine.history_cons]
  rfl

theorem sample_total : ((payments sampleFence).machine.after (payments sampleFence).machine.init
    (samplePresented ++ sampleTwice)).shared.store.dayTotalMinor "card" "EUR" 0 = 12000 := by
  rw [Machine.after_append, sample_world]
  unfold sampleTwice
  rw [Machine.after_cons, sample_first, Machine.after_cons, sample_sent]
  decide

/-- The provider is not heard of a charge. -/
def silent (s : Step F) : Bool :=
  match s.turn with
  | .resume _ (Answer.charged _) | .resume _ (Answer.found _) => false
  | _ => true

theorem exact_silent {e : Event F} (h : silent e.call = true) : Exact e := by
  constructor
  · intro i p c hc _ _
    simp only [silent, hc] at h
    cases h
  · intro i p l hc _ _
    simp only [silent, hc] at h
    cases h

/-- What a waiting charge has asked for. -/
def asked (w : World F) : Option (Nat × String) :=
  match w.waiting[0]? with
  | some (Frame.charging c) => some (c.quote.totalMinor, c.quote.currency)
  | _ => none

theorem exact_answer {w : World sampleFence} {ref : String} (h : asked w = some (6000, "EUR")) :
    Exact ⟨w, sampleAnswer ref⟩ := by
  constructor
  · intro i p c hc hf _
    cases hc
    have hf : w.waiting[0]? = some (Frame.charging c) := hf
    simp only [asked, hf, Option.some.injEq, Prod.mk.injEq] at h
    exact ⟨h.1.symm, h.2.symm⟩
  · intro i p l hc
    cases hc

theorem sample_exact : ∀ e ∈ (payments sampleFence).machine.history []
    (payments sampleFence).machine.init (samplePresented ++ sampleTwice), Exact e := by
  rw [sample_twice]
  intro e he
  simp only [List.mem_cons] at he
  rcases he with rfl | rfl | rfl | rfl | he
  · exact exact_answer (by decide)
  · exact exact_answer (by decide)
  · exact exact_silent rfl
  · exact exact_silent rfl
  · rcases Machine.mem_history he with he | he
    · cases he
    · have hall : ∀ s ∈ samplePresented, silent s = true := by decide
      exact exact_silent (hall _ he)

/-- The only instrument is the sample. -/
def onlySample (w : World sampleFence) : Bool :=
  w.shared.store.instruments.rows.all (fun i => i = sampleInstrument)

theorem only_sample_limit {w : World sampleFence} (h : onlySample w = true) {ref : String}
    {i : Instrument} (hi : w.shared.store.instrument? ref = some i) :
    0 < i.dailyTotalMinor ∧ i.dailyTotalMinor ≤ 10000 := by
  have hmem : i ∈ w.shared.store.instruments.rows := Table.mem_of_find hi
  have he : i = sampleInstrument := by simpa using List.all_eq_true.mp h i hmem
  subst he
  decide

theorem prefix_only : ∀ e ∈ (payments sampleFence).machine.history []
    (payments sampleFence).machine.init samplePresented, onlySample e.pre = true := by
  have hall : ((payments sampleFence).machine.history [] (payments sampleFence).machine.init
      samplePresented).all (fun e => onlySample e.pre) = true := by decide
  exact fun e he => List.all_eq_true.mp hall e he

theorem sample_only : ∀ e ∈ (payments sampleFence).machine.history []
    (payments sampleFence).machine.init (samplePresented ++ sampleTwice),
      onlySample e.pre = true := by
  rw [sample_twice]
  intro e he
  simp only [List.mem_cons] at he
  rcases he with rfl | rfl | rfl | rfl | he
  · decide
  · decide
  · decide
  · decide
  · exact prefix_only e he

/-- Two purchases that are checked before either is booked go over the limit. -/
theorem limit_exceeded : ¬ ∀ h (w : World sampleFence),
    (payments sampleFence).machine.Run Fresh h w → (∀ e ∈ h, Exact e) →
      ∀ ref currency day L, (∀ e ∈ h, utcDay e.call.now = day →
        ∀ i, e.pre.shared.store.instrument? ref = some i →
          0 < i.dailyTotalMinor ∧ i.dailyTotalMinor ≤ L) →
        w.shared.store.dayTotalMinor ref currency day ≤ L := by
  intro hall
  have h := hall _ _ (run_of_fresh (samplePresented ++ sampleTwice) (by decide)) sample_exact
    "card" "EUR" 0 10000 (fun e he _ i hi => only_sample_limit (sample_only e he) hi)
  rw [sample_total] at h
  exact absurd h (by decide)

/-! ### One purchase -/

/-- Neither a purchase nor an answer that books. -/
def idle (s : Step F) : Bool :=
  match s.turn with
  | .start (Call.purchase _ _ _ _) => false
  | .start _ => true
  | .resume _ (Answer.quoted _) => true
  | .resume _ _ => false

theorem counted_idle {e : Event F} (h : idle e.call = true) : Counted e := by
  constructor
  · intro c hc
    cases (awaited hc).1 with
    | charging _ stored r hs _ _ _ _ _ =>
      obtain ⟨vorgang, pruefsumme, identity, access, _, _, _, _, hcall, -⟩ := hs
      rw [idle, hcall] at h
      cases h
  · intro i a f hcall hf hv
    exfalso
    rw [idle, hcall] at h
    cases a <;> cases h
    cases f with
    | quoting q =>
      simp only [Frame.verdict, Option.map_eq_some_iff] at hv
      obtain ⟨_, -, hq⟩ := hv
      cases hq
    | charging c => cases hv
    | lookingUp l => cases hv
    | refunding r => cases hv
    | cancelling c => cases hv

/-- A charge in flight that passes the check of a world. -/
def passes (w : World F) (now : Time) : Frame F → Bool
  | .charging c => evaluate c.instrument c.quote.currency c.running.merchantId c.quote.totalMinor
      (w.shared.store.dayTotalMinor c.instrument.paymentRef c.quote.currency (utcDay now) +
        openTotal w c.instrument.paymentRef c.quote.currency (utcDay now)) = none
  | _ => true

theorem sample_counted : ∀ e ∈ (payments sampleFence).machine.history []
    (payments sampleFence).machine.init (samplePresented ++ sampleOnce), Counted e := by
  rw [sample_once]
  intro e he
  simp only [List.mem_cons] at he
  rcases he with rfl | rfl | he
  · refine ⟨fun c hc => ?_, fun i a f hcall hf hv r hr he hid hfree => ?_⟩
    · cases (awaited hc).1 with
      | charging _ stored r hs _ _ _ _ _ =>
        obtain ⟨vorgang, pruefsumme, identity, access, _, _, _, _, hcall, -⟩ := hs
        cases hcall
    · have hall : (World.ledger sampleFirst).all (fun r => utcDay r.bookedAt = 0) = true := by
        decide
      have hday : utcDay r.bookedAt = 0 := by simpa using List.all_eq_true.mp hall r hr
      rw [hday]
      rfl
  · refine ⟨fun c hc => ?_, fun i a f hcall => by cases hcall⟩
    have hall : sampleFirst.waiting.all (passes (sampleWorld sampleIds) 1000) = true := by
      decide
    have hmem := EventLoop.awaits_waits hc
    rw [Machine.Entry.post, sample_first] at hmem
    have hpass := List.all_eq_true.mp hall _ hmem
    simp only [passes, decide_eq_true_eq] at hpass
    exact hpass
  · rcases Machine.mem_history he with he | he
    · cases he
    · have hall : ∀ s ∈ samplePresented, idle s = true := by decide
      exact counted_idle (hall _ he)

theorem day_limit_sample : ((payments sampleFence).machine.after (payments sampleFence).machine.init
    (samplePresented ++ sampleOnce)).shared.store.dayTotalMinor "card" "EUR" 0 ≤ 10000 := by
  refine day_limit_holds (run_of_fresh _ (by decide)) (fun e he => ?_) sample_counted "card" "EUR" 0
    10000 (fun e he _ i hi => only_sample_limit ?_ hi)
  · rw [sample_once] at he
    simp only [List.mem_cons] at he
    rcases he with rfl | rfl | he
    · exact exact_answer (by decide)
    · exact exact_silent rfl
    · rcases Machine.mem_history he with he | he
      · cases he
      · have hall : ∀ s ∈ samplePresented, silent s = true := by decide
        exact exact_silent (hall _ he)
  · rw [sample_once] at he
    simp only [List.mem_cons] at he
    rcases he with rfl | rfl | he
    · decide
    · decide
    · exact prefix_only e he

end Solvio.Payment
