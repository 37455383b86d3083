import Solvio.Payment.Deeds

namespace Solvio.Payment
open Solvio.Lib Solvio.Approval

variable {F : Fence}

/-- From the claim on, an intent is not approved again. -/
def PaymentState.past : PaymentState → Bool
  | .executing | .awaitingSca | .reconciliationRequired | .succeeded | .failed
  | .partiallyRefunded | .refunded => true
  | _ => false

/-- The identifier that a step draws for an intent. -/
def draws (s : Step F) : Option String :=
  match s.turn with
  | .start (Call.prepare p _) => some p.paymentIntentId
  | _ => none

/-- An identifier is drawn once. -/
def Fresh (h : List (Event F)) (s : Step F) : Prop :=
  ∀ k, draws s = some k → ∀ e ∈ h, draws e.call ≠ some k

/-- The turn sends a charge of this intent. -/
def sends (k : String) (e : Event F) : Bool :=
  match EventLoop.Event.awaits e with
  | some (Frame.charging c) => c.running.paymentIntentId = k
  | _ => false

def sent (k : String) (h : List (Event F)) : Nat := h.countP (sends k)

def Frame.quotes (k : String) : Frame F → Nat
  | .quoting q => if q.draft.paymentIntentId = k then 1 else 0
  | _ => 0

def quotings (k : String) (w : World F) : Nat := (w.waiting.map (Frame.quotes k)).sum

/-- The intent that a task has claimed, or found claimed. -/
def Frame.claimed : Frame F → Option String
  | .charging c => some c.running.paymentIntentId
  | .lookingUp l => some l.intent.paymentIntentId
  | .refunding r => some r.intent.paymentIntentId
  | _ => none

/-- The execution that a task holds an intent's row for. -/
def Frame.execution : Frame F → Option (String × String)
  | .charging c => some (c.running.paymentIntentId, c.identity.executionId)
  | .lookingUp l => some (l.intent.paymentIntentId, l.intent.executionId)
  | .refunding r => some (r.intent.paymentIntentId, r.intent.executionId)
  | _ => none

theorem execution_claimed {f : Frame F} {k x : String} (h : Frame.execution f = some (k, x)) :
    Frame.claimed f = some k := by
  cases f <;> cases h <;> rfl

/-- The intent whose charge a task is about to settle or to look up. -/
def Frame.pursued : Frame F → Option String
  | .charging c => some c.running.paymentIntentId
  | .lookingUp l => some l.intent.paymentIntentId
  | _ => none

theorem pursued_claimed {f : Frame F} {k : String} (h : Frame.pursued f = some k) :
    Frame.claimed f = some k := by
  cases f <;> cases h <;> rfl

def Late (w : World F) (k : String) : Prop := ∃ r, World.row w k = some r ∧ r.state.past = true

structure Once (h : List (Event F)) (w : World F) : Prop where
  drawn : ∀ k r, World.row w k = some r → ∃ e ∈ h, draws e.call = some k
  quoting : ∀ q, Frame.quoting q ∈ w.waiting → ∃ r, World.row w q.draft.paymentIntentId = some r ∧
    r.quote = none ∧ (r.state = .draft ∨ r.state = .cancelled)
  single : ∀ k, quotings k w ≤ 1
  claimed : ∀ f ∈ w.waiting, ∀ k, Frame.claimed f = some k → Late w k
  late : ∀ k, 0 < sent k h → Late w k
  once : ∀ k, sent k h ≤ 1

/-- The row of an intent before and after a turn. -/
inductive Shift (e : Event F) (k : String) : Prop
  | same : World.row e.post k = World.row e.pre k → Shift e k
  | drafted (r : PaymentIntent F) : draws e.call = some k → World.row e.post k = some r →
      r.state = .draft → r.quote = none → Shift e k
  | presented (i : Nat) (q : Quoting F) (r : PaymentIntent F) :
      e.pre.waiting[i]? = some (Frame.quoting q) → EventLoop.Event.resumed e = some (.quoting q) →
      q.draft.paymentIntentId = k → World.row e.post k = some r → r.state.past = false → Shift e k
  | withdrawn (i r : PaymentIntent F) : World.row e.pre k = some i → i.state.cancellable = true →
      World.row e.post k = some r → r.state = .cancelled → r.quote = i.quote → Shift e k
  | bought (i r : PaymentIntent F) (quote : PaymentQuote) : World.row e.pre k = some i →
      i.quote = some quote → i.state.past = false → World.row e.post k = some r → Shift e k
  | claimed (f : Frame F) (r : PaymentIntent F) : f ∈ e.pre.waiting →
      Frame.execution f = some (k, r.executionId) →
      World.row e.post k = some r → r.state.past = true →
      (Frame.pursued f = none → r.state.unresolved = false) → Shift e k

theorem PaymentState.unresolved_past {s : PaymentState} (h : s.unresolved = true) :
    s.past = true := by
  cases s <;> simp_all [unresolved, past]

theorem PaymentState.settled_past {s : PaymentState} (h : s.settled = true) : s.past = true := by
  cases s <;> simp_all [settled, past]

theorem refundState_past (r : Refunding F) (n : Nat) : (Store.refundState r n).past = true := by
  unfold Store.refundState
  split <;> rfl

theorem refundState_resolved (r : Refunding F) (n : Nat) :
    (Store.refundState r n).unresolved = false := by
  unfold Store.refundState
  split <;> rfl

theorem Event.resumed_eq {e : Event F} {i : Nat} {a : Answer} {f : Frame F}
    (hc : e.call.turn = .resume i a) (hf : e.pre.waiting[i]? = some f) :
    EventLoop.Event.resumed e = some f := by
  simp only [EventLoop.Event.resumed, hc]
  exact hf

theorem shift (e : Event F) (k : String) : Shift e k := by
  obtain ⟨puts, rows, hl⟩ := leaves e
  have hnone : puts = [] → Shift e k := by
    rintro rfl
    exact .same (hl.row_other (fun i hi => by cases hi))
  have hclaimed : ∀ (i : Nat) (f : Frame F) (j : PaymentIntent F), puts = [j] →
      e.pre.waiting[i]? = some f → Frame.execution f = some (j.paymentIntentId, j.executionId) →
      j.state.past = true → (Frame.pursued f = none → j.state.unresolved = false) → Shift e k := by
    rintro i f j rfl hf hj hp hu
    by_cases hk : j.paymentIntentId = k
    · subst hk
      obtain ⟨r, hr, hrs, -, hrx⟩ := hl.row_last rfl
      exact .claimed f r (List.mem_of_getElem? hf) (by rw [hrx]; exact hj) hr (by rw [hrs]; exact hp)
        (by rw [hrs]; exact hu)
    · exact .same (hl.row_other (by simpa using hk))
  cases hl.deed with
  | nothing _ => exact hnone rfl
  | looking l _ _ _ _ => exact hnone rfl
  | asked vorgang amountMinor identity access r _ _ _ _ => exact hnone rfl
  | cancelling c _ _ => exact hnone rfl
  | orderCancelled c row _ _ => exact hnone rfl
  | prepared p access draft row hc _ hd _ _ =>
    obtain ⟨hs, hid, hq, -⟩ := Store.draft_fresh hd
    by_cases hk : draft.paymentIntentId = k
    · subst hk
      obtain ⟨r, hr, hrs, hrq, -⟩ := hl.row_last rfl
      exact .drafted r (by simp only [draws, hc, hid]) hr (hrs.trans hs) (hrq.trans hq)
    · exact .same (hl.row_other (by simpa using hk))
  | presented i q p quote target row hc hf _ _ ht _ =>
    by_cases hk : q.draft.paymentIntentId = k
    · subst hk
      obtain ⟨r, hr, hrs, -, -⟩ := hl.row_last rfl
      refine .presented i q r hf (Event.resumed_eq hc hf) rfl hr ?_
      rcases ht with rfl | rfl <;> rw [hrs] <;> rfl
    · exact .same (hl.row_other (by simpa [PaymentIntent.withQuote] using hk))
  | withdrawn vorgang i row _ _ hi hc _ =>
    by_cases hk : i.paymentIntentId = k
    · subst hk
      obtain ⟨r, hr, hrs, hrq, -⟩ := hl.row_last rfl
      exact .withdrawn i r hi hc hr hrs hrq
    · exact .same (hl.row_other (by simpa using hk))
  | bought vorgang pruefsumme identity access stored approved quote puts puts' rows rows' _ _ ha _
      _ _ hch =>
    by_cases hk : approved.paymentIntentId = k
    · subst hk
      have hpast : stored.state.past = false := by
        rcases ha.written with ⟨hs, -⟩ | ⟨hs, -⟩ <;> rw [hs] <;> rfl
      have hbought : (∃ r, World.row e.post approved.paymentIntentId = some r) →
          Shift e approved.paymentIntentId :=
        fun ⟨r, hr⟩ => .bought stored r quote ha.found_self ha.quoted hpast hr
      generalize EventLoop.Event.awaits e = next at hch
      cases hch with
      | refused =>
        rw [List.append_nil] at hl
        rcases ha.written with ⟨-, rfl⟩ | ⟨-, rfl⟩
        · exact .same (hl.row_other (fun i hi => by cases hi))
        · obtain ⟨r, hr, -⟩ := hl.row_last rfl
          exact hbought ⟨r, hr⟩
      | denied row _ =>
        obtain ⟨r, hr, -⟩ := hl.row_last List.getLast?_concat
        exact hbought ⟨r, hr⟩
      | stuck c hc =>
        obtain ⟨r, hr, -⟩ := hl.row_last List.getLast?_concat
        exact hbought ⟨r, hc.intent ▸ hr⟩
      | sent c row hc _ =>
        obtain ⟨r, hr, -⟩ := hl.row_last List.getLast?_concat
        exact hbought ⟨r, hc.intent ▸ hr⟩
      | withheld c row denial hc _ _ =>
        obtain ⟨r, hr, -⟩ := hl.row_last List.getLast?_append
        exact hbought ⟨r, hc.intent ▸ hr⟩
    · refine .same (hl.row_other (fun i hi he => hk ?_))
      rcases List.mem_append.mp hi with hi | hi
      · exact (ha.about.2 i hi).symm.trans he
      · exact (hch.about i hi).symm.trans he
  | settled i a c puts rows hc hf _ hs =>
    cases hs with
    | nothing _ => exact hnone rfl
    | charged p row _ _ _ _ =>
      exact hclaimed i _ _ rfl hf (by simp [Frame.execution, c.claimed]) rfl (fun h => by cases h)
    | other target _ _ ht _ =>
      refine hclaimed i _ _ rfl hf (by simp [Frame.execution, c.claimed]) ?_ (fun h => by cases h)
      rcases ht with rfl | rfl | rfl <;> rfl
  | resolved i a l puts rows hc hf _ hs =>
    cases hs with
    | nothing _ => exact hnone rfl
    | charged p row _ _ _ _ _ _ => exact hclaimed i _ _ rfl hf rfl rfl (fun h => by cases h)
    | failed _ _ _ => exact hclaimed i _ _ rfl hf rfl rfl (fun h => by cases h)
  | repaid i p r puts rows hc hf _ hs =>
    cases hs with
    | nothing _ => exact hnone rfl
    | refunded row _ _ _ _ _ _ =>
      exact hclaimed i _ _ rfl hf rfl (refundState_past r _) (fun _ => refundState_resolved r _)
    | unwritten _ _ =>
      exact hclaimed i _ _ rfl hf rfl (refundState_past r _) (fun _ => refundState_resolved r _)

/-- A turn that sends a charge: a purchase whose arguments name the stored
quote, and whose charge has read the row approved and in time. -/
inductive Sends (e : Event F) (c : Charging F) : Prop
  | sends (vorgang pruefsumme : String) (identity : ExecutionIdentity) (access : Access)
      (stored read : PaymentIntent F) (quote : PaymentQuote) (s : Store F) :
      e.call.turn = .start (Call.purchase vorgang pruefsumme identity access) →
      World.row e.pre (stripped vorgang) = some stored → stored.quote = some quote →
      stored.economicDigest quote = stripped pruefsumme →
      e.pre.shared.store.approve vorgang pruefsumme identity e.call.now = some (read, s) →
      s.intent? stored.paymentIntentId = some read → read.state = .approved →
      read.isExpired e.call.now = false → c.running.paymentIntentId = stored.paymentIntentId →
      c.identity = identity → c.request.amountMinor = quote.totalMinor →
      c.request.currency = quote.currency → c.request.merchantId = stored.merchantId → Sends e c

/-- Where a turn waits next. -/
inductive Awaits (e : Event F) : Frame F → Prop
  | quoting (q : Quoting F) (r : PaymentIntent F) : draws e.call = some q.draft.paymentIntentId →
      World.row e.post q.draft.paymentIntentId = some r → r.state = .draft → r.quote = none →
      Awaits e (.quoting q)
  | charging (c : Charging F) (stored r : PaymentIntent F) : Sends e c →
      World.row e.pre c.running.paymentIntentId = some stored → stored.state.past = false →
      World.row e.post c.running.paymentIntentId = some r → r.state = .executing →
      r.executionId = c.identity.executionId → Awaits e (.charging c)
  | lookingUp (l : LookingUp F) : World.row e.pre l.intent.paymentIntentId = some l.intent →
      World.row e.post l.intent.paymentIntentId = some l.intent →
      e.pre.shared.store.instrument? l.intent.paymentMethodRef = some l.instrument →
      Awaits e (.lookingUp l)
  | refunding (r : Refunding F) : World.row e.post r.intent.paymentIntentId = some r.intent →
      Awaits e (.refunding r)
  | cancelling (c : Cancelling F) : Awaits e (.cancelling c)

theorem awaited {e : Event F} {f : Frame F} (h : EventLoop.Event.awaits e = some f) :
    Awaits e f ∧ EventLoop.Event.resumed e = none := by
  obtain ⟨puts, rows, hl⟩ := leaves e
  have hstop : EventLoop.Event.awaits e = none → Awaits e f ∧ EventLoop.Event.resumed e = none := by
    intro hn
    rw [hn] at h
    cases h
  cases hl.deed with
  | nothing hn => exact hstop hn
  | presented i q p quote target row _ _ hn _ _ _ => exact hstop hn
  | withdrawn vorgang i row _ hn _ _ _ => exact hstop hn
  | settled i a c puts rows _ _ hn _ => exact hstop hn
  | resolved i a l puts rows _ _ hn _ => exact hstop hn
  | repaid i p r puts rows _ _ hn _ => exact hstop hn
  | orderCancelled c row hn _ => exact hstop hn
  | looking l hres ha hi hins =>
    obtain rfl : Frame.lookingUp l = f := Option.some.inj (ha.symm.trans h)
    exact ⟨.lookingUp l hi ((hl.row_other (fun i hi => by cases hi)).trans hi) hins, hres⟩
  | asked vorgang amountMinor identity access r _ hres ha hr =>
    obtain rfl : Frame.refunding r = f := Option.some.inj (ha.symm.trans h)
    exact ⟨.refunding r ((hl.row_other (fun i hi => by cases hi)).trans
      (Store.refund_some hr).1.found), hres⟩
  | cancelling c hres ha =>
    obtain rfl : Frame.cancelling c = f := Option.some.inj (ha.symm.trans h)
    exact ⟨.cancelling c, hres⟩
  | prepared p access draft row hc hres hd _ hg =>
    obtain ⟨hs, hid, hq, -⟩ := Store.draft_fresh hd
    obtain ⟨hd, -, rfl⟩ := hg f h
    obtain ⟨r, hr, hrs, hrq, -⟩ := hl.row_last rfl
    exact ⟨.quoting _ r (by simp only [draws, hc, hid]) hr (hrs.trans hs) (hrq.trans hq), hres⟩
  | bought vorgang pruefsumme identity access stored approved quote puts puts' rows rows' hc hres ha
      _ happ hi hch =>
    rw [h] at hch
    cases hch with
    | sent c row hcl _ =>
      have hpast : stored.state.past = false := by
        rcases ha.written with ⟨hs, -⟩ | ⟨hs, -⟩ <;> rw [hs] <;> rfl
      obtain ⟨r, hr, hrs, -, hrx⟩ := hl.row_last List.getLast?_concat
      have hsame := ha.same
      have hrun := hcl.running
      refine ⟨.charging c stored r ⟨vorgang, pruefsumme, identity, access, stored, approved, quote, _,
        hc, ha.found, ha.quoted, ha.digest, happ, ha.about.1 ▸ hi, ha.state, ?_,
        hcl.intent.trans ha.about.1, hcl.sameIdentity, ?_, ?_, ?_⟩ (hcl.intent ▸ ha.found_self)
        hpast hr (hrs.trans c.executing) (hrx.trans c.claimed), hres⟩
      · rw [hsame]
        exact ha.live
      · simp only [Charging.request, hcl.sameQuote]
      · simp only [Charging.request, hcl.sameQuote]
      · simp only [Charging.request]
        rw [hrun, hsame]

theorem cancellable_early {s : PaymentState} (h : s.cancellable = true) : s.past = false := by
  cases s <;> simp_all [PaymentState.cancellable, PaymentState.past]

theorem sends_eq {k : String} {e : Event F} (h : sends k e = true) : ∃ c,
    EventLoop.Event.awaits e = some (Frame.charging c) ∧ c.running.paymentIntentId = k := by
  unfold sends at h
  split at h
  · rename_i c hc
    exact ⟨c, hc, by simpa using h⟩
  · cases h

theorem sent_cons (k : String) (e : Event F) (h : List (Event F)) :
    sent k (e :: h) = sent k h + if sends k e then 1 else 0 := List.countP_cons

theorem quotings_pos {k : String} {w : World F} : 0 < quotings k w ↔
    ∃ q, Frame.quoting q ∈ w.waiting ∧ q.draft.paymentIntentId = k := by
  unfold quotings
  rw [List.sum_pos_iff_exists_pos_nat]
  constructor
  · rintro ⟨n, hn, hpos⟩
    obtain ⟨f, hf, rfl⟩ := List.mem_map.mp hn
    cases f with
    | quoting q =>
      simp only [Frame.quotes] at hpos
      split at hpos
      · rename_i hk
        exact ⟨q, hf, hk⟩
      · cases hpos
    | charging c => cases hpos
    | lookingUp l => cases hpos
    | refunding r => cases hpos
    | cancelling c => cases hpos
  · rintro ⟨q, hq, hk⟩
    exact ⟨_, List.mem_map_of_mem hq, by simp only [Frame.quotes, hk, ↓reduceIte, Nat.zero_lt_one]⟩

/-- A turn that resumes the quoting task of an intent leaves none. -/
theorem quotings_resumed {k : String} {e : Event F} {q : Quoting F}
    (hr : EventLoop.Event.resumed e = some (Frame.quoting q)) (hk : q.draft.paymentIntentId = k) :
    quotings k e.post + 1 = quotings k e.pre := by
  have hnone : EventLoop.Event.awaits e = none := by
    cases ha : EventLoop.Event.awaits e with
    | none => rfl
    | some f =>
      have h := (awaited ha).2
      rw [hr] at h
      cases h
  have hsum := EventLoop.sum_waiting (ℓ := payments F) (Frame.quotes k) e
  rw [hr, hnone] at hsum
  simpa [quotings, Frame.quotes, hk] using hsum

namespace Once

variable {h : List (Event F)} {e : Event F}

theorem row_drawn (hi : Once h e.pre) (hf : Fresh h e.call) {k : String} {r : PaymentIntent F}
    (hr : World.row e.pre k = some r) : draws e.call ≠ some k := by
  intro hd
  obtain ⟨n, hn, hk⟩ := hi.drawn k r hr
  exact hf k hd n hn hk

theorem late_stays (hi : Once h e.pre) (hf : Fresh h e.call) {k : String} (hl : Late e.pre k) :
    Late e.post k := by
  obtain ⟨r, hr, hp⟩ := hl
  cases shift e k with
  | same hs => exact ⟨r, hs.trans hr, hp⟩
  | drafted r' hd _ _ _ => exact absurd hd (hi.row_drawn hf hr)
  | presented i q r' hq _ hk _ _ =>
    obtain ⟨r'', hr'', -, hs⟩ := hi.quoting q (List.mem_of_getElem? hq)
    rw [hk, hr] at hr''
    cases hr''
    rcases hs with hs | hs <;> rw [hs] at hp <;> cases hp
  | withdrawn i r' hi' hc _ _ _ =>
    rw [hr] at hi'
    cases hi'
    rw [cancellable_early hc] at hp
    cases hp
  | bought i r' quote hi' _ hp' _ =>
    rw [hr] at hi'
    cases hi'
    rw [hp'] at hp
    cases hp
  | claimed f r' _ _ hr' hp' _ => exact ⟨r', hr', hp'⟩

theorem drawn_step (hi : Once h e.pre) {k : String} {r : PaymentIntent F}
    (hr : World.row e.post k = some r) : ∃ n ∈ e :: h, draws n.call = some k := by
  have hold : ∀ r', World.row e.pre k = some r' → ∃ n ∈ e :: h, draws n.call = some k := by
    intro r' hr'
    obtain ⟨n, hn, hk⟩ := hi.drawn k r' hr'
    exact ⟨n, List.mem_cons_of_mem e hn, hk⟩
  cases shift e k with
  | same hs => exact hold r (hs.symm.trans hr)
  | drafted r' hd _ _ _ => exact ⟨e, List.mem_cons_self .., hd⟩
  | presented i q r' hq _ hk _ _ =>
    obtain ⟨r'', hr'', -⟩ := hi.quoting q (List.mem_of_getElem? hq)
    exact hold r'' (hk ▸ hr'')
  | withdrawn i r' hi' _ _ _ _ => exact hold i hi'
  | bought i r' quote hi' _ _ _ => exact hold i hi'
  | claimed f r' hf hk _ _ _ =>
    obtain ⟨r'', hr'', -⟩ := hi.claimed f hf k (execution_claimed hk)
    exact hold r'' hr''

theorem quoting_step (hi : Once h e.pre) (hf : Fresh h e.call) {q : Quoting F}
    (hq : Frame.quoting q ∈ e.post.waiting) : ∃ r, World.row e.post q.draft.paymentIntentId = some r ∧
      r.quote = none ∧ (r.state = .draft ∨ r.state = .cancelled) := by
  rcases EventLoop.mem_waiting hq with hold | hnew
  · obtain ⟨r, hr, hn, hs⟩ := hi.quoting q hold
    have hearly : r.state.past = false := by rcases hs with hs | hs <;> rw [hs] <;> rfl
    cases shift e q.draft.paymentIntentId with
    | same hsame => exact ⟨r, hsame.trans hr, hn, hs⟩
    | drafted r' hd _ _ _ => exact absurd hd (hi.row_drawn hf hr)
    | presented i q' r' _ hres hk _ _ =>
      have hsum := quotings_resumed hres hk
      have hpos := Iff.mpr quotings_pos ⟨q, hq, rfl⟩
      have hone := hi.single q.draft.paymentIntentId
      omega
    | withdrawn i r' hi' _ hr' hs' hq' =>
      rw [hr] at hi'
      cases hi'
      exact ⟨r', hr', hq'.trans hn, Or.inr hs'⟩
    | bought i r' quote hi' hq' _ _ =>
      rw [hr] at hi'
      cases hi'
      rw [hn] at hq'
      cases hq'
    | claimed f r' hf' hk _ _ _ =>
      obtain ⟨r'', hr'', hp⟩ := hi.claimed f hf' _ (execution_claimed hk)
      rw [hr] at hr''
      cases hr''
      rw [hearly] at hp
      cases hp
  · cases (awaited hnew).1 with
    | quoting _ r _ hr hs hn => exact ⟨r, hr, hn, Or.inl hs⟩

theorem single_step (hi : Once h e.pre) (hf : Fresh h e.call) (k : String) :
    quotings k e.post ≤ 1 := by
  have hsum := EventLoop.sum_waiting (ℓ := payments F) (Frame.quotes k) e
  have hone := hi.single k
  change quotings k e.post + _ = quotings k e.pre + _ at hsum
  cases ha : EventLoop.Event.awaits e with
  | none =>
    rw [ha] at hsum
    simp only [Option.map_none, Option.getD_none] at hsum
    omega
  | some f =>
    rw [ha] at hsum
    simp only [Option.map_some, Option.getD_some] at hsum
    cases (awaited ha).1 with
    | quoting q r hd _ _ _ =>
      simp only [Frame.quotes] at hsum
      split at hsum
      · rename_i hk
        have hzero : quotings k e.pre = 0 := by
          by_contra hne
          obtain ⟨q', hq', hk'⟩ := Iff.mp quotings_pos (Nat.pos_of_ne_zero hne)
          obtain ⟨r', hr', -⟩ := hi.quoting q' hq'
          exact hi.row_drawn hf (hk' ▸ hr') (hk ▸ hd)
        omega
      · omega
    | charging c stored r _ _ _ _ _ _ => simp only [Frame.quotes] at hsum; omega
    | lookingUp l _ _ _ => simp only [Frame.quotes] at hsum; omega
    | refunding r _ => simp only [Frame.quotes] at hsum; omega
    | cancelling c => simp only [Frame.quotes] at hsum; omega

theorem claimed_step (hi : Once h e.pre) (hf : Fresh h e.call) {f : Frame F}
    (hm : f ∈ e.post.waiting) {k : String} (hk : Frame.claimed f = some k) : Late e.post k := by
  rcases EventLoop.mem_waiting hm with hold | hnew
  · exact hi.late_stays hf (hi.claimed f hold k hk)
  · cases (awaited hnew).1 with
    | quoting q r _ _ _ _ => cases hk
    | charging c stored r _ _ _ hr hs _ =>
      cases hk
      exact ⟨r, hr, by rw [hs]; rfl⟩
    | lookingUp l _ hr _ =>
      cases hk
      exact ⟨_, hr, PaymentState.unresolved_past l.unresolved⟩
    | refunding r hr =>
      cases hk
      exact ⟨_, hr, PaymentState.settled_past r.settled⟩
    | cancelling c => cases hk

theorem step (hi : Once h e.pre) (hf : Fresh h e.call) : Once (e :: h) e.post where
  drawn _ _ hr := hi.drawn_step hr
  quoting _ hq := hi.quoting_step hf hq
  single := hi.single_step hf
  claimed _ hm _ hk := hi.claimed_step hf hm hk
  late k hs := by
    rw [sent_cons] at hs
    by_cases hold : 0 < sent k h
    · exact hi.late_stays hf (hi.late k hold)
    · split at hs
      · rename_i hsend
        obtain ⟨c, hc, rfl⟩ := sends_eq hsend
        cases (awaited hc).1 with
        | charging _ stored r _ _ _ hr hst _ => exact ⟨r, hr, by rw [hst]; rfl⟩
      · omega
  once k := by
    rw [sent_cons]
    split
    · rename_i hsend
      obtain ⟨c, hc, rfl⟩ := sends_eq hsend
      have hzero : sent c.running.paymentIntentId h = 0 := by
        by_contra hne
        obtain ⟨r, hr, hp⟩ := hi.late _ (Nat.pos_of_ne_zero hne)
        cases (awaited hc).1 with
        | charging _ stored r' _ hst hearly _ _ _ =>
          rw [hr] at hst
          cases hst
          rw [hearly] at hp
          cases hp
      omega
    · exact hi.once k

theorem reach {w : World F} (hrun : (payments F).machine.Run Fresh h w) : Once h w :=
  hrun.induct Once
    { drawn := fun _ _ hr => by cases hr
      quoting := fun _ hq => by cases hq
      single := fun _ => Nat.zero_le _
      claimed := fun _ hm => by cases hm
      late := fun _ hs => absurd hs (Nat.lt_irrefl 0)
      once := fun _ => Nat.zero_le _ }
    (fun _ w s _ hf hi => Once.step (e := ⟨w, s⟩) hi hf)

end Once

/-! ### The ledger -/

/-- The charges of an execution. -/
def charges (executionId : String) (rows : List Row) : Nat :=
  rows.countP (fun r => r.event = .charged && r.executionId = executionId)

theorem Store.Quiet.no_charge {k : String} {rows : List Row} (h : Store.Quiet k rows) :
    ∀ r ∈ rows, r.event ≠ .charged := by
  intro r hr he
  have hm := (h r hr).1
  rw [he] at hm
  cases hm

/-- A turn books no charge, or the first one of its execution. -/
theorem Deed.books {e : Event F} {puts : List (PaymentIntent F)} {rows : List Row}
    (hd : Deed e puts rows) : (∀ r ∈ rows, r.event ≠ .charged) ∨ ∃ quiet row,
      rows = quiet ++ [row] ∧ (∀ r ∈ quiet, r.event ≠ .charged) ∧ row.event = .charged ∧
        e.pre.shared.store.charged row.executionId = false := by
  cases hd with
  | nothing _ => exact Or.inl (fun r hr => by cases hr)
  | looking l _ _ _ _ => exact Or.inl (fun r hr => by cases hr)
  | asked vorgang amountMinor identity access r _ _ _ _ => exact Or.inl (fun r hr => by cases hr)
  | cancelling c _ _ => exact Or.inl (fun r hr => by cases hr)
  | prepared p access draft row _ _ _ hq _ => exact Or.inl hq.no_charge
  | presented i q p quote target row _ _ _ _ _ hq => exact Or.inl hq.no_charge
  | withdrawn vorgang i row _ _ _ _ hq => exact Or.inl hq.no_charge
  | orderCancelled c row _ hq => exact Or.inl hq.no_charge
  | bought vorgang pruefsumme identity access stored approved quote puts puts' rows rows' _ _ _ hq
      _ _ hch =>
    refine Or.inl (fun r hr => ?_)
    rcases List.mem_append.mp hr with hr | hr
    · exact (hch.unbooked r hr).1
    · exact hq.no_charge r hr
  | settled i a c puts rows _ _ _ hs =>
    cases hs with
    | nothing _ => exact Or.inl (fun r hr => by cases hr)
    | other target _ _ _ hq => exact Or.inl hq.no_charge
    | charged p row _ _ _ _ hb =>
      rcases hb.once with ⟨rfl, hfree⟩ | ⟨rfl, -⟩
      · exact Or.inr ⟨[], row, rfl, (fun r hr => by cases hr), hb.charged, hfree⟩
      · exact Or.inl (fun r hr => by cases hr)
  | resolved i a l puts rows _ _ _ hs =>
    cases hs with
    | nothing _ => exact Or.inl (fun r hr => by cases hr)
    | failed _ _ hq => exact Or.inl hq.no_charge
    | charged p row rows quiet _ _ _ hb hq =>
      rcases hb.once with ⟨rfl, hfree⟩ | ⟨rfl, -⟩
      · exact Or.inr ⟨quiet, row, rfl, hq.no_charge, hb.charged, hfree⟩
      · rw [List.append_nil]
        exact Or.inl hq.no_charge
  | repaid i p r puts rows _ _ _ hs =>
    cases hs with
    | nothing _ => exact Or.inl (fun r hr => by cases hr)
    | unwritten _ _ => exact Or.inl (fun r hr => by cases hr)
    | refunded row _ _ he _ _ _ =>
      refine Or.inl (fun r hr => ?_)
      rw [List.mem_singleton.mp hr, he]
      exact fun h => by cases h

theorem charges_none {x : String} {rows : List Row} (h : ∀ r ∈ rows, r.event ≠ .charged) :
    charges x rows = 0 :=
  List.countP_eq_zero.mpr (fun r hr => by simp [h r hr])

theorem charges_free {s : Store F} {x : String} (h : s.charged x = false) :
    charges x s.ledger = 0 := by
  refine List.countP_eq_zero.mpr (fun r hr hc => ?_)
  rw [Store.charged, List.any_eq_false] at h
  exact h r hr hc

/-- One charge for an execution, however often it is booked. -/
theorem charges_step (e : Event F) (x : String) (h : charges x (World.ledger e.pre) ≤ 1) :
    charges x (World.ledger e.post) ≤ 1 := by
  obtain ⟨puts, rows, hl⟩ := leaves e
  have hledger : World.ledger e.post = rows ++ World.ledger e.pre := hl.ledger
  rw [hledger, charges, List.countP_append]
  rcases hl.deed.books with hq | ⟨quiet, row, rfl, hq, hc, hfree⟩
  · have hz : charges x rows = 0 := charges_none hq
    unfold charges at hz h
    omega
  · have hz : charges x quiet = 0 := charges_none hq
    unfold charges at hz
    rw [List.countP_append, hz, List.countP_singleton]
    split
    · rename_i hx
      simp only [hc, decide_true, Bool.true_and, decide_eq_true_eq] at hx
      have hnone : charges x (World.ledger e.pre) = 0 := hx ▸ charges_free hfree
      unfold charges at hnone
      omega
    · unfold charges at h
      omega

/-- An intent is charged at most once, for the quote that the purchase names;
and an execution has one charge in the ledger. -/
theorem charged_once {h : List (Event F)} {w : World F}
    (hrun : (payments F).machine.Run Fresh h w) :
    (∀ e ∈ h, ∀ c, EventLoop.Event.awaits e = some (Frame.charging c) → Sends e c) ∧
      (∀ k, sent k h ≤ 1) ∧ ∀ x, charges x (World.ledger w) ≤ 1 := by
  refine ⟨fun e _ c hc => ?_, (Once.reach hrun).once, fun x => ?_⟩
  · cases (awaited hc).1 with
    | charging _ stored r hs _ _ _ _ _ => exact hs
  · exact hrun.invariant (fun w => charges x (World.ledger w) ≤ 1) (Nat.zero_le _)
      (fun _ w s _ hi => charges_step ⟨w, s⟩ x hi)

/-! ### A run -/

theorem fresh_of_nodup {before later : List (Step F)} {c : Step F} {k : String}
    (hn : ((before ++ c :: later).filterMap draws).Nodup) (hk : draws c = some k) :
    k ∉ before.filterMap draws := by
  intro hold
  rw [List.filterMap_append, List.nodup_append] at hn
  exact hn.2.2 k hold k (List.mem_filterMap.mpr ⟨c, List.mem_cons_self .., hk⟩) rfl

theorem run_of_fresh (calls : List (Step F)) (hn : (calls.filterMap draws).Nodup) :
    (payments F).machine.Run Fresh
      ((payments F).machine.history [] (payments F).machine.init calls)
      ((payments F).machine.after (payments F).machine.init calls) := by
  refine Machine.Run.history_of .start (fun before c later hcalls => ?_)
  intro k hk e he hd
  rcases Machine.mem_history he with he | he
  · cases he
  · exact fresh_of_nodup (hcalls ▸ hn) hk (List.mem_filterMap.mpr ⟨_, he, hd⟩)

/-- Thirteen digits are a number that is not written down. -/
def sampleFence : Fence := ⟨fun s => decide (13 ≤ s.toList.countP Char.isDigit), by decide⟩

def sampleInstrument : Instrument :=
  { paymentRef := "card", kind := .virtualCard, provider := "sandbox", maxSingleMinor := 50000,
    dailyTotalMinor := 10000, allowedCurrencies := ["EUR"], allowedMerchantIds := ["sandbox-shop"],
    providerSecretRef := "charge", providerReadonlyRef := "read", providerToken := "token" }

def sampleAccess : Access := ⟨true, true⟩

def samplePrepare (id : String) : Prepare :=
  { paymentIntentId := id, origin := "chat", zahlungsmittel := "card", haendler := "sandbox-shop",
    waehrung := "EUR", posten := [("Stativ", 1, 6000)] }

def sampleQuote : ProviderQuote :=
  { quoteRef := "q-1", currency := "EUR", itemsTotalMinor := 6000, totalMinor := 6000 }

def sampleStored : PaymentQuote :=
  { currency := "EUR", itemsTotalMinor := 6000, extras := [], totalMinor := 6000,
    positive := by decide, version := 1, quotedAt := 0, quoteRef := "q-1", chargedCurrency := "",
    chargedTotalMinor := 0 }

def sampleIdentity (executionId : String) : ExecutionIdentity :=
  { executionId, idempotencyKey := "0123456789abcdef", approvalId := "a-1",
    capability := "purchase_place" }

/-- An intent is prepared, and its amount is named. -/
def samplePrepared (id : String) : List (Step sampleFence) :=
  [⟨0, .start (Call.prepare (samplePrepare id) sampleAccess)⟩,
    ⟨0, .resume 0 (Answer.quoted sampleQuote)⟩]

def sampleWorld (ids : List String) : World sampleFence :=
  (payments sampleFence).machine.after (payments sampleFence).machine.init
    (⟨0, .start (Call.putInstrument sampleInstrument)⟩ :: ids.flatMap samplePrepared)

/-- The intent as the person is shown it. -/
def sampleIntent (id : String) : PaymentIntent sampleFence :=
  { paymentIntentId := id, origin := "chat", merchantId := "sandbox-shop",
    merchantOrigin := "https://sandbox.solvio.invalid", currency := "EUR",
    paymentMethodRef := "card", purpose := ⟨"SOLVIO Testladen", by decide⟩,
    items := [⟨⟨"Stativ", by decide⟩, 1, 6000, ""⟩], createdAt := 0, expiresAt := 480000,
    agentExpectedTotalMinor := 0, shippingLabel := "", state := .readyForApproval,
    quote := some sampleStored }

def samplePurchase (id x : String) (now : Time) : Step sampleFence :=
  ⟨now, .start (Call.purchase id ((sampleIntent id).economicDigest sampleStored) (sampleIdentity x)
    sampleAccess)⟩

/-- One intent is bought twice, and the provider answers the first purchase. -/
def sampleCalls : List (Step sampleFence) :=
  ⟨0, .start (Call.putInstrument sampleInstrument)⟩ :: samplePrepared "pi-1" ++
    [samplePurchase "pi-1" "x-1" 1000, samplePurchase "pi-1" "x-2" 2000,
      ⟨3000, .resume 0 (Answer.charged ⟨.succeeded, "ch-1", 6000, "EUR"⟩)⟩]

theorem charged_once_sample :
    sent "pi-1" ((payments sampleFence).machine.history [] (payments sampleFence).machine.init
      sampleCalls) ≤ 1 ∧
    charges "x-1" (World.ledger ((payments sampleFence).machine.after
      (payments sampleFence).machine.init sampleCalls)) ≤ 1 := by
  obtain ⟨-, hsent, hcharges⟩ := charged_once (run_of_fresh sampleCalls (by decide))
  exact ⟨hsent "pi-1", hcharges "x-1"⟩

end Solvio.Payment
