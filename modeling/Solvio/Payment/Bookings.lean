import Solvio.Payment.ChargedOnce

namespace Solvio.Payment
open Solvio.Lib Solvio.Approval

variable {F : Fence}

/-- The turn books this charge. -/
inductive Books (e : Event F) (row : Row) : Prop
  | settled (i : Nat) (c : Charging F) (p : ProviderCharge) :
      e.call.turn = .resume i (Answer.charged p) → e.pre.waiting[i]? = some (Frame.charging c) →
      p.status = .succeeded → e.pre.shared.store.chargeVerdict c (.charged p) = some .succeeded →
      Store.Confirms c p e.call.now row → Books e row
  | found (i : Nat) (l : LookingUp F) (p : ProviderCharge) :
      e.call.turn = .resume i (Answer.found (some p)) →
      e.pre.waiting[i]? = some (Frame.lookingUp l) → p.status = .succeeded →
      Store.lookupVerdict F (.found (some p)) = some .succeeded →
      Store.Finds l p e.call.now row → Books e row

theorem charge_status {s : Store F} {c : Charging F} {p : ProviderCharge}
    (h : s.chargeVerdict c (.charged p) = some .succeeded) : p.status = .succeeded := by
  simp only [Store.chargeVerdict] at h
  cases hp : p.status <;> rw [hp] at h <;> first | rfl | cases h

theorem found_status {p : ProviderCharge}
    (h : Store.lookupVerdict F (.found (some p)) = some .succeeded) : p.status = .succeeded := by
  simp only [Store.lookupVerdict] at h
  cases hp : p.status <;> rw [hp] at h <;> first | rfl | cases h

theorem Leaves.bookings {e : Event F} {puts : List (PaymentIntent F)} {rows : List Row}
    (hl : Leaves e puts rows) : (∀ r ∈ rows, r.event ≠ .charged) ∨ ∃ quiet row,
      rows = quiet ++ [row] ∧ (∀ r ∈ quiet, r.event ≠ .charged) ∧
        e.pre.shared.store.charged row.executionId = false ∧ Books e row := by
  rcases hl.deed.books with hq | ⟨quiet, row, hrows, hq, hc, hfree⟩
  · exact Or.inl hq
  · refine Or.inr ⟨quiet, row, hrows, hq, hfree, ?_⟩
    have hmem : row ∈ rows := by rw [hrows]; simp
    have hquiet : ∀ {k : String}, Store.Quiet k rows → Books e row :=
      fun hqk => absurd hc (hqk.no_charge row hmem)
    have hnil : rows = [] → Books e row := by
      intro hn
      rw [hn] at hmem
      cases hmem
    cases hl.deed with
    | nothing _ => exact hnil rfl
    | looking l _ _ _ _ => exact hnil rfl
    | asked vorgang amountMinor identity access r _ _ _ _ => exact hnil rfl
    | cancelling c _ _ => exact hnil rfl
    | orderCancelled c row' _ hq' => exact hquiet hq'
    | prepared p access draft row' _ _ _ hq' _ => exact hquiet hq'
    | presented i q p quote target row' _ _ _ _ _ hq' => exact hquiet hq'
    | withdrawn vorgang i row' _ _ _ _ hq' => exact hquiet hq'
    | bought vorgang pruefsumme identity access stored approved quote puts puts' rows rows' _ _ _ hq'
        _ _ hch =>
      rcases List.mem_append.mp hmem with hm | hm
      · exact absurd hc (hch.unbooked row hm).1
      · exact absurd hc (hq'.no_charge row hm)
    | repaid i p r puts rows _ _ _ hs =>
      cases hs with
      | nothing _ => exact hnil rfl
      | unwritten _ _ => exact hnil rfl
      | refunded row' _ _ he _ _ _ =>
        rw [List.mem_singleton.mp hmem, he] at hc
        cases hc
    | settled i a c puts rows hcall hf _ hs =>
      cases hs with
      | nothing _ => exact hnil rfl
      | other target rows _ _ hq' => exact hquiet hq'
      | charged p row' rows ha hv hrow hb =>
        subst ha
        have hrr : row = row' := by
          rcases hb.once with ⟨rfl, -⟩ | ⟨rfl, -⟩
          · exact List.mem_singleton.mp hmem
          · cases hmem
        subst hrr
        exact .settled i c p hcall hf (charge_status hv) hv hrow
    | resolved i a l puts rows hcall hf _ hs =>
      cases hs with
      | nothing _ => exact hnil rfl
      | failed rows _ hq' => exact hquiet hq'
      | charged p row' rows quiet' ha hv hrow hb hq' =>
        subst ha
        have hrr : row = row' := by
          rcases List.mem_append.mp hmem with hm | hm
          · exact absurd hc (hq'.no_charge row hm)
          · rcases hb.once with ⟨rfl, -⟩ | ⟨rfl, -⟩
            · exact List.mem_singleton.mp hm
            · cases hm
        subst hrr
        exact .found i l p hcall hf (found_status hv) hv hrow

theorem Books.resumed {e : Event F} {row : Row} (hb : Books e row) :
    EventLoop.Event.resumed e ≠ none := by
  intro hn
  cases hb with
  | settled i c p hcall hf _ _ _ =>
    rw [Event.resumed_eq hcall hf] at hn
    cases hn
  | found i l p hcall hf _ _ _ =>
    rw [Event.resumed_eq hcall hf] at hn
    cases hn

/-- The charges of an intent in the book. -/
def chargesOf (k : String) (rows : List Row) : Nat :=
  rows.countP (fun r => r.event = .charged && r.paymentIntentId = k)

theorem chargesOf_none {k : String} {rows : List Row}
    (h : ∀ r ∈ rows, r.event = .charged → r.paymentIntentId ≠ k) : chargesOf k rows = 0 := by
  refine List.countP_eq_zero.mpr (fun r hr hc => ?_)
  simp only [Bool.and_eq_true, decide_eq_true_eq] at hc
  exact h r hr hc.1 hc.2

theorem chargesOf_zero {k : String} {rows : List Row} (h : chargesOf k rows = 0) :
    ∀ r ∈ rows, r.event = .charged → r.paymentIntentId ≠ k := by
  intro r hr hc hk
  exact List.countP_eq_zero.mp h r hr (by simp [hc, hk])

theorem chargesOf_append (k : String) (rows rows' : List Row) :
    chargesOf k (rows ++ rows') = chargesOf k rows + chargesOf k rows' := List.countP_append

theorem charge_unique {k : String} {rows : List Row} (h : chargesOf k rows ≤ 1) {c c' : Row}
    (hc : c ∈ rows) (hc' : c' ∈ rows) (he : c.event = .charged ∧ c.paymentIntentId = k)
    (he' : c'.event = .charged ∧ c'.paymentIntentId = k) : c = c' := by
  unfold chargesOf at h
  rw [List.countP_eq_length_filter] at h
  have hm : c ∈ rows.filter (fun r => r.event = .charged && r.paymentIntentId = k) :=
    List.mem_filter.mpr ⟨hc, by simp [he]⟩
  have hm' : c' ∈ rows.filter (fun r => r.event = .charged && r.paymentIntentId = k) :=
    List.mem_filter.mpr ⟨hc', by simp [he']⟩
  obtain ⟨a, ha⟩ := List.length_eq_one_iff.mp
    (Nat.le_antisymm h (List.length_pos_of_mem hm))
  rw [ha] at hm hm'
  rw [List.mem_singleton.mp hm, List.mem_singleton.mp hm']

theorem held_new {e : Event F} {f : Frame F} (h : EventLoop.Event.awaits e = some f)
    {k x : String} (hx : Frame.execution f = some (k, x)) :
    ∃ r, World.row e.post k = some r ∧ r.executionId = x := by
  cases (awaited h).1 with
  | quoting q r _ _ _ _ => cases hx
  | charging c stored r _ _ _ hr _ hrx =>
    cases hx
    exact ⟨r, hr, hrx⟩
  | lookingUp l _ hr _ =>
    cases hx
    exact ⟨_, hr, rfl⟩
  | refunding r hr =>
    cases hx
    exact ⟨_, hr, rfl⟩
  | cancelling c => cases hx

/-! ### One charge for one intent -/

/-- The row of an intent is claimed, for this execution. -/
def Held (w : World F) (k x : String) : Prop :=
  ∃ r, World.row w k = some r ∧ r.state.past = true ∧ r.executionId = x

theorem Held.unique {w : World F} {k x y : String} (hx : Held w k x) (hy : Held w k y) : x = y := by
  obtain ⟨r, hr, -, rfl⟩ := hx
  obtain ⟨r', hr', -, rfl⟩ := hy
  rw [hr] at hr'
  cases hr'
  rfl

/-- The tasks and the charges of an intent name the execution of its row. -/
structure Pinned (w : World F) : Prop where
  held : ∀ f ∈ w.waiting, ∀ k x, Frame.execution f = some (k, x) → Held w k x
  named : ∀ row ∈ World.ledger w, row.event = .charged → Held w row.paymentIntentId row.executionId
  one : ∀ k, chargesOf k (World.ledger w) ≤ 1

namespace Pinned

variable {h : List (Event F)} {e : Event F}

/-- The execution of a claimed row stays. -/
theorem held_stays (hp : Pinned e.pre) (ho : Once h e.pre) (hf : Fresh h e.call) {k x : String}
    (hx : Held e.pre k x) : Held e.post k x := by
  obtain ⟨r, hr, hpast, hrx⟩ := hx
  cases shift e k with
  | same hs => exact ⟨r, hs.trans hr, hpast, hrx⟩
  | drafted r' hd _ _ _ => exact absurd hd (ho.row_drawn hf hr)
  | presented i q r' hq _ hk _ _ =>
    obtain ⟨r'', hr'', -, hs⟩ := ho.quoting q (List.mem_of_getElem? hq)
    rw [hk, hr] at hr''
    cases hr''
    rcases hs with hs | hs <;> rw [hs] at hpast <;> cases hpast
  | withdrawn i r' hi' hc _ _ _ =>
    rw [hr] at hi'
    cases hi'
    rw [cancellable_early hc] at hpast
    cases hpast
  | bought i r' quote hi' _ hp' _ =>
    rw [hr] at hi'
    cases hi'
    rw [hp'] at hpast
    cases hpast
  | claimed f r' hfm hk hr' hp' _ =>
    have hsame : r'.executionId = x :=
      (hp.held f hfm k _ hk).unique ⟨r, hr, hpast, hrx⟩
    exact ⟨r', hr', hp', hsame⟩

theorem held_step (hp : Pinned e.pre) (ho : Once h e.pre) (hf : Fresh h e.call) {f : Frame F}
    (hfm : f ∈ e.post.waiting) {k x : String} (hx : Frame.execution f = some (k, x)) :
    Held e.post k x := by
  rcases EventLoop.mem_waiting hfm with hold | hnew
  · exact hp.held_stays ho hf (hp.held f hold k x hx)
  · obtain ⟨r, hr, hrx⟩ := held_new hnew hx
    obtain ⟨r', hr', hpast⟩ := (ho.step hf).claimed f hfm k (execution_claimed hx)
    rw [hr] at hr'
    cases hr'
    exact ⟨r, hr, hpast, hrx⟩

/-- A charge that is booked belongs to a task that waited for it. -/
theorem books_held (hp : Pinned e.pre) {row : Row} (hb : Books e row) :
    Held e.pre row.paymentIntentId row.executionId := by
  cases hb with
  | settled i c p _ hf _ _ hrow =>
    rw [hrow.intent, hrow.execution]
    exact hp.held _ (List.mem_of_getElem? hf) _ _ rfl
  | found i l p _ hf _ _ hrow =>
    rw [hrow.intent, hrow.execution]
    exact hp.held _ (List.mem_of_getElem? hf) _ _ rfl

theorem named_step (hp : Pinned e.pre) (ho : Once h e.pre) (hf : Fresh h e.call)
    {puts : List (PaymentIntent F)} {rows : List Row} (hl : Leaves e puts rows) :
    ∀ row ∈ World.ledger e.post, row.event = .charged →
      Held e.post row.paymentIntentId row.executionId := by
  intro row hr hc
  have hledger : World.ledger e.post = rows ++ World.ledger e.pre := hl.ledger
  rw [hledger] at hr
  rcases List.mem_append.mp hr with hnew | hold
  · rcases hl.bookings with hq | ⟨quiet, row', rfl, hq, -, hb⟩
    · exact absurd hc (hq row hnew)
    · rcases List.mem_append.mp hnew with hm | hm
      · exact absurd hc (hq row hm)
      · obtain rfl := List.mem_singleton.mp hm
        exact hp.held_stays ho hf (hp.books_held hb)
  · exact hp.held_stays ho hf (hp.named row hold hc)

/-- The second charge of an intent would carry the execution of the first. -/
theorem one_step (hp : Pinned e.pre) {puts : List (PaymentIntent F)} {rows : List Row}
    (hl : Leaves e puts rows) (k : String) : chargesOf k (World.ledger e.post) ≤ 1 := by
  have hledger : World.ledger e.post = rows ++ World.ledger e.pre := hl.ledger
  have hone := hp.one k
  rw [hledger, chargesOf_append]
  rcases hl.bookings with hq | ⟨quiet, row, rfl, hq, hfree, hb⟩
  · rw [chargesOf_none (fun r hr hc => absurd hc (hq r hr)), Nat.zero_add]
    exact hone
  · have hquiet : chargesOf k quiet = 0 := chargesOf_none (fun r hr hc => absurd hc (hq r hr))
    have hrow : chargesOf k [row] ≤ 1 := List.countP_le_length
    rw [chargesOf_append, hquiet]
    by_cases hid : row.paymentIntentId = k
    · have hnone : chargesOf k (World.ledger e.pre) = 0 := by
        apply chargesOf_none
        intro row' hr' hc' hid'
        have hx := (hp.named row' hr' hc').unique (by rw [hid', ← hid]; exact hp.books_held hb)
        have hany : e.pre.shared.store.charged row.executionId = true :=
          List.any_eq_true.mpr ⟨row', hr', by simp [hc', hx]⟩
        rw [hfree] at hany
        cases hany
      omega
    · have hzero : chargesOf k [row] = 0 := by
        apply chargesOf_none
        intro r hr _ he
        rw [List.mem_singleton.mp hr] at he
        exact hid he
      omega

theorem step (hp : Pinned e.pre) (ho : Once h e.pre) (hf : Fresh h e.call) : Pinned e.post := by
  obtain ⟨puts, rows, hl⟩ := leaves e
  exact ⟨fun f hfm k x hx => hp.held_step ho hf hfm hx, hp.named_step ho hf hl, hp.one_step hl⟩

theorem reach {w : World F} (hrun : (payments F).machine.Run Fresh h w) : Pinned w := by
  induction hrun with
  | start => exact ⟨fun f hf => (by cases hf), fun r hr => (by cases hr), fun k => Nat.zero_le 1⟩
  | @step h w c hr hf ih =>
    exact ih.step (e := (⟨w, c⟩ : Event F)) (Once.reach hr) hf

end Pinned

/-! ### A purchase -/

/-- A purchase of a presented intent, its digest aside. -/
def boughtStore (s : Store F) (i : PaymentIntent F) (quote : PaymentQuote)
    (identity : ExecutionIdentity) (access : Access) (now : Time) : Option (Frame F) × Store F :=
  Store.charge ((s.putIntent
      { i with state := .approved, approvalId := identity.approvalId }).book now
    { paymentIntentId := i.paymentIntentId, event := .approved, executionId := identity.executionId,
      amountMinor := quote.totalMinor, currency := quote.currency,
      instrumentRef := i.paymentMethodRef }) i.paymentIntentId identity access now

def sampleBought (w : World sampleFence) (id x : String) (now : Time) : World sampleFence :=
  let r := boughtStore w.shared.store (sampleIntent id) sampleStored (sampleIdentity x)
    sampleAccess now
  ⟨{ w.shared with store := r.2 }, w.waiting ++ r.1.toList⟩

theorem step_bought {w : World sampleFence} {id x : String} {now : Time}
    (hid : stripped id = id) (hrow : World.row w id = some (sampleIntent id)) (hx : x ≠ "")
    (hnow : now < 480000) :
    ((payments sampleFence).machine.step (samplePurchase id x now) w).2 = sampleBought w id x now := by
  have hlive : (sampleIntent id).isExpired now = false := by
    have hnot : ¬ (480000 : Time) ≤ now := Int.not_le.mpr hnow
    simp [PaymentIntent.isExpired, sampleIntent, hnot]
  have happ := Store.approve_presented (s := w.shared.store) (i := sampleIntent id)
    (sampleIdentity x) now hid hrow rfl rfl
    (by simp [ExecutionIdentity.usable, sampleIdentity, hx]) hlive (by decide)
  have hp : w.shared.store.purchase id ((sampleIntent id).economicDigest sampleStored)
      (sampleIdentity x) sampleAccess now =
      boughtStore w.shared.store (sampleIntent id) sampleStored (sampleIdentity x) sampleAccess
        now := by
    unfold Store.purchase
    rw [show w.shared.store.approve id _ _ _ = _ from happ]
    rfl
  change EventLoop.World.mk _ _ = _
  simp only [samplePurchase, Desk.start, hp]
  rfl

def sampleIds : List String := ["pi-1", "pi-2"]

def samplePresented : List (Step sampleFence) :=
  ⟨0, .start (Call.putInstrument sampleInstrument)⟩ :: sampleIds.flatMap samplePrepared

def sampleAnswer (ref : String) : Step sampleFence :=
  ⟨3000, .resume 0 (Answer.charged ⟨.succeeded, ref, 6000, "EUR"⟩)⟩

def sampleFirst : World sampleFence := sampleBought (sampleWorld sampleIds) "pi-1" "x-1" 1000

theorem sample_world : (payments sampleFence).machine.after (payments sampleFence).machine.init
    samplePresented = sampleWorld sampleIds := by
  unfold sampleWorld samplePresented
  rfl

theorem sample_first : ((payments sampleFence).machine.step (samplePurchase "pi-1" "x-1" 1000)
    (sampleWorld sampleIds)).2 = sampleFirst :=
  step_bought (by decide) (by decide) (by decide) (by decide)

def sampleOnce : List (Step sampleFence) :=
  [samplePurchase "pi-1" "x-1" 1000, sampleAnswer "ch-1"]

theorem sample_once : (payments sampleFence).machine.history [] (payments sampleFence).machine.init
    (samplePresented ++ sampleOnce) =
      ⟨sampleFirst, sampleAnswer "ch-1"⟩ ::
        ⟨sampleWorld sampleIds, samplePurchase "pi-1" "x-1" 1000⟩ ::
          (payments sampleFence).machine.history [] (payments sampleFence).machine.init
            samplePresented := by
  rw [Machine.history_append, sample_world]
  unfold sampleOnce
  rw [Machine.history_cons, sample_first]
  rfl

end Solvio.Payment
