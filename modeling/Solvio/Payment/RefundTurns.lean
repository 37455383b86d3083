import Solvio.Payment.Bookings
import Solvio.Lib.Sums

namespace Solvio.Payment
open Solvio.Lib Solvio.Approval

variable {F : Fence}

def World.provider (w : World F) : Provider := w.shared.provider

/-- The request for a refund that a turn sends. -/
def asks (e : Event F) : Option Ask :=
  match EventLoop.Event.awaits e with
  | some (Frame.refunding r) => some r.ask
  | _ => none

/-- A refund that was booked, with the key that it was asked for under. -/
structure Repaid where
  key : String
  paymentIntentId : String
  amountMinor : Nat

/-- The answer is no replay, and the fence lets its text pass. -/
def Store.takesRefund (s : Store F) (r : Refunding F) (p : ProviderRefund) : Bool :=
  !F.refuses p.refundRef &&
    !(p.refundRef ≠ "" && s.refundAlreadyBooked r.intent.paymentIntentId p.refundRef)

/-- The refund that a turn books. -/
def repays (e : Event F) : Option Repaid :=
  match EventLoop.Event.resumed e, e.call.turn with
  | some (Frame.refunding r), .resume _ (Answer.refunded p) =>
    if e.pre.shared.store.takesRefund r p then
      some ⟨r.key, r.intent.paymentIntentId, p.amountMinor⟩
    else none
  | _, _ => none

/-- The provider may still honour the request, or has done so. -/
def Provider.Holds (p : Provider) (a : Ask) : Prop := a ∈ p.asked ∨ a ∈ p.honoured

/-! ### What a turn means for the refunds -/

theorem Provider.holds_ask {p : Provider} {a b : Ask} (h : (p.ask a).Holds b) :
    p.Holds b ∨ b = a := by
  rcases h with h | h
  · rcases List.mem_append.mp h with h | h
    · exact Or.inl (Or.inl h)
    · exact Or.inr (List.mem_singleton.mp h)
  · exact Or.inl (Or.inr h)

theorem Provider.holds_decline {p : Provider} {n : Nat} {b : Ask} (h : (p.decline n).Holds b) :
    p.Holds b := h.imp_left List.mem_of_mem_eraseIdx

/-- The provider honours a new request, or nothing. -/
theorem Provider.honour_cases (p : Provider) (n : Nat) : p.honour n = p ∨
    ∃ a, p.asked[n]? = some a ∧ (∀ b ∈ p.honoured, b.key ≠ a.key) ∧
      p.honour n = { p with honoured := a :: p.honoured } := by
  unfold honour
  split
  · exact Or.inl rfl
  · rename_i a ha
    split
    · exact Or.inl rfl
    · rename_i hnone
      refine Or.inr ⟨a, ha, fun b hb hk => hnone ?_, rfl⟩
      exact List.any_eq_true.mpr ⟨b, hb, by simpa using hk⟩

/-- A turn, as far as it is about refunds. -/
inductive RefundTurn (e : Event F) : Prop
  | asked (r : Refunding F) : EventLoop.Event.awaits e = some (Frame.refunding r) →
      EventLoop.Event.resumed e = none → e.pre.shared.store.Opens r →
      World.provider e.post = (World.provider e.pre).ask r.ask →
      World.ledger e.post = World.ledger e.pre → RefundTurn e
  | honoured (n : Nat) : e.call.turn = .start (Call.honour n) → asks e = none →
      EventLoop.Event.resumed e = none →
      World.provider e.post = (World.provider e.pre).honour n →
      World.ledger e.post = World.ledger e.pre → RefundTurn e
  | declined (n : Nat) : asks e = none → EventLoop.Event.resumed e = none →
      World.provider e.post = (World.provider e.pre).decline n →
      World.ledger e.post = World.ledger e.pre → RefundTurn e
  | answered (r : Refunding F) : asks e = none →
      EventLoop.Event.resumed e = some (Frame.refunding r) → repays e = none →
      World.provider e.post = World.provider e.pre →
      World.ledger e.post = World.ledger e.pre → RefundTurn e
  | repaid (i : Nat) (r : Refunding F) (p : ProviderRefund) (row : Row) : asks e = none →
      e.call.turn = .resume i (Answer.refunded p) →
      e.pre.waiting[i]? = some (Frame.refunding r) →
      repays e = some ⟨r.key, r.intent.paymentIntentId, p.amountMinor⟩ →
      World.provider e.post = World.provider e.pre →
      World.ledger e.post = row :: World.ledger e.pre → row.event = .refunded →
      row.paymentIntentId = r.intent.paymentIntentId → row.amountMinor = p.amountMinor →
      RefundTurn e
  | other (rows : List Row) : asks e = none →
      (∀ r, EventLoop.Event.resumed e ≠ some (Frame.refunding r)) →
      World.provider e.post = World.provider e.pre →
      World.ledger e.post = rows ++ World.ledger e.pre → (∀ row ∈ rows, row.event ≠ .refunded) →
      RefundTurn e

theorem asked_call {e : Event F} {r : Refunding F}
    (h : EventLoop.Event.awaits e = some (Frame.refunding r)) :
    ∃ vorgang amountMinor identity access,
      e.call.turn = .start (Call.refund vorgang amountMinor identity access) ∧
        e.pre.shared.store.refund? vorgang amountMinor identity access = some r := by
  obtain ⟨puts, rows, hl⟩ := leaves e
  cases hl.deed with
  | asked vorgang amountMinor identity access r' hc _ ha hr =>
    obtain rfl : r' = r := Frame.refunding.inj (Option.some.inj (ha.symm.trans h))
    exact ⟨vorgang, amountMinor, identity, access, hc, hr⟩
  | nothing hn => rw [hn] at h; cases h
  | presented i q p quote target row _ _ hn _ _ _ => rw [hn] at h; cases h
  | withdrawn vorgang i row _ hn _ _ _ => rw [hn] at h; cases h
  | settled i a c puts rows _ _ hn _ => rw [hn] at h; cases h
  | resolved i a l puts rows _ _ hn _ => rw [hn] at h; cases h
  | repaid i p r puts rows _ _ hn _ => rw [hn] at h; cases h
  | orderCancelled c row hn _ => rw [hn] at h; cases h
  | looking l _ ha _ _ => rw [ha] at h; cases h
  | cancelling c _ ha => rw [ha] at h; cases h
  | prepared p access draft row _ _ _ _ hg =>
    obtain ⟨_, _, hq⟩ := hg _ h
    cases hq
  | bought vorgang pruefsumme identity access stored approved quote puts puts' rows rows' _ _ _ _ _
      _ hch =>
    rw [h] at hch
    cases hch

theorem Store.Quiet.no_refund {k : String} {rows : List Row} (h : Store.Quiet k rows) :
    ∀ r ∈ rows, r.event ≠ .refunded := by
  intro r hr he
  have hm := (h r hr).1
  rw [he] at hm
  cases hm

theorem Store.Booked.no_refund {s : Store F} {row : Row} {rows : List Row} (h : s.Booked row rows) :
    ∀ r ∈ rows, r.event ≠ .refunded := by
  intro r hr he
  rcases h.once with ⟨rfl, -⟩ | ⟨rfl, -⟩
  · rw [List.mem_singleton.mp hr, h.charged] at he
    cases he
  · cases hr

/-- Only the answer to a refund books one. -/
theorem Leaves.unrefunded {e : Event F} {puts : List (PaymentIntent F)} {rows : List Row}
    (hl : Leaves e puts rows) (hn : ∀ r, EventLoop.Event.resumed e ≠ some (Frame.refunding r)) :
    ∀ row ∈ rows, row.event ≠ .refunded := by
  cases hl.deed with
  | nothing _ => exact fun r hr => by cases hr
  | looking l _ _ _ _ => exact fun r hr => by cases hr
  | asked vorgang amountMinor identity access r _ _ _ _ => exact fun r hr => by cases hr
  | cancelling c _ _ => exact fun r hr => by cases hr
  | prepared p access draft row _ _ _ hq _ => exact hq.no_refund
  | presented i q p quote target row _ _ _ _ _ hq => exact hq.no_refund
  | withdrawn vorgang i row _ _ _ _ hq => exact hq.no_refund
  | orderCancelled c row _ hq => exact hq.no_refund
  | bought vorgang pruefsumme identity access stored approved quote puts puts' rows rows' _ _ _ hq
      _ _ hch =>
    intro r hr
    rcases List.mem_append.mp hr with hr | hr
    · exact (hch.unbooked r hr).2
    · exact hq.no_refund r hr
  | settled i a c puts rows _ _ _ hs =>
    cases hs with
    | nothing _ => exact fun r hr => by cases hr
    | other target _ _ _ hq => exact hq.no_refund
    | charged p row _ _ _ _ hb => exact hb.no_refund
  | resolved i a l puts rows _ _ _ hs =>
    cases hs with
    | nothing _ => exact fun r hr => by cases hr
    | failed _ _ hq => exact hq.no_refund
    | charged p row rows quiet _ _ _ hb hq =>
      intro r hr
      rcases List.mem_append.mp hr with hr | hr
      · exact hq.no_refund r hr
      · exact hb.no_refund r hr
  | repaid i p r puts rows hc hf _ _ => exact absurd (Event.resumed_eq hc hf) (hn r)

theorem asks_none {e : Event F} (h : ∀ vorgang amountMinor identity access,
    e.call.turn ≠ .start (Call.refund vorgang amountMinor identity access)) : asks e = none := by
  unfold asks
  split
  · rename_i r hr
    obtain ⟨vorgang, amountMinor, identity, access, hc, -⟩ := asked_call hr
    exact absurd hc (h _ _ _ _)
  · rfl

theorem resume_provider (f : Frame F) (a : Answer) (now : Time) (d : Desk F) :
    (d.resume f a now).2.provider = d.provider := by
  unfold Desk.resume
  split <;> rfl

theorem refundTurn_start (e : Event F) (c : Call) (hc : e.call.turn = .start c)
    (hawaits : EventLoop.Event.awaits e = (e.pre.shared.start c e.call.now).1)
    (hpost : e.post.shared = (e.pre.shared.start c e.call.now).2) : RefundTurn e := by
  have hres : EventLoop.Event.resumed e = none := by simp only [EventLoop.Event.resumed, hc]
  obtain ⟨puts, rows, hl⟩ := leaves e
  have hquiet := hl.unrefunded (fun r h => by rw [hres] at h; cases h)
  have hother : (∀ vorgang amountMinor identity access,
      c ≠ .refund vorgang amountMinor identity access) →
      (e.pre.shared.start c e.call.now).2.provider = e.pre.shared.provider → RefundTurn e :=
    fun hn hp => .other rows
      (asks_none (fun v n i a h => by rw [hc] at h; cases h; exact hn v n i a rfl))
      (fun r h => by rw [hres] at h; cases h) ((congrArg Desk.provider hpost).trans hp) hl.ledger
      hquiet
  cases c with
  | refund vorgang amountMinor identity access =>
    cases hr : e.pre.shared.store.refund? vorgang amountMinor identity access with
    | none =>
      simp only [Desk.start, hr] at hawaits hpost
      exact .other rows (by simp only [asks, hawaits]) (fun r h => by rw [hres] at h; cases h)
        (congrArg Desk.provider hpost) hl.ledger hquiet
    | some r =>
      simp only [Desk.start, hr] at hawaits hpost
      exact .asked r hawaits hres (Store.refund_some hr).1 (congrArg Desk.provider hpost)
        ((congrArg (fun d => Store.ledger (Desk.store d)) hpost).trans rfl)
  | honour n =>
    exact .honoured n hc (asks_none (fun _ _ _ _ h => by rw [hc] at h; cases h)) hres
      (congrArg Desk.provider hpost) ((congrArg (fun d => Store.ledger (Desk.store d)) hpost).trans rfl)
  | decline n =>
    exact .declined n (asks_none (fun _ _ _ _ h => by rw [hc] at h; cases h)) hres
      (congrArg Desk.provider hpost) ((congrArg (fun d => Store.ledger (Desk.store d)) hpost).trans rfl)
  | prepare p access => exact hother (fun _ _ _ _ h => by cases h) rfl
  | cancelIntent vorgang => exact hother (fun _ _ _ _ h => by cases h) rfl
  | purchase vorgang pruefsumme identity access => exact hother (fun _ _ _ _ h => by cases h) rfl
  | reconcile vorgang access => exact hother (fun _ _ _ _ h => by cases h) rfl
  | orderCancel vorgang identity access => exact hother (fun _ _ _ _ h => by cases h) rfl
  | putInstrument i => exact hother (fun _ _ _ _ h => by cases h) rfl
  | deleteInstrument ref => exact hother (fun _ _ _ _ h => by cases h) rfl

theorem repays_eq {e : Event F} {i : Nat} {r : Refunding F} {p : ProviderRefund}
    (hc : e.call.turn = .resume i (Answer.refunded p))
    (hf : e.pre.waiting[i]? = some (Frame.refunding r)) :
    repays e = if e.pre.shared.store.takesRefund r p then
      some ⟨r.key, r.intent.paymentIntentId, p.amountMinor⟩ else none := by
  simp only [repays, Event.resumed_eq hc hf, hc]

theorem repays_some {e : Event F} {t : Repaid} (h : repays e = some t) : ∃ i r p,
    e.call.turn = .resume i (Answer.refunded p) ∧ e.pre.waiting[i]? = some (Frame.refunding r) ∧
      t = ⟨r.key, r.intent.paymentIntentId, p.amountMinor⟩ := by
  unfold repays at h
  split at h
  · rename_i r i p hres hc
    split at h
    · cases h
      refine ⟨i, r, p, hc, ?_, rfl⟩
      simpa only [EventLoop.Event.resumed, hc] using hres
    · cases h
  · cases h

theorem refundTurn_answered (e : Event F) (i : Nat) (r : Refunding F) (p : ProviderRefund)
    (hc : e.call.turn = .resume i (Answer.refunded p))
    (hf : e.pre.waiting[i]? = some (Frame.refunding r))
    (hpost : e.post.shared =
      { e.pre.shared with store := e.pre.shared.store.refundAnswered r p e.call.now }) :
    RefundTurn e := by
  have hres := Event.resumed_eq hc hf
  have hasks : asks e = none := asks_none (fun _ _ _ _ h => by rw [hc] at h; cases h)
  have hprovider : World.provider e.post = World.provider e.pre :=
    (congrArg Desk.provider hpost).trans rfl
  have hreps := repays_eq hc hf
  obtain ⟨puts, rows, hs, h⟩ := e.pre.shared.store.refundAnswered_wrote r p e.call.now
  have hledger : World.ledger e.post = rows ++ World.ledger e.pre := by
    simp only [World.ledger, hpost, h, Store.wrote_ledger]
  have hverdict : e.pre.shared.store.takesRefund r p = (!F.refuses p.refundRef &&
      (e.pre.shared.store.refundVerdict r (.refunded p)).isSome) := by
    simp only [Store.takesRefund, Store.refundVerdict]
    split
    · rename_i hdup
      simp [hdup.1, hdup.2]
    · rename_i hdup
      have hfree : p.refundRef = "" ∨
          e.pre.shared.store.refundAlreadyBooked r.intent.paymentIntentId p.refundRef = false := by
        by_cases hb : p.refundRef = ""
        · exact Or.inl hb
        · exact Or.inr (by simpa using fun hd => hdup ⟨hb, hd⟩)
      simpa using fun _ => hfree
  cases hs with
  | nothing hv =>
    rw [hverdict, hv, Option.isSome_none, Bool.and_false] at hreps
    exact .answered r hasks hres hreps hprovider hledger
  | unwritten hv hr =>
    rw [hverdict, hr, Bool.not_true, Bool.false_and] at hreps
    exact .answered r hasks hres hreps hprovider hledger
  | refunded row hv hr he hid ham _ =>
    rw [hverdict, hv, hr, Option.isSome_some, Bool.not_false, Bool.and_true, if_pos rfl] at hreps
    exact .repaid i r p row hasks hc hf hreps hprovider hledger he hid ham

theorem refundTurn (e : Event F) : RefundTurn e := by
  obtain ⟨w, s⟩ := e
  rcases EventLoop.run_cases s w with ⟨c, hs, hr⟩ | ⟨i, a, f, before, behind, hs, hf, -, hr⟩ |
    ⟨i, a, hs, hf, hr⟩
  · exact refundTurn_start ⟨w, s⟩ c hs (congrArg Prod.fst hr)
      (congrArg (fun r => EventLoop.World.shared (Prod.snd r)) hr)
  · have hpost : (Machine.Entry.post (⟨w, s⟩ : Event F)).shared = (w.shared.resume f a s.now).2 :=
      congrArg (fun r => EventLoop.World.shared (Prod.snd r)) hr
    have hasks : asks (⟨w, s⟩ : Event F) = none :=
      asks_none (fun _ _ _ _ h => by rw [hs] at h; cases h)
    have hres : EventLoop.Event.resumed (⟨w, s⟩ : Event F) = some f := Event.resumed_eq hs hf
    have hprovider : World.provider (Machine.Entry.post (⟨w, s⟩ : Event F)) = World.provider w :=
      (congrArg Desk.provider hpost).trans (resume_provider f a s.now w.shared)
    have hother : (∀ r, f ≠ .refunding r) → RefundTurn (⟨w, s⟩ : Event F) := by
      intro hn
      have hn' : ∀ r, EventLoop.Event.resumed (⟨w, s⟩ : Event F) ≠ some (Frame.refunding r) :=
        fun r h => hn r (Option.some.inj (hres.symm.trans h))
      obtain ⟨puts, rows, hl⟩ := leaves (⟨w, s⟩ : Event F)
      exact .other rows hasks hn' hprovider hl.ledger (hl.unrefunded hn')
    cases f with
    | refunding r =>
      have hfailed : (∀ p, a ≠ .refunded p) → RefundTurn (⟨w, s⟩ : Event F) := by
        intro hn
        have hnone : w.shared.resume (.refunding r) a s.now = (none, w.shared) := by
          unfold Desk.resume
          split <;> first | rfl | (rename_i hfr; cases hfr)
          exact absurd rfl (hn _)
        refine .answered r hasks hres ?_ hprovider ?_
        · cases ht : repays (⟨w, s⟩ : Event F) with
          | none => rfl
          | some t =>
            obtain ⟨j, _, p, hc, -⟩ := repays_some ht
            have hc : s.turn = .resume j (Answer.refunded p) := hc
            rw [hs] at hc
            cases hc
            exact absurd rfl (hn p)
        · rw [hnone] at hpost
          exact congrArg (fun d => Store.ledger (Desk.store d)) hpost
      cases a with
      | refunded p => exact refundTurn_answered ⟨w, s⟩ i r p hs hf hpost
      | _ => exact hfailed (fun p h => by cases h)
    | quoting q => exact hother (fun r h => by cases h)
    | charging c => exact hother (fun r h => by cases h)
    | lookingUp l => exact hother (fun r h => by cases h)
    | cancelling c => exact hother (fun r h => by cases h)
  · have hres : EventLoop.Event.resumed (⟨w, s⟩ : Event F) = none := by
      simp only [EventLoop.Event.resumed, hs, hf]
    have hpost : (Machine.Entry.post (⟨w, s⟩ : Event F)).shared = w.shared :=
      congrArg (fun r => EventLoop.World.shared (Prod.snd r)) hr
    exact .other [] (asks_none (fun _ _ _ _ h => by rw [hs] at h; cases h))
      (fun r h => by rw [hres] at h; cases h) (congrArg Desk.provider hpost)
      ((congrArg (fun d => Store.ledger (Desk.store d)) hpost).trans rfl) (fun r hr => by cases hr)

/-! ### The window of the book -/

/-- The refunds of an intent in the book. -/
def repaidMinor (k : String) (w : World F) : Nat :=
  total (fun r => r.event = .refunded && r.paymentIntentId = k) Row.amountMinor (World.ledger w)

/-- No refund is older than a charge of its intent. -/
def Younger (newer older : Row) : Prop :=
  newer.event = .charged → older.event = .refunded →
    newer.paymentIntentId ≠ older.paymentIntentId

structure Ranked (w : World F) : Prop where
  asked : ∀ r, Frame.refunding r ∈ w.waiting →
    0 < chargesOf r.intent.paymentIntentId (World.ledger w)
  paid : ∀ row ∈ World.ledger w, row.event = .refunded →
    0 < chargesOf row.paymentIntentId (World.ledger w)
  younger : (World.ledger w).Pairwise Younger

theorem charges_pos {k : String} {rows : List Row} {row : Row} (hr : row ∈ rows)
    (hc : row.event = .charged) (hk : row.paymentIntentId = k) : 0 < chargesOf k rows :=
  List.countP_pos_iff.mpr ⟨row, hr, by simp [hc, hk]⟩

/-- The charge that a refund was found open for. -/
theorem Store.Opens.charge {s : Store F} {r : Refunding F} (h : s.Opens r) :
    ∃ c ∈ s.ledger, c.event = .charged ∧ c.paymentIntentId = r.intent.paymentIntentId ∧
      c.amountMinor = r.booked := by
  obtain ⟨c, hc, hb, -⟩ := h.booked
  have hmem := List.mem_of_mem_take (List.mem_of_find?_eq_some hc)
  obtain ⟨hl, hid⟩ := List.mem_filter.mp hmem
  have hev := List.find?_some hc
  exact ⟨c, hl, of_decide_eq_true hev, of_decide_eq_true hid, hb⟩

/-- Where the charge is in the window, all the refunds are. -/
theorem Store.Opens.already_all {w : World F} {r : Refunding F} (h : w.shared.store.Opens r)
    (hy : (World.ledger w).Pairwise Younger) :
    r.already = repaidMinor r.intent.paymentIntentId w := by
  obtain ⟨c, hc, -, -⟩ := h.booked
  have hid := of_decide_eq_true (List.mem_filter.mp
    (List.mem_of_mem_take (List.mem_of_find?_eq_some hc))).2
  have hfound := List.find?_some hc
  have hev : c.event = .charged := of_decide_eq_true hfound
  have hrows := hy.filter (fun r' => r'.paymentIntentId = r.intent.paymentIntentId)
  have hall : repaidMinor r.intent.paymentIntentId w = ((List.filter (fun row => row.event = .refunded)
      ((World.ledger w).filter
        (fun r' => r'.paymentIntentId = r.intent.paymentIntentId))).map Row.amountMinor).sum := by
    rw [List.filter_filter]
    rfl
  have hown : ∀ row ∈ (World.ledger w).filter
      (fun r' => r'.paymentIntentId = r.intent.paymentIntentId),
      row.paymentIntentId = r.intent.paymentIntentId :=
    fun row hr => of_decide_eq_true (List.mem_filter.mp hr).2
  rw [← h.already, hall]
  unfold Store.refundedMinor Store.rowsOf
  unfold Store.chargedRow Store.rowsOf at hc
  change ((List.filter _ (List.take 200 ((World.ledger w).filter _))).map Row.amountMinor).sum = _
  change List.find? _ (List.take 200 ((World.ledger w).filter _)) = _ at hc
  generalize (World.ledger w).filter
    (fun r' => r'.paymentIntentId = r.intent.paymentIntentId) = rows at hrows hown hc ⊢
  rw [← List.take_append_drop 200 rows, List.pairwise_append] at hrows
  have hnone : (rows.drop 200).filter (fun row => row.event = .refunded) = [] := by
    refine List.filter_eq_nil_iff.mpr (fun row hr he => ?_)
    exact hrows.2.2 c (List.mem_of_find?_eq_some hc) row hr hev (by simpa using he)
      (hid.trans (hown row (List.mem_of_mem_drop hr)).symm)
  conv_rhs => rw [← List.take_append_drop 200 rows, List.filter_append, hnone, List.append_nil]

namespace Ranked

variable {h : List (Event F)} {e : Event F}

theorem charges_mono {rows : List Row} (hl : World.ledger e.post = rows ++ World.ledger e.pre)
    {k : String} (hk : 0 < chargesOf k (World.ledger e.pre)) :
    0 < chargesOf k (World.ledger e.post) := by
  rw [hl, chargesOf_append]
  omega

theorem asked_step (hr : Ranked e.pre) {rows : List Row}
    (hl : World.ledger e.post = rows ++ World.ledger e.pre) {r : Refunding F}
    (hm : Frame.refunding r ∈ e.post.waiting) :
    0 < chargesOf r.intent.paymentIntentId (World.ledger e.post) := by
  rcases EventLoop.mem_waiting hm with hold | hnew
  · exact charges_mono hl (hr.asked r hold)
  · obtain ⟨vorgang, amountMinor, identity, access, -, hs⟩ := asked_call hnew
    obtain ⟨c, hc, hev, hid, -⟩ := (Store.refund_some hs).1.charge
    exact charges_mono hl (charges_pos hc hev hid)

/-- A turn that books no refund. -/
theorem unrefunded (hr : Ranked e.pre) (hp : Pinned e.post) (rows : List Row)
    (hl : World.ledger e.post = rows ++ World.ledger e.pre) (hn : ∀ row ∈ rows, row.event ≠ .refunded) :
    Ranked e.post := by
  refine ⟨fun r hm => hr.asked_step hl hm, fun row hrow he => ?_, ?_⟩
  · rw [hl] at hrow
    rcases List.mem_append.mp hrow with hnew | hold
    · exact absurd he (hn row hnew)
    · exact charges_mono hl (hr.paid row hold he)
  · rw [hl]
    refine List.pairwise_append.mpr ⟨?_, hr.younger, fun c hc row hrow hev he hid => ?_⟩
    · exact List.pairwise_of_forall_mem_list (fun a _ b hb _ he _ => hn b hb he)
    · -- a second charge of the intent
      have hone := hp.one c.paymentIntentId
      have hnew := charges_pos hc hev rfl
      have hold := hr.paid row hrow he
      rw [← hid] at hold
      rw [hl, chargesOf_append] at hone
      omega

theorem repaid (hr : Ranked e.pre) {row : Row} {r : Refunding F}
    (hl : World.ledger e.post = row :: World.ledger e.pre) (hf : Frame.refunding r ∈ e.pre.waiting)
    (he : row.event = .refunded) (hid : row.paymentIntentId = r.intent.paymentIntentId) :
    Ranked e.post := by
  have hl' : World.ledger e.post = [row] ++ World.ledger e.pre := hl
  refine ⟨fun r hm => hr.asked_step hl' hm, fun row' hrow he' => ?_, ?_⟩
  · rw [hl] at hrow
    rcases List.mem_cons.mp hrow with rfl | hold
    · rw [hid]
      exact charges_mono hl' (hr.asked r hf)
    · exact charges_mono hl' (hr.paid row' hold he')
  · rw [hl]
    refine List.pairwise_cons.mpr ⟨fun row' _ hc => ?_, hr.younger⟩
    rw [he] at hc
    cases hc

theorem step (hr : Ranked e.pre) (hp : Pinned e.post) : Ranked e.post := by
  have hsame : World.ledger e.post = World.ledger e.pre → Ranked e.post :=
    fun hl => hr.unrefunded hp [] hl (fun row hrow => by cases hrow)
  cases refundTurn e with
  | asked r _ _ _ _ hl => exact hsame hl
  | honoured n _ _ _ _ hl => exact hsame hl
  | declined n _ _ _ hl => exact hsame hl
  | answered r _ _ _ _ hl => exact hsame hl
  | repaid i r p row _ _ hf _ _ hl he hid _ =>
    exact hr.repaid hl (List.mem_of_getElem? hf) he hid
  | other rows _ _ _ hl hn => exact hr.unrefunded hp rows hl hn

theorem reach {w : World F} (hrun : (payments F).machine.Run Fresh h w) : Ranked w := by
  induction hrun with
  | start => exact ⟨fun r hr => (by cases hr), fun r hr => (by cases hr), List.Pairwise.nil⟩
  | @step h w c hr hf ih => exact step (e := (⟨w, c⟩ : Event F)) ih (Pinned.reach (hr.step hf))

end Ranked

end Solvio.Payment
