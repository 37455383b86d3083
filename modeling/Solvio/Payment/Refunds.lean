import Solvio.Payment.RefundTurns

namespace Solvio.Payment
open Solvio.Lib Solvio.Approval

variable {F : Fence}

def Ask.repaid (a : Ask) : Repaid := ⟨a.key, a.paymentIntentId, a.amountMinor⟩

def repaid (h : List (Event F)) : List Repaid := h.filterMap repays

def Written (h : List (Event F)) (key : String) : Prop := key ∈ (repaid h).map Repaid.key

/-- What the provider has refunded for an intent. -/
def honouredMinor (k : String) (w : World F) : Nat :=
  total (fun a => a.paymentIntentId = k) Ask.amountMinor (World.provider w).honoured

/-- Under one key the provider answers with the refund that it honoured. -/
def Honest (e : Event F) : Prop :=
  ∀ i r p, e.call.turn = .resume i (Answer.refunded p) →
    e.pre.waiting[i]? = some (Frame.refunding r) →
      ∃ b ∈ (World.provider e.pre).honoured, b.key = r.key ∧ p.amountMinor = b.amountMinor

/-- A turn that the bookkeeping of refunds can follow. -/
structure Orderly (h : List (Event F)) (e : Event F) : Prop where
  /-- A key is about one intent. -/
  keyed : ∀ a, asks e = some a → ∀ b ∈ h.filterMap asks, b.key = a.key →
    b.paymentIntentId = a.paymentIntentId
  /-- What the provider holds for the intent under other keys is in the book. -/
  settled : ∀ a, asks e = some a → ∀ b, (World.provider e.pre).Holds b →
    b.paymentIntentId = a.paymentIntentId → b.key ≠ a.key → Written h b.key
  /-- A request is honoured while a task waits for its answer. -/
  awaited : ∀ n a, e.call.turn = .start (Call.honour n) → (World.provider e.pre).asked[n]? = some a →
    (∃ b ∈ (World.provider e.pre).honoured, b.key = a.key) ∨
      ∃ r, Frame.refunding r ∈ e.pre.waiting ∧ r.key = a.key
  /-- What is in the book is not booked again. -/
  once : ∀ t, repays e = some t → ¬ Written h t.key
  /-- What was honoured is booked, unless another task still waits to do so. -/
  answered : ∀ r, EventLoop.Event.resumed e = some (Frame.refunding r) → ¬ Written h r.key →
    (∃ b ∈ (World.provider e.pre).honoured, b.key = r.key) →
      repays e ≠ none ∨ ∃ r', Frame.refunding r' ∈ e.post.waiting ∧ r'.key = r.key

def AllOrderly : List (Event F) → Prop
  | [] => True
  | e :: h => Orderly h e ∧ AllOrderly h

/-! ### What the provider holds, and what the book has -/

structure Balanced (h : List (Event F)) (w : World F) : Prop where
  held : ∀ a, (World.provider w).Holds a → a ∈ h.filterMap asks
  waits : ∀ r, Frame.refunding r ∈ w.waiting → r.ask ∈ h.filterMap asks
  about : ∀ a ∈ h.filterMap asks, ∀ b ∈ h.filterMap asks, a.key = b.key →
    a.paymentIntentId = b.paymentIntentId
  keys : ((World.provider w).honoured.map Ask.key).Nodup
  once : ((repaid h).map Repaid.key).Nodup
  source : ∀ t ∈ repaid h, ∃ b ∈ (World.provider w).honoured, t = b.repaid
  rows : ∀ k, repaidMinor k w = total (fun t => t.paymentIntentId = k) Repaid.amountMinor (repaid h)
  pending : ∀ b ∈ (World.provider w).honoured, Written h b.key ∨
    ∃ r, Frame.refunding r ∈ w.waiting ∧ r.key = b.key
  room : ∀ a, (World.provider w).Holds a → ¬ Written h a.key → ∃ c ∈ World.ledger w,
    c.event = .charged ∧ c.paymentIntentId = a.paymentIntentId ∧
      a.amountMinor + repaidMinor a.paymentIntentId w ≤ c.amountMinor
  alone : ∀ a b, (World.provider w).Holds a → (World.provider w).Holds b →
    a.paymentIntentId = b.paymentIntentId → ¬ Written h a.key → ¬ Written h b.key → a.key = b.key
  bounded : ∀ k, 0 < repaidMinor k w → ∃ c ∈ World.ledger w,
    c.event = .charged ∧ c.paymentIntentId = k ∧ repaidMinor k w ≤ c.amountMinor

theorem repaid_cons (e : Event F) (h : List (Event F)) :
    repaid (e :: h) = (repays e).toList ++ repaid h := by
  unfold repaid
  rw [List.filterMap_cons]
  cases repays e <;> rfl

theorem Written.older {h : List (Event F)} {key : String} (hw : Written h key) (e : Event F) :
    Written (e :: h) key := by
  unfold Written at hw ⊢
  rw [repaid_cons, List.map_append]
  exact List.mem_append_right _ hw

theorem written_same {e : Event F} {h : List (Event F)} (hn : repays e = none) :
    repaid (e :: h) = repaid h := by
  rw [repaid_cons, hn]
  rfl

theorem mem_older {α : Type} {f : Event F → Option α} {e : Event F} {h : List (Event F)} {a : α}
    (ha : a ∈ h.filterMap f) : a ∈ (e :: h).filterMap f := by
  obtain ⟨n, hn, hf⟩ := List.mem_filterMap.mp ha
  exact List.mem_filterMap.mpr ⟨n, List.mem_cons_of_mem e hn, hf⟩

theorem mem_newest {α : Type} {f : Event F → Option α} {e : Event F} {h : List (Event F)} {a : α}
    (ha : a ∈ (e :: h).filterMap f) : f e = some a ∨ a ∈ h.filterMap f := by
  obtain ⟨n, hn, hf⟩ := List.mem_filterMap.mp ha
  rcases List.mem_cons.mp hn with rfl | hn
  · exact Or.inl hf
  · exact Or.inr (List.mem_filterMap.mpr ⟨n, hn, hf⟩)

theorem asks_eq {e : Event F} {r : Refunding F}
    (h : EventLoop.Event.awaits e = some (Frame.refunding r)) : asks e = some r.ask := by
  simp only [asks, h]

theorem repays_none {e : Event F} (h : ∀ r, EventLoop.Event.resumed e ≠ some (Frame.refunding r)) :
    repays e = none := by
  unfold repays
  split
  · rename_i r _ _ hr _
    exact absurd hr (h r)
  · rfl

theorem repaidMinor_other {e : Event F} {rows : List Row}
    (hl : World.ledger e.post = rows ++ World.ledger e.pre) (hn : ∀ row ∈ rows, row.event ≠ .refunded)
    (k : String) : repaidMinor k e.post = repaidMinor k e.pre := by
  unfold repaidMinor
  rw [hl, total_append, total_zero (fun row hr => by simp [hn row hr]), Nat.zero_add]

namespace Balanced

variable {h : List (Event F)} {e : Event F}

theorem waits_step (hb : Balanced h e.pre) {r : Refunding F}
    (hm : Frame.refunding r ∈ e.post.waiting) : r.ask ∈ (e :: h).filterMap asks := by
  rcases EventLoop.mem_waiting hm with hold | hnew
  · exact mem_older (hb.waits r hold)
  · exact List.mem_filterMap.mpr ⟨e, List.mem_cons_self .., asks_eq hnew⟩

/-- A turn that neither sends a request nor books a refund. -/
theorem quiet (hb : Balanced h e.pre) (ha : asks e = none) (hr : repays e = none)
    (hp : ∀ a, (World.provider e.post).Holds a → (World.provider e.pre).Holds a)
    (hk : ((World.provider e.post).honoured.map Ask.key).Nodup)
    (hs : ∀ b ∈ (World.provider e.pre).honoured, b ∈ (World.provider e.post).honoured)
    (hw : ∀ b ∈ (World.provider e.post).honoured, Written h b.key ∨
      ∃ r, Frame.refunding r ∈ e.post.waiting ∧ r.key = b.key)
    (rows : List Row) (hl : World.ledger e.post = rows ++ World.ledger e.pre)
    (hn : ∀ row ∈ rows, row.event ≠ .refunded) : Balanced (e :: h) e.post := by
  have hasks : (e :: h).filterMap asks = h.filterMap asks := by rw [List.filterMap_cons, ha]
  have hrep := written_same (h := h) hr
  have hwritten : ∀ {key}, ¬ Written (e :: h) key → ¬ Written h key :=
    fun hnot hold => hnot (hold.older e)
  have hmem : ∀ c ∈ World.ledger e.pre, c ∈ World.ledger e.post := by
    intro c hc
    rw [hl]
    exact List.mem_append_right _ hc
  refine
    { held := fun a h' => mem_older (hb.held a (hp a h'))
      waits := fun r hm => hb.waits_step hm
      about := by rw [hasks]; exact hb.about
      keys := hk
      once := by rw [hrep]; exact hb.once
      source := fun t ht => ?_
      rows := fun k => by rw [hrep, repaidMinor_other hl hn]; exact hb.rows k
      pending := fun b hm => (hw b hm).imp_left (fun hold => hold.older e)
      room := fun a h' hnot => ?_
      alone := fun a b h1 h2 hid n1 n2 =>
        hb.alone a b (hp a h1) (hp b h2) hid (hwritten n1) (hwritten n2)
      bounded := fun k hpos => ?_ }
  · rw [hrep] at ht
    obtain ⟨b, hm, ht⟩ := hb.source t ht
    exact ⟨b, hs b hm, ht⟩
  · obtain ⟨c, hc, hev, hid, hle⟩ := hb.room a (hp a h') (hwritten hnot)
    exact ⟨c, hmem c hc, hev, hid, by rw [repaidMinor_other hl hn]; exact hle⟩
  · rw [repaidMinor_other hl hn] at hpos ⊢
    obtain ⟨c, hc, hev, hid, hle⟩ := hb.bounded k hpos
    exact ⟨c, hmem c hc, hev, hid, hle⟩

/-- A task still waits under the key, or the refund is in the book. -/
theorem pending_stays (hb : Balanced h e.pre)
    (hn : EventLoop.Event.resumed e = none) {b : Ask} (hm : b ∈ (World.provider e.pre).honoured) :
    Written h b.key ∨ ∃ r, Frame.refunding r ∈ e.post.waiting ∧ r.key = b.key := by
  rcases hb.pending b hm with hw | ⟨r, hr, hk⟩
  · exact Or.inl hw
  · rcases EventLoop.waiting_stays hr with hstay | hres
    · exact Or.inr ⟨r, hstay, hk⟩
    · rw [hn] at hres
      cases hres

theorem asked_step (hb : Balanced h e.pre) (hk : Ranked e.pre) (ho : Orderly h e) {r : Refunding F}
    (ha : EventLoop.Event.awaits e = some (Frame.refunding r))
    (hn : EventLoop.Event.resumed e = none) (hopen : e.pre.shared.store.Opens r)
    (hp : World.provider e.post = (World.provider e.pre).ask r.ask)
    (hl : World.ledger e.post = World.ledger e.pre) : Balanced (e :: h) e.post := by
  have hask := asks_eq ha
  have hrep := written_same (h := h) (repays_none (e := e) (fun r h => by rw [hn] at h; cases h))
  have hsame : ∀ k, repaidMinor k e.post = repaidMinor k e.pre := fun k => by
    unfold repaidMinor
    rw [hl]
  have hwritten : ∀ {key}, ¬ Written (e :: h) key → ¬ Written h key :=
    fun hnot hold => hnot (hold.older e)
  have hnew : ∀ a, (World.provider e.post).Holds a → (World.provider e.pre).Holds a ∨ a = r.ask := by
    intro a h'
    rw [hp] at h'
    exact Provider.holds_ask h'
  have hhon : (World.provider e.post).honoured = (World.provider e.pre).honoured := by
    rw [hp]
    rfl
  have halone : ∀ b, (World.provider e.pre).Holds b → b.paymentIntentId = r.ask.paymentIntentId →
      ¬ Written h b.key → b.key = r.ask.key := by
    intro b hb' hid hnot
    by_contra hne
    exact hnot (ho.settled _ hask b hb' hid hne)
  refine
    { held := fun a h' => ?_
      waits := fun r hm => hb.waits_step hm
      about := fun a ha' b hb' hkey => ?_
      keys := by rw [hhon]; exact hb.keys
      once := by rw [hrep]; exact hb.once
      source := by rw [hrep, hhon]; exact hb.source
      rows := fun k => by rw [hrep, hsame]; exact hb.rows k
      pending := fun b hm => ?_
      room := fun a h' hnot => ?_
      alone := fun a b h1 h2 hid n1 n2 => ?_
      bounded := fun k hpos => by rw [hsame] at hpos ⊢; rw [hl]; exact hb.bounded k hpos }
  · rcases hnew a h' with hold | rfl
    · exact mem_older (hb.held a hold)
    · exact List.mem_filterMap.mpr ⟨e, List.mem_cons_self .., hask⟩
  · rcases mem_newest ha' with h1 | h1 <;> rcases mem_newest hb' with h2 | h2
    · rw [h1] at h2
      cases h2
      rfl
    · exact (ho.keyed a h1 b h2 hkey.symm).symm
    · exact ho.keyed b h2 a h1 hkey
    · exact hb.about a h1 b h2 hkey
  · rw [hhon] at hm
    exact (hb.pending_stays hn hm).imp_left (fun hold => hold.older e)
  · rw [hsame, hl]
    rcases hnew a h' with hold | rfl
    · exact hb.room a hold (hwritten hnot)
    · obtain ⟨c, hc, hev, hid, hbooked⟩ := hopen.charge
      refine ⟨c, hc, hev, hid, ?_⟩
      have hall := hopen.already_all hk.younger
      have hle := r.isOpen.2
      change r.wanted + repaidMinor r.intent.paymentIntentId e.pre ≤ c.amountMinor
      omega
  · rcases hnew a h1 with h1 | rfl <;> rcases hnew b h2 with h2 | rfl
    · exact hb.alone a b h1 h2 hid (hwritten n1) (hwritten n2)
    · exact halone a h1 hid (hwritten n1)
    · exact (halone b h2 hid.symm (hwritten n2)).symm
    · rfl

theorem honoured_step (hb : Balanced h e.pre) (ho : Orderly h e) {n : Nat}
    (hc : e.call.turn = .start (Call.honour n)) (ha : asks e = none)
    (hn : EventLoop.Event.resumed e = none)
    (hp : World.provider e.post = (World.provider e.pre).honour n)
    (hl : World.ledger e.post = World.ledger e.pre) : Balanced (e :: h) e.post := by
  have hrep : repays e = none := repays_none (fun r h => by rw [hn] at h; cases h)
  have hrows : ∀ row ∈ ([] : List Row), row.event ≠ .refunded := fun row hr => by cases hr
  rcases (World.provider e.pre).honour_cases n with hsame | ⟨a, hasked, hfree, hnew⟩
  · rw [hsame] at hp
    refine hb.quiet ha hrep (fun a h' => hp ▸ h') (by rw [hp]; exact hb.keys)
      (fun b hm => hp ▸ hm) (fun b hm => ?_) [] hl hrows
    rw [hp] at hm
    exact hb.pending_stays hn hm
  · rw [hnew] at hp
    have hmem : a ∈ (World.provider e.pre).asked := List.mem_of_getElem? hasked
    refine hb.quiet ha hrep (fun b h' => ?_) ?_ (fun b hm => ?_) (fun b hm => ?_) [] hl hrows
    · rw [hp] at h'
      rcases h' with h' | h'
      · exact Or.inl h'
      · rcases List.mem_cons.mp h' with rfl | h'
        · exact Or.inl hmem
        · exact Or.inr h'
    · rw [hp]
      refine List.nodup_cons.mpr ⟨fun hk => ?_, hb.keys⟩
      obtain ⟨b, hm, hk⟩ := List.mem_map.mp hk
      exact hfree b hm hk
    · rw [hp]
      exact List.mem_cons_of_mem _ hm
    · rw [hp] at hm
      rcases List.mem_cons.mp hm with rfl | hm
      · rcases ho.awaited n b hc hasked with ⟨b', hm', hk⟩ | ⟨r, hr, hk⟩
        · exact absurd hk (hfree b' hm')
        · rcases EventLoop.waiting_stays hr with hstay | hres
          · exact Or.inr ⟨r, hstay, hk⟩
          · rw [hn] at hres
            cases hres
      · exact hb.pending_stays hn hm

/-- The other tasks of a key that is resumed and not booked. -/
theorem answered_step (hb : Balanced h e.pre) (ho : Orderly h e) {r : Refunding F}
    (ha : asks e = none) (hres : EventLoop.Event.resumed e = some (Frame.refunding r))
    (hr : repays e = none) (hp : World.provider e.post = World.provider e.pre)
    (hl : World.ledger e.post = World.ledger e.pre) : Balanced (e :: h) e.post := by
  refine hb.quiet ha hr (fun a h' => hp ▸ h') (by rw [hp]; exact hb.keys) (fun b hm => hp ▸ hm)
    (fun b hm => ?_) [] hl (fun row hr => by cases hr)
  rw [hp] at hm
  by_cases hw : Written h b.key
  · exact Or.inl hw
  · rcases (hb.pending b hm).resolve_left hw with ⟨r', hr', hk⟩
    rcases EventLoop.waiting_stays hr' with hstay | hres'
    · exact Or.inr ⟨r', hstay, hk⟩
    · obtain rfl : r = r' := Frame.refunding.inj (Option.some.inj (hres.symm.trans hres'))
      rcases ho.answered r hres (by rw [hk]; exact hw) ⟨b, hm, hk.symm⟩ with hne | ⟨r', hm', hk'⟩
      · exact absurd hr hne
      · exact Or.inr ⟨r', hm', hk'.trans hk⟩

theorem repaid_step (hb : Balanced h e.pre) (ho : Orderly h e) (hx : Honest e) {i : Nat}
    {r : Refunding F} {p : ProviderRefund} {row : Row} (ha : asks e = none)
    (hc : e.call.turn = .resume i (Answer.refunded p))
    (hf : e.pre.waiting[i]? = some (Frame.refunding r))
    (hr : repays e = some ⟨r.key, r.intent.paymentIntentId, p.amountMinor⟩)
    (hp : World.provider e.post = World.provider e.pre)
    (hl : World.ledger e.post = row :: World.ledger e.pre) (he : row.event = .refunded)
    (hid : row.paymentIntentId = r.intent.paymentIntentId) (hm : row.amountMinor = p.amountMinor) :
    Balanced (e :: h) e.post := by
  obtain ⟨b, hbm, hbk, hba⟩ := hx i r p hc hf
  have hfree : ¬ Written h r.key := ho.once _ hr
  have hbid : b.paymentIntentId = r.intent.paymentIntentId :=
    hb.about b (hb.held b (Or.inr hbm)) r.ask (hb.waits r (List.mem_of_getElem? hf)) hbk
  have hasks : (e :: h).filterMap asks = h.filterMap asks := by rw [List.filterMap_cons, ha]
  have hrep : repaid (e :: h) = ⟨r.key, r.intent.paymentIntentId, p.amountMinor⟩ :: repaid h := by
    rw [repaid_cons, hr]
    rfl
  have hnow : Written (e :: h) r.key := by
    unfold Written
    rw [hrep]
    exact List.mem_cons_self ..
  have hother : ∀ {a}, (World.provider e.pre).Holds a → ¬ Written (e :: h) a.key →
      a.paymentIntentId ≠ r.intent.paymentIntentId := by
    intro a h' hnot hida
    have hkey := hb.alone a b h' (Or.inr hbm) (hida.trans hbid.symm)
      (fun hold => hnot (hold.older e)) (by rw [hbk]; exact hfree)
    rw [hkey, hbk] at hnot
    exact hnot hnow
  have hsum : ∀ k, repaidMinor k e.post =
      (if r.intent.paymentIntentId = k then p.amountMinor else 0) + repaidMinor k e.pre := by
    intro k
    unfold repaidMinor
    rw [hl, total_cons, hm]
    simp only [he, hid, decide_true, Bool.true_and, decide_eq_true_eq]
  refine
    { held := fun a h' => mem_older (hb.held a (hp ▸ h'))
      waits := fun r hm => hb.waits_step hm
      about := by rw [hasks]; exact hb.about
      keys := by rw [hp]; exact hb.keys
      once := by rw [hrep]; exact List.nodup_cons.mpr ⟨hfree, hb.once⟩
      source := fun t ht => ?_
      rows := fun k => ?_
      pending := fun b' hm' => ?_
      room := fun a h' hnot => ?_
      alone := fun a b h1 h2 hid n1 n2 => hb.alone a b (hp ▸ h1) (hp ▸ h2) hid
        (fun hold => n1 (hold.older e)) (fun hold => n2 (hold.older e))
      bounded := fun k hpos => ?_ }
  · rw [hp]
    rw [hrep] at ht
    rcases List.mem_cons.mp ht with rfl | ht
    · exact ⟨b, hbm, by rw [Ask.repaid, hbk, hbid, hba]⟩
    · exact hb.source t ht
  · rw [hsum, hrep, total_cons, hb.rows k]
    simp only [decide_eq_true_eq]
  · rw [hp] at hm'
    rcases hb.pending b' hm' with hw | ⟨r', hr', hk'⟩
    · exact Or.inl (hw.older e)
    · rcases EventLoop.waiting_stays hr' with hstay | hres
      · exact Or.inr ⟨r', hstay, hk'⟩
      · obtain rfl : r = r' :=
          Frame.refunding.inj (Option.some.inj ((Event.resumed_eq hc hf).symm.trans hres))
        exact Or.inl (hk' ▸ hnow)
  · rw [hp] at h'
    obtain ⟨c, hc', hev, hidc, hle⟩ := hb.room a h' (fun hold => hnot (hold.older e))
    refine ⟨c, by rw [hl]; exact List.mem_cons_of_mem _ hc', hev, hidc, ?_⟩
    rw [hsum, if_neg (fun heq => hother h' hnot heq.symm)]
    omega
  · rw [hsum] at hpos ⊢
    by_cases hk : r.intent.paymentIntentId = k
    · obtain ⟨c, hc', hev, hidc, hle⟩ := hb.room b (Or.inr hbm) (by rw [hbk]; exact hfree)
      rw [hbid, hk] at hidc hle
      refine ⟨c, by rw [hl]; exact List.mem_cons_of_mem _ hc', hev, hidc, ?_⟩
      rw [if_pos hk, hba]
      exact hle
    · rw [if_neg hk, Nat.zero_add] at hpos ⊢
      obtain ⟨c, hc', hev, hidc, hle⟩ := hb.bounded k hpos
      exact ⟨c, by rw [hl]; exact List.mem_cons_of_mem _ hc', hev, hidc, hle⟩

theorem step (hb : Balanced h e.pre) (hk : Ranked e.pre) (ho : Orderly h e) (hx : Honest e) :
    Balanced (e :: h) e.post := by
  cases refundTurn e with
  | asked r ha hn hopen hp hl => exact hb.asked_step hk ho ha hn hopen hp hl
  | honoured n hc ha hn hp hl => exact hb.honoured_step ho hc ha hn hp hl
  | declined n ha hn hp hl =>
    have hhon : (World.provider e.post).honoured = (World.provider e.pre).honoured := by
      rw [hp]
      rfl
    refine hb.quiet ha (repays_none (fun r h => by rw [hn] at h; cases h))
      (fun a h' => Provider.holds_decline (hp ▸ h')) (by rw [hhon]; exact hb.keys)
      (fun b hm => hhon ▸ hm) (fun b hm => hb.pending_stays hn (hhon ▸ hm)) [] hl
      (fun row hr => by cases hr)
  | answered r ha hres hr hp hl => exact hb.answered_step ho ha hres hr hp hl
  | repaid i r p row ha hc hf hr hp hl he hid hm =>
    exact hb.repaid_step ho hx ha hc hf hr hp hl he hid hm
  | other rows ha hres hp hl hn =>
    refine hb.quiet ha (repays_none hres) (fun a h' => hp ▸ h') (by rw [hp]; exact hb.keys)
      (fun b hm => hp ▸ hm) (fun b hm => ?_) rows hl hn
    rw [hp] at hm
    refine (hb.pending b hm).imp_right (fun ⟨r, hr, hk⟩ => ⟨r, ?_, hk⟩)
    exact (EventLoop.waiting_stays hr).resolve_right (hres r)

theorem reach {w : World F} (hrun : (payments F).machine.Run Fresh h w) (ho : AllOrderly h)
    (hx : ∀ n ∈ h, Honest n) : Balanced h w := by
  induction hrun with
  | start =>
    exact
      { held := fun a h' => by rcases h' with h' | h' <;> cases h'
        waits := fun r hm => by cases hm
        about := fun a ha => by cases ha
        keys := List.nodup_nil
        once := List.nodup_nil
        source := fun t ht => by cases ht
        rows := fun k => rfl
        pending := fun b hm => by cases hm
        room := fun a h' => by rcases h' with h' | h' <;> cases h'
        alone := fun a b h' => by rcases h' with h' | h' <;> cases h'
        bounded := fun k hpos => absurd hpos (Nat.lt_irrefl 0) }
  | step hr _ ih =>
    exact (ih ho.2 (fun n hn => hx n (List.mem_cons_of_mem _ hn))).step (e := ⟨_, _⟩)
      (Ranked.reach hr) ho.1 (hx _ (List.mem_cons_self ..))

/-- What the provider has refunded is in the book, or is still to come there. -/
theorem honoured_sum {w : World F} (hb : Balanced h w) (k : String) :
    honouredMinor k w = repaidMinor k w + total (fun a => a.paymentIntentId = k) Ask.amountMinor
      ((World.provider w).honoured.filter (fun a => !decide (a.key ∈ (repaid h).map Repaid.key))) := by
  have hperm : (((World.provider w).honoured.filter
      (fun a => decide (a.key ∈ (repaid h).map Repaid.key))).map Ask.repaid).Perm (repaid h) := by
    refine (List.perm_ext_iff_of_nodup ?_ (List.Nodup.of_map _ hb.once)).mpr (fun t => ?_)
    · refine List.Nodup.of_map Repaid.key ?_
      rw [List.map_map]
      exact (List.filter_sublist.map Ask.key).nodup hb.keys
    · constructor
      · intro ht
        obtain ⟨b, hm, rfl⟩ := List.mem_map.mp ht
        obtain ⟨hm, hw⟩ := List.mem_filter.mp hm
        obtain ⟨t, ht, hk⟩ := List.mem_map.mp (of_decide_eq_true hw)
        obtain ⟨b', hm', rfl⟩ := hb.source t ht
        rw [List.inj_on_of_nodup_map hb.keys hm hm' hk.symm]
        exact ht
      · intro ht
        obtain ⟨b, hm, rfl⟩ := hb.source t ht
        refine List.mem_map.mpr ⟨b, List.mem_filter.mpr ⟨hm, decide_eq_true ?_⟩, rfl⟩
        exact List.mem_map.mpr ⟨_, ht, rfl⟩
  unfold honouredMinor
  rw [total_split _ (fun a => decide (a.key ∈ (repaid h).map Repaid.key)), hb.rows k,
    ← total_perm hperm, total_map]
  rfl

/-- At most one refund of an intent is still to come into the book. -/
theorem pending_few {w : World F} (hb : Balanced h w) (k : String) :
    repaidMinor k w = honouredMinor k w ∨ ∃ a ∈ (World.provider w).honoured,
      a.paymentIntentId = k ∧ ¬ Written h a.key ∧
        honouredMinor k w = repaidMinor k w + a.amountMinor := by
  have hsum := hb.honoured_sum k
  unfold total at hsum
  rw [List.filter_filter] at hsum
  have hkeys : (((World.provider w).honoured.filter (fun a => decide (a.paymentIntentId = k) &&
      !decide (a.key ∈ (repaid h).map Repaid.key))).map Ask.key).Nodup :=
    (List.filter_sublist.map Ask.key).nodup hb.keys
  have hfew : ∀ a ∈ (World.provider w).honoured.filter (fun a => decide (a.paymentIntentId = k) &&
      !decide (a.key ∈ (repaid h).map Repaid.key)),
      ∀ b ∈ (World.provider w).honoured.filter (fun a => decide (a.paymentIntentId = k) &&
        !decide (a.key ∈ (repaid h).map Repaid.key)), a.key = b.key := by
    intro a ha b hb'
    obtain ⟨hma, hca⟩ := List.mem_filter.mp ha
    obtain ⟨hmb, hcb⟩ := List.mem_filter.mp hb'
    simp only [Bool.and_eq_true, decide_eq_true_eq, Bool.not_eq_true', decide_eq_false_iff_not]
      at hca hcb
    exact hb.alone a b (Or.inr hma) (Or.inr hmb) (hca.1.trans hcb.1.symm) hca.2 hcb.2
  rcases at_most_one hkeys hfew with hnil | ⟨a, ha⟩
  · rw [hnil] at hsum
    exact Or.inl hsum.symm
  · have hm : a ∈ [a] := List.mem_singleton_self a
    rw [← ha] at hm
    obtain ⟨hm, hcond⟩ := List.mem_filter.mp hm
    simp only [Bool.and_eq_true, decide_eq_true_eq, Bool.not_eq_true', decide_eq_false_iff_not]
      at hcond
    rw [ha] at hsum
    exact Or.inr ⟨a, hm, hcond.1, hcond.2, by simpa using hsum⟩

end Balanced

/-- In a run that the bookkeeping can follow, no more is refunded than was
charged, and what no task waits for any more is in the book. -/
theorem refunds_hold {h : List (Event F)} {w : World F}
    (hrun : (payments F).machine.Run Fresh h w) (hx : ∀ e ∈ h, Honest e) (ho : AllOrderly h) :
    (∀ c ∈ World.ledger w, c.event = .charged →
      honouredMinor c.paymentIntentId w ≤ c.amountMinor) ∧
    ∀ k, (∀ r, Frame.refunding r ∈ w.waiting → r.intent.paymentIntentId ≠ k) →
      honouredMinor k w = repaidMinor k w := by
  have hb := Balanced.reach hrun ho hx
  refine ⟨fun c hc hev => ?_, fun k hidle => ?_⟩
  · have hsame : ∀ c' ∈ World.ledger w, c'.event = .charged →
        c'.paymentIntentId = c.paymentIntentId → c'.amountMinor = c.amountMinor := by
      intro c' hc' hev' hid'
      rw [charge_unique ((Pinned.reach hrun).one _) hc' hc ⟨hev', hid'⟩ ⟨hev, rfl⟩]
    rcases hb.pending_few c.paymentIntentId with heq | ⟨a, hm, hid, hnot, heq⟩
    · rcases Nat.eq_zero_or_pos (repaidMinor c.paymentIntentId w) with hz | hpos
      · omega
      · obtain ⟨c', hc', hev', hid', hle⟩ := hb.bounded _ hpos
        have hamount := hsame c' hc' hev' hid'
        omega
    · obtain ⟨c', hc', hev', hid', hle⟩ := hb.room a (Or.inr hm) hnot
      rw [hid] at hid' hle
      have hamount := hsame c' hc' hev' hid'
      omega
  · rcases hb.pending_few k with heq | ⟨a, hm, hid, hnot, -⟩
    · exact heq.symm
    · obtain ⟨r, hr, hk⟩ := (hb.pending a hm).resolve_left hnot
      have habout := hb.about r.ask (hb.waits r hr) a (hb.held a (Or.inr hm)) hk
      exact absurd (habout.trans hid) (hidle r hr)

/-! ### Refunds of one purchase -/

/-- A step that is not about refunds. -/
def apart (s : Step F) : Bool :=
  match s.turn with
  | .start (Call.refund _ _ _ _) | .start (Call.honour _) | .start (Call.decline _) => false
  | .resume _ (Answer.refunded _) => false
  | _ => true

/-- A run before its first refund. -/
structure Untouched (h : List (Event F)) (w : World F) : Prop where
  provider : World.provider w = {}
  asks : h.filterMap asks = []
  repaid : repaid h = []
  honest : ∀ e ∈ h, Honest e
  orderly : AllOrderly h

namespace Untouched

variable {h : List (Event F)} {w : World F}

theorem step (hu : Untouched h w) {c : Step F} (hc : apart c = true) :
    Untouched (⟨w, c⟩ :: h) ((payments F).machine.step c w).2 := by
  have hasks : Payment.asks (⟨w, c⟩ : Event F) = none := by
    refine asks_none (fun _ _ _ _ hcall => ?_)
    rw [apart, show c.turn = _ from hcall] at hc
    cases hc
  have hrep : repays (⟨w, c⟩ : Event F) = none := by
    cases ht : repays (⟨w, c⟩ : Event F) with
    | none => rfl
    | some t =>
      obtain ⟨i, r, p, hcall, -⟩ := repays_some ht
      rw [apart, show c.turn = _ from hcall] at hc
      cases hc
  have hhon : (World.provider w).honoured = [] := by rw [hu.provider]
  refine ⟨?_, ?_, ?_, fun e he => ?_, ⟨?_, ?_, ?_, ?_, ?_⟩, hu.orderly⟩
  · have hkept : ∀ n, c.turn ≠ .start (Call.honour n) ∧ c.turn ≠ .start (Call.decline n) := by
      intro n
      constructor <;> intro hcall <;> rw [apart, hcall] at hc <;> cases hc
    cases refundTurn (⟨w, c⟩ : Event F) with
    | asked r ha _ _ _ _ =>
      rw [asks_eq ha] at hasks
      cases hasks
    | honoured n hcall _ _ _ _ => exact absurd hcall (hkept n).1
    | declined n _ _ hp _ =>
      refine hp.trans ?_
      change Provider.decline (World.provider w) n = {}
      rw [hu.provider]
      rfl
    | answered r _ _ _ hp _ => exact hp.trans hu.provider
    | repaid i r p row _ _ _ _ hp _ _ _ _ => exact hp.trans hu.provider
    | other rows _ _ hp _ _ => exact hp.trans hu.provider
  · rw [List.filterMap_cons, hasks]
    exact hu.asks
  · rw [written_same hrep]
    exact hu.repaid
  · rcases List.mem_cons.mp he with rfl | he
    · intro i r p hcall
      rw [apart, show c.turn = _ from hcall] at hc
      cases hc
    · exact hu.honest e he
  · intro a ha
    rw [hasks] at ha
    cases ha
  · intro a ha
    rw [hasks] at ha
    cases ha
  · intro n a hcall
    rw [apart, show c.turn = _ from hcall] at hc
    cases hc
  · intro t ht
    rw [hrep] at ht
    cases ht
  · intro r _ _ ⟨b, hb, _⟩
    rw [show (World.provider w).honoured = [] from hhon] at hb
    cases hb

theorem history (hu : Untouched h w) {calls : List (Step F)} (hc : ∀ c ∈ calls, apart c = true) :
    Untouched ((payments F).machine.history h w calls) ((payments F).machine.after w calls) := by
  induction calls generalizing h w with
  | nil => exact hu
  | cons c calls ih =>
    exact ih (hu.step (hc c (List.mem_cons_self ..))) (fun d hd => hc d (List.mem_cons_of_mem c hd))

end Untouched

/-- One intent, bought and charged. -/
def sampleCharged : World sampleFence :=
  ((payments sampleFence).machine.step (sampleAnswer "ch-1") sampleFirst).2

theorem sample_charged : (payments sampleFence).machine.after (payments sampleFence).machine.init
    (samplePresented ++ sampleOnce) = sampleCharged := by
  rw [Machine.after_append, sample_world]
  unfold sampleOnce
  rw [Machine.after_cons, sample_first]
  rfl

theorem sample_untouched : Untouched ((payments sampleFence).machine.history []
    (payments sampleFence).machine.init (samplePresented ++ sampleOnce)) sampleCharged := by
  rw [← sample_charged]
  have hinit : Untouched ([] : List (Event sampleFence)) (payments sampleFence).machine.init :=
    ⟨rfl, rfl, rfl, fun e he => (by cases he), trivial⟩
  refine hinit.history (fun c hc => ?_)
  rcases List.mem_append.mp hc with hc | hc
  · have hall : ∀ s ∈ samplePresented, apart s = true := by decide
    exact hall c hc
  · simp only [sampleOnce, List.mem_cons, List.not_mem_nil, or_false] at hc
    rcases hc with rfl | rfl <;> rfl

def sampleRefund (key : String) (amountMinor : Nat) : Step sampleFence :=
  ⟨4000, .start (Call.refund "pi-1" amountMinor ⟨"x-" ++ key, key, "a-2", "refund_request"⟩
    sampleAccess)⟩

def sampleHonour (n : Nat) : Step sampleFence := ⟨5000, .start (Call.honour n)⟩

def sampleRefunded (ref : String) (amountMinor : Nat) : Step sampleFence :=
  ⟨6000, .resume 0 (Answer.refunded ⟨ref, amountMinor, "EUR"⟩)⟩

/-- The only waiting task wants this refund, and the provider has honoured it. -/
def wants (w : World F) (a : Ask) : Bool :=
  match w.waiting[0]? with
  | some (Frame.refunding r) => r.key = a.key && decide (a ∈ (World.provider w).honoured)
  | _ => false

theorem honest_refunded {w : World sampleFence} {a : Ask} {ref : String} (h : wants w a = true) :
    Honest ⟨w, sampleRefunded ref a.amountMinor⟩ := by
  intro i r p hc hf
  cases hc
  have hf : w.waiting[0]? = some (Frame.refunding r) := hf
  simp only [wants, hf, Bool.and_eq_true, decide_eq_true_eq] at h
  exact ⟨a, h.2, h.1.symm, rfl⟩

theorem honest_start {e : Event F} {c : Call} (h : e.call.turn = .start c) : Honest e := by
  intro i r p hc
  rw [h] at hc
  cases hc

/-- The first refund comes back with a number that the fence refuses, the rest
of the amount is open to the second. -/
def sampleTwofold : List (Step sampleFence) :=
  [sampleRefund "k-1" 3000, sampleHonour 0, sampleRefunded "4111111111111111" 3000,
    sampleRefund "k-2" 0, sampleHonour 1, sampleRefunded "re-2" 6000]

theorem twofold_honest : ∀ e ∈ (payments sampleFence).machine.history []
    (payments sampleFence).machine.init (samplePresented ++ sampleOnce ++ sampleTwofold), Honest e := by
  rw [Machine.history_append, sample_charged]
  unfold sampleTwofold
  intro e he
  simp only [Machine.history, List.mem_cons] at he
  rcases he with rfl | rfl | rfl | rfl | rfl | rfl | he
  · exact honest_refunded (a := ⟨"k-2", "pi-1", "ch-1", 6000⟩) (by decide)
  · exact honest_start rfl
  · exact honest_start rfl
  · exact honest_refunded (a := ⟨"k-1", "pi-1", "ch-1", 3000⟩) (by decide)
  · exact honest_start rfl
  · exact honest_start rfl
  · exact sample_untouched.honest e he

/-- A charge of 60 and refunds of 90. -/
theorem refunded_beyond_the_charge : ¬ ∀ h (w : World sampleFence),
    (payments sampleFence).machine.Run Fresh h w → (∀ e ∈ h, Honest e) →
      (∀ c ∈ World.ledger w, c.event = .charged →
        honouredMinor c.paymentIntentId w ≤ c.amountMinor) ∧
      ∀ k, (∀ r, Frame.refunding r ∈ w.waiting → r.intent.paymentIntentId ≠ k) →
        honouredMinor k w = repaidMinor k w := by
  intro hall
  have hrun := run_of_fresh (samplePresented ++ sampleOnce ++ sampleTwofold) (by decide)
  obtain ⟨hle, -⟩ := hall _ _ hrun twofold_honest
  rw [Machine.after_append, sample_charged] at hle
  have hover : ((World.ledger ((payments sampleFence).machine.after sampleCharged
      sampleTwofold)).any (fun c => c.event = .charged && decide (c.amountMinor <
        honouredMinor c.paymentIntentId ((payments sampleFence).machine.after sampleCharged
          sampleTwofold)))) = true := by
    decide
  obtain ⟨c, hc, hcond⟩ := List.any_eq_true.mp hover
  simp only [Bool.and_eq_true, decide_eq_true_eq] at hcond
  have hbound := hle c hc hcond.1
  omega

/-- The same first refund, with a reference that may be kept. -/
def sampleSingle : List (Step sampleFence) :=
  [sampleRefund "k-1" 3000, sampleHonour 0, sampleRefunded "re-1" 3000]

/-- A task waits for this key. -/
def waitsFor (w : World F) (key : String) : Bool :=
  w.waiting.any (fun f => match f with
    | .refunding r => r.key = key
    | _ => false)

theorem waits_for {w : World F} {key : String} (h : waitsFor w key = true) :
    ∃ r, Frame.refunding r ∈ w.waiting ∧ r.key = key := by
  obtain ⟨f, hf, hk⟩ := List.any_eq_true.mp h
  cases f with
  | refunding r => exact ⟨r, hf, of_decide_eq_true hk⟩
  | quoting q => cases hk
  | charging c => cases hk
  | lookingUp l => cases hk
  | cancelling c => cases hk

def sampleAsked : World sampleFence :=
  ((payments sampleFence).machine.step (sampleRefund "k-1" 3000) sampleCharged).2

def sampleHonoured : World sampleFence :=
  ((payments sampleFence).machine.step (sampleHonour 0) sampleAsked).2

theorem repays_start {e : Event F} {c : Call} (h : e.call.turn = .start c) : repays e = none := by
  apply repays_none
  intro r hr
  simp only [EventLoop.Event.resumed, h] at hr
  cases hr

/-- The first refund of a run. -/
theorem asked_first : Orderly ((payments sampleFence).machine.history []
    (payments sampleFence).machine.init (samplePresented ++ sampleOnce))
    ⟨sampleCharged, sampleRefund "k-1" 3000⟩ := by
  refine ⟨fun a _ b hb => ?_, fun a _ b hb => ?_, fun n a hc => (by cases hc), fun t ht => ?_,
    fun r hr => (by cases hr)⟩
  · rw [sample_untouched.asks] at hb
    cases hb
  · rcases hb with hb | hb <;> rw [sample_untouched.provider] at hb <;> cases hb
  · rw [repays_start rfl] at ht
    cases ht

theorem honoured_waiting (h : List (Event sampleFence)) :
    Orderly h ⟨sampleAsked, sampleHonour 0⟩ := by
  have hasks : asks (⟨sampleAsked, sampleHonour 0⟩ : Event sampleFence) = none :=
    asks_none (fun _ _ _ _ hc => by cases hc)
  refine ⟨fun a ha => ?_, fun a ha => ?_, fun n a hc ha => Or.inr ?_, fun t ht => ?_,
    fun r hr => (by cases hr)⟩
  · rw [hasks] at ha
    cases ha
  · rw [hasks] at ha
    cases ha
  · cases hc
    have hkey : (World.provider sampleAsked).asked[0]?.map Ask.key = some "k-1" := by
      decide
    have ha : (World.provider sampleAsked).asked[0]? = some a := ha
    rw [ha] at hkey
    rw [Option.some.inj hkey]
    exact waits_for (by decide)
  · rw [repays_start rfl] at ht
    cases ht

theorem answered_booked {h : List (Event sampleFence)} (hr : repaid h = []) :
    Orderly h ⟨sampleHonoured, sampleRefunded "re-1" 3000⟩ := by
  have hasks : asks (⟨sampleHonoured, sampleRefunded "re-1" 3000⟩ : Event sampleFence) = none :=
    asks_none (fun _ _ _ _ hc => by cases hc)
  refine ⟨fun a ha => ?_, fun a ha => ?_, fun n a hc => (by cases hc), fun t _ hw => ?_,
    fun r _ _ _ => Or.inl (fun hn => ?_)⟩
  · rw [hasks] at ha
    cases ha
  · rw [hasks] at ha
    cases ha
  · rw [Written, hr] at hw
    cases hw
  · have hsome : (repays (⟨sampleHonoured, sampleRefunded "re-1" 3000⟩ :
        Event sampleFence)).isSome = true := by decide
    rw [hn] at hsome
    cases hsome

theorem single_orderly : AllOrderly ((payments sampleFence).machine.history []
    (payments sampleFence).machine.init (samplePresented ++ sampleOnce ++ sampleSingle)) := by
  rw [Machine.history_append, sample_charged]
  refine ⟨answered_booked ?_, honoured_waiting _, asked_first, sample_untouched.orderly⟩
  rw [written_same (repays_start rfl), written_same (repays_start rfl)]
  exact sample_untouched.repaid

theorem refunds_sample : honouredMinor "pi-1" ((payments sampleFence).machine.after
    (payments sampleFence).machine.init (samplePresented ++ sampleOnce ++ sampleSingle)) =
      repaidMinor "pi-1" ((payments sampleFence).machine.after (payments sampleFence).machine.init
        (samplePresented ++ sampleOnce ++ sampleSingle)) := by
  refine (refunds_hold (run_of_fresh _ (by decide)) (fun e he => ?_) single_orderly).2 "pi-1"
    (fun r hr => ?_)
  · rw [Machine.history_append, sample_charged] at he
    simp only [sampleSingle, Machine.history, List.mem_cons] at he
    rcases he with rfl | rfl | rfl | he
    · exact honest_refunded (a := ⟨"k-1", "pi-1", "ch-1", 3000⟩) (by decide)
    · exact honest_start rfl
    · exact honest_start rfl
    · exact sample_untouched.honest e he
  · rw [Machine.after_append, sample_charged] at hr
    have hidle : ((payments sampleFence).machine.after sampleCharged
        sampleSingle).waiting.isEmpty = true := by decide
    rw [List.isEmpty_iff.mp hidle] at hr
    cases hr

end Solvio.Payment
