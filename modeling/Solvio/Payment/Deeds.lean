import Solvio.Payment.Turns

namespace Solvio.Payment
open Solvio.Lib Solvio.Approval

variable {F : Fence}

abbrev World (F : Fence) : Type := EventLoop.World (payments F)
abbrev Event (F : Fence) : Type := EventLoop.Event (payments F)
abbrev Step (F : Fence) : Type := EventLoop.Step (payments F)

def World.row (w : World F) (k : String) : Option (PaymentIntent F) := w.shared.store.intent? k

def World.ledger (w : World F) : List Row := w.shared.store.ledger

def Frame.intentId : Frame F → String
  | .quoting q => q.draft.paymentIntentId
  | .charging c => c.running.paymentIntentId
  | .lookingUp l => l.intent.paymentIntentId
  | .refunding r => r.intent.paymentIntentId
  | .cancelling c => c.intent.paymentIntentId

/-- The state that an answer stands for; `none` where none is written. -/
def Frame.verdict (s : Store F) (f : Frame F) (a : Answer) (now : Time) : Option PaymentState :=
  match f, a with
  | .quoting q, .quoted p => (PaymentQuote.make? q.draft.currency p now).map (fun _ => .quoted)
  | .charging c, a => s.chargeVerdict c a
  | .lookingUp _, a => Store.lookupVerdict F a
  | .refunding r, a => s.refundVerdict r a
  | _, _ => none

namespace Store

theorem wrote_wrote (s : Store F) (puts puts' : List (PaymentIntent F)) (rows rows' : List Row) :
    (s.wrote puts rows).wrote puts' rows' = s.wrote (puts ++ puts') (rows' ++ rows) := by
  induction puts' generalizing s puts with
  | nil => simp [wrote]
  | cons i puts' ih =>
    have h := ih s (puts ++ [i])
    rw [← put_wrote, List.append_assoc] at h
    exact h

theorem written_state (old : Option (PaymentIntent F)) (i : PaymentIntent F) :
    (written old i).state = i.state ∧ (written old i).quote = i.quote ∧
      (written old i).executionId = i.executionId := by
  cases old with
  | none => exact ⟨rfl, rfl, rfl⟩
  | some r => exact ⟨rfl, rfl, rfl⟩

/-- The intents that are not put stay. -/
theorem intent_wrote_other (s : Store F) {puts : List (PaymentIntent F)} (rows : List Row)
    {k : String} (h : ∀ i ∈ puts, i.paymentIntentId ≠ k) :
    (s.wrote puts rows).intent? k = s.intent? k := by
  change (puts.foldl putIntent s).intent? k = s.intent? k
  induction puts generalizing s with
  | nil => rfl
  | cons i puts ih =>
    have hi : k ≠ i.paymentIntentId := fun he => h i (List.mem_cons_self ..) he.symm
    rw [List.foldl_cons, ih _ (fun j hj => h j (List.mem_cons_of_mem i hj)), intent_put, if_neg hi]

/-- The last one that was put is in the row. -/
theorem intent_wrote_last (s : Store F) (puts : List (PaymentIntent F)) (i : PaymentIntent F)
    (rows : List Row) : ∃ r, (s.wrote (puts ++ [i]) rows).intent? i.paymentIntentId = some r ∧
      r.state = i.state ∧ r.quote = i.quote ∧ r.executionId = i.executionId := by
  rw [← put_wrote, intent_put, if_pos rfl]
  exact ⟨_, rfl, written_state _ i⟩

/-- A row keeps its instrument. -/
theorem intent_wrote_method (s : Store F) (puts : List (PaymentIntent F)) (rows : List Row)
    {k : String} {i : PaymentIntent F} (hi : s.intent? k = some i) :
    ∃ j, (s.wrote puts rows).intent? k = some j ∧ j.paymentMethodRef = i.paymentMethodRef := by
  change ∃ j, (puts.foldl putIntent s).intent? k = some j ∧ _
  induction puts generalizing s i with
  | nil => exact ⟨i, hi, rfl⟩
  | cons p puts ih =>
    have hp : ∃ j, (s.putIntent p).intent? k = some j ∧
        j.paymentMethodRef = i.paymentMethodRef := by
      rw [intent_put]
      split
      · rename_i hk
        rw [← hk, hi]
        exact ⟨_, rfl, rfl⟩
      · exact ⟨i, hi, rfl⟩
    obtain ⟨j, hj, hm⟩ := hp
    obtain ⟨j', hj', hm'⟩ := ih (s.putIntent p) hj
    exact ⟨j', hj', hm'.trans hm⟩

theorem prepare_wrote (s : Store F) (p : Prepare) (access : Access) (now : Time) :
    s.prepare p access now = (none, s) ∨ ∃ draft row f, s.draft? p now = some draft ∧
      Quiet draft.paymentIntentId [row] ∧ s.prepare p access now = (f, s.wrote [draft] [row]) ∧
      ∀ g, f = some g → ∃ h hx, g = .quoting ⟨draft, h, hx⟩ := by
  unfold prepare
  split
  · exact Or.inl rfl
  · rename_i draft hd
    have hq : ∀ row : Row, row.event = .created → row.paymentIntentId = draft.paymentIntentId →
        Quiet draft.paymentIntentId [row] :=
      fun row he hk => quiet_cons (by rw [he]; rfl) hk (quiet_nil _)
    right
    simp only
    split
    · refine ⟨draft, _, _, hd, ?_, rfl, fun g hg => ?_⟩
      · exact hq _ rfl rfl
      · cases hg
        exact ⟨_, _, rfl⟩
    · refine ⟨draft, _, _, hd, ?_, rfl, fun g hg => ?_⟩
      · exact hq _ rfl rfl
      · cases hg

theorem reconcile_some {s : Store F} {vorgang : String} {access : Access} {g : Frame F}
    (h : s.reconcile vorgang access = some g) : ∃ l, g = .lookingUp l ∧
      s.intent? l.intent.paymentIntentId = some l.intent ∧
      s.instrument? l.intent.paymentMethodRef = some l.instrument := by
  unfold reconcile at h
  split at h
  · cases h
  · rename_i intent hi
    split at h
    · split at h
      · cases h
      · split at h
        · cases h
        · rename_i instrument hins
          split at h
          · cases h
            exact ⟨_, rfl, by rw [intent_id hi]; exact hi, hins⟩
          · cases h
    · cases h

/-- A refund that goes out was found open. -/
structure Opens (s : Store F) (r : Refunding F) : Prop where
  found : s.intent? r.intent.paymentIntentId = some r.intent
  booked : ∃ row, s.chargedRow r.intent.paymentIntentId = some row ∧
    row.amountMinor = r.booked ∧ row.providerRef = r.chargeRef
  already : s.refundedMinor r.intent.paymentIntentId = r.already

theorem refund_some {s : Store F} {vorgang : String} {amountMinor : Nat}
    {identity : ExecutionIdentity} {access : Access} {r : Refunding F}
    (h : s.refund? vorgang amountMinor identity access = some r) :
    s.Opens r ∧ (r.wanted = if amountMinor = 0 then r.booked - r.already else amountMinor) ∧
      followingKey identity "refund_request" s!"|{r.already}|{r.wanted}" r.intent.executionId =
        some r.key := by
  unfold refund? at h
  split at h
  · cases h
  · rename_i intent hi
    have hself : s.intent? intent.paymentIntentId = some intent := by rw [intent_id hi]; exact hi
    split at h
    · split at h
      · rename_i instrument charged hins hc
        simp only at h
        generalize hw : (if amountMinor = 0 then charged.amountMinor -
          s.refundedMinor intent.paymentIntentId else amountMinor) = wanted at h
        split at h
        · split at h
          · cases h
          · rename_i key hkey
            split at h
            · cases h
              exact ⟨⟨hself, ⟨_, hc, rfl, rfl⟩, rfl⟩, hw.symm, hkey⟩
            · cases h
        · cases h
      · cases h
    · cases h

end Store

namespace Store

variable {s : Store F} {identity : ExecutionIdentity} {now : Time}

theorem Claims.intent {intent : PaymentIntent F} {quote : PaymentQuote} {c : Charging F}
    (h : s.Claims identity now intent quote c) :
    c.running.paymentIntentId = intent.paymentIntentId := by rw [h.running]

theorem Charges.about {intent : PaymentIntent F} {quote : PaymentQuote} {g : Option (Frame F)}
    {puts : List (PaymentIntent F)} {rows : List Row}
    (h : s.Charges identity now intent quote g puts rows) :
    ∀ i ∈ puts, i.paymentIntentId = intent.paymentIntentId := by
  intro i hi
  cases h with
  | refused => cases hi
  | denied row _ => rw [List.mem_singleton.mp hi]
  | stuck c hc => rw [List.mem_singleton.mp hi, hc.intent]
  | sent c row hc _ => rw [List.mem_singleton.mp hi, hc.intent]
  | withheld c row denial hc _ _ =>
    rcases List.mem_cons.mp hi with rfl | hi
    · exact hc.intent
    · rw [List.mem_singleton.mp hi]
      exact hc.intent

/-- A charge that goes out is not booked yet. -/
theorem Charges.unbooked {intent : PaymentIntent F} {quote : PaymentQuote} {g : Option (Frame F)}
    {puts : List (PaymentIntent F)} {rows : List Row}
    (h : s.Charges identity now intent quote g puts rows) :
    ∀ row ∈ rows, row.event ≠ .charged ∧ row.event ≠ .refunded := by
  have hquiet : ∀ {k : String} {row : Row}, Quiet k [row] →
      row.event ≠ .charged ∧ row.event ≠ .refunded := by
    intro k row hq
    have hm := (hq row (List.mem_singleton_self row)).1
    constructor <;> intro he <;> rw [he] at hm <;> cases hm
  have hclaimed : ∀ {c : Charging F} {row : Row}, Claimed c now row →
      row.event ≠ .charged ∧ row.event ≠ .refunded := by
    intro c row hc
    rw [hc.event]
    constructor <;> intro he <;> cases he
  intro row hr
  cases h with
  | refused => cases hr
  | stuck c hc => cases hr
  | denied row' hq => exact List.mem_singleton.mp hr ▸ hquiet hq
  | sent c row' hc hcl => exact List.mem_singleton.mp hr ▸ hclaimed hcl
  | withheld c row' denial hc hcl hq =>
    rcases List.mem_cons.mp hr with rfl | hr
    · exact hquiet hq
    · exact List.mem_singleton.mp hr ▸ hclaimed hcl

theorem Approves.about {vorgang pruefsumme : String} {stored approved : PaymentIntent F}
    {quote : PaymentQuote} {puts : List (PaymentIntent F)}
    (h : s.Approves vorgang pruefsumme identity now stored approved quote puts) :
    approved.paymentIntentId = stored.paymentIntentId ∧
      ∀ i ∈ puts, i.paymentIntentId = approved.paymentIntentId := by
  refine ⟨by rw [h.same], fun i hi => ?_⟩
  rcases h.written with ⟨-, rfl⟩ | ⟨-, rfl⟩
  · cases hi
  · rw [List.mem_singleton.mp hi]

theorem Approves.found_self {vorgang pruefsumme : String} {stored approved : PaymentIntent F}
    {quote : PaymentQuote} {puts : List (PaymentIntent F)}
    (h : s.Approves vorgang pruefsumme identity now stored approved quote puts) :
    s.intent? approved.paymentIntentId = some stored := by
  rw [h.about.1, intent_id h.found]
  exact h.found

end Store

/-- What a turn does: the intents it puts, and the rows it books. -/
inductive Deed (e : Event F) : List (PaymentIntent F) → List Row → Prop
  | nothing : EventLoop.Event.awaits e = none → Deed e [] []
  | prepared (p : Prepare) (access : Access) (draft : PaymentIntent F) (row : Row) :
      e.call.turn = .start (Call.prepare p access) → EventLoop.Event.resumed e = none →
      e.pre.shared.store.draft? p e.call.now = some draft →
      Store.Quiet draft.paymentIntentId [row] →
      (∀ g, EventLoop.Event.awaits e = some g → ∃ h hx, g = .quoting ⟨draft, h, hx⟩) →
      Deed e [draft] [row]
  | presented (i : Nat) (q : Quoting F) (p : ProviderQuote) (quote : PaymentQuote)
      (target : PaymentState) (row : Row) : e.call.turn = .resume i (Answer.quoted p) →
      e.pre.waiting[i]? = some (Frame.quoting q) → EventLoop.Event.awaits e = none →
      PaymentQuote.make? q.draft.currency p e.call.now = some quote →
      (target = .cancelled ∨ target = .readyForApproval) →
      Store.Quiet q.draft.paymentIntentId [row] →
      Deed e [q.draft.withQuote quote (by rw [q.isDraft]; rfl),
        { q.draft.withQuote quote (by rw [q.isDraft]; rfl) with state := target }] [row]
  | withdrawn (vorgang : String) (i : PaymentIntent F) (row : Row) :
      e.call.turn = .start (Call.cancelIntent vorgang) → EventLoop.Event.awaits e = none →
      World.row e.pre i.paymentIntentId = some i → i.state.cancellable = true →
      Store.Quiet i.paymentIntentId [row] → Deed e [{ i with state := .cancelled }] [row]
  | bought (vorgang pruefsumme : String) (identity : ExecutionIdentity) (access : Access)
      (stored approved : PaymentIntent F) (quote : PaymentQuote)
      (puts puts' : List (PaymentIntent F)) (rows rows' : List Row) :
      e.call.turn = .start (Call.purchase vorgang pruefsumme identity access) →
      EventLoop.Event.resumed e = none →
      e.pre.shared.store.Approves vorgang pruefsumme identity e.call.now stored approved quote
        puts →
      Store.Quiet approved.paymentIntentId rows →
      e.pre.shared.store.approve vorgang pruefsumme identity e.call.now =
        some (approved, e.pre.shared.store.wrote puts rows) →
      (e.pre.shared.store.wrote puts rows).intent? approved.paymentIntentId = some approved →
      (e.pre.shared.store.wrote puts rows).Charges identity e.call.now approved quote
        (EventLoop.Event.awaits e) puts' rows' →
      Deed e (puts ++ puts') (rows' ++ rows)
  | settled (i : Nat) (a : Answer) (c : Charging F) (puts : List (PaymentIntent F))
      (rows : List Row) : e.call.turn = .resume i a →
      e.pre.waiting[i]? = some (Frame.charging c) → EventLoop.Event.awaits e = none →
      e.pre.shared.store.Settles c a e.call.now puts rows → Deed e puts rows
  | looking (l : LookingUp F) : EventLoop.Event.resumed e = none →
      EventLoop.Event.awaits e = some (Frame.lookingUp l) →
      World.row e.pre l.intent.paymentIntentId = some l.intent →
      e.pre.shared.store.instrument? l.intent.paymentMethodRef = some l.instrument →
      Deed e [] []
  | resolved (i : Nat) (a : Answer) (l : LookingUp F) (puts : List (PaymentIntent F))
      (rows : List Row) : e.call.turn = .resume i a →
      e.pre.waiting[i]? = some (Frame.lookingUp l) → EventLoop.Event.awaits e = none →
      e.pre.shared.store.Resolves l a e.call.now puts rows → Deed e puts rows
  | asked (vorgang : String) (amountMinor : Nat) (identity : ExecutionIdentity) (access : Access)
      (r : Refunding F) : e.call.turn = .start (Call.refund vorgang amountMinor identity access) →
      EventLoop.Event.resumed e = none →
      EventLoop.Event.awaits e = some (Frame.refunding r) →
      e.pre.shared.store.refund? vorgang amountMinor identity access = some r → Deed e [] []
  | repaid (i : Nat) (p : ProviderRefund) (r : Refunding F) (puts : List (PaymentIntent F))
      (rows : List Row) : e.call.turn = .resume i (Answer.refunded p) →
      e.pre.waiting[i]? = some (Frame.refunding r) → EventLoop.Event.awaits e = none →
      e.pre.shared.store.Repays r p e.call.now puts rows → Deed e puts rows
  | cancelling (c : Cancelling F) : EventLoop.Event.resumed e = none →
      EventLoop.Event.awaits e = some (Frame.cancelling c) → Deed e [] []
  | orderCancelled (c : Cancelling F) (row : Row) : EventLoop.Event.awaits e = none →
      Store.Quiet c.intent.paymentIntentId [row] → Deed e [] [row]

/-- The instruments aside, a turn leaves the store that its deed describes. -/
structure Leaves (e : Event F) (puts : List (PaymentIntent F)) (rows : List Row) : Prop where
  deed : Deed e puts rows
  intents : e.post.shared.store.intents = (e.pre.shared.store.wrote puts rows).intents
  ledger : e.post.shared.store.ledger = rows ++ e.pre.shared.store.ledger
  trail : e.post.shared.store.trail = (e.pre.shared.store.wrote puts rows).trail

namespace Leaves

variable {e : Event F} {puts : List (PaymentIntent F)} {rows : List Row}

theorem of_wrote (hd : Deed e puts rows)
    (hs : e.post.shared.store = e.pre.shared.store.wrote puts rows) : Leaves e puts rows :=
  ⟨hd, by rw [hs], by rw [hs]; rfl, by rw [hs]⟩

theorem row_eq (hl : Leaves e puts rows) (k : String) :
    World.row e.post k = (e.pre.shared.store.wrote puts rows).intent? k :=
  congrArg (Table.find? · k) hl.intents

theorem row_other (hl : Leaves e puts rows) {k : String}
    (h : ∀ i ∈ puts, i.paymentIntentId ≠ k) : World.row e.post k = World.row e.pre k :=
  (hl.row_eq k).trans (Store.intent_wrote_other _ rows h)

theorem row_last {i : PaymentIntent F} (hl : Leaves e puts rows) (hlast : puts.getLast? = some i) :
    ∃ r, World.row e.post i.paymentIntentId = some r ∧ r.state = i.state ∧ r.quote = i.quote ∧
      r.executionId = i.executionId := by
  obtain ⟨before, rfl⟩ := List.getLast?_eq_some_iff.mp hlast
  rw [hl.row_eq]
  exact Store.intent_wrote_last _ before i rows

theorem row_method (hl : Leaves e puts rows) {k : String} {i : PaymentIntent F}
    (hi : World.row e.pre k = some i) :
    ∃ j, World.row e.post k = some j ∧ j.paymentMethodRef = i.paymentMethodRef := by
  rw [hl.row_eq]
  exact Store.intent_wrote_method _ puts rows hi

end Leaves

theorem leaves_start (e : Event F) (c : Call) (hc : e.call.turn = .start c)
    (hawaits : EventLoop.Event.awaits e = (e.pre.shared.start c e.call.now).1)
    (hpost : e.post.shared = (e.pre.shared.start c e.call.now).2) :
    ∃ puts rows, Leaves e puts rows := by
  have hres : EventLoop.Event.resumed e = none := by simp only [EventLoop.Event.resumed, hc]
  cases c with
  | prepare p access =>
    simp only [Desk.start] at hawaits hpost
    rcases e.pre.shared.store.prepare_wrote p access e.call.now with h |
      ⟨draft, row, f, hd, hq, h, hg⟩
    · rw [h] at hawaits hpost
      exact ⟨[], [], .of_wrote (.nothing hawaits) (by rw [hpost]; rfl)⟩
    · rw [h] at hawaits hpost
      exact ⟨_, _, .of_wrote (.prepared p access draft row hc hres hd hq
        (fun g hga => hg g (hawaits.symm.trans hga))) (by rw [hpost])⟩
  | cancelIntent vorgang =>
    simp only [Desk.start] at hawaits hpost
    rcases e.pre.shared.store.cancelIntent_wrote vorgang e.call.now with h |
      ⟨i, row, hi, hc', he, hk, h⟩
    · rw [h] at hpost
      exact ⟨[], [], .of_wrote (.nothing hawaits) (by rw [hpost]; rfl)⟩
    · rw [h] at hpost
      exact ⟨_, _, .of_wrote (.withdrawn vorgang i row hc hawaits hi hc'
        (Store.quiet_cons (by rw [he]; rfl) hk (Store.quiet_nil _))) (by rw [hpost])⟩
  | purchase vorgang pruefsumme identity access =>
    simp only [Desk.start, Store.purchase] at hawaits hpost
    cases happ : e.pre.shared.store.approve vorgang pruefsumme identity e.call.now with
    | none =>
      simp only [happ] at hawaits hpost
      exact ⟨[], [], .of_wrote (.nothing hawaits) (by rw [hpost]; rfl)⟩
    | some out =>
      obtain ⟨approved, s'⟩ := out
      obtain ⟨stored, quote, puts, rows, ha, hrows, rfl, hi⟩ := Store.approve_wrote happ
      simp only [happ] at hawaits hpost
      have hquote : approved.quote = some quote := by rw [ha.same]; exact ha.quoted
      obtain ⟨puts', rows', hch, hs⟩ :=
        Store.charge_wrote hi ha.state hquote identity access e.call.now
      rw [← hawaits] at hch
      refine ⟨_, _, .of_wrote (.bought vorgang pruefsumme identity access stored approved quote
        puts puts' rows rows' hc hres ha (fun row hr => ?_) happ hi hch) ?_⟩
      · obtain ⟨he, hk⟩ := hrows row hr
        exact ⟨by rw [he]; rfl, hk⟩
      · rw [hpost, hs, Store.wrote_wrote]
  | reconcile vorgang access =>
    simp only [Desk.start] at hawaits hpost
    cases h : e.pre.shared.store.reconcile vorgang access with
    | none => exact ⟨[], [], .of_wrote (.nothing (hawaits.trans h)) (by rw [hpost]; rfl)⟩
    | some g =>
      obtain ⟨l, rfl, hi, hins⟩ := Store.reconcile_some h
      exact ⟨[], [], .of_wrote (.looking l hres (hawaits.trans h) hi hins) (by rw [hpost]; rfl)⟩
  | refund vorgang amountMinor identity access =>
    simp only [Desk.start] at hawaits hpost
    cases h : e.pre.shared.store.refund? vorgang amountMinor identity access with
    | none =>
      simp only [h] at hawaits hpost
      exact ⟨[], [], .of_wrote (.nothing hawaits) (by rw [hpost]; rfl)⟩
    | some r =>
      simp only [h] at hawaits hpost
      exact ⟨[], [], .of_wrote (.asked vorgang amountMinor identity access r hc hres hawaits h)
        (by rw [hpost]; rfl)⟩
  | orderCancel vorgang identity access =>
    simp only [Desk.start] at hawaits hpost
    cases h : e.pre.shared.store.orderCancel? vorgang identity access with
    | none =>
      rw [h] at hawaits
      exact ⟨[], [], .of_wrote (.nothing hawaits) (by rw [hpost]; rfl)⟩
    | some c =>
      rw [h] at hawaits
      exact ⟨[], [], .of_wrote (.cancelling c hres hawaits) (by rw [hpost]; rfl)⟩
  | putInstrument i =>
    simp only [Desk.start] at hawaits hpost
    exact ⟨[], [], .nothing hawaits, by rw [hpost]; rfl, by rw [hpost]; rfl, by rw [hpost]; rfl⟩
  | deleteInstrument ref =>
    simp only [Desk.start] at hawaits hpost
    exact ⟨[], [], .nothing hawaits, by rw [hpost]; rfl, by rw [hpost]; rfl, by rw [hpost]; rfl⟩
  | honour n =>
    simp only [Desk.start] at hawaits hpost
    exact ⟨[], [], .of_wrote (.nothing hawaits) (by rw [hpost]; rfl)⟩
  | decline n =>
    simp only [Desk.start] at hawaits hpost
    exact ⟨[], [], .of_wrote (.nothing hawaits) (by rw [hpost]; rfl)⟩

theorem leaves_resume (e : Event F) (i : Nat) (a : Answer) (f : Frame F)
    (hc : e.call.turn = .resume i a) (hf : e.pre.waiting[i]? = some f)
    (hawaits : EventLoop.Event.awaits e = (e.pre.shared.resume f a e.call.now).1)
    (hpost : e.post.shared = (e.pre.shared.resume f a e.call.now).2) :
    ∃ puts rows, Leaves e puts rows := by
  have hnothing : e.pre.shared.resume f a e.call.now = (none, e.pre.shared) →
      ∃ puts rows, Leaves e puts rows := by
    intro h
    rw [h] at hawaits hpost
    exact ⟨[], [], .of_wrote (.nothing hawaits) (by rw [hpost]; rfl)⟩
  cases f with
  | charging c =>
    simp only [Desk.resume] at hawaits hpost
    obtain ⟨puts, rows, hs, h⟩ := e.pre.shared.store.chargeAnswered_wrote c a e.call.now
    exact ⟨puts, rows, .of_wrote (.settled i a c puts rows hc hf hawaits hs) (by rw [hpost, ← h])⟩
  | lookingUp l =>
    simp only [Desk.resume] at hawaits hpost
    obtain ⟨puts, rows, hs, h⟩ := e.pre.shared.store.lookupAnswered_wrote l a e.call.now
    exact ⟨puts, rows, .of_wrote (.resolved i a l puts rows hc hf hawaits hs) (by rw [hpost, ← h])⟩
  | quoting q =>
    cases a with
    | quoted p =>
      simp only [Desk.resume] at hawaits hpost
      rcases e.pre.shared.store.present_wrote q p e.call.now with ⟨-, h⟩ |
        ⟨quote, target, row, hm, ht, he, hk, h⟩
      · rw [h] at hpost
        exact ⟨[], [], .of_wrote (.nothing hawaits) (by rw [hpost]; rfl)⟩
      · exact ⟨_, _, .of_wrote (.presented i q p quote target row hc hf hawaits hm ht
          (Store.quiet_cons (by rw [he]; rfl) hk (Store.quiet_nil _))) (by rw [hpost, ← h])⟩
    | charged p => exact hnothing rfl
    | found p => exact hnothing rfl
    | refunded p => exact hnothing rfl
    | orderCancelled => exact hnothing rfl
    | unavailable => exact hnothing rfl
    | failed => exact hnothing rfl
    | cancelled => exact hnothing rfl
  | refunding r =>
    cases a with
    | refunded p =>
      simp only [Desk.resume] at hawaits hpost
      obtain ⟨puts, rows, hs, h⟩ := e.pre.shared.store.refundAnswered_wrote r p e.call.now
      exact ⟨puts, rows, .of_wrote (.repaid i p r puts rows hc hf hawaits hs) (by rw [hpost, ← h])⟩
    | quoted p => exact hnothing rfl
    | charged p => exact hnothing rfl
    | found p => exact hnothing rfl
    | orderCancelled => exact hnothing rfl
    | unavailable => exact hnothing rfl
    | failed => exact hnothing rfl
    | cancelled => exact hnothing rfl
  | cancelling c =>
    cases a with
    | orderCancelled =>
      simp only [Desk.resume] at hawaits hpost
      refine ⟨[], _, .of_wrote (.orderCancelled c _ hawaits ?_) (by rw [hpost]; rfl)⟩
      exact Store.quiet_cons rfl rfl (Store.quiet_nil _)
    | quoted p => exact hnothing rfl
    | charged p => exact hnothing rfl
    | found p => exact hnothing rfl
    | refunded p => exact hnothing rfl
    | unavailable => exact hnothing rfl
    | failed => exact hnothing rfl
    | cancelled => exact hnothing rfl

theorem leaves (e : Event F) : ∃ puts rows, Leaves e puts rows := by
  obtain ⟨w, s⟩ := e
  rcases EventLoop.run_cases s w with ⟨c, hs, hr⟩ | ⟨i, a, f, before, behind, hs, hf, -, hr⟩ |
    ⟨i, a, hs, hf, hr⟩
  · exact leaves_start ⟨w, s⟩ c hs (congrArg Prod.fst hr)
      (congrArg (fun r => EventLoop.World.shared (Prod.snd r)) hr)
  · exact leaves_resume ⟨w, s⟩ i a f hs hf (congrArg Prod.fst hr)
      (congrArg (fun r => EventLoop.World.shared (Prod.snd r)) hr)
  · refine ⟨[], [], .of_wrote (.nothing (congrArg Prod.fst hr)) ?_⟩
    exact congrArg (fun r => (EventLoop.World.shared (Prod.snd r)).store) hr

end Solvio.Payment
