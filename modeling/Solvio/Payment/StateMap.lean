import Solvio.Payment.Bookings

namespace Solvio.Payment
open Solvio.Lib Solvio.Approval

variable {F : Fence}

/-! ### The map -/

def Legal (before : Option PaymentState) (after : PaymentState) : Prop :=
  ∀ b, before = some b → b = after ∨ b.canTransition after = true

def Follows : Option PaymentState → List PaymentState → Prop
  | _, [] => True
  | before, t :: ts => Legal before t ∧ Follows (some t) ts

theorem Legal.same (s : PaymentState) : Legal (some s) s := fun _ hb => Or.inl (Option.some.inj hb).symm

theorem Legal.of {b s : PaymentState} (h : b.canTransition s = true) : Legal (some b) s := by
  rintro _ ⟨⟩
  exact Or.inr h

theorem Legal.first (s : PaymentState) : Legal none s := fun _ hb => by cases hb

/-- The states that one charge belongs to. -/
def PaymentState.paid : PaymentState → Bool
  | .succeeded | .partiallyRefunded | .refunded => true
  | _ => false

def paidBy (o : Option (PaymentIntent F)) : Nat :=
  match o with
  | none => 0
  | some r => if r.state.paid then 1 else 0

/-! ### What a run may do -/

/-- The execution and the intent of a purchase. -/
def buys (s : Step F) : Option (String × String) :=
  match s.turn with
  | .start (Call.purchase vorgang _ identity _) => some (identity.executionId, stripped vorgang)
  | _ => none

/-- An identifier is drawn once, and an execution is about one intent. -/
structure Permits (h : List (Event F)) (s : Step F) : Prop where
  fresh : Fresh h s
  owned : ∀ x k, buys s = some (x, k) → ∀ e ∈ h, ∀ k', buys e.call = some (x, k') → k' = k

/-- The check of the row that the task began with. -/
def Frame.gate : Frame F → PaymentState → Bool
  | .quoting _, s => s = .draft
  | .charging _, s => s = .executing
  | .lookingUp _, s => s.unresolved
  | .refunding _, s => s.settled
  | .cancelling _, s => s.settled

/-- A task that is resumed to write finds the row as its check had found it, or
in the state already that the answer stands for. -/
def Current (e : Event F) : Prop :=
  ∀ i a f v, e.call.turn = .resume i a → e.pre.waiting[i]? = some f →
    Frame.verdict e.pre.shared.store f a e.call.now = some v →
      ∃ r, World.row e.pre (Frame.intentId f) = some r ∧ (Frame.gate f r.state = true ∨ r.state = v)

/-- Every state that a row took is one that the map leads to, and its state
tells the charges of the intent. -/
structure Charted (w : World F) : Prop where
  legal : ∀ m ∈ w.shared.store.trail, Legal m.before m.after
  counts : ∀ k, chargesOf k (World.ledger w) = paidBy (World.row w k)

/-! ### Rows that were put -/

namespace Store

theorem trail_wrote (s : Store F) (puts : List (PaymentIntent F)) (rows : List Row) (k : String)
    (hk : ∀ i ∈ puts, i.paymentIntentId = k)
    (hf : Follows ((s.intent? k).map PaymentIntent.state) (puts.map PaymentIntent.state))
    (h : ∀ m ∈ s.trail, Legal m.before m.after) :
    ∀ m ∈ (s.wrote puts rows).trail, Legal m.before m.after := by
  change ∀ m ∈ (puts.foldl putIntent s).trail, Legal m.before m.after
  induction puts generalizing s with
  | nil => exact h
  | cons i puts ih =>
    obtain ⟨hl, hf⟩ := hf
    have hi := hk i (List.mem_cons_self ..)
    refine ih (s.putIntent i) (fun j hj => hk j (List.mem_cons_of_mem i hj)) ?_ (fun m hm => ?_)
    · rw [intent_put, if_pos hi.symm, Option.map_some, (written_state _ i).1]
      exact hf
    · rcases List.mem_cons.mp hm with rfl | hm
      · rw [hi]
        exact hl
      · exact h m hm

end Store

/-- Why the charges can be told from the states: a charge carries the execution
that its intent's row names, and an execution is about one intent. -/
structure Traced (h : List (Event F)) (w : World F) : Prop extends Charted w where
  named : ∀ row ∈ World.ledger w, row.event = .charged →
    ∃ r, World.row w row.paymentIntentId = some r ∧ r.executionId = row.executionId
  bought : ∀ k r, World.row w k = some r → r.executionId ≠ "" →
    ∃ e ∈ h, buys e.call = some (r.executionId, k)
  held : ∀ f ∈ w.waiting, ∀ k x, Frame.execution f = some (k, x) →
    ∃ r, World.row w k = some r ∧ r.executionId = x
  owned : ∀ e ∈ h, ∀ n ∈ h, ∀ x k k', buys e.call = some (x, k) → buys n.call = some (x, k') →
    k = k'

namespace Traced

variable {h : List (Event F)} {e : Event F} {puts : List (PaymentIntent F)} {rows : List Row}

theorem owned_step (ht : Traced h e.pre) (hp : Permits h e.call) : ∀ n ∈ e :: h, ∀ m ∈ e :: h,
    ∀ x k k', buys n.call = some (x, k) → buys m.call = some (x, k') → k = k' := by
  intro n hn m hm x k k' hx hx'
  rcases List.mem_cons.mp hn with rfl | hold
  · rcases List.mem_cons.mp hm with rfl | hold
    · rw [hx] at hx'
      cases hx'
      rfl
    · exact (hp.owned x k hx m hold k' hx').symm
  · rcases List.mem_cons.mp hm with rfl | hold'
    · exact hp.owned x k' hx' n hold k hx
    · exact ht.owned n hold m hold' x k k' hx hx'

theorem bought_old (ht : Traced h e.pre) {k : String} {r : PaymentIntent F}
    (hr : World.row e.pre k = some r) (hx : r.executionId ≠ "") :
    ∃ n ∈ e :: h, buys n.call = some (r.executionId, k) := by
  obtain ⟨n, hn, hb⟩ := ht.bought k r hr hx
  exact ⟨n, List.mem_cons_of_mem e hn, hb⟩

/-- A turn that puts no intent and books no charge. -/
theorem keep (ht : Traced h e.pre) (hp : Permits h e.call) (hl : Leaves e [] rows)
    (hq : ∀ r ∈ rows, r.event ≠ .charged) : Traced (e :: h) e.post := by
  have hrow : ∀ k, World.row e.post k = World.row e.pre k :=
    fun k => hl.row_other (fun i hi => by cases hi)
  have hledger : World.ledger e.post = rows ++ World.ledger e.pre := hl.ledger
  refine ⟨⟨?_, fun k => ?_⟩, fun row hr hc => ?_, fun k r hr hx => ?_, fun f hf k x hx => ?_,
    ht.owned_step hp⟩
  · rw [hl.trail]
    exact ht.legal
  · rw [hledger, hrow, chargesOf_append, chargesOf_none (fun r hr hc => absurd hc (hq r hr)),
      Nat.zero_add]
    exact ht.counts k
  · rw [hledger] at hr
    rw [hrow]
    rcases List.mem_append.mp hr with hr | hr
    · exact absurd hc (hq row hr)
    · exact ht.named row hr hc
  · rw [hrow] at hr
    exact ht.bought_old hr hx
  · rcases EventLoop.mem_waiting hf with hold | hnew
    · rw [hrow]
      exact ht.held f hold k x hx
    · exact held_new hnew hx

/-- A turn that puts one intent, its row last as `j`. -/
theorem put (ht : Traced h e.pre) (hp : Permits h e.call) (hl : Leaves e puts rows) {k : String}
    {j : PaymentIntent F} (hlast : puts.getLast? = some j) (hk : ∀ i ∈ puts, i.paymentIntentId = k)
    (hf : Follows ((World.row e.pre k).map PaymentIntent.state) (puts.map PaymentIntent.state))
    (hcount : chargesOf k rows + chargesOf k (World.ledger e.pre) = if j.state.paid then 1 else 0)
    (hnamed : ∀ row ∈ rows, row.event = .charged →
      row.paymentIntentId = k ∧ row.executionId = j.executionId)
    (hsame : (∃ r, World.row e.pre k = some r ∧ r.executionId = j.executionId) ∨
      (chargesOf k (World.ledger e.pre) = 0 ∧
        (∀ f ∈ e.pre.waiting, ∀ x, Frame.execution f ≠ some (k, x)) ∧
        (j.executionId = "" ∨ buys e.call = some (j.executionId, k)))) :
    Traced (e :: h) e.post := by
  have hjk : j.paymentIntentId = k := hk j (List.mem_of_getLast? hlast)
  obtain ⟨r, hr, hrs, -, hrx⟩ := hl.row_last hlast
  rw [hjk] at hr
  have hother : ∀ k', k' ≠ k → World.row e.post k' = World.row e.pre k' :=
    fun k' hne => hl.row_other (fun i hi he => hne (he.symm.trans (hk i hi)))
  have hledger : World.ledger e.post = rows ++ World.ledger e.pre := hl.ledger
  refine ⟨⟨?_, fun k' => ?_⟩, fun row hrow hc => ?_, fun k' r' hr' hx => ?_,
    fun f hfm k' x hx => ?_, ht.owned_step hp⟩
  · rw [hl.trail]
    exact Store.trail_wrote _ puts rows k hk hf ht.legal
  · rw [hledger, chargesOf_append]
    by_cases hk' : k' = k
    · subst hk'
      rw [hcount, hr, paidBy, hrs]
    · rw [hother k' hk', chargesOf_none (fun r hr hc he => hk' (he.symm.trans (hnamed r hr hc).1)),
        Nat.zero_add]
      exact ht.counts k'
  · rw [hledger] at hrow
    rcases List.mem_append.mp hrow with hrow | hrow
    · obtain ⟨hid, hex⟩ := hnamed row hrow hc
      exact ⟨r, by rw [hid]; exact hr, hrx.trans hex.symm⟩
    · by_cases hid : row.paymentIntentId = k
      · rcases hsame with ⟨r', hr', hx'⟩ | ⟨hz, -⟩
        · obtain ⟨r'', hr'', hx''⟩ := ht.named row hrow hc
          rw [hid, hr'] at hr''
          cases hr''
          exact ⟨r, by rw [hid]; exact hr, hrx.trans (hx'.symm.trans hx'')⟩
        · exact absurd hid (chargesOf_zero hz row hrow hc)
      · rw [hother _ hid]
        exact ht.named row hrow hc
  · by_cases hk' : k' = k
    · subst hk'
      rw [hr] at hr'
      cases hr'
      rcases hsame with ⟨r', hr', hx'⟩ | ⟨-, -, hnew⟩
      · rw [hrx, ← hx']
        exact ht.bought_old hr' (by rw [hx', ← hrx]; exact hx)
      · rcases hnew with hblank | hb
        · exact absurd (hrx.trans hblank) hx
        · exact ⟨e, List.mem_cons_self .., by rw [hrx]; exact hb⟩
    · rw [hother k' hk'] at hr'
      exact ht.bought_old hr' hx
  · rcases EventLoop.mem_waiting hfm with hold | hnew
    · by_cases hk' : k' = k
      · subst hk'
        rcases hsame with ⟨r', hr', hx'⟩ | ⟨-, hfree, -⟩
        · obtain ⟨r'', hr'', hx''⟩ := ht.held f hold k' x hx
          rw [hr'] at hr''
          cases hr''
          exact ⟨r, hr, hrx.trans (hx'.symm.trans hx'')⟩
        · exact absurd hx (hfree f hold x)
      · rw [hother k' hk']
        exact ht.held f hold k' x hx
    · exact held_new hnew hx

/-- With a charge that is booked, or was booked before, an intent has one. -/
theorem confirmed (ht : Traced h e.pre) {k x : String} {r : PaymentIntent F}
    (hr : World.row e.pre k = some r) (hx : r.executionId = x) (hne : x ≠ "") {row : Row}
    (hb : e.pre.shared.store.Booked row rows) (hid : row.paymentIntentId = k)
    (hex : row.executionId = x) : chargesOf k rows + chargesOf k (World.ledger e.pre) = 1 := by
  rcases hb.once with ⟨rfl, hfree⟩ | ⟨rfl, hcharged⟩
  · have hone : chargesOf k [row] = 1 := by simp [chargesOf, hb.charged, hid]
    have hnone : chargesOf k (World.ledger e.pre) = 0 := by
      apply chargesOf_none
      intro row' hrow' hc' hid'
      obtain ⟨r', hr', hx'⟩ := ht.named row' hrow' hc'
      rw [hid', hr] at hr'
      cases hr'
      have hany : e.pre.shared.store.charged row.executionId = true :=
        List.any_eq_true.mpr ⟨row', hrow', by simp [hc', ← hx', hx, hex]⟩
      rw [hfree] at hany
      cases hany
    rw [hone, hnone]
  · obtain ⟨row', hrow', hp⟩ := List.any_eq_true.mp hcharged
    simp only [Bool.and_eq_true, decide_eq_true_eq] at hp
    obtain ⟨r', hr', hx'⟩ := ht.named row' hrow' hp.1
    have hx'' : r'.executionId = x := by rw [hx', hp.2, hex]
    obtain ⟨n, hn, hbn⟩ := ht.bought k r hr (by rw [hx]; exact hne)
    obtain ⟨m, hm, hbm⟩ := ht.bought _ r' hr' (by rw [hx'']; exact hne)
    rw [hx] at hbn
    rw [hx''] at hbm
    have hk := ht.owned n hn m hm x _ _ hbn hbm
    have hpos : chargesOf k (World.ledger e.pre) ≠ 0 :=
      fun hz => chargesOf_zero hz row' hrow' hp.1 hk.symm
    have hle : chargesOf k (World.ledger e.pre) ≤ 1 := by
      rw [ht.counts k, hr, paidBy]
      split <;> omega
    have hzero : chargesOf k ([] : List Row) = 0 := rfl
    omega

/-- The row of an intent that is not claimed yet has no charge, and no task
holds it. -/
theorem unclaimed (ht : Traced h e.pre) (ho : Once h e.pre) {k : String}
    (hearly : ∀ r, World.row e.pre k = some r → r.state.past = false) :
    chargesOf k (World.ledger e.pre) = 0 ∧
      ∀ f ∈ e.pre.waiting, ∀ x, Frame.execution f ≠ some (k, x) := by
  constructor
  · rw [ht.counts k]
    cases hr : World.row e.pre k with
    | none => rfl
    | some r =>
      have hp := hearly r hr
      simp only [paidBy]
      cases hs : r.state <;> rw [hs] at hp <;> first | rfl | cases hp
  · intro f hf x hx
    obtain ⟨r, hr, hp⟩ := ho.claimed f hf k (execution_claimed hx)
    rw [hearly r hr] at hp
    cases hp

theorem quiet_count {k : String} (hq : Store.Quiet k rows) (k' : String) : chargesOf k' rows = 0 :=
  chargesOf_none (fun r hr hc => absurd hc (hq.no_charge r hr))

theorem purchase_follows {s : Store F} {vorgang pruefsumme : String} {identity : ExecutionIdentity}
    {now : Time} {stored approved : PaymentIntent F} {quote : PaymentQuote}
    (ha : s.Approves vorgang pruefsumme identity now stored approved quote puts)
    {ts : List PaymentState} (hts : Follows (some .approved) ts) :
    Follows (some stored.state) (puts.map PaymentIntent.state ++ ts) := by
  rcases ha.written with ⟨hs, rfl⟩ | ⟨hs, rfl⟩
  · rw [hs]
    exact hts
  · rw [hs, List.map_singleton, ha.state]
    exact ⟨.of rfl, hts⟩

/-- A purchase, whatever it writes. -/
theorem purchased (ht : Traced h e.pre) (ho : Once h e.pre) (hp : Permits h e.call)
    {vorgang pruefsumme : String} {identity : ExecutionIdentity} {access : Access}
    {stored approved : PaymentIntent F} {quote : PaymentQuote} {puts' : List (PaymentIntent F)}
    {next : Option (Frame F)} {s : Store F} {booked : List Row}
    (hcall : e.call.turn = .start (Call.purchase vorgang pruefsumme identity access))
    (hl : Leaves e (puts ++ puts') rows)
    (ha : e.pre.shared.store.Approves vorgang pruefsumme identity e.call.now stored approved quote
      puts)
    (hch : s.Charges identity e.call.now approved quote next puts' booked)
    (hq : ∀ row ∈ rows, row.event ≠ .charged) : Traced (e :: h) e.post := by
  have hearly : stored.state.past = false := by
    rcases ha.written with ⟨hs, -⟩ | ⟨hs, -⟩ <;> rw [hs] <;> rfl
  have hrow : World.row e.pre approved.paymentIntentId = some stored := ha.found_self
  obtain ⟨hzero, hfree⟩ := ht.unclaimed ho (fun r hr => by
    rw [hrow] at hr
    cases hr
    exact hearly)
  have hbuys : buys e.call = some (identity.executionId, approved.paymentIntentId) := by
    simp only [buys, hcall, ha.about.1, Store.intent_id ha.found]
  have hput : ∀ (j : PaymentIntent F) (ts : List PaymentState),
      (puts ++ puts').getLast? = some j →
      puts'.map PaymentIntent.state = ts → Follows (some .approved) ts → j.state.paid = false →
      (j.executionId = stored.executionId ∨ j.executionId = identity.executionId) →
      Traced (e :: h) e.post := by
    intro j ts hlast hts hf hunpaid hx
    refine ht.put hp hl hlast (k := approved.paymentIntentId) (fun i hi => ?_) ?_ ?_
      (fun row hr hc => absurd hc (hq row hr)) ?_
    · rcases List.mem_append.mp hi with hi | hi
      · exact ha.about.2 i hi
      · exact hch.about i hi
    · rw [hrow, List.map_append, hts]
      exact purchase_follows ha hf
    · rw [chargesOf_none (fun row hr hc => absurd hc (hq row hr)), hzero, hunpaid]
      rfl
    · rcases hx with hx | hx
      · exact Or.inl ⟨stored, hrow, hx.symm⟩
      · exact Or.inr ⟨hzero, hfree, Or.inr (by rw [hx]; exact hbuys)⟩
  have hsame := ha.same
  cases hch with
  | refused =>
    rcases ha.written with ⟨-, rfl⟩ | ⟨-, rfl⟩
    · exact ht.keep hp hl hq
    · exact hput approved [] rfl rfl trivial (by rw [ha.state]; rfl) (Or.inl (by rw [hsame]))
  | denied row _ =>
    exact hput _ _ List.getLast?_concat rfl ⟨.of rfl, trivial⟩ rfl (Or.inl (by rw [hsame]))
  | stuck c hc =>
    exact hput _ [.executing] List.getLast?_concat (by simp [c.executing]) ⟨.of rfl, trivial⟩
      (by rw [c.executing]; rfl) (Or.inr (c.claimed.trans (by rw [hc.sameIdentity])))
  | sent c row hc _ =>
    exact hput _ [.executing] List.getLast?_concat (by simp [c.executing]) ⟨.of rfl, trivial⟩
      (by rw [c.executing]; rfl) (Or.inr (c.claimed.trans (by rw [hc.sameIdentity])))
  | withheld c row denial hc _ _ =>
    exact hput _ [.executing, .failed] List.getLast?_append (by simp [c.executing])
      ⟨.of rfl, .of rfl, trivial⟩ rfl (Or.inr (c.claimed.trans (by rw [hc.sameIdentity])))

/-- A task that held the row and is resumed to write: one intent, in the state
of the verdict. -/
theorem written (ht : Traced h e.pre) (hp : Permits h e.call) {i : PaymentIntent F}
    (hl : Leaves e [i] rows) {r : PaymentIntent F}
    (hr : World.row e.pre i.paymentIntentId = some r) (hx : r.executionId = i.executionId)
    (hlegal : Legal (some r.state) i.state)
    (hcount : chargesOf i.paymentIntentId rows + chargesOf i.paymentIntentId (World.ledger e.pre) =
      if i.state.paid then 1 else 0)
    (hnamed : ∀ row ∈ rows, row.event = .charged →
      row.paymentIntentId = i.paymentIntentId ∧ row.executionId = i.executionId) :
    Traced (e :: h) e.post := by
  refine ht.put hp hl rfl (fun j hj => ?_) ?_ hcount hnamed (Or.inl ⟨r, hr, hx⟩)
  · rw [List.mem_singleton.mp hj]
  · rw [hr]
    exact ⟨hlegal, trivial⟩

/-- What a row says of its charges is what its state says. -/
theorem count_of (ht : Traced h e.pre) {k : String} {r : PaymentIntent F}
    (hr : World.row e.pre k = some r) :
    chargesOf k (World.ledger e.pre) = if r.state.paid then 1 else 0 := by
  rw [ht.counts k, hr, paidBy]

theorem booked_named {s : Store F} {row : Row} {booked quiet : List Row} {k : String}
    (hb : s.Booked row booked) (hq : Store.Quiet k quiet) {n : Row}
    (hn : n ∈ quiet ++ booked) (hc : n.event = .charged) : n = row := by
  rcases List.mem_append.mp hn with hn | hn
  · exact absurd hc (hq.no_charge n hn)
  · rcases hb.once with ⟨rfl, -⟩ | ⟨rfl, -⟩
    · exact List.mem_singleton.mp hn
    · cases hn

theorem settled_step (ht : Traced h e.pre) (hp : Permits h e.call) (hcur : Current e) {n : Nat}
    {a : Answer} {c : Charging F} (hcall : e.call.turn = .resume n a)
    (hf : e.pre.waiting[n]? = some (Frame.charging c)) (hl : Leaves e puts rows)
    (hs : e.pre.shared.store.Settles c a e.call.now puts rows) : Traced (e :: h) e.post := by
  obtain ⟨r, hr, hx⟩ := ht.held _ (List.mem_of_getElem? hf) _ _ rfl
  have hx : r.executionId = c.running.executionId := hx.trans c.claimed.symm
  have hgate : ∀ v, e.pre.shared.store.chargeVerdict c a = some v →
      r.state = .executing ∨ r.state = v := by
    intro v hv
    obtain ⟨r', hr', hg⟩ := hcur n a _ v hcall hf hv
    rw [show World.row e.pre c.running.paymentIntentId = some r' from hr'] at hr
    cases hr
    simpa [Frame.gate] using hg
  cases hs with
  | nothing _ => exact ht.keep hp hl (fun r hr => by cases hr)
  | charged p row rows ha hv hrow hb =>
    have hcount := ht.confirmed hr hx (by rw [c.claimed]; exact Store.Charging.identified c) hb
      hrow.intent (hrow.execution.trans c.claimed.symm)
    refine ht.written hp hl hr hx ?_ hcount (fun m hm hc => ?_)
    · rcases hgate _ hv with hg | hg <;> rw [hg]
      · exact .of rfl
      · exact .same _
    · rw [booked_named hb (Store.quiet_nil c.running.paymentIntentId) hm hc]
      exact ⟨hrow.intent, hrow.execution.trans c.claimed.symm⟩
  | other target rows hv ht' hq =>
    have hunpaid : target.paid = false ∧ PaymentState.canTransition .executing target = true := by
      rcases ht' with rfl | rfl | rfl <;> exact ⟨rfl, rfl⟩
    refine ht.written hp hl hr hx ?_ ?_ (fun m hm hc => absurd hc (hq.no_charge m hm))
    · rcases hgate _ hv with hg | hg <;> rw [hg]
      · exact .of hunpaid.2
      · exact .same _
    · rw [quiet_count hq, ht.count_of hr]
      simp only [hunpaid.1]
      rcases hgate _ hv with hg | hg <;> rw [hg]
      · rfl
      · rw [hunpaid.1]
        rfl

theorem resolved_step (ht : Traced h e.pre) (hp : Permits h e.call) (hcur : Current e) {n : Nat}
    {a : Answer} {l : LookingUp F} (hcall : e.call.turn = .resume n a)
    (hf : e.pre.waiting[n]? = some (Frame.lookingUp l)) (hl : Leaves e puts rows)
    (hs : e.pre.shared.store.Resolves l a e.call.now puts rows) : Traced (e :: h) e.post := by
  obtain ⟨r, hr, hx⟩ := ht.held _ (List.mem_of_getElem? hf) _ _ rfl
  have hgate : ∀ v, Store.lookupVerdict F a = some v → r.state.unresolved = true ∨ r.state = v := by
    intro v hv
    obtain ⟨r', hr', hg⟩ := hcur n a _ v hcall hf hv
    rw [show World.row e.pre l.intent.paymentIntentId = some r' from hr'] at hr
    cases hr
    exact hg
  cases hs with
  | nothing _ => exact ht.keep hp hl (fun r hr => by cases hr)
  | charged p row rows quiet ha hv hrow hb hq =>
    have hcount := ht.confirmed hr hx l.identified hb hrow.intent hrow.execution
    refine ht.written hp hl hr hx ?_ ?_ (fun m hm hc => ?_)
    · rcases hgate _ hv with hg | hg
      · exact .of (PaymentState.unresolved_succeeds hg)
      · rw [hg]
        exact .same _
    · rw [chargesOf_append, quiet_count hq, Nat.zero_add]
      exact hcount
    · rw [booked_named hb hq hm hc]
      exact ⟨hrow.intent, hrow.execution⟩
  | failed rows hv hq =>
    refine ht.written hp hl hr hx ?_ ?_ (fun m hm hc => absurd hc (hq.no_charge m hm))
    · rcases hgate _ hv with hg | hg
      · exact .of (PaymentState.unresolved_fails hg)
      · rw [hg]
        exact .same _
    · rw [quiet_count hq, ht.count_of hr]
      rcases hgate _ hv with hg | hg
      · cases hstate : r.state <;> rw [hstate] at hg <;> first | rfl | cases hg
      · rw [hg]
        rfl

theorem repaid_step (ht : Traced h e.pre) (hp : Permits h e.call) (hcur : Current e) {n : Nat}
    {p : ProviderRefund} {g : Refunding F} (hcall : e.call.turn = .resume n (Answer.refunded p))
    (hf : e.pre.waiting[n]? = some (Frame.refunding g)) (hl : Leaves e puts rows)
    (hs : e.pre.shared.store.Repays g p e.call.now puts rows) : Traced (e :: h) e.post := by
  obtain ⟨r, hr, hx⟩ := ht.held _ (List.mem_of_getElem? hf) _ _ rfl
  have hpaid : (Store.refundState g p.amountMinor).paid = true := by
    unfold Store.refundState
    split <;> rfl
  have hput : e.pre.shared.store.refundVerdict g (.refunded p) =
        some (Store.refundState g p.amountMinor) →
      Legal (some r.state) (Store.refundState g p.amountMinor) ∧ r.state.paid = true := by
    intro hv
    obtain ⟨r', hr', hg⟩ := hcur n _ _ _ hcall hf hv
    rw [show World.row e.pre g.intent.paymentIntentId = some r' from hr'] at hr
    cases hr
    rcases hg with hg | hg
    · have hg : r.state.settled = true := hg
      refine ⟨.of ?_, ?_⟩
      · unfold Store.refundState
        split
        · exact (PaymentState.settled_refunds hg).2
        · exact (PaymentState.settled_refunds hg).1
      · cases hstate : r.state <;> rw [hstate] at hg <;> first | rfl | cases hg
    · rw [hg]
      exact ⟨.same _, hpaid⟩
  have hwrite : e.pre.shared.store.refundVerdict g (.refunded p) =
        some (Store.refundState g p.amountMinor) → (∀ row ∈ rows, row.event ≠ .charged) →
      puts = [{ g.intent with state := Store.refundState g p.amountMinor }] →
        Traced (e :: h) e.post := by
    rintro hv hq rfl
    obtain ⟨hlegal, hone⟩ := hput hv
    refine ht.written hp hl hr hx hlegal ?_ (fun m hm hc => absurd hc (hq m hm))
    rw [chargesOf_none (fun m hm hc => absurd hc (hq m hm)), ht.count_of hr]
    simp only [hone, hpaid]
    rfl
  cases hs with
  | nothing _ => exact ht.keep hp hl (fun r hr => by cases hr)
  | unwritten hv _ => exact hwrite hv (fun r hr => by cases hr) rfl
  | refunded row hv _ he _ _ _ =>
    refine hwrite hv (fun m hm => ?_) rfl
    rw [List.mem_singleton.mp hm, he]
    exact fun h => by cases h

theorem prepared_step (ht : Traced h e.pre) (ho : Once h e.pre) (hp : Permits h e.call)
    {p : Prepare} {access : Access} {draft : PaymentIntent F} {row : Row}
    (hcall : e.call.turn = .start (Call.prepare p access)) (hl : Leaves e [draft] [row])
    (hd : e.pre.shared.store.draft? p e.call.now = some draft)
    (hq : Store.Quiet draft.paymentIntentId [row]) : Traced (e :: h) e.post := by
  obtain ⟨hs, hid, -, hx⟩ := Store.draft_fresh hd
  have hdraws : draws e.call = some draft.paymentIntentId := by simp only [draws, hcall, hid]
  have hnone : World.row e.pre draft.paymentIntentId = none := by
    cases hr : World.row e.pre draft.paymentIntentId with
    | none => rfl
    | some r => exact absurd hdraws (ho.row_drawn hp.fresh hr)
  obtain ⟨hzero, hfree⟩ := ht.unclaimed ho (k := draft.paymentIntentId)
    (fun r hr => by rw [hnone] at hr; cases hr)
  refine ht.put hp hl rfl (k := draft.paymentIntentId) (fun i hi => ?_) ?_ ?_
    (fun m hm hc => absurd hc (hq.no_charge m hm)) (Or.inr ⟨hzero, hfree, Or.inl hx⟩)
  · rw [List.mem_singleton.mp hi]
  · rw [hnone]
    exact ⟨.first _, trivial⟩
  · change _ = if draft.state.paid = true then 1 else 0
    rw [quiet_count hq, hzero, hs]
    rfl

theorem presented_step (ht : Traced h e.pre) (ho : Once h e.pre) (hp : Permits h e.call)
    (hcur : Current e) {n : Nat} {q : Quoting F} {p : ProviderQuote} {quote : PaymentQuote}
    {target : PaymentState} {row : Row} (hcall : e.call.turn = .resume n (Answer.quoted p))
    (hf : e.pre.waiting[n]? = some (Frame.quoting q))
    (hm : PaymentQuote.make? q.draft.currency p e.call.now = some quote)
    (ht' : target = .cancelled ∨ target = .readyForApproval)
    (hq : Store.Quiet q.draft.paymentIntentId [row])
    (hl : Leaves e [q.draft.withQuote quote (by rw [q.isDraft]; rfl),
      { q.draft.withQuote quote (by rw [q.isDraft]; rfl) with state := target }] [row]) :
    Traced (e :: h) e.post := by
  obtain ⟨r, hr, hg⟩ := hcur n _ _ .quoted hcall hf (by simp only [Frame.verdict, hm, Option.map_some])
  have hr : World.row e.pre q.draft.paymentIntentId = some r := hr
  have hstate : Legal (some r.state) .quoted ∧ r.state.past = false := by
    rcases hg with hg | hg
    · have hg : r.state = .draft := by simpa [Frame.gate] using hg
      rw [hg]
      exact ⟨.of rfl, rfl⟩
    · rw [hg]
      exact ⟨.same _, rfl⟩
  have htarget : PaymentState.canTransition .quoted target = true ∧ target.paid = false := by
    rcases ht' with rfl | rfl <;> exact ⟨rfl, rfl⟩
  obtain ⟨hzero, hfree⟩ := ht.unclaimed ho (k := q.draft.paymentIntentId) (fun r' hr' => by
    rw [hr] at hr'
    cases hr'
    exact hstate.2)
  refine ht.put hp hl rfl (k := q.draft.paymentIntentId) (fun i hi => ?_) ?_ ?_
    (fun m hm hc => absurd hc (hq.no_charge m hm)) (Or.inr ⟨hzero, hfree, Or.inl q.unclaimed⟩)
  · rcases List.mem_cons.mp hi with rfl | hi
    · rfl
    · rw [List.mem_singleton.mp hi]
      rfl
  · rw [hr]
    exact ⟨hstate.1, .of htarget.1, trivial⟩
  · change _ = if target.paid = true then 1 else 0
    rw [quiet_count hq, hzero, htarget.2]
    rfl

theorem withdrawn_step (ht : Traced h e.pre) (hp : Permits h e.call) {i : PaymentIntent F}
    {row : Row} (hl : Leaves e [{ i with state := .cancelled }] [row])
    (hr : World.row e.pre i.paymentIntentId = some i) (hc : i.state.cancellable = true)
    (hq : Store.Quiet i.paymentIntentId [row]) : Traced (e :: h) e.post := by
  refine ht.written hp hl hr rfl (.of (PaymentState.cancellable_cancels hc)) ?_
    (fun m hm he => absurd he (hq.no_charge m hm))
  rw [quiet_count hq, ht.count_of hr]
  cases hs : i.state <;> rw [hs] at hc <;> first | rfl | cases hc

theorem step (ht : Traced h e.pre) (ho : Once h e.pre) (hp : Permits h e.call) (hcur : Current e) :
    Traced (e :: h) e.post := by
  obtain ⟨puts, rows, hl⟩ := leaves e
  have hquiet : ∀ r ∈ ([] : List Row), r.event ≠ .charged := fun r hr => by cases hr
  cases hl.deed with
  | nothing _ => exact ht.keep hp hl hquiet
  | looking l _ _ _ _ => exact ht.keep hp hl hquiet
  | asked vorgang amountMinor identity access r _ _ _ _ => exact ht.keep hp hl hquiet
  | cancelling c _ _ => exact ht.keep hp hl hquiet
  | orderCancelled c row _ hq => exact ht.keep hp hl hq.no_charge
  | prepared p access draft row hc _ hd hq _ => exact ht.prepared_step ho hp hc hl hd hq
  | presented i q p quote target row hc hf _ hm ht' hq =>
    exact ht.presented_step ho hp hcur hc hf hm ht' hq hl
  | withdrawn vorgang i row _ _ hi hc hq => exact ht.withdrawn_step hp hl hi hc hq
  | bought vorgang pruefsumme identity access stored approved quote puts puts' rows rows' hc _ ha hq
      _ _ hch =>
    refine ht.purchased ho hp hc hl ha hch (fun m hm => ?_)
    rcases List.mem_append.mp hm with hm | hm
    · exact (hch.unbooked m hm).1
    · exact hq.no_charge m hm
  | settled i a c puts rows hc hf _ hs => exact ht.settled_step hp hcur hc hf hl hs
  | resolved i a l puts rows hc hf _ hs => exact ht.resolved_step hp hcur hc hf hl hs
  | repaid i p r puts rows hc hf _ hs => exact ht.repaid_step hp hcur hc hf hl hs

theorem reach {w : World F} (hrun : (payments F).machine.Run Permits h w)
    (hcur : ∀ n ∈ h, Current n) : Traced h w := by
  induction hrun with
  | start =>
    exact
      { legal := fun _ hm => by cases hm
        counts := fun _ => rfl
        named := fun _ hr => by cases hr
        bought := fun _ _ hr => by cases hr
        held := fun _ hf => by cases hf
        owned := fun _ hn => by cases hn }
  | step hr hc ih =>
    have ht := ih (fun n hn => hcur n (List.mem_cons_of_mem _ hn))
    have ho := Once.reach (hr.mono (fun h c hp => hp.fresh))
    exact Traced.step (e := ⟨_, _⟩) ht ho hc (hcur _ (List.mem_cons_self ..))

end Traced

/-- In a run whose tasks find the rows as their checks had found them, every row
goes the way of the map, an intent that failed or was cancelled has no charge,
and one that was paid has one. -/
theorem state_map_holds {h : List (Event F)} {w : World F}
    (hrun : (payments F).machine.Run Permits h w) (hcur : ∀ e ∈ h, Current e) : Charted w :=
  (Traced.reach hrun hcur).toCharted

/-- A row in a terminal state keeps it. -/
theorem Charted.terminal {w : World F} (hc : Charted w) {m : Move} (hm : m ∈ w.shared.store.trail)
    {s : PaymentState} (hs : m.before = some s) (ht : s.terminal = true) : m.after = s := by
  rcases hc.legal m hm s hs with he | hcan
  · exact he.symm
  · rw [PaymentState.terminal_stays ht] at hcan
    cases hcan

/-! ### One task after the other -/

theorem run_of_permitted (calls : List (Step F)) (hn : (calls.filterMap draws).Nodup)
    (ho : ∀ b ∈ calls.filterMap buys, ∀ b' ∈ calls.filterMap buys, b.1 = b'.1 → b.2 = b'.2) :
    (payments F).machine.Run Permits
      ((payments F).machine.history [] (payments F).machine.init calls)
      ((payments F).machine.after (payments F).machine.init calls) := by
  refine Machine.Run.history_of .start (fun before c later hcalls => ⟨?_, ?_⟩)
  · intro k hk e he hd
    rcases Machine.mem_history he with he | he
    · cases he
    · exact fresh_of_nodup (hcalls ▸ hn) hk (List.mem_filterMap.mpr ⟨_, he, hd⟩)
  · intro x k hb e he k' hb'
    rcases Machine.mem_history he with he | he
    · cases he
    · have hold : (x, k') ∈ calls.filterMap buys :=
        List.mem_filterMap.mpr ⟨_, by rw [hcalls]; exact List.mem_append_left _ he, hb'⟩
      have hnew : (x, k) ∈ calls.filterMap buys :=
        List.mem_filterMap.mpr ⟨c, by rw [hcalls]; simp, hb⟩
      exact ho _ hold _ hnew rfl

/-- A task that has just begun to wait finds its row as it left it. -/
theorem gate_open {e : Event F} {f : Frame F} (h : EventLoop.Event.awaits e = some f)
    (hf : ∀ c, f ≠ .cancelling c) :
    ∃ r, World.row e.post (Frame.intentId f) = some r ∧ Frame.gate f r.state = true := by
  cases (awaited h).1 with
  | quoting q r _ hr hs _ => exact ⟨r, hr, by simp [Frame.gate, hs]⟩
  | charging c stored r _ _ _ hr hs _ => exact ⟨r, hr, by simp [Frame.gate, hs]⟩
  | lookingUp l _ hr _ => exact ⟨_, hr, l.unresolved⟩
  | refunding r hr => exact ⟨_, hr, r.settled⟩
  | cancelling c => exact absurd rfl (hf c)

/-- Tasks, each with the answer that it gets, before the next one starts. -/
def oneByOne (tasks : List (Time × Call × Answer)) : List (Step F) :=
  tasks.flatMap (fun t => [⟨t.1, .start t.2.1⟩, ⟨t.1, .resume 0 t.2.2⟩])

theorem resume_ends (f : Frame F) (a : Answer) (now : Time) (d : Desk F) :
    (d.resume f a now).1 = none := by
  unfold Desk.resume
  split <;> rfl

/-- The world after a task's first segment, when no other waits. -/
def begun (w : World F) (t : Time × Call × Answer) : World F :=
  ((payments F).machine.step ⟨t.1, .start t.2.1⟩ w).2

theorem begun_waiting {w : World F} (hw : w.waiting = []) (t : Time × Call × Answer) :
    (begun w t).waiting = (w.shared.start t.2.1 t.1).1.toList := by
  change w.waiting ++ _ = _
  rw [hw, List.nil_append]

theorem alone_current {w : World F} (hw : w.waiting = []) (t : Time × Call × Answer) :
    Current ⟨begun w t, ⟨t.1, .resume 0 t.2.2⟩⟩ := by
  intro i a f v hcall hf hv
  cases hcall
  have hf : (begun w t).waiting[0]? = some f := hf
  rw [begun_waiting hw] at hf
  cases hs : (w.shared.start t.2.1 t.1).1 with
  | none =>
    rw [hs] at hf
    cases hf
  | some g =>
    rw [hs] at hf
    cases hf
    obtain ⟨r, hr, hg⟩ := gate_open (e := ⟨w, ⟨t.1, .start t.2.1⟩⟩) hs (fun c hc => by
      rw [hc] at hv
      cases hv)
    exact ⟨r, hr, Or.inl hg⟩

theorem alone_ends {w : World F} (hw : w.waiting = []) (t : Time × Call × Answer) :
    ((payments F).machine.step ⟨t.1, .resume 0 t.2.2⟩ (begun w t)).2.waiting = [] := by
  have hb := begun_waiting hw t
  change (EventLoop.run _ (begun w t)).2.waiting = []
  rcases EventLoop.run_cases (ℓ := payments F) ⟨t.1, .resume 0 t.2.2⟩ (begun w t) with
    ⟨c, hs, -⟩ | ⟨i, a, f, before, behind, hs, hf, hsplit, hr⟩ | ⟨i, a, hs, hf, hr⟩
  · cases hs
  · rw [hr]
    cases hnext : (w.shared.start t.2.1 t.1).1 with
    | none =>
      rw [hb, hnext] at hf
      cases hf
    | some g =>
      rw [hb, hnext] at hsplit
      have hlen := congrArg List.length hsplit
      simp only [Option.toList_some, List.length_cons, List.length_nil, List.length_append] at hlen
      obtain rfl : before = [] := List.length_eq_zero_iff.mp (by omega)
      obtain rfl : behind = [] := List.length_eq_zero_iff.mp (by omega)
      change [] ++ (Desk.resume f a t.1 (begun w t).shared).1.toList ++ [] = []
      rw [resume_ends]
      rfl
  · cases hs
    rw [hr]
    rw [hb] at hf ⊢
    exact List.length_eq_zero_iff.mp (Nat.le_zero.mp (List.getElem?_eq_none_iff.mp hf))

theorem alone_history {h : List (Event F)} {w : World F} (tasks : List (Time × Call × Answer))
    (hw : w.waiting = []) (hc : ∀ e ∈ h, Current e) :
    ∀ e ∈ (payments F).machine.history h w (oneByOne tasks), Current e := by
  induction tasks generalizing h w with
  | nil => exact hc
  | cons t tasks ih =>
    refine ih (alone_ends hw t) (fun e he => ?_)
    rcases List.mem_cons.mp he with rfl | he
    · exact alone_current hw t
    · rcases List.mem_cons.mp he with rfl | he
      · intro i a f v hcall
        cases hcall
      · exact hc e he

/-- Tasks that do not overlap follow the map. -/
theorem one_by_one_current (tasks : List (Time × Call × Answer)) :
    ∀ e ∈ (payments F).machine.history [] (payments F).machine.init (oneByOne tasks), Current e :=
  alone_history tasks rfl (fun e he => by cases he)

def sampleTasks : List (Time × Call × Answer) :=
  [(0, .putInstrument sampleInstrument, .cancelled),
    (0, .prepare (samplePrepare "pi-1") sampleAccess, .quoted sampleQuote),
    (1000, .purchase "pi-1" ((sampleIntent "pi-1").economicDigest sampleStored)
      (sampleIdentity "x-1") sampleAccess, .charged ⟨.succeeded, "ch-1", 6000, "EUR"⟩),
    (2000, .refund "pi-1" 1000 (sampleIdentity "x-1") sampleAccess, .refunded ⟨"re-1", 1000, "EUR"⟩)]

theorem state_map_sample : Charted ((payments sampleFence).machine.after
    (payments sampleFence).machine.init (oneByOne sampleTasks)) :=
  state_map_holds (run_of_permitted _ (by decide) (by decide)) (one_by_one_current sampleTasks)

/-- An intent is cancelled while its amount is asked for. -/
def cancelledWhileQuoted : List (Step sampleFence) :=
  [⟨0, .start (Call.putInstrument sampleInstrument)⟩,
    ⟨0, .start (Call.prepare (samplePrepare "pi-1") sampleAccess)⟩,
    ⟨1000, .start (Call.cancelIntent "pi-1")⟩,
    ⟨2000, .resume 0 (Answer.quoted sampleQuote)⟩]

/-- The amount that arrives then brings a cancelled intent back. -/
theorem cancelled_comes_back : ¬ ∀ h (w : World sampleFence),
    (payments sampleFence).machine.Run Permits h w → Charted w := by
  intro hall
  have hrun := hall _ _ (run_of_permitted cancelledWhileQuoted (by decide) (by decide))
  have htrail : ((payments sampleFence).machine.after (payments sampleFence).machine.init
      cancelledWhileQuoted).shared.store.trail.map (fun m => (m.before, m.after)) =
      [(some .quoted, .readyForApproval), (some .cancelled, .quoted), (some .draft, .cancelled),
        (none, .draft)] := by
    decide
  have hmem : (some PaymentState.cancelled, PaymentState.quoted) ∈
      ((payments sampleFence).machine.after (payments sampleFence).machine.init
        cancelledWhileQuoted).shared.store.trail.map (fun m => (m.before, m.after)) := by
    rw [htrail]
    simp
  obtain ⟨m, hm, he⟩ := List.mem_map.mp hmem
  simp only [Prod.mk.injEq] at he
  rcases hrun.legal m hm _ he.1 with hb | hb
  · rw [he.2] at hb
    cases hb
  · rw [he.2] at hb
    cases hb

end Solvio.Payment
