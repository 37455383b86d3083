import Solvio.ProviderBroker.DayCap

namespace Solvio.ProviderBroker
open Solvio.Lib

def Frame.forwardsFor (name : String) : Frame → Nat
  | .forwarding p _ => if p.principal = name then 1 else 0
  | .reading _ => 0

/-- How many requests of a principal are being forwarded. -/
def forwards (name : String) (w : World) : Nat := (w.waiting.map (Frame.forwardsFor name)).sum

/-- Whether a turn has precharged a request of a principal for a day. -/
def prechargedOn (name : String) (d : Int) (e : Event) : Nat :=
  match EventLoop.Event.resumed e, EventLoop.Event.awaits e with
  | some (Frame.reading r), some (Frame.forwarding _ _) =>
    if r.principal = name ∧ utcDay r.moment = d then 1 else 0
  | _, _ => 0

def precharges (name : String) (d : Int) (h : List Event) : Nat := (h.map (prechargedOn name d)).sum

/-- The two caps of one principal. -/
structure CapsBind (name : String) (h : List Event) (w : World) : Prop where
  inflight : ∀ p, World.books w name = some p → forwards name w ≤ p.caps.maxInflight
  daily : ∀ p d, World.books w name = some p → precharges name d h ≤ p.caps.requestsPerDay

def Principal.admits (p : Principal) (now : Time) : Bool :=
  match (p.admission now).1 with
  | .ok _ => true
  | .error _ => false

/-- What follows the body lets the request through, up to the precharge. -/
def Broker.passes (b : Broker) (r : Reading) : Bool :=
  match b.registry.principal? r.principal with
  | none => false
  | some p => match checkBody r p.caps with
    | .error _ => false
    | .ok (model, body) =>
      match (p.precharge (estimateTokens r.body body model) r.moment).1 with
      | .ok _ => true
      | .error _ => false

/-- The body of a request ends while its principal has no place left: the gate
that let the request in would refuse it now. -/
def crowded (e : Event) : Bool :=
  match e.call.turn with
  | .resume i (Answer.read [] _) =>
    match e.pre.waiting[i]? with
    | some (Frame.reading r) =>
      e.pre.shared.passes r && match World.books e.pre r.principal with
        | some q => !q.admits r.moment
        | none => false
    | _ => false
  | _ => false

/-- A registration that gives a known principal other caps. -/
def recapped (e : Event) : Bool :=
  match e.call.turn with
  | .start (Call.registerPrincipal name _ _ _) =>
    match World.books e.pre name with
    | some q => decide (q.caps ≠ registeredCaps name)
    | none => false
  | _ => false

/-! ### What a turn does to one principal -/

/-- The turn uses the principal's accounting with this reading. -/
def Reads (e : Event) (name : String) (m : Time) : Prop :=
  ∃ i a f, e.call.turn = .resume i a ∧ e.pre.waiting[i]? = some f ∧
    touches e.pre.shared f a = some (name, m)

theorem Reads.not_stale {e : Event} {name : String} {m : Time} (h : Reads e name m)
    (hn : ¬ Stale e) {q : Principal} (hq : World.books e.pre name = some q) {d : Int}
    (hd : q.day = some d) : d ≤ utcDay m := by
  obtain ⟨i, a, f, hs, hf, ht⟩ := h
  exact ProviderBroker.not_stale hn hs hf ht hq hd

inductive Effect (name : String) (e : Event) : Prop
  | quiet : World.books e.post name = World.books e.pre name →
      forwards name e.post ≤ forwards name e.pre → (∀ d, prechargedOn name d e = 0) →
      Effect name e
  | rolled (q : Principal) (m : Time) : World.books e.pre name = some q →
      World.books e.post name = some (q.rollDay m) → (m = e.call.now ∨ Reads e name m) →
      forwards name e.post ≤ forwards name e.pre → (∀ d, prechargedOn name d e = 0) →
      Effect name e
  | seeded (token : String) (requests tokens : Nat) (q : Principal) :
      e.call.turn = .start (Call.registerPrincipal name token requests tokens) →
      (∀ p, World.books e.pre name = some p → q = p) →
      World.books e.post name = some ({ q with caps := registeredCaps name }.seedDay requests
        tokens e.call.now) →
      forwards name e.post ≤ forwards name e.pre → (∀ d, prechargedOn name d e = 0) →
      Effect name e
  | fresh : World.books e.pre name = none →
      World.books e.post name = some { name, caps := defaultCaps name } →
      forwards name e.post ≤ forwards name e.pre → (∀ d, prechargedOn name d e = 0) →
      Effect name e
  | precharged (r : Reading) (q : Principal) (p : Posted) (phase : Phase) : r.principal = name →
      EventLoop.Event.resumed e = some (.reading r) →
      EventLoop.Event.awaits e = some (.forwarding p phase) →
      World.books e.pre name = some q → Reads e name r.moment →
      (q.precharge p.estimate r.moment).1 = .ok () →
      World.books e.post name =
        some { (q.precharge p.estimate r.moment).2 with inflight := q.inflight + 1 } →
      forwards name e.post = forwards name e.pre + 1 →
      (∀ d, prechargedOn name d e = if utcDay r.moment = d then 1 else 0) → Effect name e
  | settled (p : Posted) (aborted : Bool) : p.principal = name →
      ((p.reported aborted).isSome → Reads e name p.moment) →
      World.books e.post name = (World.books e.pre name).map (·.settled p (p.reported aborted)) →
      forwards name e.post + 1 = forwards name e.pre → (∀ d, prechargedOn name d e = 0) →
      Effect name e

theorem forwards_step (name : String) (e : Event) :
    forwards name e.post + ((EventLoop.Event.resumed e).map (Frame.forwardsFor name)).getD 0 =
      forwards name e.pre + ((EventLoop.Event.awaits e).map (Frame.forwardsFor name)).getD 0 :=
  EventLoop.sum_waiting (Frame.forwardsFor name) e

theorem Frame.Continues.forwards_eq {f g : Frame} (h : f.Continues g) (name : String) :
    g.forwardsFor name = f.forwardsFor name := by
  cases h <;> rfl

theorem prechargedOn_none {e : Event} (h : EventLoop.Event.awaits e = none) (name : String)
    (d : Int) : prechargedOn name d e = 0 := by
  simp only [prechargedOn, h]
  split <;> simp_all

theorem effect (name : String) (e : Event) : Effect name e := by
  have hsum := forwards_step name e
  rcases turned e with ⟨c, hs, hres, hopen, haw⟩ | ⟨i, a, f, hs, hf, hres, hb⟩ |
    ⟨i, a, hs, hf, hres, haw, hw⟩
  · have hnew : ((EventLoop.Event.awaits e).map (Frame.forwardsFor name)).getD 0 = 0 := by
      cases hn : EventLoop.Event.awaits e with
      | none => rfl
      | some g =>
        obtain ⟨r, rfl, -⟩ := haw g hn
        rfl
    rw [hres, hnew] at hsum
    have hle : forwards name e.post ≤ forwards name e.pre := Nat.le_of_eq hsum
    have hpre : ∀ d, prechargedOn name d e = 0 := by
      intro d
      simp only [prechargedOn, hres]
    have h := hopen name
    generalize ho : World.books e.post name = o at h
    cases h with
    | same _ => exact .quiet ho hle hpre
    | rolled q _ hq => exact .rolled q _ hq ho (Or.inl rfl) hle hpre
    | seeded token requests tokens q hcall hq _ =>
      exact .seeded token requests tokens q (hcall ▸ hs) hq ho hle hpre
    | fresh _ hnone => exact .fresh hnone ho hle hpre
  · have hreads : ∀ m, touches e.pre.shared f a = some (name, m) → Reads e name m :=
      fun m ht => ⟨i, a, f, hs, hf, ht⟩
    generalize ho : World.books e.post = o at hb
    generalize hn : EventLoop.Event.awaits e = next at hb
    rw [hres, hn] at hsum
    have hbooks : World.books e.post name = o name := congrFun ho name
    have hgone : next = none → ∀ d, prechargedOn name d e = 0 :=
      fun h d => prechargedOn_none (hn.trans h) name d
    cases hb with
    | goes g hcont =>
      refine .quiet hbooks ?_ (fun d => ?_)
      · rw [Option.map_some, Option.map_some, Option.getD_some, Option.getD_some,
          hcont.forwards_eq] at hsum
        exact Nat.le_of_eq (Nat.add_right_cancel hsum)
      · simp only [prechargedOn, hres, hn]
        cases hcont <;> rfl
    | rejected r hr => exact .quiet hbooks (Nat.le.intro hsum) (hgone rfl)
    | abandoned p hp _ => exact .quiet hbooks (Nat.le.intro hsum) (hgone rfl)
    | refused r q hr hq ht =>
      by_cases hk : name = r.principal
      · subst hk
        exact .rolled q r.moment hq (hbooks.trans (if_pos rfl)) (Or.inr (hreads _ ht))
          (Nat.le.intro hsum) (hgone rfl)
      · exact .quiet (hbooks.trans (if_neg hk)) (Nat.le.intro hsum) (hgone rfl)
    | precharged r q p phase hr hq ht _ hp _ _ hok =>
      have hon : ∀ d, prechargedOn name d e =
          if r.principal = name ∧ utcDay r.moment = d then 1 else 0 := by
        intro d
        simp only [prechargedOn, hres, hn, hr]
      rw [hr] at hsum
      by_cases hk : name = r.principal
      · subst hk
        refine .precharged r q p phase rfl (hr ▸ hres) hn hq (hreads _ ht) hok
          (hbooks.trans (if_pos rfl)) ?_ (fun d => ?_)
        · simpa [Frame.forwardsFor, hp] using hsum
        · rw [hon]
          simp
      · refine .quiet (hbooks.trans (if_neg hk)) ?_ (fun d => ?_)
        · simp only [Option.map_some, Option.getD_some, Frame.forwardsFor, hp,
            if_neg (Ne.symm hk)] at hsum
          exact Nat.le_of_eq hsum
        · rw [hon, if_neg (fun h => hk h.1.symm)]
    | settled p hr ha ht =>
      by_cases hk : name = p.principal
      · subst hk
        refine .settled p _ rfl (fun h => hreads _ (ht h)) (hbooks.trans (if_pos rfl)) ?_ (hgone rfl)
        simpa [Frame.forwardsFor, hr] using hsum
      · exact .quiet (hbooks.trans (if_neg hk)) (Nat.le.intro hsum) (hgone rfl)
  · exact .quiet (congrFun (congrArg World.books hw) name) (by rw [hw]) (prechargedOn_none haw name)

/-! ### The place that a request takes -/

theorem Principal.admits_iff {p : Principal} {now : Time} (h : p.admits now = true) :
    p.inflight < p.caps.maxInflight ∧ (p.rollDay now).requestsToday < p.caps.requestsPerDay := by
  unfold admits at h
  split at h
  · rename_i hok
    simp only [admission, roll_inflight, roll_caps] at hok
    split_ifs at hok with h1 h2 h3
    exact ⟨Nat.lt_of_not_le h1, Nat.lt_of_not_le h2⟩
  · cases h

theorem Broker.bodyRead_passes {b : Broker} {r : Reading} {credential : Bool} {f : Frame}
    (h : (b.bodyRead r credential).1 = some f) : b.passes r = true := by
  unfold bodyRead at h
  unfold passes
  cases hp : b.registry.principal? r.principal with
  | none =>
    simp only [hp] at h
    cases h
  | some p =>
    simp only [hp] at h ⊢
    cases hc : checkBody r p.caps with
    | error x =>
      simp only [hc] at h
      cases h
    | ok out =>
      simp only [hc] at h ⊢
      split at h
      · cases h
      · rename_i hok
        rw [hok]

/-- A request that is forwarded from here has met the end of its body. -/
theorem forwarded_passes {e : Event} {r : Reading} {p : Posted} {phase : Phase}
    (hres : EventLoop.Event.resumed e = some (Frame.reading r))
    (haw : EventLoop.Event.awaits e = some (Frame.forwarding p phase)) :
    ∃ i credential, e.call.turn = .resume i (Answer.read [] credential) ∧
      e.pre.waiting[i]? = some (Frame.reading r) ∧ e.pre.shared.passes r = true := by
  obtain ⟨w, now, turn⟩ := e
  cases turn with
  | start c => cases hres
  | resume i a =>
    have hf : w.waiting[i]? = some (Frame.reading r) := hres
    have hr : (w.shared.resume (.reading r) a now).1 = some (.forwarding p phase) := by
      have hrun : (EventLoop.run ⟨now, .resume i a⟩ w).1 = some (Frame.forwarding p phase) := haw
      simp only [EventLoop.run, hf] at hrun
      exact hrun
    cases a with
    | read chunk credential =>
      simp only [Broker.resume, Broker.readBody] at hr
      split at hr
      · rename_i hc
        subst hc
        exact ⟨i, credential, rfl, hf, Broker.bodyRead_passes hr⟩
      · split at hr <;> cases hr
    | _ => cases hr

theorem not_crowded {e : Event} (hn : crowded e = false) {r : Reading} {p : Posted} {phase : Phase}
    (hres : EventLoop.Event.resumed e = some (Frame.reading r))
    (haw : EventLoop.Event.awaits e = some (Frame.forwarding p phase)) {q : Principal}
    (hq : World.books e.pre r.principal = some q) : q.admits r.moment = true := by
  obtain ⟨i, credential, hs, hf, hpass⟩ := forwarded_passes hres haw
  simp only [crowded, hs, hf, hq, hpass, Bool.true_and] at hn
  simpa using hn

theorem not_recapped {e : Event} (hn : recapped e = false) {name token : String}
    {requests tokens : Nat}
    (hs : e.call.turn = .start (Call.registerPrincipal name token requests tokens)) {q : Principal}
    (hq : World.books e.pre name = some q) : registeredCaps name = q.caps := by
  simp only [recapped, hs, hq, decide_eq_false_iff_not, ne_eq, not_not] at hn
  exact hn.symm

/-- The requests that are being forwarded, and the places counted for them. -/
structure InFlight (name : String) (w : World) : Prop where
  absent : World.books w name = none → forwards name w = 0
  counted : ∀ p, World.books w name = some p → forwards name w ≤ p.inflight
  capped : ∀ p, World.books w name = some p → forwards name w ≤ p.caps.maxInflight

namespace InFlight

variable {name : String} {w : World}

theorem init : InFlight name broker.machine.init where
  absent _ := rfl
  counted p hp := by cases hp
  capped p hp := by cases hp

/-- What holds when the turn leaves `p` as the principal's books. -/
theorem of_books {p : Principal} (hp : World.books w name = some p)
    (hcount : forwards name w ≤ p.inflight) (hcap : forwards name w ≤ p.caps.maxInflight) :
    InFlight name w where
  absent hn := by rw [hp] at hn; cases hn
  counted q hq := by rw [hp] at hq; cases hq; exact hcount
  capped q hq := by rw [hp] at hq; cases hq; exact hcap

theorem step {e : Event} (hi : InFlight name e.pre) (hcrowd : crowded e = false)
    (hcaps : recapped e = false) : InFlight name e.post := by
  cases effect name e with
  | quiet hbooks hle _ =>
    refine ⟨fun hn => ?_, fun p hp => ?_, fun p hp => ?_⟩
    · exact Nat.le_zero.mp (hi.absent (hbooks ▸ hn) ▸ hle)
    · exact Nat.le_trans hle (hi.counted p (hbooks ▸ hp))
    · exact Nat.le_trans hle (hi.capped p (hbooks ▸ hp))
  | rolled q m hq hbooks _ hle _ =>
    apply of_books hbooks
    · rw [Principal.roll_inflight]
      exact Nat.le_trans hle (hi.counted q hq)
    · rw [Principal.roll_caps]
      exact Nat.le_trans hle (hi.capped q hq)
  | seeded token requests tokens q hs hq hbooks hle _ =>
    cases hp : World.books e.pre name with
    | none =>
      have hzero : forwards name e.post = 0 := Nat.le_zero.mp (hi.absent hp ▸ hle)
      apply of_books hbooks
      · rw [hzero]
        exact Nat.zero_le _
      · rw [hzero]
        exact Nat.zero_le _
    | some p =>
      obtain rfl := hq p hp
      apply of_books hbooks
      · exact Nat.le_trans hle (hi.counted q hp)
      · change _ ≤ (registeredCaps name).maxInflight
        rw [not_recapped hcaps hs hp]
        exact Nat.le_trans hle (hi.capped q hp)
  | fresh hnone hbooks hle _ =>
    have hzero : forwards name e.post = 0 := Nat.le_zero.mp (hi.absent hnone ▸ hle)
    apply of_books hbooks
    · exact Nat.le_of_eq hzero
    · rw [hzero]
      exact Nat.zero_le _
  | precharged r q p phase hname hres haw hq _ hok hbooks hone _ =>
    subst hname
    obtain ⟨hplace, -⟩ := Principal.admits_iff (not_crowded hcrowd hres haw hq)
    obtain ⟨-, hpre⟩ := Principal.precharge_ok hok
    have hcount := hi.counted q hq
    have hkept : (q.precharge p.estimate r.moment).2.caps = q.caps := by
      rw [hpre, Principal.roll_caps]
    apply of_books hbooks
    · rw [hone]
      exact Nat.succ_le_succ hcount
    · change _ ≤ (q.precharge p.estimate r.moment).2.caps.maxInflight
      rw [hone, hkept]
      omega
  | settled p aborted hname _ hbooks hone _ =>
    cases hq : World.books e.pre name with
    | none =>
      have hzero := hi.absent hq
      omega
    | some q =>
      rw [hq] at hbooks
      have hcount := hi.counted q hq
      have hcap := hi.capped q hq
      apply of_books hbooks
      · rw [Principal.settled_inflight]
        omega
      · rw [Principal.settled_caps]
        omega

end InFlight

/-! ### The requests of a day -/

/-- The precharges that a principal's accounting has counted for its day. -/
structure Counted (name : String) (h : List Event) (p : Principal) : Prop where
  ahead : ∀ d, (∀ d', p.day = some d' → d' < d) → precharges name d h = 0
  current : ∀ d, p.day = some d → precharges name d h ≤ p.requestsToday
  capped : ∀ d, precharges name d h ≤ p.caps.requestsPerDay

theorem Counted.roll {name : String} {h : List Event} {p : Principal} (hc : Counted name h p)
    {m : Time} (hm : ∀ d, p.day = some d → d ≤ utcDay m) : Counted name h (p.rollDay m) where
  ahead d hd := by
    have hlt := hd _ (Principal.roll_day p m)
    exact hc.ahead d (fun d' h' => Int.lt_of_le_of_lt (hm d' h') hlt)
  current d hd := by
    rw [Principal.roll_day] at hd
    cases hd
    by_cases hsame : p.day = some (utcDay m)
    · rw [Principal.roll_same hsame]
      exact hc.current _ hsame
    · rw [hc.ahead _ (fun d' h' => ?_)]
      · exact Nat.zero_le _
      · exact Int.lt_iff_le_and_ne.mpr ⟨hm d' h', fun he => hsame (he ▸ h')⟩
  capped d := by
    rw [Principal.roll_caps]
    exact hc.capped d

structure Daily (name : String) (h : List Event) (w : World) : Prop where
  absent : World.books w name = none → ∀ d, precharges name d h = 0
  counted : ∀ p, World.books w name = some p → Counted name h p

namespace Daily

variable {name : String} {h : List Event} {w : World} {s : EventLoop.Step broker}

theorem init : Daily name [] broker.machine.init where
  absent _ _ := rfl
  counted p hp := by cases hp

theorem of_books {p : Principal} (hp : World.books w name = some p) (hc : Counted name h p) :
    Daily name h w where
  absent hn := by rw [hp] at hn; cases hn
  counted q hq := by rw [hp] at hq; cases hq; exact hc

theorem precharges_cons {e : Event} (hnone : ∀ d, prechargedOn name d e = 0) (h : List Event)
    (d : Int) : precharges name d (e :: h) = precharges name d h := by
  simp [precharges, hnone]

theorem counted_cons {e : Event} (hnone : ∀ d, prechargedOn name d e = 0) {p : Principal}
    (hc : Counted name h p) : Counted name (e :: h) p where
  ahead d hd := (precharges_cons hnone h d).trans (hc.ahead d hd)
  current d hd := Nat.le_trans (Nat.le_of_eq (precharges_cons hnone h d)) (hc.current d hd)
  capped d := Nat.le_trans (Nat.le_of_eq (precharges_cons hnone h d)) (hc.capped d)

theorem counted_of_none (hnone : ∀ d, precharges name d h = 0) (p : Principal) :
    Counted name h p where
  ahead d _ := hnone d
  current d _ := hnone d ▸ Nat.zero_le _
  capped d := hnone d ▸ Nat.zero_le _

theorem step (hd : Daily name h w) (hrun : Run h w) (hperm : Permits h s)
    (hstale : ¬ Stale ⟨w, s⟩) (hcrowd : crowded ⟨w, s⟩ = false) (hcaps : recapped ⟨w, s⟩ = false) :
    Daily name (⟨w, s⟩ :: h) (broker.machine.step s w).2 := by
  have hday : ∀ m, m = s.now ∨ Reads ⟨w, s⟩ name m → ∀ q, World.books w name = some q →
      ∀ d, q.day = some d → d ≤ utcDay m := by
    rintro m (rfl | hreads) q hq d hqd
    · exact hrun.dated.days s.now hperm.clock name q d hq hqd
    · exact hreads.not_stale hstale hq hqd
  cases effect name ⟨w, s⟩ with
  | quiet hbooks _ hnone =>
    refine ⟨fun hn d => ?_, fun p hp => ?_⟩
    · rw [precharges_cons hnone]
      exact hd.absent (hbooks.symm.trans hn) d
    · exact counted_cons hnone (hd.counted p (hbooks.symm.trans hp))
  | rolled q m hq hbooks hm _ hnone =>
    exact of_books hbooks (counted_cons hnone ((hd.counted q hq).roll (hday m hm q hq)))
  | seeded token requests tokens q hs hq hbooks _ hnone =>
    apply of_books hbooks
    apply counted_cons hnone
    cases hp : World.books w name with
    | none => exact counted_of_none (hd.absent hp) _
    | some p =>
      obtain rfl := hq p hp
      have hroll := (hd.counted q hp).roll (hday s.now (Or.inl rfl) q hp)
      refine ⟨fun d hlt => ?_, fun d hcur => ?_, fun d => ?_⟩
      · exact hroll.ahead d (by rw [Principal.roll_day]; exact hlt)
      · have htoday : some (utcDay s.now) = some d := hcur
        cases htoday
        by_cases hsame : q.day = some (utcDay s.now)
        · refine Nat.le_trans ((hd.counted q hp).current _ hsame) ?_
          exact (hrun.seeded hperm hs hp).1 hsame
        · refine Nat.le_trans (hroll.current _ (Principal.roll_day q s.now)) ?_
          rw [(Principal.roll_other hsame).1]
          exact Nat.zero_le _
      · change _ ≤ (registeredCaps name).requestsPerDay
        rw [not_recapped hcaps hs hp]
        exact (hd.counted q hp).capped d
  | fresh hnew hbooks _ hnone =>
    exact of_books hbooks (counted_cons hnone (counted_of_none (hd.absent hnew) _))
  | precharged r q p phase hname hres haw hq hreads hok hbooks _ hon =>
    subst hname
    obtain ⟨-, hplace⟩ := Principal.admits_iff (not_crowded hcrowd hres haw hq)
    obtain ⟨-, hpre⟩ := Principal.precharge_ok hok
    have hroll := (hd.counted q hq).roll (hday r.moment (Or.inr hreads) q hq)
    have hcons : ∀ d, precharges r.principal d (⟨w, s⟩ :: h) =
        (if utcDay r.moment = d then 1 else 0) + precharges r.principal d h := by
      intro d
      simp only [precharges, List.map_cons, List.sum_cons, hon]
    rw [hpre] at hbooks
    apply of_books hbooks
    refine ⟨fun d hlt => ?_, fun d hcur => ?_, fun d => ?_⟩
    · have hne := hlt _ (Principal.roll_day q r.moment)
      rw [hcons, if_neg (by omega), hroll.ahead d hlt]
    · have htoday := (Principal.roll_day q r.moment).symm.trans hcur
      cases htoday
      rw [hcons, if_pos rfl, Nat.add_comm]
      exact Nat.succ_le_succ (hroll.current _ (Principal.roll_day q r.moment))
    · change _ ≤ (q.rollDay r.moment).caps.requestsPerDay
      rw [hcons]
      split
      · rename_i htoday
        subst htoday
        have hcur := hroll.current _ (Principal.roll_day q r.moment)
        rw [Principal.roll_caps]
        omega
      · rw [Nat.zero_add]
        exact hroll.capped d
  | settled p aborted hname hreads hbooks _ hnone =>
    cases hq : World.books w name with
    | none =>
      have hpost := hbooks.trans (congrArg (Option.map _) hq)
      exact ⟨fun _ d => (precharges_cons hnone h d).trans (hd.absent hq d),
        fun p hp => by cases hpost.symm.trans hp⟩
    | some q =>
      apply of_books (hbooks.trans (congrArg (Option.map _) hq))
      apply counted_cons hnone
      obtain ⟨hahead, hcur, hcap⟩ := hd.counted q hq
      have hplace : Counted name h { q with inflight := q.inflight - 1 } := ⟨hahead, hcur, hcap⟩
      cases hrep : p.reported aborted with
      | none => exact hplace
      | some n =>
        obtain ⟨ha, hc, hp⟩ := hplace.roll (hday p.moment (Or.inr (hreads (by rw [hrep]; rfl))) q hq)
        exact ⟨ha, hc, hp⟩

end Daily

/-- In a run in which every request still finds its place at the end of its
body, the two caps bind. -/
theorem caps_bind {h : List Event} {w : World} (hrun : Run h w) (hstale : ∀ e ∈ h, ¬ Stale e)
    (hcrowd : ∀ e ∈ h, crowded e = false) (hcaps : ∀ e ∈ h, recapped e = false) (name : String) :
    CapsBind name h w := by
  have hboth : InFlight name w ∧ Daily name h w := by
    refine hrun.induct (fun h w => (∀ e ∈ h, ¬ Stale e ∧ crowded e = false ∧ recapped e = false) →
      InFlight name w ∧ Daily name h w) (fun _ => ⟨.init, .init⟩) ?_
      (fun e he => ⟨hstale e he, hcrowd e he, hcaps e he⟩)
    intro h w s hr hperm ih hall
    obtain ⟨⟨hs, hc, hr'⟩, hall⟩ := List.forall_mem_cons.mp hall
    obtain ⟨hi, hd⟩ := ih hall
    exact ⟨hi.step hc hr', hd.step hr hperm hs hc hr'⟩
  exact ⟨hboth.1.capped, fun p d hp => (hboth.2.counted p hp).capped d⟩

/-! ### Two bodies for one place -/

/-- More requests are forwarded than the caps allow. -/
def overfull (name : String) (w : World) : Bool :=
  match World.books w name with
  | some p => decide (p.caps.maxInflight < forwards name w)
  | none => false

theorem not_bound {name : String} {h : List Event} {w : World} (ho : overfull name w = true) :
    ¬ CapsBind name h w := by
  intro hb
  unfold overfull at ho
  split at ho
  · rename_i p hp
    exact Nat.not_lt.mpr (hb.inflight p hp) (of_decide_eq_true ho)
  · cases ho

def sampleEscalationBody : Bytes := encodeUtf8 "\x7b\"model\":\"gpt-5.4\"\x7d"

/-- Two requests are let in before the body of the first has ended. -/
def sampleRace : List (EventLoop.Step broker) :=
  [⟨0, .start (Call.registerPrincipal "agent-runtime-escalation" "k" 0 0)⟩,
    ⟨0, .start (Call.openLease "agent-runtime-escalation" "task" sampleDay "lease-1")⟩,
    ⟨0, .start (Call.forward sampleRequest)⟩,
    ⟨0, .start (Call.forward sampleRequest)⟩,
    ⟨0, .resume 0 (Answer.read sampleEscalationBody false)⟩,
    ⟨0, .resume 1 (Answer.read sampleEscalationBody false)⟩,
    ⟨0, .resume 0 (Answer.read [] false)⟩,
    ⟨0, .resume 1 (Answer.read [] false)⟩]

theorem sample_race : overfull "agent-runtime-escalation"
    (broker.machine.after broker.machine.init sampleRace) = true := by
  decide +kernel

/-- One place, and two requests that are forwarded. -/
theorem two_bodies_for_one_place :
    ∃ h w, Run h w ∧ ¬ CapsBind "agent-runtime-escalation" h w :=
  ⟨_, _, run_of_calls sampleRace (by decide) (by decide), not_bound sample_race⟩

/-- The same requests, one after the other. -/
def sampleQueue : List (EventLoop.Step broker) :=
  [⟨0, .start (Call.registerPrincipal "agent-runtime-escalation" "k" 0 0)⟩,
    ⟨0, .start (Call.openLease "agent-runtime-escalation" "task" sampleDay "lease-1")⟩,
    ⟨0, .start (Call.forward sampleRequest)⟩,
    ⟨0, .resume 0 (Answer.read sampleEscalationBody false)⟩,
    ⟨0, .resume 0 (Answer.read [] false)⟩,
    ⟨0, .resume 0 Answer.failed⟩,
    ⟨0, .resume 0 Answer.done⟩,
    ⟨0, .start (Call.forward sampleRequest)⟩]

theorem sample_queue : ∀ e ∈ broker.machine.history [] broker.machine.init sampleQueue,
    crowded e = false ∧ recapped e = false := by
  decide +kernel

theorem caps_bind_sample : CapsBind "agent-runtime-escalation"
    (broker.machine.history [] broker.machine.init sampleQueue)
    (broker.machine.after broker.machine.init sampleQueue) := by
  have hrun := run_of_calls sampleQueue (by decide) (by decide)
  refine caps_bind hrun (hrun.never_stale (d := 0) (fun e he => ?_))
    (fun e he => (sample_queue e he).1) (fun e he => (sample_queue e he).2) _
  rcases Machine.mem_history he with he | he
  · cases he
  · have hnow : ∀ s ∈ sampleQueue, s.now = 0 := by decide
    rw [hnow _ he]
    rfl

end Solvio.ProviderBroker
