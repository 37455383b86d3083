import Solvio.ProviderBroker.Runs

namespace Solvio.ProviderBroker
open Solvio.Lib

/-- A turn that uses a principal's accounting with a reading of an earlier day
than the one the accounting has reached. -/
def Stale (e : Event) : Prop :=
  ∃ i a f name moment p d, e.call.turn = .resume i a ∧ e.pre.waiting[i]? = some f ∧
    touches e.pre.shared f a = some (name, moment) ∧ World.books e.pre name = some p ∧
    p.day = some d ∧ utcDay moment < d

/-- The day cap of one principal over a history. -/
structure DayCap (name : String) (h : List Event) : Prop where
  /-- An accounting that has begun on the clock's day is not started again. -/
  kept : ∀ newer e older p, h = newer ++ e :: older → World.books e.post name = some p →
    p.day = some (utcDay e.call.now) →
    ∀ later n between, newer = later ++ n :: between → utcDay n.call.now = utcDay e.call.now →
      ∃ q, World.books n.post name = some q ∧ q.day = p.day ∧
        p.requestsToday ≤ q.requestsToday ∧
        settledCharges name (utcDay e.call.now) (n :: between ++ e :: older) +
          unsettledEstimates name (utcDay e.call.now) n.post ≤ q.tokensToday
  /-- A precharge fits under the cap with everything of its day counted. -/
  capped : ∀ newer e older r p phase q, h = newer ++ e :: older →
    EventLoop.Event.resumed e = some (Frame.reading r) →
    EventLoop.Event.awaits e = some (Frame.forwarding p phase) → r.principal = name →
    World.books e.pre name = some q →
    settledCharges name (utcDay r.moment) older +
      unsettledEstimates name (utcDay r.moment) e.pre + p.estimate ≤ q.caps.tokensPerDay

/-! ### The invariant -/

/-- The accounting of a principal covers what its day has seen, and later days
have seen nothing. -/
structure Covered (name : String) (h : List Event) (w : World) : Prop where
  absent : World.books w name = none → ∀ d, dayTotal name d h w = 0
  ahead : ∀ p d, World.books w name = some p → (∀ d', p.day = some d' → d' < d) →
    dayTotal name d h w = 0
  current : ∀ p d, World.books w name = some p → p.day = some d →
    dayTotal name d h w ≤ p.tokensToday

/-! ### What a turn adds to a day -/

theorem dayTotal_step (name : String) (d : Int) (e : Event) (h : List Event) :
    dayTotal name d (e :: h) e.post +
        ((EventLoop.Event.resumed e).map (Frame.estimateOn name d)).getD 0 =
      dayTotal name d h e.pre + charged name d e +
        ((EventLoop.Event.awaits e).map (Frame.estimateOn name d)).getD 0 := by
  have hsum : (e.post.waiting.map (Frame.estimateOn name d)).sum +
      ((EventLoop.Event.resumed e).map (Frame.estimateOn name d)).getD 0 =
      (e.pre.waiting.map (Frame.estimateOn name d)).sum +
      ((EventLoop.Event.awaits e).map (Frame.estimateOn name d)).getD 0 :=
    EventLoop.sum_waiting (Frame.estimateOn name d) e
  simp only [dayTotal, settledCharges, unsettledEstimates, List.map_cons, List.sum_cons]
  omega

theorem Frame.Continues.estimate_eq {f g : Frame} (h : f.Continues g) (name : String) (d : Int) :
    g.estimateOn name d = f.estimateOn name d := by
  cases h <;> rfl

theorem charged_start {e : Event} {c : Call} {name : String} (hs : e.call.turn = .start c)
    (hc : ¬ c.Registers name) (d : Int) : charged name d e = 0 := by
  simp only [charged, hs]
  cases c with
  | registerPrincipal n token requests tokens =>
    refine if_neg (fun hn => hc ⟨token, requests, tokens, ?_⟩)
    rw [hn.1]
  | _ => rfl

theorem charged_goes {e : Event} {i : Nat} {a : Answer} {f : Frame}
    (hs : e.call.turn = .resume i a) (hf : e.pre.waiting[i]? = some f)
    (h : ∀ p, f ≠ .forwarding p .closing) (name : String) (d : Int) : charged name d e = 0 := by
  simp only [charged, hs, hf]
  cases f with
  | reading r => rfl
  | forwarding p phase =>
    cases phase with
    | closing => exact absurd rfl (h p)
    | _ => rfl

theorem charged_idle {e : Event} {i : Nat} {a : Answer} (hs : e.call.turn = .resume i a)
    (hf : e.pre.waiting[i]? = none) (name : String) (d : Int) : charged name d e = 0 := by
  simp only [charged, hs, hf]

/-! ### The accounting covers its day -/

theorem not_stale {e : Event} {i : Nat} {a : Answer} {f : Frame} {name : String} {m : Time}
    (hn : ¬ Stale e) (hs : e.call.turn = .resume i a) (hf : e.pre.waiting[i]? = some f)
    (ht : touches e.pre.shared f a = some (name, m)) {q : Principal}
    (hq : World.books e.pre name = some q) {d : Int} (hd : q.day = some d) : d ≤ utcDay m :=
  Int.not_lt.mp (fun hlt => hn ⟨i, a, f, name, m, q, d, hs, hf, ht, hq, hd, hlt⟩)

namespace Covered

variable {name : String} {h : List Event} {w : World} {s : EventLoop.Step broker}

theorem init : Covered name [] broker.machine.init where
  absent _ _ := rfl
  ahead p d hp := by cases hp
  current p d hp := by cases hp

/-- Rolling on to a reading that is not an earlier day's keeps the day covered. -/
theorem roll (hc : Covered name h w) {q : Principal} (hq : World.books w name = some q) {m : Time}
    (hm : ∀ d, q.day = some d → d ≤ utcDay m) :
    dayTotal name (utcDay m) h w ≤ (q.rollDay m).tokensToday ∧
      ∀ d, utcDay m < d → dayTotal name d h w = 0 := by
  refine ⟨?_, fun d hd => hc.ahead q d hq (fun d' h' => Int.lt_of_le_of_lt (hm d' h') hd)⟩
  by_cases hsame : q.day = some (utcDay m)
  · rw [Principal.roll_same hsame]
    exact hc.current q _ hq hsame
  · rw [hc.ahead q _ hq (fun d' h' => ?_)]
    · exact Nat.zero_le _
    · exact Int.lt_iff_le_and_ne.mpr ⟨hm d' h', fun he => hsame (he ▸ h')⟩

/-- What is known of the day's total after a turn that has left `p`. -/
theorem of_total {h' : List Event} {w' : World} {p : Principal}
    (hp : World.books w' name = some p)
    (hcur : ∀ d, p.day = some d → dayTotal name d h' w' ≤ p.tokensToday)
    (hahead : ∀ d, (∀ d', p.day = some d' → d' < d) → dayTotal name d h' w' = 0) :
    Covered name h' w' where
  absent hn := by rw [hp] at hn; cases hn
  ahead q d hq hd := by
    rw [hp] at hq
    cases hq
    exact hahead d hd
  current q d hq hd := by
    rw [hp] at hq
    cases hq
    exact hcur d hd

/-- A turn that adds nothing to the name and leaves its books alone. -/
theorem quiet (hc : Covered name h w) {h' : List Event} {w' : World}
    (hbooks : World.books w' name = World.books w name)
    (hle : ∀ d, dayTotal name d h' w' ≤ dayTotal name d h w) : Covered name h' w' where
  absent hn d := Nat.le_zero.mp (hc.absent (hbooks ▸ hn) d ▸ hle d)
  ahead p d hp hd := Nat.le_zero.mp (hc.ahead p d (hbooks ▸ hp) hd ▸ hle d)
  current p d hp hd := Nat.le_trans (hle d) (hc.current p d (hbooks ▸ hp) hd)

theorem started (hc : Covered name h w) (hrun : Run h w) (hperm : Permits h s) {c : Call}
    (hs : s.turn = .start c)
    (hb : Broker.Opened w.shared c s.now name (World.books (broker.machine.step s w).2 name))
    (htotal : ∀ d, dayTotal name d (⟨w, s⟩ :: h) (broker.machine.step s w).2 =
      dayTotal name d h w + charged name d ⟨w, s⟩) :
    Covered name (⟨w, s⟩ :: h) (broker.machine.step s w).2 := by
  generalize ho : World.books (broker.machine.step s w).2 name = o at hb
  have hold : ¬ c.Registers name → ∀ d, dayTotal name d (⟨w, s⟩ :: h) (broker.machine.step s w).2 =
      dayTotal name d h w := by
    intro hreg d
    rw [htotal, charged_start (e := ⟨w, s⟩) hs hreg, Nat.add_zero]
  cases hb with
  | same hreg => exact hc.quiet ho (fun d => Nat.le_of_eq (hold hreg d))
  | rolled q hreg hq =>
    have hday : ∀ d, q.day = some d → d ≤ utcDay s.now := fun d hd =>
      hrun.dated.days s.now hperm.clock name q d hq hd
    obtain ⟨hcur, hahead⟩ := hc.roll hq hday
    refine of_total ho (fun d hd => ?_) (fun d hd => ?_)
    · rw [Principal.roll_day] at hd
      cases hd
      rw [hold hreg]
      exact hcur
    · rw [hold hreg]
      exact hahead d (hd _ (Principal.roll_day q s.now))
  | seeded token requests tokens q hcall _ _ =>
    have hcharge : ∀ d, charged name d ⟨w, s⟩ =
        if utcDay s.now = d ∧ World.books w name = none then tokens else 0 := by
      intro d
      simp only [charged, hs, hcall, true_and]
    refine of_total ho (fun d hd => ?_) (fun d hd => ?_)
    · have hd' : utcDay s.now = d := Option.some.inj hd
      subst hd'
      rw [htotal, hcharge]
      cases hq : World.books w name with
      | none =>
        rw [hc.absent hq, if_pos ⟨rfl, rfl⟩]
        exact Nat.le_of_eq (Nat.zero_add tokens)
      | some p =>
        rw [if_neg (fun h => by cases h.2)]
        exact (hrun.seeded hperm (hcall ▸ hs) hq).2
    · rw [htotal, hcharge, if_neg (fun he : utcDay s.now = d ∧ _ => Int.lt_irrefl d (he.1 ▸ hd _ rfl)),
        Nat.add_zero]
      cases hq : World.books w name with
      | none => exact hc.absent hq d
      | some p =>
        refine hc.ahead p d hq (fun d' hd' => Int.lt_of_le_of_lt ?_ (hd _ rfl))
        exact hrun.dated.days s.now hperm.clock name p d' hq hd'
  | fresh hreg hnone =>
    refine of_total ho (fun d hd => by cases hd) (fun d _ => ?_)
    rw [hold hreg, hc.absent hnone]

theorem charged_settled {e : Event} {i : Nat} {a : Answer} {p : Posted}
    (hs : e.call.turn = .resume i a) (hf : e.pre.waiting[i]? = some (.forwarding p .closing))
    (ha : a ≠ .cancelled) (name : String) (d : Int) : charged name d e =
      if p.principal = name ∧ utcDay p.moment = d then p.charge (e.pre.shared.aborted p.forward)
      else 0 := by
  simp only [charged, hs, hf]
  cases a <;> first | rfl | exact absurd rfl ha

/-- The estimate leaves the day and the charge takes its place. -/
theorem settle (hc : Covered name h w) {h' : List Event} {w' : World} {q : Principal}
    (hq : World.books w name = some q) (p : Posted) (aborted : Bool)
    (hday : (p.reported aborted).isSome → ∀ d, q.day = some d → d ≤ utcDay p.moment)
    (hbooks : World.books w' name = some (q.settled p (p.reported aborted)))
    (htotal : ∀ d, dayTotal name d h' w' + (if utcDay p.moment = d then p.estimate else 0) =
      dayTotal name d h w + if utcDay p.moment = d then p.charge aborted else 0) :
    Covered name h' w' := by
  cases hr : p.reported aborted with
  | none =>
    rw [hr] at hbooks
    have hsame : ∀ d, dayTotal name d h' w' = dayTotal name d h w := by
      intro d
      have h := htotal d
      rw [Posted.charge, hr, Option.getD_none] at h
      omega
    exact of_total hbooks (fun d hd => hsame d ▸ hc.current q d hq hd)
      (fun d hd => hsame d ▸ hc.ahead q d hq hd)
  | some n =>
    rw [hr] at hbooks
    obtain ⟨hcur, hahead⟩ := hc.roll hq (hday (by rw [hr]; rfl))
    have hcharge : p.charge aborted = n := by rw [Posted.charge, hr]; rfl
    have hpday : (q.settled p (some n)).day = some (utcDay p.moment) :=
      Principal.roll_day { q with inflight := q.inflight - 1 } p.moment
    have htokens : (q.settled p (some n)).tokensToday =
        (q.rollDay p.moment).tokensToday + n - p.estimate := by
      simp only [Principal.settled, Principal.replaceEstimate, Principal.rollDay]
      split <;> rfl
    refine of_total hbooks (fun d hd => ?_) (fun d hd => ?_)
    · rw [hpday] at hd
      cases hd
      have h := htotal (utcDay p.moment)
      rw [if_pos rfl, if_pos rfl, hcharge] at h
      rw [htokens]
      omega
    · have hlt := hd _ hpday
      have h := htotal d
      rw [if_neg (by omega), if_neg (by omega), hahead d hlt] at h
      omega

theorem resumed (hc : Covered name h w) (hrun : Run h w) {i : Nat} {a : Answer} {f : Frame}
    (hs : s.turn = .resume i a) (hf : w.waiting[i]? = some f)
    (hstale : ¬ Stale ⟨w, s⟩) {next : Option Frame}
    (hb : Resumed w.shared f a next (World.books (broker.machine.step s w).2))
    (htotal : ∀ d, dayTotal name d (⟨w, s⟩ :: h) (broker.machine.step s w).2 +
        f.estimateOn name d = dayTotal name d h w + charged name d ⟨w, s⟩ +
        (next.map (Frame.estimateOn name d)).getD 0) :
    Covered name (⟨w, s⟩ :: h) (broker.machine.step s w).2 := by
  have hgoes : (∀ p, f ≠ .forwarding p .closing) → ∀ d, charged name d ⟨w, s⟩ = 0 := fun h d =>
    charged_goes (e := ⟨w, s⟩) hs hf h name d
  generalize ho : World.books (broker.machine.step s w).2 = o at hb
  have hbooks : ∀ k, World.books (broker.machine.step s w).2 k = o k := fun k => congrFun ho k
  cases hb with
  | goes g hcont =>
    refine hc.quiet (hbooks name) (fun d => ?_)
    have h := htotal d
    rw [hgoes (fun p hp => by subst hp; cases hcont; contradiction)] at h
    rw [Option.map_some, Option.getD_some, hcont.estimate_eq] at h
    omega
  | rejected r hr =>
    refine hc.quiet (hbooks name) (fun d => ?_)
    have h := htotal d
    rw [hgoes (fun p hp => by rw [hr] at hp; cases hp)] at h
    rw [Option.map_none, Option.getD_none] at h
    omega
  | abandoned p hp ha =>
    refine hc.quiet (hbooks name) (fun d => ?_)
    have h := htotal d
    have hcharge : charged name d ⟨w, s⟩ = f.estimateOn name d := by
      simp only [charged, hs, hf, hp, ha, Frame.estimateOn]
    rw [hcharge] at h
    rw [Option.map_none, Option.getD_none] at h
    omega
  | refused r q hr hq ht =>
    have hsame : ∀ d, dayTotal name d (⟨w, s⟩ :: h) (broker.machine.step s w).2 =
        dayTotal name d h w := by
      intro d
      have h := htotal d
      rw [hgoes (fun p hp => by rw [hr] at hp; cases hp), hr] at h
      rw [Option.map_none, Option.getD_none, Frame.estimateOn] at h
      omega
    by_cases hk : name = r.principal
    · subst hk
      obtain ⟨hcur, hahead⟩ := hc.roll hq (fun d hd =>
        not_stale (e := ⟨w, s⟩) hstale hs hf ht hq hd)
      have hpost : World.books (broker.machine.step s w).2 r.principal =
          some (q.rollDay r.moment) := (hbooks _).trans (if_pos rfl)
      refine of_total hpost (fun d hd => ?_) (fun d hd => ?_)
      · rw [Principal.roll_day] at hd
        cases hd
        rw [hsame]
        exact hcur
      · rw [hsame]
        exact hahead d (hd _ (Principal.roll_day q r.moment))
    · exact hc.quiet ((hbooks name).trans (if_neg hk)) (fun d => Nat.le_of_eq (hsame d))
  | precharged r q p phase hr hq ht hreq hp hm hfwd hok =>
    have hsum : ∀ d, dayTotal name d (⟨w, s⟩ :: h) (broker.machine.step s w).2 =
        dayTotal name d h w +
          if p.principal = name ∧ utcDay p.moment = d then p.estimate else 0 := by
      intro d
      have h := htotal d
      rw [hgoes (fun p hp => by rw [hr] at hp; cases hp), hr] at h
      simpa only [Option.map_some, Option.getD_some, Frame.estimateOn, Nat.add_zero] using h
    by_cases hk : name = r.principal
    · subst hk
      obtain ⟨hcur, hahead⟩ := hc.roll hq (fun d hd =>
        not_stale (e := ⟨w, s⟩) hstale hs hf ht hq hd)
      obtain ⟨-, hpre⟩ := Principal.precharge_ok hok
      have hpost := (hbooks r.principal).trans (if_pos rfl)
      rw [hpre] at hpost
      refine of_total hpost (fun d hd => ?_) (fun d hd => ?_)
      · have hd' : some (utcDay r.moment) = some d := (Principal.roll_day q r.moment) ▸ hd
        cases hd'
        rw [hsum, if_pos ⟨hp, by rw [hm]⟩]
        exact Nat.add_le_add_right hcur p.estimate
      · have hlt := hd _ (Principal.roll_day q r.moment)
        rw [hsum, if_neg (fun h => by rw [hm] at h; omega), hahead d hlt]
    · refine hc.quiet ((hbooks name).trans (if_neg hk)) (fun d => ?_)
      rw [hsum, if_neg (fun h => hk (by rw [← h.1, hp]))]
      exact Nat.le_refl _
  | settled p hr ha ht =>
    have hf' : w.waiting[i]? = some (.forwarding p .closing) := hr ▸ hf
    have hcharge := charged_settled (e := ⟨w, s⟩) hs hf' ha name
    by_cases hk : name = p.principal
    · have hmem : Frame.forwarding p .closing ∈ w.waiting := List.mem_of_getElem? hf'
      obtain ⟨q, hq⟩ := hrun.dated.known _ hmem
      have hq' : World.books w name = some q := hk ▸ hq
      refine hc.settle hq' p (w.shared.aborted p.forward) (fun hsome d hd => ?_) ?_
        (fun d => ?_)
      · exact not_stale (e := ⟨w, s⟩) hstale hs hf (ht hsome) hq hd
      · exact ((hbooks name).trans (if_pos hk)).trans (congrArg (Option.map _) hq)
      · have h := htotal d
        rw [hcharge, hr] at h
        simp only [Option.map_none, Option.getD_none, Frame.estimateOn, hk, true_and,
          Nat.add_zero] at h ⊢
        exact h
    · refine hc.quiet ((hbooks name).trans (if_neg hk)) (fun d => ?_)
      have h := htotal d
      rw [hcharge, if_neg (fun h => hk h.1.symm)] at h
      rw [Option.map_none, Option.getD_none] at h
      omega

theorem step (hc : Covered name h w) (hrun : Run h w) (hperm : Permits h s)
    (hstale : ¬ Stale ⟨w, s⟩) : Covered name (⟨w, s⟩ :: h) (broker.machine.step s w).2 := by
  have htotal : ∀ d, _ := fun d => dayTotal_step name d ⟨w, s⟩ h
  rcases turned ⟨w, s⟩ with ⟨c, hs, hres, hb, haw⟩ | ⟨i, a, f, hs, hf, hres, hb⟩ |
    ⟨i, a, hs, hf, hres, haw, hw⟩
  · refine hc.started hrun hperm hs (hb name) (fun d => ?_)
    have h := htotal d
    have hnew : ((EventLoop.Event.awaits (⟨w, s⟩ : Event)).map (Frame.estimateOn name d)).getD 0 =
        0 := by
      cases hn : EventLoop.Event.awaits (⟨w, s⟩ : Event) with
      | none => rfl
      | some g =>
        obtain ⟨r, rfl, -⟩ := haw g hn
        rfl
    rw [hres, hnew] at h
    exact h
  · refine hc.resumed hrun hs hf hstale hb (fun d => ?_)
    have h := htotal d
    rw [hres] at h
    exact h
  · refine hc.quiet (congrFun (congrArg World.books hw) name) (fun d => ?_)
    have h := htotal d
    rw [hres, haw, charged_idle hs hf] at h
    exact Nat.le_of_eq h

end Covered

theorem Run.covered {h : List Event} {w : World} (hrun : Run h w) (hstale : ∀ e ∈ h, ¬ Stale e)
    (name : String) : Covered name h w := by
  refine hrun.induct (fun h w => (∀ e ∈ h, ¬ Stale e) → Covered name h w) (fun _ => .init)
    (fun h w s hr hperm ih hs => ?_) hstale
  have hall := List.forall_mem_cons.mp hs
  exact (ih hall.2).step hr hperm hall.1

/-! ### The accounting of the clock's day stays -/

/-- An accounting that has reached the day of the clock. -/
def Begun (name : String) (d : Int) (requests : Nat) (w : World) : Prop :=
  ∃ p, World.books w name = some p ∧ p.day = some d ∧ requests ≤ p.requestsToday

theorem replace_requests {p : Principal} {m : Time} (hm : p.day = some (utcDay m))
    (estimate reported : Nat) :
    (p.replaceEstimate estimate reported m).requestsToday = p.requestsToday := by
  rw [Principal.replaceEstimate, Principal.roll_same hm]

/-- On the clock's day no turn starts a begun accounting again, if none uses an
earlier reading. -/
theorem begun_step {h : List Event} {w : World} {s : EventLoop.Step broker} (hrun : Run h w)
    (hperm : Permits h s) (hstale : ¬ Stale ⟨w, s⟩) {name : String} {requests : Nat}
    (hb : Begun name (utcDay s.now) requests w) :
    Begun name (utcDay s.now) requests (broker.machine.step s w).2 := by
  obtain ⟨p, hp, hday, hreq⟩ := hb
  rcases turned ⟨w, s⟩ with ⟨c, hs, -, hopen, -⟩ | ⟨i, a, f, hs, hf, -, hres⟩ |
    ⟨i, a, -, -, -, -, hw⟩
  · have h := hopen name
    have hp' : w.shared.books name = some p := hp
    unfold Begun
    change Broker.Opened w.shared c s.now name (World.books (broker.machine.step s w).2 name) at h
    generalize World.books (broker.machine.step s w).2 name = o at h ⊢
    cases h with
    | same _ => exact ⟨p, hp, hday, hreq⟩
    | rolled q _ hq =>
      rw [hp'] at hq
      cases hq
      exact ⟨_, rfl, by rw [Principal.roll_same hday, hday], by rw [Principal.roll_same hday]; exact hreq⟩
    | seeded token requests tokens q hcall _ _ =>
      have hseed := (hrun.seeded hperm (hcall ▸ hs) hp).1 hday
      exact ⟨_, rfl, rfl, Nat.le_trans hreq hseed⟩
    | fresh _ hnone =>
      rw [hp'] at hnone
      cases hnone
  · have hmoment := hrun.dated.reads s.now hperm.clock f (List.mem_of_getElem? hf)
    -- a reading that is neither an earlier day's nor ahead of the clock
    have htoday : ∀ m, m = f.moment → touches w.shared f a = some (name, m) →
        p.day = some (utcDay m) := by
      intro m hm ht
      have hle := not_stale (e := ⟨w, s⟩) hstale hs hf ht hp hday
      have hge := Dated.day_mono (hm ▸ hmoment)
      rw [hday, Int.le_antisymm hle hge]
    unfold Begun
    generalize EventLoop.Event.awaits (⟨w, s⟩ : Event) = next at hres
    change Resumed w.shared f a next (World.books (broker.machine.step s w).2) at hres
    generalize World.books (broker.machine.step s w).2 = o at hres ⊢
    cases hres with
    | goes g _ => exact ⟨p, hp, hday, hreq⟩
    | rejected r _ => exact ⟨p, hp, hday, hreq⟩
    | abandoned p' _ _ => exact ⟨p, hp, hday, hreq⟩
    | refused r q hr hq ht =>
      by_cases hk : name = r.principal
      · subst hk
        rw [show w.shared.books r.principal = some p from hp] at hq
        cases hq
        have hd := htoday r.moment (by rw [hr]; rfl) ht
        exact ⟨_, if_pos rfl, by rw [Principal.roll_same hd, hday], by rw [Principal.roll_same hd]; exact hreq⟩
      · exact ⟨p, (if_neg hk).trans hp, hday, hreq⟩
    | precharged r q p' phase hr hq ht _ _ _ _ hok =>
      by_cases hk : name = r.principal
      · subst hk
        rw [show w.shared.books r.principal = some p from hp] at hq
        cases hq
        have hd := htoday r.moment (by rw [hr]; rfl) ht
        obtain ⟨-, hpre⟩ := Principal.precharge_ok hok
        refine ⟨_, if_pos rfl, ?_, ?_⟩
        · rw [hpre, Principal.roll_same hd]
          exact hday
        · rw [hpre, Principal.roll_same hd]
          exact Nat.le_succ_of_le hreq
      · exact ⟨p, (if_neg hk).trans hp, hday, hreq⟩
    | settled p' hr _ ht =>
      by_cases hk : name = p'.principal
      · subst hk
        refine ⟨_, (if_pos rfl).trans (congrArg (Option.map _) hp), ?_⟩
        cases hrep : p'.reported (w.shared.aborted p'.forward) with
        | none => exact ⟨hday, hreq⟩
        | some n =>
          have hd := htoday p'.moment (by rw [hr]; rfl) (ht (by rw [hrep]; rfl))
          refine ⟨?_, ?_⟩
          · exact (Principal.roll_day { p with inflight := p.inflight - 1 } _).trans (hd ▸ hday)
          · exact Nat.le_trans hreq (Nat.le_of_eq
              (replace_requests (p := { p with inflight := p.inflight - 1 }) hd _ _).symm)
      · exact ⟨p, (if_neg hk).trans hp, hday, hreq⟩
  · exact ⟨p, (congrFun (congrArg World.books hw) name).trans hp, hday, hreq⟩

theorem begun_kept {n e : Event} {between older : List Event} {w : World} {name : String}
    {requests : Nat} (hrun : Run (n :: between ++ e :: older) w)
    (hstale : ∀ k ∈ n :: between ++ e :: older, ¬ Stale k)
    (hday : utcDay n.call.now = utcDay e.call.now)
    (hb : Begun name (utcDay e.call.now) requests e.post) :
    Begun name (utcDay e.call.now) requests w := by
  have hcarried : Run ((n :: between) ++ e :: older) w := hrun
  refine (hcarried.carried (Begun name (utcDay e.call.now) requests) hb (fun k hk hpre => ?_)).1
  obtain ⟨x, y, hxy⟩ := List.append_of_mem hk
  have hcut : n :: between ++ e :: older = x ++ k :: (y ++ e :: older) := by
    rw [hxy, List.append_assoc, List.cons_append]
  -- the turns in between have the clock's day of both ends
  have hkn : k.call.now ≤ n.call.now := by
    rcases List.mem_cons.mp hk with rfl | hk
    · exact Int.le_refl _
    · exact hrun.cons_inv.2.1.clock k (List.mem_append_left _ hk)
  rw [hcut] at hrun
  obtain ⟨hr, hperm⟩ := hrun.split
  have hek := hperm.clock e (List.mem_append_right y (List.mem_cons_self ..))
  have hsame : utcDay k.call.now = utcDay e.call.now :=
    Int.le_antisymm (hday ▸ Dated.day_mono hkn) (Dated.day_mono hek)
  rw [← hsame] at hpre ⊢
  exact begun_step hr hperm (hstale k (List.mem_append_left _ hk)) hpre

/-- In a run that never accounts with the reading of an earlier day, no
accounting is started again and every precharge fits under the day cap. -/
theorem day_cap_holds {h : List Event} {w : World} (hrun : Run h w) (hstale : ∀ e ∈ h, ¬ Stale e)
    (name : String) : DayCap name h where
  kept newer e older p hh hp hday later n between hnewer hsame := by
    subst hnewer hh
    rw [List.append_assoc, List.cons_append] at hrun
    have hr : Run (n :: between ++ e :: older) n.post :=
      hrun.split.1.step hrun.split.2
    have hs : ∀ k ∈ n :: between ++ e :: older, ¬ Stale k := fun k hk => hstale k (by
      rw [List.append_assoc, List.cons_append]
      exact List.mem_append_right later hk)
    obtain ⟨q, hq, hqday, hreq⟩ := begun_kept hr hs hsame ⟨p, hp, hday, Nat.le_refl _⟩
    exact ⟨q, hq, hqday.trans hday.symm, hreq, (hr.covered hs name).current q _ hq hqday⟩
  capped newer e older r p phase q hh hres haw hname hq := by
    subst hh hname
    have hr : Run older e.pre := hrun.split.1
    have hc := hr.covered (fun k hk => hstale k (by simp [hk])) r.principal
    rcases turned e with ⟨c, -, hnone, -, -⟩ | ⟨i, a, f, hs, hf, hf', hb⟩ | ⟨i, a, -, -, hnone, -, -⟩
    · rw [hnone] at hres
      cases hres
    · rw [hf'] at hres
      cases hres
      rw [haw] at hb
      generalize World.books e.post = o at hb
      cases hb with
      | goes g hcont => cases hcont
      | precharged r' q' p' phase' hr' hq' ht _ _ _ _ hok =>
        cases hr'
        rw [show e.pre.shared.books r.principal = some q from hq] at hq'
        cases hq'
        obtain ⟨hcur, -⟩ := hc.roll hq (fun d hd =>
          not_stale (hstale e (by simp)) hs hf ht hq hd)
        obtain ⟨hcap, -⟩ := Principal.precharge_ok hok
        exact Nat.le_trans (Nat.add_le_add_right hcur _) hcap
    · rw [hnone] at hres
      cases hres

/-! ### Runs of one day -/

theorem Run.read_today {h : List Event} {w : World} (hrun : Run h w) {d : Int}
    (hday : ∀ e ∈ h, utcDay e.call.now = d) : ∀ f ∈ w.waiting, utcDay (Frame.moment f) = d := by
  refine hrun.induct (fun h w => (∀ e ∈ h, utcDay e.call.now = d) →
    ∀ f ∈ w.waiting, utcDay (Frame.moment f) = d) (fun _ f hf => by cases hf) ?_ hday
  intro h w s _ _ ih hday g hg
  obtain ⟨hnow, hday⟩ := List.forall_mem_cons.mp hday
  rcases EventLoop.mem_waiting hg with hg | hg
  · exact ih hday g hg
  · rcases Dated.new_frame (e := ⟨w, s⟩) hg with ⟨hm, -⟩ | ⟨f, hf, hm, -⟩
    · rw [hm]
      exact hnow
    · rw [hm]
      exact ih hday f hf

/-- Only a run over a midnight uses the reading of an earlier day. -/
theorem Run.never_stale {h : List Event} {w : World} (hrun : Run h w) {d : Int}
    (hday : ∀ e ∈ h, utcDay e.call.now = d) : ∀ e ∈ h, ¬ Stale e := by
  rintro e he ⟨i, a, f, name, m, p, d', hs, hf, ht, hp, hd', hlt⟩
  obtain ⟨newer, older, rfl⟩ := List.append_of_mem he
  obtain ⟨hperm, hr⟩ : Permits older e.call ∧ Run older e.pre := hrun.split.symm
  have hm : utcDay m = d := by
    rw [← hr.read_today (fun k hk => hday k (by simp [hk])) f (List.mem_of_getElem? hf)]
    rw [touches_moment ht]
  have hle := hr.dated.days e.call.now hperm.clock name p d' hp hd'
  rw [hday e he] at hle
  omega

def sampleDay : Time := 86400000

def sampleRequest : Request := { authorization := "Bearer k", rawPath := "/v1/responses" }

def sampleBody : Bytes := encodeUtf8 "\x7b\"model\":\"gpt-5.4-mini\"\x7d"

def sampleLargeBody : Bytes :=
  encodeUtf8 "\x7b\"model\":\"gpt-5.4-mini\",\"max_output_tokens\":140000\x7d"

/-- A request of yesterday ends its body between two large ones of today. -/
def sampleCalls : List (EventLoop.Step broker) :=
  [⟨0, .start (Call.registerPrincipal "agent-runtime" "k" 0 0)⟩,
    ⟨0, .start (Call.openLease "agent-runtime" "task" (3 * sampleDay) "lease-1")⟩,
    ⟨sampleDay - 1, .start (Call.forward sampleRequest)⟩,
    ⟨sampleDay, .start (Call.forward sampleRequest)⟩,
    ⟨sampleDay, .resume 1 (Answer.read sampleLargeBody false)⟩,
    ⟨sampleDay, .resume 1 (Answer.read [] false)⟩,
    ⟨sampleDay, .resume 1 Answer.failed⟩,
    ⟨sampleDay, .resume 1 Answer.done⟩,
    ⟨sampleDay, .resume 0 (Answer.read sampleBody false)⟩,
    ⟨sampleDay, .resume 0 (Answer.read [] false)⟩,
    ⟨sampleDay, .start (Call.forward sampleRequest)⟩,
    ⟨sampleDay, .resume 1 (Answer.read sampleLargeBody false)⟩]

def sampleLast : EventLoop.Step broker := ⟨sampleDay, .resume 1 (Answer.read [] false)⟩

/-- The calls of one afternoon. -/
def sampleDayCalls : List (EventLoop.Step broker) :=
  sampleCalls.map (fun s => { s with now := sampleDay })

theorem day_cap_sample : DayCap "agent-runtime"
    (broker.machine.history [] broker.machine.init sampleDayCalls) := by
  have hrun := run_of_calls sampleDayCalls (by decide) (by decide)
  refine day_cap_holds hrun (hrun.never_stale (d := 1) (fun e he => ?_)) "agent-runtime"
  rcases Machine.mem_history he with he | he
  · cases he
  · obtain ⟨s, -, hs⟩ := List.mem_map.mp he
    rw [← hs]
    rfl

/-! ### A precharge with yesterday's reading -/

/-- A precharge over the cap with everything of its day counted. -/
def overCap (name : String) (e : Event) (older : List Event) : Bool :=
  match EventLoop.Event.resumed e, EventLoop.Event.awaits e, World.books e.pre name with
  | some (Frame.reading r), some (Frame.forwarding p _), some q =>
    decide (r.principal = name) && decide (q.caps.tokensPerDay <
      settledCharges name (utcDay r.moment) older +
        unsettledEstimates name (utcDay r.moment) e.pre + p.estimate)
  | _, _, _ => false

theorem not_capped {name : String} {e : Event} {older : List Event}
    (h : overCap name e older = true) : ¬ DayCap name (e :: older) := by
  intro hcap
  unfold overCap at h
  split at h
  · rename_i r p phase q hr hp hq
    simp only [Bool.and_eq_true, decide_eq_true_eq] at h
    exact Nat.not_lt.mpr (hcap.capped [] e older r p phase q rfl hr hp h.1 hq) h.2
  · cases h

theorem sample_over_cap : overCap "agent-runtime"
    ⟨broker.machine.after broker.machine.init sampleCalls, sampleLast⟩
    (broker.machine.history [] broker.machine.init sampleCalls) = true := by
  decide +kernel

/-- Two precharges of one day pass the day cap together. -/
theorem yesterday_reopens_the_day :
    ∃ h w, Run h w ∧ ¬ DayCap "agent-runtime" h := by
  refine ⟨_, _, run_of_calls (sampleCalls ++ [sampleLast]) (by decide) (by decide), ?_⟩
  rw [Machine.history_concat]
  exact not_capped sample_over_cap

end Solvio.ProviderBroker
