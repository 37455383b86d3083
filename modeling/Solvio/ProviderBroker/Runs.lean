import Solvio.ProviderBroker.Turns

namespace Solvio.ProviderBroker
open Solvio.Lib

abbrev World : Type := EventLoop.World broker
abbrev Event : Type := EventLoop.Event broker

def World.books (w : World) (name : String) : Option Principal := w.shared.books name

/-- The tokens that a request is charged with in the end. -/
def Posted.charge (p : Posted) (aborted : Bool) : Nat := (p.reported aborted).getD p.estimate

/-- What a turn adds to the settled charges of a principal's day. What the
ledger holds at the first registration is settled; a request that is never
settled stays charged with its estimate. -/
def charged (name : String) (d : Int) (e : Event) : Nat :=
  match e.call.turn with
  | .start (Call.registerPrincipal n _ _ tokens) =>
    if n = name ∧ utcDay e.call.now = d ∧ World.books e.pre name = none then tokens else 0
  | .start _ => 0
  | .resume i a =>
    match e.pre.waiting[i]?, a with
    | some (Frame.forwarding p .closing), Answer.cancelled =>
      if p.principal = name ∧ utcDay p.moment = d then p.estimate else 0
    | some (Frame.forwarding p .closing), _ =>
      if p.principal = name ∧ utcDay p.moment = d then p.charge (e.pre.shared.aborted p.forward)
      else 0
    | _, _ => 0

def settledCharges (name : String) (d : Int) (h : List Event) : Nat :=
  (h.map (charged name d)).sum

/-- The estimate that a forwarded request still holds on a principal's day. -/
def Frame.estimateOn (name : String) (d : Int) : Frame → Nat
  | .forwarding p _ => if p.principal = name ∧ utcDay p.moment = d then p.estimate else 0
  | .reading _ => 0

def unsettledEstimates (name : String) (d : Int) (w : World) : Nat :=
  (w.waiting.map (Frame.estimateOn name d)).sum

/-- Everything that a principal's day has been charged with so far. -/
def dayTotal (name : String) (d : Int) (h : List Event) (w : World) : Nat :=
  settledCharges name d h + unsettledEstimates name d w

/-- The clock does not go back, and what a registration is seeded with covers
what the principal's day has seen before it. -/
structure Permits (h : List Event) (s : EventLoop.Step broker) : Prop where
  clock : ∀ e ∈ h, e.call.now ≤ s.now
  seeded : ∀ name token requests tokens e older p,
    s.turn = .start (Call.registerPrincipal name token requests tokens) → h = e :: older →
      World.books e.post name = some p →
      (p.day = some (utcDay s.now) → p.requestsToday ≤ requests) ∧
        dayTotal name (utcDay s.now) h e.post ≤ tokens

/-- The readings that are in use are not ahead of the clock, and requests are
made by known principals. -/
structure Dated (h : List Event) (w : World) : Prop where
  days : ∀ now, (∀ e ∈ h, e.call.now ≤ now) → ∀ name p d, World.books w name = some p →
    p.day = some d → d ≤ utcDay now
  reads : ∀ now, (∀ e ∈ h, e.call.now ≤ now) → ∀ f ∈ w.waiting, Frame.moment f ≤ now
  known : ∀ f ∈ w.waiting, ∃ p, World.books w (Frame.principal f) = some p

/-! ### What a turn does -/

/-- A turn starts a task, resumes a waiting one, or finds none to resume. -/
inductive Turned (e : Event) : Prop
  | started (c : Call) : e.call.turn = .start c → EventLoop.Event.resumed e = none →
      (∀ name, Broker.Opened e.pre.shared c e.call.now name (World.books e.post name)) →
      (∀ f, EventLoop.Event.awaits e = some f → ∃ r : Reading, f = .reading r ∧
        r.moment = e.call.now ∧ ∃ p, World.books e.pre r.principal = some p) → Turned e
  | resumed (i : Nat) (a : Answer) (f : Frame) : e.call.turn = .resume i a →
      e.pre.waiting[i]? = some f → EventLoop.Event.resumed e = some f →
      Resumed e.pre.shared f a (EventLoop.Event.awaits e) (World.books e.post) → Turned e
  | idle (i : Nat) (a : Answer) : e.call.turn = .resume i a → e.pre.waiting[i]? = none →
      EventLoop.Event.resumed e = none → EventLoop.Event.awaits e = none → e.post = e.pre →
      Turned e

theorem turned (e : Event) : Turned e := by
  obtain ⟨w, s⟩ := e
  rcases EventLoop.run_cases s w with ⟨c, hs, hr⟩ | ⟨i, a, f, before, behind, hs, hf, -, hr⟩ |
    ⟨i, a, hs, hf, hr⟩
  · have hbooks := fun name => w.shared.start_books c s.now name
    have haw : (EventLoop.run s w).1 = (w.shared.start c s.now).1 := by rw [hr]; rfl
    refine .started c hs (by simp only [EventLoop.Event.resumed, hs]) (fun name => ?_) (fun f hf => ?_)
    · have h := (hbooks name).1
      change Broker.Opened _ _ _ _ ((EventLoop.run s w).2.shared.books name)
      rw [hr]
      exact h
    · obtain ⟨r, rfl, hm, hk⟩ := (hbooks "").2 f (haw.symm.trans hf)
      exact ⟨r, rfl, hm, Option.isSome_iff_exists.mp hk⟩
  · have h := w.shared.resume_books f a s.now
    refine .resumed i a f hs hf (by simp only [EventLoop.Event.resumed, hs]; exact hf) ?_
    change Resumed _ _ _ (EventLoop.run s w).1 (EventLoop.run s w).2.shared.books
    rw [hr]
    exact h
  · refine .idle i a hs hf (by simp only [EventLoop.Event.resumed, hs, hf]) ?_ ?_
    · exact congrArg Prod.fst hr
    · exact congrArg Prod.snd hr

namespace Dated

variable {h : List Event} {w : World} {s : EventLoop.Step broker}

theorem clock {e : Event} {h : List Event} {now : Time} (hn : ∀ n ∈ e :: h, n.call.now ≤ now) :
    e.call.now ≤ now ∧ ∀ n ∈ h, n.call.now ≤ now :=
  ⟨hn e (List.mem_cons_self ..), fun n hm => hn n (List.mem_cons_of_mem e hm)⟩

theorem day_mono {a b : Time} (h : a ≤ b) : utcDay a ≤ utcDay b :=
  Int.ediv_le_ediv (by decide) h

/-- Principals stay. -/
theorem books_stay (e : Event) {name : String} {p : Principal}
    (hp : World.books e.pre name = some p) : ∃ q, World.books e.post name = some q := by
  rcases turned e with ⟨c, -, -, hb, -⟩ | ⟨i, a, f, -, -, -, hb⟩ | ⟨i, a, -, -, -, -, hw⟩
  · have h := hb name
    generalize World.books e.post name = o at h ⊢
    cases h with
    | same _ => exact ⟨p, hp⟩
    | rolled q _ _ => exact ⟨_, rfl⟩
    | seeded token requests tokens q _ _ _ => exact ⟨_, rfl⟩
    | fresh _ _ => exact ⟨_, rfl⟩
  · generalize World.books e.post = o at hb ⊢
    generalize EventLoop.Event.awaits e = next at hb
    have hp' : e.pre.shared.books name = some p := hp
    cases hb with
    | goes g _ => exact ⟨p, hp⟩
    | rejected r _ => exact ⟨p, hp⟩
    | abandoned p' _ _ => exact ⟨p, hp⟩
    | refused r q _ _ _ =>
      simp only
      split
      · exact ⟨_, rfl⟩
      · exact ⟨p, hp'⟩
    | precharged r q p' phase _ _ _ _ _ _ _ _ =>
      simp only
      split
      · exact ⟨_, rfl⟩
      · exact ⟨p, hp'⟩
    | settled p' _ _ _ =>
      simp only
      split
      · rename_i hk
        rw [← hk, hp']
        exact ⟨_, rfl⟩
      · exact ⟨p, hp'⟩
  · rw [hw]
    exact ⟨p, hp⟩

theorem day_of_roll {p : Principal} {m now : Time} {d : Int} (hm : m ≤ now)
    (hd : (p.rollDay m).day = some d) : d ≤ utcDay now := by
  rw [Principal.roll_day] at hd
  cases hd
  exact day_mono hm

theorem precharge_day (p : Principal) (estimate : Nat) (m : Time) :
    (p.precharge estimate m).2.day = some (utcDay m) := by
  simp only [Principal.precharge]
  split <;> exact p.roll_day m

theorem settled_day {p : Principal} {f : Posted} {reported : Option Nat} {d : Int}
    (hd : (p.settled f reported).day = some d) : p.day = some d ∨ d = utcDay f.moment := by
  cases reported with
  | none => exact Or.inl hd
  | some n =>
    have hroll : (Principal.rollDay { p with inflight := p.inflight - 1 } f.moment).day = some d := hd
    rw [Principal.roll_day] at hroll
    exact Or.inr (Option.some.inj hroll).symm

theorem init : Dated [] broker.machine.init where
  days now _ name p d hp := by cases hp
  reads now _ f hf := by cases hf
  known f hf := by cases hf

theorem step_days (hd : Dated h w) {e : Event} (he : e.pre = w) {now : Time}
    (hn : e.call.now ≤ now) (hh : ∀ n ∈ h, n.call.now ≤ now) {name : String} {p : Principal}
    {d : Int} (hp : World.books e.post name = some p) (hday : p.day = some d) : d ≤ utcDay now := by
  subst he
  have hold : ∀ q, World.books e.pre name = some q → q.day = some d → d ≤ utcDay now :=
    fun q hq h => hd.days now hh name q d hq h
  rcases turned e with ⟨c, -, -, hb, -⟩ | ⟨i, a, f, -, hf, -, hb⟩ | ⟨i, a, -, -, -, -, hw⟩
  · have h := hb name
    rw [hp] at h
    generalize ho : some p = o at h
    cases h with
    | same _ => exact hold p ho.symm hday
    | rolled q _ _ =>
      cases ho
      exact day_of_roll hn hday
    | seeded token requests tokens q _ _ _ =>
      cases ho
      cases hday
      exact day_mono hn
    | fresh _ _ =>
      cases ho
      cases hday
  · have hm : f.moment ≤ now := hd.reads now hh f (List.mem_of_getElem? hf)
    generalize EventLoop.Event.awaits e = next at hb
    generalize World.books e.post = o at hb hp
    cases hb with
    | goes g _ => exact hold p hp hday
    | rejected r _ => exact hold p hp hday
    | abandoned p' _ _ => exact hold p hp hday
    | refused r q hr _ _ =>
      simp only at hp
      split at hp
      · cases hp
        exact day_of_roll (by rw [hr] at hm; exact hm) hday
      · exact hold p hp hday
    | precharged r q p' phase hr _ _ _ _ _ _ _ =>
      simp only at hp
      split at hp
      · cases hp
        have hq := precharge_day q p'.estimate r.moment
        rw [show _ = some d from hday] at hq
        cases hq
        exact day_mono (by rw [hr] at hm; exact hm)
      · exact hold p hp hday
    | settled p' hr _ _ =>
      simp only at hp
      split at hp
      · rename_i hk
        obtain ⟨q, hq, rfl⟩ := Option.map_eq_some_iff.mp hp
        rcases settled_day hday with h | rfl
        · exact hold q (by rw [hk]; exact hq) h
        · exact day_mono (by rw [hr] at hm; exact hm)
      · exact hold p hp hday
  · exact hold p (by rw [← hw]; exact hp) hday

/-- A new frame is a new request of a known principal, or a waiting one. -/
theorem new_frame {e : Event} {g : Frame} (hg : EventLoop.Event.awaits e = some g) :
    (g.moment = e.call.now ∧ ∃ p, World.books e.pre g.principal = some p) ∨
      ∃ f ∈ e.pre.waiting, g.moment = Frame.moment f ∧ g.principal = Frame.principal f := by
  rcases turned e with ⟨c, -, -, -, hf⟩ | ⟨i, a, f, -, hf, -, hb⟩ | ⟨i, a, -, -, -, hnone, -⟩
  · obtain ⟨r, rfl, hm, hk⟩ := hf g hg
    exact Or.inl ⟨hm, hk⟩
  · refine Or.inr ⟨f, List.mem_of_getElem? hf, ?_⟩
    rw [hg] at hb
    generalize World.books e.post = o at hb
    cases hb with
    | goes _ hcont => exact ⟨hcont.moment_eq, hcont.principal_eq⟩
    | precharged r q p' phase hr _ _ _ hp hmom _ _ =>
      rw [hr]
      exact ⟨hmom, hp⟩
  · rw [hg] at hnone
    cases hnone

theorem step (hd : Dated h w) : Dated (⟨w, s⟩ :: h) (broker.machine.step s w).2 where
  days now hn name p d hp hday := hd.step_days rfl (clock hn).1 (clock hn).2 hp hday
  reads now hn g hg := by
    rcases EventLoop.mem_waiting hg with hg | hg
    · exact hd.reads now (clock hn).2 g hg
    · rcases new_frame (e := ⟨w, s⟩) hg with ⟨hm, -⟩ | ⟨f, hf, hm, -⟩
      · rw [hm]
        exact (clock hn).1
      · rw [hm]
        exact hd.reads now (clock hn).2 f hf
  known g hg := by
    have hk : ∃ p, World.books w (Frame.principal g) = some p := by
      rcases EventLoop.mem_waiting hg with hg | hg
      · exact hd.known g hg
      · rcases new_frame (e := ⟨w, s⟩) hg with ⟨-, hk⟩ | ⟨f, hf, -, hp⟩
        · exact hk
        · rw [hp]
          exact hd.known f hf
    obtain ⟨p, hp⟩ := hk
    exact books_stay ⟨w, s⟩ hp

end Dated

abbrev Run (h : List Event) (w : World) : Prop := broker.machine.Run Permits h w

theorem Run.dated {h : List Event} {w : World} (hrun : Run h w) : Dated h w :=
  hrun.induct Dated .init (fun _ _ _ _ _ hd => hd.step)

theorem Run.seeded {h : List Event} {w : World} {s : EventLoop.Step broker} {name : String}
    {token : String} {requests tokens : Nat} (hrun : Run h w) (hs : Permits h s)
    (hc : s.turn = .start (Call.registerPrincipal name token requests tokens)) {p : Principal}
    (hp : World.books w name = some p) :
    (p.day = some (utcDay s.now) → p.requestsToday ≤ requests) ∧
      dayTotal name (utcDay s.now) h w ≤ tokens := by
  cases h with
  | nil =>
    cases hrun
    cases hp
  | cons e h =>
    rw [hrun.cons_inv.2.2] at hp ⊢
    exact hs.seeded name token requests tokens e h p hc rfl hp

def registers (s : EventLoop.Step broker) : Bool :=
  match s.turn with
  | .start (Call.registerPrincipal ..) => true
  | _ => false

/-- Calls in the order of the clock, of which only the first registers. -/
theorem run_of_calls (calls : List (EventLoop.Step broker))
    (sorted : calls.Pairwise (fun a b => a.now ≤ b.now)) (once : ∀ s ∈ calls.tail, registers s = false) :
    Run (broker.machine.history [] broker.machine.init calls)
      (broker.machine.after broker.machine.init calls) := by
  refine Machine.Run.history_of .start (fun before c later hcalls => ⟨fun e he => ?_, ?_⟩)
  · rcases Machine.mem_history he with he | he
    · cases he
    · rw [hcalls, List.pairwise_append] at sorted
      exact sorted.2.2 _ he c (List.mem_cons_self ..)
  · intro name token requests tokens e older p hc hh hp
    cases before with
    | nil => cases hh
    | cons b before =>
      have hmem : c ∈ calls.tail := by simp [hcalls]
      have := once c hmem
      rw [registers, hc] at this
      cases this

end Solvio.ProviderBroker
