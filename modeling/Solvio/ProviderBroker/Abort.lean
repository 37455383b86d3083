import Solvio.ProviderBroker.Runs

namespace Solvio.ProviderBroker
open Solvio.Lib

def Frame.forward? : Frame → Option Nat
  | .reading _ => none
  | .forwarding p _ => some p.forward

/-- What a turn does to the register of forwardings, and where its request
waits next. -/
inductive Moved (b : Broker) (f : Frame) : Option Frame → List Forward → Nat → Prop
  | kept (next : Option Frame) : (∀ g, next = some g → g.forward? = f.forward? ∧
      ∀ p phase, g = .forwarding p phase → f.principal = p.principal) →
      Moved b f next b.inflight b.nextForward
  | begun (r : Reading) (p : Posted) (phase : Phase) : f = .reading r →
      p.forward = b.nextForward → p.principal = r.principal →
      Moved b f (some (.forwarding p phase))
        (b.inflight ++ [⟨b.nextForward, r.principal, false⟩]) (b.nextForward + 1)
  | settled (p : Posted) : f = .forwarding p .closing →
      Moved b f none (b.inflight.filter (fun g => g.id ≠ p.forward)) b.nextForward

namespace Broker

theorem bodyRead_moved (b : Broker) (r : Reading) (credential : Bool) :
    Moved b (.reading r) (b.bodyRead r credential).1 (b.bodyRead r credential).2.inflight
      (b.bodyRead r credential).2.nextForward := by
  unfold bodyRead
  simp only
  cases b.registry.principal? r.principal with
  | none => exact .kept none (fun g hg => by cases hg)
  | some p =>
    simp only
    cases checkBody r p.caps with
    | error x => exact .kept none (fun g hg => by cases hg)
    | ok out =>
      obtain ⟨model, body⟩ := out
      simp only
      split
      · exact .kept none (fun g hg => by cases hg)
      · exact .begun r _ _ rfl rfl rfl

theorem settle_moved (b : Broker) (p : Posted) :
    (b.settle p).inflight = b.inflight.filter (fun g => g.id ≠ p.forward) ∧
      (b.settle p).nextForward = b.nextForward := by
  unfold settle
  simp only
  cases p.reported (b.aborted p.forward) <;> exact ⟨rfl, rfl⟩

theorem resume_moved (b : Broker) (f : Frame) (a : Answer) (now : Time) :
    Moved b f (b.resume f a now).1 (b.resume f a now).2.inflight
      (b.resume f a now).2.nextForward := by
  cases f with
  | reading r =>
    cases a with
    | read chunk credential =>
      simp only [resume, readBody]
      split
      · exact b.bodyRead_moved r credential
      · split
        · exact .kept none (fun g hg => by cases hg)
        · exact .kept _ (fun g hg => by cases hg; exact ⟨rfl, fun p phase h => by cases h⟩)
    | _ => exact .kept none (fun g hg => by cases hg)
  | forwarding p phase =>
    have hgo : ∀ phase' sent sniffer status, Moved b (.forwarding p phase)
        (some (.forwarding { p with sent, sniffer, status } phase')) b.inflight b.nextForward :=
      fun phase' sent sniffer status => .kept _ (fun g hg => by
        cases hg
        exact ⟨rfl, fun p' phase h => by cases h; rfl⟩)
    cases phase with
    | posting => cases a <;> exact hgo _ _ _ _
    | preparing => cases a <;> exact hgo _ _ _ _
    | streaming =>
      cases a with
      | chunk c =>
        simp only [resume, forwardStep]
        split <;> exact hgo _ _ _ _
      | _ => exact hgo _ _ _ _
    | writing c => cases a <;> exact hgo _ _ _ _
    | ending => cases a <;> exact hgo _ _ _ _
    | lastEof => cases a <;> exact hgo _ _ _ _
    | closing =>
      have hsettle : Moved b (.forwarding p .closing) none (b.settle p).inflight
          (b.settle p).nextForward := by
        rw [(b.settle_moved p).1, (b.settle_moved p).2]
        exact .settled p rfl
      cases a with
      | cancelled => exact .kept none (fun g hg => by cases hg)
      | _ => exact hsettle

/-- Forwardings are marked as aborted, and nothing else happens to them. -/
structure Marks (b b' : Broker) : Prop where
  inflight : ∃ mark : Forward → Forward, (∀ f, (mark f).id = f.id ∧
    (mark f).principal = f.principal ∧ (f.aborted = true → (mark f).aborted = true)) ∧
    b'.inflight = b.inflight.map mark
  next : b'.nextForward = b.nextForward

theorem Marks.of_eq {b b' : Broker} (hi : b'.inflight = b.inflight)
    (hn : b'.nextForward = b.nextForward) : Marks b b' :=
  ⟨⟨id, fun f => ⟨rfl, rfl, fun h => h⟩, by rw [hi, List.map_id]⟩, hn⟩

theorem rotate_marks (b : Broker) (name token : String) : Marks b (b.rotate name token) where
  inflight := ⟨_, fun f => by
    by_cases h : f.principal = name <;> simp [h], rfl⟩
  next := rfl

/-- The name whose token and forwardings a call voids. -/
def rotates (b : Broker) (c : Call) (now : Time) : Option String :=
  match c with
  | .rotateNow name _ => some name
  | .closeLease leaseId _ => (b.registry.closeLease leaseId now).1.filter (· ≠ "")
  | _ => none

theorem admitted_marks (b : Broker) (p : Principal) (now : Time) :
    Marks b (b.admitted p now).2 := by
  unfold admitted
  simp only
  split <;> exact .of_eq rfl rfl

/-- A new task waits for its body, and marks forwardings at most. -/
theorem start_marks (b : Broker) (c : Call) (now : Time) :
    Marks b (b.start c now).2 ∧ ∀ f ∈ (b.start c now).1, f.forward? = none := by
  cases c with
  | forward req =>
    simp only [start, handleForward]
    split
    · exact ⟨.of_eq rfl rfl, fun f hf => by cases hf⟩
    · rename_i p _
      split
      · exact ⟨b.admitted_marks p now, fun f hf => by cases hf; rfl⟩
      · exact ⟨b.admitted_marks p now, fun f hf => by cases hf⟩
  | anthropic req configured =>
    simp only [start, handleAnthropic]
    split
    · exact ⟨.of_eq rfl rfl, fun f hf => by cases hf⟩
    · rename_i p _
      split
      · exact ⟨.of_eq rfl rfl, fun f hf => by cases hf⟩
      · split
        · exact ⟨b.admitted_marks p now, fun f hf => by cases hf; rfl⟩
        · exact ⟨b.admitted_marks p now, fun f hf => by cases hf⟩
  | models req =>
    refine ⟨?_, fun f hf => by cases hf⟩
    simp only [start, handleModels]
    split <;> exact .of_eq rfl rfl
  | registerPrincipal name token requests tokens =>
    exact ⟨.of_eq rfl rfl, fun f hf => by cases hf⟩
  | openLease name ref deadline leaseId => exact ⟨.of_eq rfl rfl, fun f hf => by cases hf⟩
  | closeLease leaseId token =>
    simp only [start]
    split
    · exact ⟨.of_eq rfl rfl, fun f hf => by cases hf⟩
    · rename_i name _
      refine ⟨?_, fun f hf => by cases hf⟩
      simp only
      split
      · exact .of_eq rfl rfl
      · obtain ⟨hi, hn⟩ := rotate_marks
          { b with registry := (b.registry.closeLease leaseId now).2 } name token
        exact ⟨hi, hn⟩
  | rotateNow name token => exact ⟨b.rotate_marks name token, fun f hf => by cases hf⟩
  | stop =>
    exact ⟨⟨⟨fun f => { f with aborted := true }, fun f => ⟨rfl, rfl, fun _ => rfl⟩, rfl⟩, rfl⟩,
      fun f hf => by cases hf⟩

/-- After a rotation every forwarding of the name is aborted. -/
theorem rotates_aborts {b : Broker} {c : Call} {now : Time} {name : String}
    (h : b.rotates c now = some name) :
    ∀ f ∈ (b.start c now).2.inflight, f.principal = name → f.aborted = true := by
  have hrotate : ∀ b : Broker, ∀ token, ∀ f ∈ (b.rotate name token).inflight,
      f.principal = name → f.aborted = true := by
    intro b token f hf hp
    obtain ⟨g, hg, rfl⟩ := List.mem_map.mp hf
    by_cases hk : g.principal = name
    · simp [hk]
    · simp only [hk, if_false] at hp
  cases c with
  | rotateNow n token =>
    cases h
    exact hrotate b token
  | closeLease leaseId token =>
    obtain ⟨hdrained, hne⟩ := Option.filter_eq_some_iff.mp h
    have hne : name ≠ "" := of_decide_eq_true hne
    simp only [start, hdrained, if_neg hne]
    exact hrotate _ token
  | _ => cases h

end Broker

/-! ### A forwarding has one place in the register -/

inductive Shifted (e : Event) : Prop
  | started : EventLoop.Event.resumed e = none → Broker.Marks e.pre.shared e.post.shared →
      (∀ g, EventLoop.Event.awaits e = some g → Frame.forward? g = none) → Shifted e
  | resumed (f : Frame) : f ∈ e.pre.waiting → EventLoop.Event.resumed e = some f →
      Moved e.pre.shared f (EventLoop.Event.awaits e) e.post.shared.inflight
        e.post.shared.nextForward → Shifted e
  | idle : EventLoop.Event.resumed e = none → EventLoop.Event.awaits e = none →
      e.post = e.pre → Shifted e

theorem shifted (e : Event) : Shifted e := by
  obtain ⟨w, s⟩ := e
  rcases EventLoop.run_cases s w with ⟨c, hs, hr⟩ | ⟨i, a, f, before, behind, hs, hf, -, hr⟩ |
    ⟨i, a, hs, hf, hr⟩
  · obtain ⟨hmarks, hnew⟩ := w.shared.start_marks c s.now
    have haw : (EventLoop.run s w).1 = (w.shared.start c s.now).1 := by rw [hr]; rfl
    have hpost : (EventLoop.run s w).2.shared = (w.shared.start c s.now).2 := by rw [hr]; rfl
    refine .started (by simp only [EventLoop.Event.resumed, hs]) ?_ (fun g hg => ?_)
    · change Broker.Marks w.shared (EventLoop.run s w).2.shared
      rw [hpost]
      exact hmarks
    · exact hnew g (haw.symm.trans hg)
  · have h := w.shared.resume_moved f a s.now
    refine .resumed f (List.mem_of_getElem? hf)
      (by simp only [EventLoop.Event.resumed, hs]; exact hf) ?_
    change Moved _ _ (EventLoop.run s w).1 (EventLoop.run s w).2.shared.inflight
      (EventLoop.run s w).2.shared.nextForward
    rw [hr]
    exact h
  · refine .idle (by simp only [EventLoop.Event.resumed, hs, hf]) ?_ ?_
    · exact congrArg Prod.fst hr
    · exact congrArg Prod.snd hr

def Frame.holds (k : Nat) (f : Frame) : Nat := if f.forward? = some k then 1 else 0

/-- How many waiting requests hold a forwarding. -/
def holders (k : Nat) (w : World) : Nat := (w.waiting.map (Frame.holds k)).sum

theorem holders_step (k : Nat) (e : Event) :
    holders k e.post + ((EventLoop.Event.resumed e).map (Frame.holds k)).getD 0 =
      holders k e.pre + ((EventLoop.Event.awaits e).map (Frame.holds k)).getD 0 :=
  EventLoop.sum_waiting (Frame.holds k) e

theorem holders_pos {k : Nat} {w : World} {f : Frame} (hf : f ∈ w.waiting)
    (hk : f.forward? = some k) : 1 ≤ holders k w := by
  obtain ⟨before, behind, hw⟩ := List.append_of_mem hf
  have hone : Frame.holds k f = 1 := if_pos hk
  simp only [holders, hw, List.map_append, List.map_cons, List.sum_append, List.sum_cons, hone]
  omega

structure Listed (w : World) : Prop where
  once : ∀ k, holders k w ≤ 1
  next : ∀ k, w.shared.nextForward ≤ k → holders k w = 0
  listed : ∀ p phase, Frame.forwarding p phase ∈ w.waiting →
    ∃ f ∈ w.shared.inflight, f.id = p.forward ∧ f.principal = p.principal

namespace Listed

theorem init : Listed broker.machine.init where
  once _ := Nat.zero_le _
  next _ _ := rfl
  listed p phase h := by cases h

theorem step {e : Event} (hl : Listed e.pre) : Listed e.post := by
  have hsum := fun k => holders_step k e
  have hmem : ∀ g ∈ e.post.waiting, g ∈ e.pre.waiting ∨ EventLoop.Event.awaits e = some g :=
    fun g hg => EventLoop.mem_waiting hg
  cases shifted e with
  | started hres hmarks hnew =>
    have hnone : ∀ k, ((EventLoop.Event.awaits e).map (Frame.holds k)).getD 0 = 0 := by
      intro k
      cases haw : EventLoop.Event.awaits e with
      | none => rfl
      | some g =>
        change (if Frame.forward? g = some k then 1 else 0) = 0
        rw [hnew g haw]
        rfl
    have hsame : ∀ k, holders k e.post = holders k e.pre := by
      intro k
      have h := hsum k
      rw [hres, hnone] at h
      exact h
    obtain ⟨⟨mark, hmark, hin⟩, hnext⟩ := hmarks
    refine ⟨fun k => hsame k ▸ hl.once k, fun k hk => ?_, fun p phase hp => ?_⟩
    · exact (hsame k).trans (hl.next k (hnext ▸ hk))
    · rcases hmem _ hp with hp | hp
      · obtain ⟨f, hf, hid, hname⟩ := hl.listed p phase hp
        refine ⟨mark f, hin ▸ List.mem_map_of_mem hf, ?_, ?_⟩
        · rw [(hmark f).1, hid]
        · rw [(hmark f).2.1, hname]
      · cases hnew _ hp
  | resumed f hf hres hmoved =>
    rw [hres] at hsum
    have hold : ∀ p phase, Frame.forwarding p phase ∈ e.pre.waiting →
        ∃ f ∈ e.pre.shared.inflight, f.id = p.forward ∧ f.principal = p.principal := hl.listed
    generalize hin : e.post.shared.inflight = inflight at hmoved
    generalize hnf : e.post.shared.nextForward = next' at hmoved
    generalize hnext : EventLoop.Event.awaits e = next at hmoved hmem hsum
    cases hmoved with
    | kept next hkept =>
      have hle : ∀ k, holders k e.post ≤ holders k e.pre := by
        intro k
        have h := hsum k
        cases next with
        | none => exact Nat.le.intro h
        | some g =>
          have hg : Frame.holds k g = Frame.holds k f := by
            simp only [Frame.holds, (hkept g rfl).1]
          have h : holders k e.post + Frame.holds k f = holders k e.pre + Frame.holds k g := h
          rw [hg] at h
          exact Nat.le_of_eq (Nat.add_right_cancel h)
      refine ⟨fun k => Nat.le_trans (hle k) (hl.once k), fun k hk => ?_, fun p phase hp => ?_⟩
      · exact Nat.le_zero.mp (hl.next k (hnf ▸ hk) ▸ hle k)
      · rw [hin]
        rcases hmem _ hp with hp | rfl
        · exact hold p phase hp
        · obtain ⟨hfwd, hname⟩ := hkept _ rfl
          cases f with
          | reading r => cases hfwd
          | forwarding p' phase' =>
            obtain ⟨g, hg, hid, hgn⟩ := hold p' phase' hf
            refine ⟨g, hg, hid.trans ?_, hgn.trans (hname p phase rfl)⟩
            exact (Option.some.inj hfwd).symm
    | begun r p phase hr hfwd hname =>
      subst hr
      have hplus : ∀ k, holders k e.post = holders k e.pre +
          if e.pre.shared.nextForward = k then 1 else 0 := by
        intro k
        have h := hsum k
        simpa [Frame.holds, Frame.forward?, hfwd] using h
      refine ⟨fun k => ?_, fun k hk => ?_, fun p' phase' hp => ?_⟩
      · rw [hplus]
        split
        · rename_i hk
          rw [hl.next k (Nat.le_of_eq hk)]
        · exact hl.once k
      · have hlt : e.pre.shared.nextForward + 1 ≤ k := hnf ▸ hk
        rw [hplus, hl.next k (by omega), if_neg (by omega)]
      · rw [hin]
        rcases hmem _ hp with hp | hp
        · obtain ⟨g, hg, h⟩ := hold p' phase' hp
          exact ⟨g, List.mem_append_left _ hg, h⟩
        · cases hp
          exact ⟨_, List.mem_append_right _ (List.mem_singleton_self _), hfwd.symm, hname.symm⟩
    | settled p hp =>
      subst hp
      have hminus : ∀ k, holders k e.post + (if p.forward = k then 1 else 0) =
          holders k e.pre := by
        intro k
        have h := hsum k
        simpa [Frame.holds, Frame.forward?] using h
      refine ⟨fun k => ?_, fun k hk => ?_, fun p' phase' hp' => ?_⟩
      · have h := hminus k
        have honce := hl.once k
        omega
      · have h := hminus k
        rw [hl.next k (hnf ▸ hk)] at h
        omega
      · rw [hin]
        have hpos := holders_pos hp' rfl
        have hne : p'.forward ≠ p.forward := by
          intro he
          have h := hminus p'.forward
          have honce := hl.once p'.forward
          rw [if_pos he.symm] at h
          omega
        rcases hmem _ hp' with hp' | hp'
        · obtain ⟨g, hg, hid, h⟩ := hold p' phase' hp'
          refine ⟨g, List.mem_filter.mpr ⟨hg, ?_⟩, hid, h⟩
          rw [hid]
          exact decide_eq_true hne
        · cases hp'
  | idle hres haw hw => rw [hw]; exact hl

end Listed

/-! ### An aborted forwarding relays nothing -/

/-- A forwarding that is aborted, or over. -/
def Cut (k : Nat) (w : World) : Prop :=
  k < w.shared.nextForward ∧ (w.shared.aborted k = true ∨ holders k w = 0)

theorem aborted_iff {b : Broker} {k : Nat} :
    b.aborted k = true ↔ ∃ f ∈ b.inflight, f.id = k ∧ f.aborted = true := by
  simp [Broker.aborted, List.any_eq_true]

theorem Cut.step {k : Nat} {e : Event} (hl : Listed e.pre) (hc : Cut k e.pre) : Cut k e.post := by
  obtain ⟨hlt, hc⟩ := hc
  have hsum := holders_step k e
  cases shifted e with
  | started hres hmarks hnew =>
    obtain ⟨⟨mark, hmark, hin⟩, hnext⟩ := hmarks
    refine ⟨hnext ▸ hlt, ?_⟩
    rcases hc with hc | hc
    · obtain ⟨f, hf, hid, ha⟩ := Iff.mp aborted_iff hc
      refine Or.inl (Iff.mpr aborted_iff ⟨mark f, hin ▸ List.mem_map_of_mem hf, ?_, ?_⟩)
      · rw [(hmark f).1, hid]
      · exact (hmark f).2.2 ha
    · refine Or.inr ?_
      have hnone : ((EventLoop.Event.awaits e).map (Frame.holds k)).getD 0 = 0 := by
        cases haw : EventLoop.Event.awaits e with
        | none => rfl
        | some g =>
          change (if Frame.forward? g = some k then 1 else 0) = 0
          rw [hnew g haw]
          rfl
      rw [hres, hnone] at hsum
      exact hsum.trans hc
  | resumed f hf hres hmoved =>
    rw [hres] at hsum
    have hab := aborted_iff (b := e.post.shared) (k := k)
    generalize hin : e.post.shared.inflight = inflight at hmoved hab
    generalize hnf : e.post.shared.nextForward = next' at hmoved
    generalize hnext : EventLoop.Event.awaits e = next at hmoved hsum
    cases hmoved with
    | kept next hkept =>
      refine ⟨hnf ▸ hlt, hc.imp (fun h => hab.mpr (Iff.mp aborted_iff h)) (fun h => ?_)⟩
      have hle : (next.map (Frame.holds k)).getD 0 ≤ Frame.holds k f := by
        cases next with
        | none => exact Nat.zero_le _
        | some g =>
          change Frame.holds k g ≤ _
          simp only [Frame.holds, (hkept g rfl).1, Nat.le_refl]
      have hsum : holders k e.post + Frame.holds k f =
          holders k e.pre + (next.map (Frame.holds k)).getD 0 := hsum
      omega
    | begun r p phase hr hfwd hname =>
      refine ⟨by rw [hnf]; exact Nat.lt_succ_of_lt hlt, hc.imp (fun h => ?_) (fun h => ?_)⟩
      · obtain ⟨g, hg, h⟩ := Iff.mp aborted_iff h
        exact hab.mpr ⟨g, List.mem_append_left _ hg, h⟩
      · subst hr
        have hsum : holders k e.post + 0 =
            holders k e.pre + if some p.forward = some k then 1 else 0 := hsum
        rw [if_neg (by rw [hfwd]; simp only [Option.some.injEq]; omega)] at hsum
        omega
    | settled p hp =>
      subst hp
      refine ⟨hnf ▸ hlt, ?_⟩
      have hsum : holders k e.post + (if some p.forward = some k then 1 else 0) =
          holders k e.pre + 0 := hsum
      by_cases hk : p.forward = k
      · rw [if_pos (congrArg some hk)] at hsum
        have honce := hl.once k
        exact Or.inr (by omega)
      · rw [if_neg (fun h => hk (Option.some.inj h))] at hsum
        refine hc.imp (fun h => ?_) (fun h => by omega)
        obtain ⟨g, hg, hid, ha⟩ := Iff.mp aborted_iff h
        refine hab.mpr ⟨g, List.mem_filter.mpr ⟨hg, ?_⟩, hid, ha⟩
        rw [hid]
        exact decide_eq_true (fun h => hk h.symm)
  | idle hres haw hw => rw [hw]; exact ⟨hlt, hc⟩

/-- The turn writes another chunk of the provider's answer to the client. -/
def Relays (e : Event) (k : Nat) : Prop :=
  ∃ p p' c, EventLoop.Event.resumed e = some (Frame.forwarding p .streaming) ∧ p.forward = k ∧
    EventLoop.Event.awaits e = some (Frame.forwarding p' (.writing c))

theorem Cut.not_relays {k : Nat} {e : Event} (hc : Cut k e.pre) : ¬ Relays e k := by
  rintro ⟨p, p', c, hres, hk, haw⟩
  obtain ⟨w, now, turn⟩ := e
  cases turn with
  | start c => cases hres
  | resume i a =>
    have hf : w.waiting[i]? = some (Frame.forwarding p .streaming) := hres
    have hr : (w.shared.resume (.forwarding p .streaming) a now).1 =
        some (.forwarding p' (.writing c)) := by
      have hrun : (EventLoop.run ⟨now, .resume i a⟩ w).1 = some (Frame.forwarding p' (.writing c)) :=
        haw
      simp only [EventLoop.run, hf] at hrun
      exact hrun
    have hpos : 1 ≤ holders k w := holders_pos (List.mem_of_getElem? hf) (congrArg some hk)
    rcases hc.2 with ha | hz
    · subst hk
      have hstop : w.shared.aborted p.forward = true ∨ ¬ w.shared.listening = true := Or.inl ha
      cases a with
      | chunk b =>
        simp only [Broker.resume, Broker.forwardStep] at hr
        rw [if_pos hstop] at hr
        cases hr
      | _ => cases hr
    · have hz : holders k w = 0 := hz
      omega

/-- The rotation of a name cuts all of its forwardings. -/
theorem cut_of_rotation {e : Event} (hl : Listed e.post) {c : Call} {name : String}
    (hs : e.call.turn = .start c) (hrot : e.pre.shared.rotates c e.call.now = some name)
    {p : Posted} {phase : Phase} (hp : Frame.forwarding p phase ∈ e.post.waiting)
    (hname : p.principal = name) : Cut p.forward e.post := by
  refine ⟨?_, Or.inl ?_⟩
  · have hpos := holders_pos hp rfl
    by_contra hle
    have := hl.next p.forward (Nat.le_of_not_lt hle)
    omega
  · obtain ⟨f, hf, hid, hn⟩ := hl.listed p phase hp
    refine Iff.mpr aborted_iff ⟨f, hf, hid, ?_⟩
    obtain ⟨w, now, turn⟩ := e
    cases hs
    exact Broker.rotates_aborts hrot f hf (hn.trans hname)

end Solvio.ProviderBroker
