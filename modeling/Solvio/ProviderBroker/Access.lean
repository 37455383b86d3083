import Solvio.ProviderBroker.Abort
import Solvio.ProviderBroker.InFlight

namespace Solvio.ProviderBroker
open Solvio.Lib

namespace Registry

def token (r : Registry) (name : String) : Option String :=
  (r.principal? name).map Principal.token

/-- An entry of the token table holds the current token of its principal. -/
def TokensHold (r : Registry) : Prop :=
  ∀ t name, (t, name) ∈ r.byToken → t ≠ "" → r.token name = some t

/-- Whatever else has changed, the tokens have not. -/
structure SameTokens (r r' : Registry) : Prop where
  byToken : r'.byToken = r.byToken
  token : ∀ name, r'.token name = r.token name

namespace SameTokens

theorem refl (r : Registry) : SameTokens r r := ⟨rfl, fun _ => rfl⟩

theorem trans {r r' r'' : Registry} (h : SameTokens r r') (h' : SameTokens r' r'') :
    SameTokens r r'' :=
  ⟨h'.byToken.trans h.byToken, fun name => (h'.token name).trans (h.token name)⟩

theorem modify (r : Registry) (n : String) (f : Principal → Principal) (hf)
    (h : ∀ p, (f p).token = p.token) : SameTokens r (r.modify n f hf) where
  byToken := rfl
  token name := by
    simp only [Registry.token, principal_modify]
    split
    · rename_i hk
      rw [Option.map_map, hk]
      exact congrArg (fun g => Option.map g (r.principal? n)) (funext h)
    · rfl

theorem hold {r r' : Registry} (h : SameTokens r r') (ht : r.TokensHold) : r'.TokensHold :=
  fun t name hm hne => (h.token name).trans (ht t name (h.byToken ▸ hm) hne)

end SameTokens

def leases (r : Registry) (name : String) : List Lease :=
  ((r.principal? name).map Principal.leases).getD []

/-- Neither the tokens nor the leases have changed. -/
structure SameAccess (r r' : Registry) : Prop extends SameTokens r r' where
  leases : ∀ name, r'.leases name = r.leases name

namespace SameAccess

theorem refl (r : Registry) : SameAccess r r := ⟨.refl r, fun _ => rfl⟩

theorem trans {r r' r'' : Registry} (h : SameAccess r r') (h' : SameAccess r' r'') :
    SameAccess r r'' :=
  ⟨h.toSameTokens.trans h'.toSameTokens, fun name => (h'.leases name).trans (h.leases name)⟩

theorem modify (r : Registry) (n : String) (f : Principal → Principal) (hf)
    (ht : ∀ p, (f p).token = p.token) (hl : ∀ p, (f p).leases = p.leases) :
    SameAccess r (r.modify n f hf) where
  toSameTokens := .modify r n f hf ht
  leases name := by
    simp only [Registry.leases, principal_modify]
    split
    · rename_i hk
      rw [Option.map_map, hk]
      exact congrArg (fun g => (Option.map g (r.principal? n)).getD []) (funext hl)
    · rfl

end SameAccess

theorem put_token (l : Lease) (p : Principal) : (p.putLease l).token = p.token := by
  unfold Principal.putLease
  split <;> rfl

theorem roll_token (p : Principal) (now : Time) : (p.rollDay now).token = p.token := by
  unfold Principal.rollDay
  split <;> rfl

theorem admission_token (p : Principal) (now : Time) : (p.admission now).2.token = p.token := by
  rw [← roll_token p now]
  simp only [Principal.admission]
  split_ifs <;> rfl

theorem precharge_token (p : Principal) (estimate : Nat) (now : Time) :
    (p.precharge estimate now).2.token = p.token := by
  rw [← roll_token p now]
  simp only [Principal.precharge]
  split_ifs <;> rfl

theorem open_tokens (r : Registry) (name ref : String) (deadline now : Time) (leaseId : String) :
    SameTokens r (r.openLease name ref deadline now leaseId).2 := by
  unfold openLease
  split
  · exact .refl r
  · have hexpire : SameTokens r (r.modify name (·.expire now) (fun _ => rfl)) :=
      .modify _ _ _ _ (fun _ => rfl)
    split
    · exact hexpire
    · exact hexpire.trans (.modify _ _ _ _ (put_token _))

theorem close_tokens (r : Registry) (leaseId : String) (now : Time) :
    SameTokens r (r.closeLease leaseId now).2 := by
  unfold closeLease
  split
  · exact .refl r
  · exact .modify _ _ _ _ (fun _ => rfl)

theorem live_tokens (r : Registry) (name : String) (now : Time) :
    SameTokens r (r.hasLiveLease name now).2 := by
  unfold hasLiveLease
  split
  · exact .refl r
  · exact .modify _ _ _ _ (fun _ => rfl)

theorem token_register (r : Registry) (n : String) (caps : Option Caps) (t name : String) :
    (r.register n caps t).token name = if name = n then some t else r.token name := by
  simp only [token, principal_register]
  split
  · cases r.principal? n <;> rfl
  · rfl

theorem mem_register {r : Registry} {n : String} {caps : Option Caps} {t t' name : String} :
    (t', name) ∈ (r.register n caps t).byToken →
      (t', name) = (t, n) ∨ (t', name) ∈ r.byToken ∧
        (((r.principal? n).map Principal.token).getD "" ≠ "" →
          t' ≠ ((r.principal? n).map Principal.token).getD "") := by
  intro h
  simp only [register, List.mem_append, List.mem_filter, List.mem_singleton] at h
  rcases h with ⟨h, -⟩ | h
  · split at h
    · rename_i hold
      exact Or.inr ⟨h, fun hne => absurd hold hne⟩
    · obtain ⟨hm, hne⟩ := List.mem_filter.mp h
      exact Or.inr ⟨hm, fun _ => of_decide_eq_true hne⟩
  · exact Or.inl h

/-- A fresh token leaves no entry of the old one. -/
theorem register_hold {r : Registry} (ht : r.TokensHold) (n : String) (caps : Option Caps)
    (t : String) : (r.register n caps t).TokensHold := by
  intro t' name hm hne
  rw [token_register]
  rcases mem_register hm with h | ⟨hm, hold⟩
  · cases h
    exact if_pos rfl
  · have hcur := ht t' name hm hne
    split
    · rename_i hk
      subst hk
      have hold' : ((r.principal? name).map Principal.token).getD "" = t' := by
        rw [show (r.principal? name).map Principal.token = some t' from hcur]
        rfl
      rw [hold'] at hold
      exact absurd rfl (hold hne)
    · exact hcur

end Registry

namespace Broker

/-- The name whose token a call replaces. -/
def revokes (b : Broker) (c : Call) (now : Time) : Option String :=
  match c with
  | .registerPrincipal name _ _ _ => some name
  | c => b.rotates c now

theorem admitted_tokens (b : Broker) (p : Principal) (now : Time) :
    b.registry.SameTokens (b.admitted p now).2.registry := by
  unfold admitted
  simp only
  split
  · exact (Registry.live_tokens ..).trans
      (.modify _ _ _ _ (fun q => Registry.admission_token q now))
  · exact Registry.live_tokens ..

def mints : Call → Option String
  | .registerPrincipal _ token _ _ | .closeLease _ token | .rotateNow _ token => some token
  | _ => none

/-- What a call does to the tokens: nothing, or one name gets the fresh one. -/
inductive Grants (b : Broker) (c : Call) (now : Time) (r' : Registry) : Prop
  | same : b.revokes c now = none → b.registry.SameTokens r' → Grants b c now r'
  | minted (r : Registry) (caps : Option Caps) (name token : String) :
      b.revokes c now = some name → mints c = some token → b.registry.SameTokens r →
      (r.register name caps token).SameTokens r' → Grants b c now r'

theorem start_grants (b : Broker) (c : Call) (now : Time) :
    Grants b c now (b.start c now).2.registry := by
  cases c with
  | forward req =>
    simp only [start, handleForward]
    split
    · exact .same rfl (.refl _)
    · rename_i p _
      split <;> exact .same rfl (b.admitted_tokens p now)
  | anthropic req configured =>
    simp only [start, handleAnthropic]
    split
    · exact .same rfl (.refl _)
    · rename_i p _
      split
      · exact .same rfl (.refl _)
      · split <;> exact .same rfl (b.admitted_tokens p now)
  | models req =>
    simp only [start, handleModels]
    split
    · exact .same rfl (.refl _)
    · exact .same rfl (.modify _ _ _ _ (fun q => Registry.admission_token q now))
  | registerPrincipal name token requests tokens =>
    exact .minted b.registry (some (registeredCaps name)) name token rfl rfl (.refl _)
      (.modify _ _ _ _ (fun _ => rfl))
  | openLease name ref deadline leaseId => exact .same rfl (Registry.open_tokens ..)
  | closeLease leaseId token =>
    have hclose := Registry.close_tokens b.registry leaseId now
    simp only [start]
    split
    · rename_i hnone
      exact .same (by simp [revokes, rotates, hnone]) hclose
    · rename_i name hdrained
      simp only
      split
      · rename_i hempty
        exact .same (by simp [revokes, rotates, hdrained, hempty]) hclose
      · rename_i hne
        refine .minted _ none name token ?_ rfl hclose (.refl _)
        exact Option.filter_eq_some_iff.mpr ⟨hdrained, decide_eq_true hne⟩
  | rotateNow name token =>
    exact .minted b.registry none name token rfl rfl (.refl _) (.refl _)
  | stop => exact .same rfl (.refl _)

/-- A new task replaces no token but that of the name it revokes. -/
theorem start_tokens {b : Broker} (ht : b.registry.TokensHold) (c : Call) (now : Time) :
    (b.start c now).2.registry.TokensHold ∧ ∀ k, b.revokes c now ≠ some k →
      (b.start c now).2.registry.token k = b.registry.token k := by
  cases b.start_grants c now with
  | same _ h => exact ⟨h.hold ht, fun k _ => h.token k⟩
  | minted r caps name token hrev _ hr hr' =>
    refine ⟨hr'.hold (Registry.register_hold (hr.hold ht) name caps token), fun k hk => ?_⟩
    rw [hr'.token, Registry.token_register, if_neg (fun h => hk (by rw [hrev, h])), hr.token]

theorem precharge_leases (p : Principal) (estimate : Nat) (now : Time) :
    (p.precharge estimate now).2.leases = p.leases := by
  have hroll : (p.rollDay now).leases = p.leases := by
    unfold Principal.rollDay
    split <;> rfl
  simp only [Principal.precharge]
  split
  · exact hroll
  · exact hroll

theorem replace_leases (p : Principal) (estimate reported : Nat) (now : Time) :
    (p.replaceEstimate estimate reported now).leases = p.leases := by
  change (p.rollDay now).leases = p.leases
  unfold Principal.rollDay
  split <;> rfl

/-- A resumed request leaves tokens and leases alone. -/
theorem resume_access (b : Broker) (f : Frame) (a : Answer) (now : Time) :
    b.registry.SameAccess (b.resume f a now).2.registry := by
  have hplace : ∀ (b : Broker) (name : String) (g : Principal → Principal) hf,
      (∀ p, (g p).token = p.token) → (∀ p, (g p).leases = p.leases) →
        b.registry.SameAccess (b.setPrincipal name g hf).registry :=
    fun b name g hf h hl => .modify _ _ _ _ h hl
  cases f with
  | reading r =>
    cases a with
    | read chunk credential =>
      simp only [resume, readBody]
      split
      · unfold bodyRead
        simp only
        split
        · exact .refl _
        · split
          · exact .refl _
          · have hpre := fun b name estimate => hplace b name
              (fun p => (p.precharge estimate r.moment).2)
              (Principal.precharge_name estimate r.moment)
              (fun q => Registry.precharge_token q _ _) (fun q => precharge_leases q _ _)
            split
            · exact hpre _ _ _
            · exact (hpre _ _ _).trans (hplace _ _ _ _ (fun _ => rfl) (fun _ => rfl))
      · split <;> exact .refl _
    | _ => exact .refl _
  | forwarding p phase =>
    have hsettle : b.registry.SameAccess (b.settle p).registry := by
      unfold settle
      simp only
      split
      · exact hplace _ _ _ _ (fun _ => rfl) (fun _ => rfl)
      · exact (hplace { b with inflight := b.inflight.filter (fun f => f.id ≠ p.forward) }
          p.principal (fun q => { q with inflight := q.inflight - 1 }) (fun _ => rfl)
          (fun _ => rfl) (fun _ => rfl)).trans (hplace _ _ _ _
            (fun q => Registry.roll_token q _) (fun q => replace_leases q _ _ _))
    cases phase with
    | streaming =>
      cases a with
      | chunk c =>
        simp only [resume, forwardStep]
        split <;> exact .refl _
      | _ => exact .refl _
    | closing =>
      cases a with
      | cancelled => exact .refl _
      | _ => exact hsettle
    | _ => cases a <;> exact .refl _

theorem resume_tokens (b : Broker) (f : Frame) (a : Answer) (now : Time) :
    b.registry.SameTokens (b.resume f a now).2.registry := (b.resume_access f a now).toSameTokens

theorem authenticate_token {b : Broker} (ht : b.registry.TokensHold) {req : Request}
    {p : Principal} (h : b.authenticate req = some p) :
    ∃ t, req.presented = some t ∧ b.registry.token p.name = some t := by
  obtain ⟨t, name, hm, hpresented, hp⟩ := authenticate_some h
  have hne : t ≠ "" := by
    rintro rfl
    rw [authenticate, hpresented] at h
    cases h
  refine ⟨t, hpresented, ?_⟩
  rw [principal_name hp]
  exact ht t name hm hne

theorem start_authenticated {b : Broker} {c : Call} {now : Time} {f : Frame}
    (h : (b.start c now).1 = some f) : ∃ r p, f = .reading r ∧ r.principal = p.name ∧
      b.authenticate r.request = some p ∧ b.revokes c now = none := by
  cases c with
  | forward req =>
    simp only [start, handleForward] at h
    split at h
    · cases h
    · rename_i p hp
      split at h <;> cases h
      exact ⟨_, p, rfl, rfl, hp, rfl⟩
  | anthropic req configured =>
    simp only [start, handleAnthropic] at h
    split at h
    · cases h
    · rename_i p hp
      split at h
      · cases h
      · split at h <;> cases h
        exact ⟨_, p, rfl, rfl, hp, rfl⟩
  | closeLease leaseId token =>
    simp only [start] at h
    split at h <;> cases h
  | _ => cases h

end Broker

/-! ### What a post needs -/

/-- The turn posts a request to the provider. -/
def Posts (e : Event) (p : Posted) : Prop :=
  ∃ r, EventLoop.Event.resumed e = some (Frame.reading r) ∧
    EventLoop.Event.awaits e = some (Frame.forwarding p .posting)

/-- The principal of a request loses its access while the request's body is
read: its token is replaced, or its last lease is over. -/
def withdrawn (e : Event) : Bool :=
  e.pre.waiting.any fun f => match f with
    | Frame.reading r =>
      (match e.call.turn with
        | .start c => decide (e.pre.shared.revokes c e.call.now = some r.principal)
        | .resume _ _ => false) ||
      !(e.pre.shared.registry.hasLiveLease r.principal e.call.now).1
    | Frame.forwarding _ _ => false

structure AccessBound (h : List Event) : Prop where
  /-- A request is posted with a live lease and its principal's current token. -/
  posted : ∀ newer e older p, h = newer ++ e :: older → Posts e p →
    (e.pre.shared.registry.hasLiveLease p.principal e.call.now).1 = true ∧
      ∃ t, p.request.presented = some t ∧ e.pre.shared.registry.token p.principal = some t
  /-- What was posted before a rotation relays nothing after it. -/
  relayed : ∀ newer e older c name p phase, h = newer ++ e :: older → e.call.turn = .start c →
    e.pre.shared.rotates c e.call.now = some name → Frame.forwarding p phase ∈ e.post.waiting →
    p.principal = name → ∀ n ∈ newer, ¬ Relays n p.forward

/-- A request whose body is read has its principal's current token. -/
structure Held (w : World) : Prop where
  tokens : w.shared.registry.TokensHold
  reading : ∀ r, Frame.reading r ∈ w.waiting → ∃ t, r.request.presented = some t ∧
    w.shared.registry.token r.principal = some t

theorem not_withdrawn {e : Event} (hn : withdrawn e = false) {r : Reading}
    (hr : Frame.reading r ∈ e.pre.waiting) :
    (e.pre.shared.registry.hasLiveLease r.principal e.call.now).1 = true ∧
      ∀ c, e.call.turn = .start c → e.pre.shared.revokes c e.call.now ≠ some r.principal := by
  have h := List.any_eq_false.mp hn _ hr
  simp only [Bool.or_eq_true, Bool.not_eq_true', not_or] at h
  refine ⟨by simpa using h.2, fun c hc => ?_⟩
  have h1 := h.1
  rw [hc] at h1
  simpa using h1

namespace Held

theorem init : Held broker.machine.init where
  tokens t name h := by cases h
  reading r h := by cases h

theorem step {e : Event} (hh : Held e.pre) (hn : withdrawn e = false) : Held e.post := by
  have hmem : ∀ g ∈ e.post.waiting, g ∈ e.pre.waiting ∨ EventLoop.Event.awaits e = some g :=
    fun g hg => EventLoop.mem_waiting hg
  obtain ⟨w, s⟩ := e
  change Held (EventLoop.run s w).2
  have haw : EventLoop.Event.awaits (⟨w, s⟩ : Event) = (EventLoop.run s w).1 := rfl
  rcases EventLoop.run_cases s w with ⟨c, hs, hr⟩ | ⟨i, a, f, before, behind, hs, hf, -, hr⟩ |
    ⟨i, a, hs, hf, hr⟩
  · have hpost : (EventLoop.run s w).2.shared = (w.shared.start c s.now).2 := by rw [hr]; rfl
    obtain ⟨hold, hother⟩ := w.shared.start_tokens hh.tokens c s.now
    refine ⟨hpost ▸ hold, fun r hr' => ?_⟩
    rw [hpost]
    rcases hmem _ hr' with hr' | hr'
    · rw [hother r.principal ((not_withdrawn hn hr').2 c hs)]
      exact hh.reading r hr'
    · rw [haw, hr] at hr'
      obtain ⟨r, p, h, hname, hauth, hnone⟩ := Broker.start_authenticated hr'
      cases h
      rw [hother r.principal (by rw [hnone]; exact fun h => by cases h), hname]
      exact Broker.authenticate_token hh.tokens hauth
  · have hpost : (EventLoop.run s w).2.shared = (w.shared.resume f a s.now).2 := by rw [hr]; rfl
    have hsame := w.shared.resume_tokens f a s.now
    refine ⟨hpost ▸ hsame.hold hh.tokens, fun r hr' => ?_⟩
    rw [hpost, hsame.token]
    rcases hmem _ hr' with hr' | hr'
    · exact hh.reading r hr'
    · have hres := w.shared.resume_books f a s.now
      rw [haw, hr] at hr'
      rw [show (w.shared.resume f a s.now).1 = some (.reading r) from hr'] at hres
      generalize (w.shared.resume f a s.now).2.books = o at hres
      cases hres with
      | goes g hcont =>
        cases hcont with
        | reading r₀ body => exact hh.reading r₀ (List.mem_of_getElem? hf)
  · rw [hr]
    exact hh

end Held

/-- A posted request is the one whose body has just ended. -/
theorem Posts.request {e : Event} {p : Posted} (h : Posts e p) :
    ∃ r, Frame.reading r ∈ e.pre.waiting ∧ p.request = r.request ∧ p.principal = r.principal := by
  obtain ⟨r, hres, haw⟩ := h
  refine ⟨r, ?_⟩
  rcases turned e with ⟨c, -, hnone, -, -⟩ | ⟨i, a, f, -, hf, hf', hb⟩ | ⟨i, a, -, -, hnone, -, -⟩
  · rw [hnone] at hres
    cases hres
  · rw [hf'] at hres
    cases hres
    rw [haw] at hb
    generalize World.books e.post = o at hb
    cases hb with
    | goes g hcont => cases hcont
    | precharged r' q p' phase hr _ _ hreq hp _ _ _ =>
      cases hr
      exact ⟨List.mem_of_getElem? hf, hreq, hp⟩
  · rw [hnone] at hres
    cases hres

section runs
variable {permits : List Event → EventLoop.Step broker → Prop} {h : List Event} {w : World}

theorem listed_reach (hrun : broker.machine.Run permits h w) : Listed w :=
  hrun.invariant Listed .init (fun _ w s _ hl => Listed.step (e := ⟨w, s⟩) hl)

theorem held_reach (hrun : broker.machine.Run permits h w) (hn : ∀ e ∈ h, withdrawn e = false) :
    Held w := by
  refine hrun.induct (fun h w => (∀ e ∈ h, withdrawn e = false) → Held w) (fun _ => .init) ?_ hn
  intro h w s _ _ ih hall
  obtain ⟨hs, hall⟩ := List.forall_mem_cons.mp hall
  exact (ih hall).step (e := ⟨w, s⟩) hs

/-- What is cut at a step stays cut. -/
theorem cut_reach {newer older : List Event} {e : Event} {k : Nat}
    (hrun : broker.machine.Run permits (newer ++ e :: older) w) (hc : Cut k e.post) : Cut k w := by
  refine (hrun.carried (Cut k) hc (fun n hn hpre => ?_)).1
  obtain ⟨newer', older', hcut, hr, -⟩ := hrun.of_mem (List.mem_append_left (e :: older) hn)
  exact hpre.step (listed_reach hr)

/-- In a run in which no principal loses its access while it sends a body,
nothing is posted without it; and after a rotation nothing is relayed. -/
theorem access_bound (hrun : broker.machine.Run permits h w)
    (hn : ∀ e ∈ h, withdrawn e = false) : AccessBound h where
  posted newer e older p hh hposts := by
    subst hh
    obtain ⟨r, hr, hreq, hp⟩ := hposts.request
    rw [hreq, hp]
    have hheld := held_reach hrun.split.1 (fun k hk => hn k (by simp [hk]))
    exact ⟨(not_withdrawn (hn e (by simp)) hr).1, hheld.reading r hr⟩
  relayed newer e older c name p phase hh hs hrot hp hname n hmem := by
    subst hh
    obtain ⟨later, between, rfl⟩ := List.append_of_mem hmem
    rw [List.append_assoc, List.cons_append] at hrun
    obtain ⟨hr, -⟩ := hrun.split
    obtain ⟨hr', hperm⟩ := hr.split
    have hcut := cut_of_rotation (listed_reach (hr'.step hperm)) hs hrot hp hname
    exact (cut_reach hr hcut).not_relays

end runs

/-! ### A token that is void before the post -/

def voidPost (e : Event) : Bool :=
  match EventLoop.Event.resumed e, EventLoop.Event.awaits e with
  | some (Frame.reading _), some (Frame.forwarding p .posting) =>
    decide (p.request.presented ≠ e.pre.shared.registry.token p.principal)
  | _, _ => false

theorem not_access_bound {e : Event} {older : List Event} (hv : voidPost e = true) :
    ¬ AccessBound (e :: older) := by
  intro ha
  unfold voidPost at hv
  split at hv
  · rename_i r p hres haw
    obtain ⟨-, t, ht, htoken⟩ := ha.posted [] e older p rfl ⟨r, hres, haw⟩
    rw [ht, htoken] at hv
    simp at hv
  · cases hv

/-- The only lease is closed while the body is read. -/
def sampleClosed : List (EventLoop.Step broker) :=
  [⟨0, .start (Call.registerPrincipal "agent-runtime-escalation" "k" 0 0)⟩,
    ⟨0, .start (Call.openLease "agent-runtime-escalation" "task" sampleDay "lease-1")⟩,
    ⟨0, .start (Call.forward sampleRequest)⟩,
    ⟨0, .resume 0 (Answer.read sampleEscalationBody false)⟩,
    ⟨0, .start (Call.closeLease "lease-1" "k2")⟩]

def sampleBodyEnd : EventLoop.Step broker := ⟨0, .resume 0 (Answer.read [] false)⟩

theorem sample_void_post :
    voidPost ⟨broker.machine.after broker.machine.init sampleClosed, sampleBodyEnd⟩ = true := by
  decide +kernel

/-- A request is posted with a token that is void, for a job that is over. -/
theorem posted_without_access : ∃ h w, Run h w ∧ ¬ AccessBound h := by
  refine ⟨_, _, run_of_calls (sampleClosed ++ [sampleBodyEnd]) (by decide) (by decide), ?_⟩
  rw [Machine.history_concat]
  exact not_access_bound sample_void_post

theorem sample_queue_held : ∀ e ∈ broker.machine.history [] broker.machine.init sampleQueue,
    withdrawn e = false := by
  decide +kernel

theorem access_bound_sample :
    AccessBound (broker.machine.history [] broker.machine.init sampleQueue) :=
  access_bound (run_of_calls sampleQueue (by decide) (by decide)) sample_queue_held

end Solvio.ProviderBroker
