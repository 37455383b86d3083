import Solvio.ProviderBroker.Access

namespace Solvio.ProviderBroker
open Solvio.Lib

/-- The token that a step draws. -/
def draws (s : EventLoop.Step broker) : Option String :=
  match s.turn with
  | .start c => Broker.mints c
  | .resume _ _ => none

/-- The lease that a step asks for, and for whom. -/
def leased (s : EventLoop.Step broker) : Option (String × String) :=
  match s.turn with
  | .start (Call.openLease name _ _ leaseId) => some (leaseId, name)
  | _ => none

/-- Tokens and lease ids are random: nothing is drawn twice. -/
structure Minted (h : List Event) (s : EventLoop.Step broker) : Prop where
  tokens : ∀ t, draws s = some t → t ≠ "" ∧ ∀ e ∈ h, draws e.call ≠ some t
  ids : ∀ l name, leased s = some (l, name) → ∀ e ∈ h, ∀ name', leased e.call ≠ some (l, name')

/-- The name that gets a token in this turn, and the token. -/
def grants (e : Event) : Option (String × String) :=
  match e.call.turn with
  | .start c => (e.pre.shared.revokes c e.call.now).bind
      (fun name => (Broker.mints c).map (fun t => (name, t)))
  | .resume _ _ => none

namespace Registry

def leaseOpen (r : Registry) (name l : String) (now : Time) : Bool :=
  (r.leases name).any (fun m => m.leaseId = l && !m.expired now)

def listed (r : Registry) (name l : String) : Bool := (r.leases name).any (fun m => m.leaseId = l)

def live (r : Registry) (name : String) (now : Time) : Bool :=
  (r.leases name).any (fun m => !m.expired now)

def otherLive (r : Registry) (name l : String) (now : Time) : Bool :=
  (r.leases name).any (fun m => m.leaseId ≠ l && !m.expired now)

end Registry

/-- A token that resolved to the principal while the lease was open. -/
def ResolvedDuring (older : List Event) (name l t : String) : Prop :=
  ∃ n ∈ older, n.post.shared.registry.leaseOpen name l n.call.now = true ∧
    ∃ p, n.post.shared.registry.resolve t = some p ∧ p.name = name

/-- After a close that leaves no live lease, no token of the lease's time
resolves. -/
def Closed (older : List Event) (e : Event) (name l : String) : Prop :=
  e.post.shared.registry.live name e.call.now = false →
    ∀ t, ResolvedDuring older name l t → e.post.shared.registry.resolve t = none

/-- The close finds its lease, or another one is live, or the token is not one
of the lease's time any more. -/
def Timely (older : List Event) (e : Event) (name l : String) : Prop :=
  (e.pre.shared.registry.listed name l = true ∧ name ≠ "") ∨
    e.pre.shared.registry.otherLive name l e.call.now = true ∨
    ∀ n ∈ older, n.post.shared.registry.leaseOpen name l n.call.now = true →
      n.post.shared.registry.token name ≠ e.pre.shared.registry.token name

/-! ### One token for one principal -/

/-- The entries of the token table are the current tokens, each granted once. -/
structure OneToken (h : List Event) (r : Registry) : Prop where
  hold : ∀ t name, (t, name) ∈ r.byToken → r.token name = some t
  listed : ∀ t name, r.token name = some t → (t, name) ∈ r.byToken
  granted : ∀ t name, (t, name) ∈ r.byToken → ∃ e ∈ h, grants e = some (name, t)
  once : ∀ e ∈ h, ∀ n ∈ h, ∀ t name name', grants e = some (name, t) → grants n = some (name', t) →
    name = name'
  drawn : ∀ e ∈ h, ∀ t name, grants e = some (name, t) → t ≠ "" ∧ draws e.call = some t

theorem grants_draws {e : Event} {t name : String} (hg : grants e = some (name, t)) :
    draws e.call = some t := by
  unfold grants at hg
  split at hg
  · rename_i c hc
    obtain ⟨n, -, hn⟩ := Option.bind_eq_some_iff.mp hg
    obtain ⟨t', ht', hp⟩ := Option.map_eq_some_iff.mp hn
    cases hp
    simp only [draws, hc, ht']
  · cases hg

/-- What a turn does to the token table. -/
inductive TokenTurn (e : Event) : Prop
  | same : grants e = none → e.pre.shared.registry.SameTokens e.post.shared.registry → TokenTurn e
  | minted (r : Registry) (caps : Option Caps) (name token : String) :
      grants e = some (name, token) → e.pre.shared.registry.SameTokens r →
      (r.register name caps token).SameTokens e.post.shared.registry → TokenTurn e

theorem tokenTurn (e : Event) : TokenTurn e := by
  obtain ⟨w, s⟩ := e
  rcases EventLoop.run_cases s w with ⟨c, hs, hr⟩ | ⟨i, a, f, before, behind, hs, hf, -, hr⟩ |
    ⟨i, a, hs, hf, hr⟩
  · have hpost : (Machine.Entry.post (⟨w, s⟩ : Event)).shared = (w.shared.start c s.now).2 :=
      congrArg (fun r => EventLoop.World.shared (Prod.snd r)) hr
    cases w.shared.start_grants c s.now with
    | same hrev h =>
      refine .same ?_ (by rw [hpost]; exact h)
      simp only [grants, hs, hrev]
      rfl
    | minted r caps name token hrev hm h h' =>
      refine .minted r caps name token ?_ h (by rw [hpost]; exact h')
      simp only [grants, hs, hrev, hm, Option.bind_some, Option.map_some]
  · have hpost : (Machine.Entry.post (⟨w, s⟩ : Event)).shared = (w.shared.resume f a s.now).2 :=
      congrArg (fun r => EventLoop.World.shared (Prod.snd r)) hr
    refine .same (by simp only [grants, hs]) ?_
    rw [hpost]
    exact w.shared.resume_tokens f a s.now
  · have hpost : Machine.Entry.post (⟨w, s⟩ : Event) = w := congrArg Prod.snd hr
    refine .same (by simp only [grants, hs]) ?_
    rw [hpost]
    exact .refl _

namespace Registry

/-- A registration with a fresh token leaves it, and the others' own. -/
theorem listed_register {r : Registry} {n t : String} {caps : Option Caps}
    (hl : ∀ t name, r.token name = some t → (t, name) ∈ r.byToken)
    (hu : ∀ t k k', (t, k) ∈ r.byToken → (t, k') ∈ r.byToken → k = k')
    (hfresh : ∀ k, (t, k) ∉ r.byToken) {t' k : String}
    (hk : (r.register n caps t).token k = some t') :
    (t', k) ∈ (r.register n caps t).byToken := by
  rw [token_register] at hk
  simp only [register, List.mem_append, List.mem_filter, List.mem_singleton]
  split at hk
  · rename_i hkn
    cases hk
    exact Or.inr (by rw [hkn])
  · rename_i hkn
    have hm := hl t' k hk
    have hne : t' ≠ t := fun he => hfresh k (he ▸ hm)
    refine Or.inl ⟨?_, decide_eq_true hne⟩
    split
    · exact hm
    · rename_i hold
      refine List.mem_filter.mpr ⟨hm, decide_eq_true (fun he => hkn ?_)⟩
      have he : t' = ((r.principal? n).map Principal.token).getD "" := he
      cases hp : r.principal? n with
      | none =>
        rw [hp] at hold
        exact absurd rfl hold
      | some p =>
        have htok : r.token n = some t' := by
          rw [token, hp, he, hp]
          rfl
        exact hu t' k n hm (hl t' n htok)

end Registry

namespace OneToken

variable {h : List Event} {r : Registry}

theorem unique (ho : OneToken h r) {t n n' : String} (hm : (t, n) ∈ r.byToken)
    (hm' : (t, n') ∈ r.byToken) : n = n' := by
  obtain ⟨e, he, hg⟩ := ho.granted t n hm
  obtain ⟨e', he', hg'⟩ := ho.granted t n' hm'
  exact ho.once e he e' he' t n n' hg hg'

theorem resolve_some (ho : OneToken h r) {t name : String} {p : Principal}
    (hm : (t, name) ∈ r.byToken) (hp : r.principal? name = some p) : r.resolve t = some p := by
  have hne : t ≠ "" := by
    obtain ⟨e, he, hg⟩ := ho.granted t name hm
    exact (ho.drawn e he t name hg).1
  have hfold : ∀ (es : List (String × String)) (found : Option Principal),
      (∀ e ∈ es, e ∈ r.byToken) → (found = some p ∨ (t, name) ∈ es) →
      es.foldl (fun found e => if e.1 = t then r.principal? e.2 else found) found = some p := by
    intro es
    induction es with
    | nil =>
      intro found _ hor
      exact hor.resolve_right (fun hm => by cases hm)
    | cons e es ih =>
      intro found hes hor
      refine ih _ (fun e' he' => hes e' (List.mem_cons_of_mem e he')) ?_
      by_cases he : e.1 = t
      · have hname : e.2 = name := ho.unique (he ▸ hes e (List.mem_cons_self ..)) hm
        exact Or.inl (by simp only [if_pos he, hname, hp])
      · simp only [if_neg he]
        refine hor.imp_right (fun hin => ?_)
        rcases List.mem_cons.mp hin with rfl | hin
        · exact absurd rfl he
        · exact hin
  unfold Registry.resolve
  rw [if_neg hne]
  exact hfold _ _ (fun e he => he) (Or.inr hm)

theorem same {r' : Registry} (ho : OneToken h r) (hs : r.SameTokens r') : OneToken h r' where
  hold t name hm := (hs.token name).trans (ho.hold t name (hs.byToken ▸ hm))
  listed t name ht := by
    rw [hs.byToken]
    exact ho.listed t name ((hs.token name).symm.trans ht)
  granted t name hm := ho.granted t name (hs.byToken ▸ hm)
  once := ho.once
  drawn := ho.drawn

/-- A turn that grants nothing. -/
theorem older {e : Event} (ho : OneToken h r) (hg : grants e = none) : OneToken (e :: h) r where
  hold := ho.hold
  listed := ho.listed
  granted t name hm := by
    obtain ⟨n, hn, hg⟩ := ho.granted t name hm
    exact ⟨n, List.mem_cons_of_mem e hn, hg⟩
  once n hn n' hn' t name name' hg1 hg2 := by
    rcases List.mem_cons.mp hn with rfl | hn
    · rw [hg] at hg1
      cases hg1
    · rcases List.mem_cons.mp hn' with rfl | hn'
      · rw [hg] at hg2
        cases hg2
      · exact ho.once n hn n' hn' t name name' hg1 hg2
  drawn n hn t name hg1 := by
    rcases List.mem_cons.mp hn with rfl | hn
    · rw [hg] at hg1
      cases hg1
    · exact ho.drawn n hn t name hg1

/-- No name had the token that is drawn now. -/
theorem unheard {e : Event} (ho : OneToken h r) (hm : Minted h e.call) {t name : String}
    (hg : grants e = some (name, t)) : ∀ n ∈ h, ∀ k, grants n ≠ some (k, t) :=
  fun n hn k hk => (hm.tokens t (grants_draws hg)).2 n hn (ho.drawn n hn t k hk).2

theorem register {e : Event} (ho : OneToken h r) (hm : Minted h e.call) {caps : Option Caps}
    {t name : String} (hg : grants e = some (name, t)) :
    OneToken (e :: h) (r.register name caps t) where
  hold t' k hmem := by
    have hhold : r.TokensHold := fun t k hm _ => ho.hold t k hm
    refine Registry.register_hold hhold name caps t t' k hmem ?_
    rcases Registry.mem_register hmem with h' | ⟨hold, -⟩
    · cases h'
      exact (hm.tokens t (grants_draws hg)).1
    · obtain ⟨n, hn, hgn⟩ := ho.granted t' k hold
      exact (ho.drawn n hn t' k hgn).1
  listed t' k hk := by
    refine Registry.listed_register ho.listed (fun t k k' => ho.unique) (fun k hm' => ?_) hk
    obtain ⟨n, hn, hgn⟩ := ho.granted t k hm'
    exact ho.unheard hm hg n hn k hgn
  granted t' k hmem := by
    rcases Registry.mem_register hmem with h' | ⟨hold, -⟩
    · cases h'
      exact ⟨e, List.mem_cons_self .., hg⟩
    · obtain ⟨n, hn, hgn⟩ := ho.granted t' k hold
      exact ⟨n, List.mem_cons_of_mem e hn, hgn⟩
  once n hn n' hn' t' k k' hg1 hg2 := by
    rcases List.mem_cons.mp hn with rfl | hold
    · rcases List.mem_cons.mp hn' with rfl | hold'
      · rw [hg1] at hg2
        cases hg2
        rfl
      · rw [hg] at hg1
        cases hg1
        exact absurd hg2 (ho.unheard hm hg n' hold' k')
    · rcases List.mem_cons.mp hn' with rfl | hold'
      · rw [hg] at hg2
        cases hg2
        exact absurd hg1 (ho.unheard hm hg n hold k)
      · exact ho.once n hold n' hold' t' k k' hg1 hg2
  drawn n hn t' k hg1 := by
    rcases List.mem_cons.mp hn with rfl | hn
    · exact ⟨(hm.tokens t' (grants_draws hg1)).1, grants_draws hg1⟩
    · exact ho.drawn n hn t' k hg1

theorem step {e : Event} (ho : OneToken h e.pre.shared.registry) (hm : Minted h e.call) :
    OneToken (e :: h) e.post.shared.registry := by
  cases tokenTurn e with
  | same hg hs => exact (ho.older hg).same hs
  | minted r caps name token hg hr hr' => exact ((ho.same hr).register hm hg).same hr'

theorem reach {w : World} (hrun : broker.machine.Run Minted h w) : OneToken h w.shared.registry := by
  induction hrun with
  | start =>
    exact ⟨fun t n hm => (by cases hm), fun t n ht => (by cases ht), fun t n hm => (by cases hm),
      fun e he => (by cases he), fun e he => (by cases he)⟩
  | @step h w c hr hc ih => exact step (e := (⟨w, c⟩ : Event)) ih hc

end OneToken

/-! ### Whose lease it is -/

/-- Leases are opened by their principal's name, each under its own id. -/
structure Leased (h : List Event) (r : Registry) : Prop where
  opened : ∀ name, ∀ m ∈ r.leases name, ∃ e ∈ h, leased e.call = some (m.leaseId, name)
  once : ∀ e ∈ h, ∀ n ∈ h, ∀ l name name', leased e.call = some (l, name) →
    leased n.call = some (l, name') → name = name'

namespace Registry

/-- The leases that are there were there before. -/
def Shrinks (r r' : Registry) : Prop := ∀ name, ∀ m ∈ r'.leases name, m ∈ r.leases name

theorem Shrinks.refl (r : Registry) : r.Shrinks r := fun _ _ hm => hm

theorem Shrinks.trans {r r' r'' : Registry} (h : r.Shrinks r') (h' : r'.Shrinks r'') :
    r.Shrinks r'' := fun name m hm => h name m (h' name m hm)

/-- What a change of one principal makes of the leases. -/
theorem leases_modified (r : Registry) (n : String) (f : Principal → Principal) (hf)
    (new : Lease → Prop) (h : ∀ p, ∀ m ∈ (f p).leases, m ∈ p.leases ∨ new m) :
    ∀ k, ∀ m ∈ (r.modify n f hf).leases k, m ∈ r.leases k ∨ (k = n ∧ new m) := by
  intro k m hm
  simp only [leases, principal_modify] at hm ⊢
  split at hm
  · rename_i hk
    subst hk
    cases hp : r.principal? k with
    | none =>
      rw [hp] at hm
      cases hm
    | some p =>
      rw [hp] at hm
      exact (h p m hm).imp_right (fun hnew => ⟨rfl, hnew⟩)
  · exact Or.inl hm

theorem Shrinks.modify (r : Registry) (n : String) (f : Principal → Principal) (hf)
    (h : ∀ p, (f p).leases ⊆ p.leases) : r.Shrinks (r.modify n f hf) :=
  fun k m hm => (r.leases_modified n f hf (fun _ => False) (fun p _ hm => Or.inl (h p hm)) k m
    hm).resolve_right (fun h => h.2)

theorem leases_register (r : Registry) (n : String) (caps : Option Caps) (t k : String) :
    (r.register n caps t).leases k = r.leases k := by
  simp only [leases, principal_register]
  split
  · rename_i hk
    rw [hk]
    cases r.principal? n <;> rfl
  · rfl

theorem shrinks_register (r : Registry) (n : String) (caps : Option Caps) (t : String) :
    r.Shrinks (r.register n caps t) := fun k _ hm => leases_register r n caps t k ▸ hm

theorem expire_shrinks (r : Registry) (n : String) (now : Time) :
    r.Shrinks (r.modify n (·.expire now) (fun _ => rfl)) :=
  .modify _ _ _ _ (fun _ => List.filter_subset_self _)

theorem close_shrinks (r : Registry) (l : String) (now : Time) :
    r.Shrinks (r.closeLease l now).2 := by
  unfold closeLease
  split
  · exact .refl r
  · exact .modify _ _ _ _ 
      (fun _ => List.Subset.trans (List.filter_subset_self _) (List.filter_subset_self _))

theorem live_shrinks (r : Registry) (n : String) (now : Time) :
    r.Shrinks (r.hasLiveLease n now).2 := by
  unfold hasLiveLease
  split
  · exact .refl r
  · exact r.expire_shrinks n now

theorem mem_put {l m : Lease} {p : Principal} (hm : m ∈ (p.putLease l).leases) :
    m = l ∨ m ∈ p.leases := by
  unfold Principal.putLease at hm
  split at hm
  · obtain ⟨m', hm', rfl⟩ := List.mem_map.mp hm
    split
    · exact Or.inl rfl
    · exact Or.inr hm'
  · rcases List.mem_append.mp hm with hm | hm
    · exact Or.inr hm
    · exact Or.inl (List.mem_singleton.mp hm)

/-- An opened lease is the only new one. -/
theorem open_leases (r : Registry) (n ref : String) (deadline now : Time) (l : String) :
    ∀ k, ∀ m ∈ (r.openLease n ref deadline now l).2.leases k, m ∈ r.leases k ∨
      (k = n ∧ m.leaseId = l) := by
  intro k m hm
  unfold openLease at hm
  split at hm
  · exact Or.inl hm
  · have hexpire := r.expire_shrinks n now
    simp only at hm
    split at hm
    · exact Or.inl (hexpire k m hm)
    · refine (leases_modified _ n _ _ (fun m => m.leaseId = l) (fun p m hm => ?_) k m hm).imp_left
        (hexpire k m)
      exact (mem_put hm).symm.imp_right (fun h => by rw [h])

end Registry

namespace Broker

theorem admission_leases (p : Principal) (now : Time) : (p.admission now).2.leases = p.leases := by
  have hroll : (p.rollDay now).leases = p.leases := by
    unfold Principal.rollDay
    split <;> rfl
  rw [← hroll]
  simp only [Principal.admission]
  split_ifs <;> rfl

theorem admitted_shrinks (b : Broker) (p : Principal) (now : Time) :
    b.registry.Shrinks (b.admitted p now).2.registry := by
  unfold admitted
  simp only
  split
  · refine (b.registry.live_shrinks p.name now).trans (.modify _ _ _ _ (fun q => ?_))
    rw [admission_leases]
    exact List.Subset.refl _
  · exact b.registry.live_shrinks p.name now

/-- A new task opens the lease it asks for at most. -/
theorem start_leases (b : Broker) (c : Call) (now : Time) :
    ∀ k, ∀ m ∈ (b.start c now).2.registry.leases k, m ∈ b.registry.leases k ∨
      ∃ ref deadline l, c = .openLease k ref deadline l ∧ m.leaseId = l := by
  have hshrinks : ∀ {r : Registry}, b.registry.Shrinks r → ∀ k, ∀ m ∈ r.leases k,
      m ∈ b.registry.leases k ∨ ∃ ref deadline l, c = .openLease k ref deadline l ∧ m.leaseId = l :=
    fun h k m hm => Or.inl (h k m hm)
  cases c with
  | forward req =>
    simp only [start, handleForward]
    split
    · exact hshrinks (.refl _)
    · rename_i p _
      split <;> exact hshrinks (b.admitted_shrinks p now)
  | anthropic req configured =>
    simp only [start, handleAnthropic]
    split
    · exact hshrinks (.refl _)
    · rename_i p _
      split
      · exact hshrinks (.refl _)
      · split <;> exact hshrinks (b.admitted_shrinks p now)
  | models req =>
    simp only [start, handleModels]
    split
    · exact hshrinks (.refl _)
    · refine hshrinks (.modify _ _ _ _ (fun q => ?_))
      rw [admission_leases]
      exact List.Subset.refl _
  | registerPrincipal name token requests tokens =>
    exact hshrinks ((b.registry.shrinks_register name _ token).trans
      (.modify _ _ _ _ (fun _ => List.Subset.refl _)))
  | openLease name ref deadline leaseId =>
    intro k m hm
    refine (b.registry.open_leases name ref deadline now leaseId k m hm).imp_right ?_
    rintro ⟨rfl, hl⟩
    exact ⟨ref, deadline, leaseId, rfl, hl⟩
  | closeLease leaseId token =>
    have hclose := b.registry.close_shrinks leaseId now
    simp only [start]
    split
    · exact hshrinks hclose
    · simp only
      split
      · exact hshrinks hclose
      · exact hshrinks (hclose.trans (Registry.shrinks_register _ _ _ _))
  | rotateNow name token => exact hshrinks (b.registry.shrinks_register name none token)
  | stop => exact hshrinks (.refl _)

end Broker

namespace Leased

variable {h : List Event}

theorem turn (e : Event) : ∀ k, ∀ m ∈ e.post.shared.registry.leases k,
    m ∈ e.pre.shared.registry.leases k ∨ leased e.call = some (m.leaseId, k) := by
  intro k m hm
  obtain ⟨w, s⟩ := e
  rcases EventLoop.run_cases s w with ⟨c, hs, hr⟩ | ⟨i, a, f, before, behind, hs, hf, -, hr⟩ |
    ⟨i, a, hs, hf, hr⟩
  · have hpost : (Machine.Entry.post (⟨w, s⟩ : Event)).shared = (w.shared.start c s.now).2 :=
      congrArg (fun r => EventLoop.World.shared (Prod.snd r)) hr
    rw [hpost] at hm
    rcases w.shared.start_leases c s.now k m hm with hold | ⟨ref, deadline, l, hc, hl⟩
    · exact Or.inl hold
    · exact Or.inr (by simp only [leased, hs, hc, hl])
  · have hpost : (Machine.Entry.post (⟨w, s⟩ : Event)).shared = (w.shared.resume f a s.now).2 :=
      congrArg (fun r => EventLoop.World.shared (Prod.snd r)) hr
    rw [hpost, (w.shared.resume_access f a s.now).leases k] at hm
    exact Or.inl hm
  · have hpost : Machine.Entry.post (⟨w, s⟩ : Event) = w := congrArg Prod.snd hr
    rw [hpost] at hm
    exact Or.inl hm

theorem step {e : Event} (hl : Leased h e.pre.shared.registry) (hm : Minted h e.call) :
    Leased (e :: h) e.post.shared.registry where
  opened k m hmem := by
    rcases turn e k m hmem with hold | hnew
    · obtain ⟨n, hn, hid⟩ := hl.opened k m hold
      exact ⟨n, List.mem_cons_of_mem e hn, hid⟩
    · exact ⟨e, List.mem_cons_self .., hnew⟩
  once n hn n' hn' l k k' h1 h2 := by
    rcases List.mem_cons.mp hn with rfl | hold
    · rcases List.mem_cons.mp hn' with rfl | hold'
      · rw [h1] at h2
        cases h2
        rfl
      · exact absurd h2 (hm.ids l k h1 n' hold' k')
    · rcases List.mem_cons.mp hn' with rfl | hold'
      · exact absurd h1 (hm.ids l k' h2 n hold k)
      · exact hl.once n hold n' hold' l k k' h1 h2

theorem reach {w : World} (hrun : broker.machine.Run Minted h w) : Leased h w.shared.registry := by
  induction hrun with
  | start => exact ⟨fun k m hm => (by cases hm), fun e he => (by cases he)⟩
  | @step h w c hr hc ih => exact step (e := (⟨w, c⟩ : Event)) ih hc

end Leased

/-! ### The close -/

namespace Registry

theorem listed_iff {r : Registry} {name l : String} :
    r.listed name l = true ↔ ∃ m ∈ r.leases name, m.leaseId = l := by
  simp [listed]

/-- Where all leases of this id are one name's, the close is about that name. -/
theorem close_cases {r : Registry} {l name : String} (now : Time)
    (hown : ∀ k, r.listed k l = true → k = name) :
    (r.closeLease l now = (none, r) ∧ r.listed name l = false) ∨
    (r.listed name l = true ∧
      (r.closeLease l now).1 = (if r.otherLive name l now then none else some name) ∧
      ∀ k, (r.closeLease l now).2.leases k = if k = name then
        (r.leases name).filter (fun m => m.leaseId ≠ l && !m.expired now) else r.leases k) := by
  unfold closeLease
  split
  · rename_i hnone
    refine Or.inl ⟨rfl, Bool.eq_false_iff.mpr (fun hlisted => ?_)⟩
    obtain ⟨m, hm, hid⟩ := Iff.mp listed_iff hlisted
    unfold leases at hm
    cases hp : r.principal? name with
    | none =>
      rw [hp] at hm
      cases hm
    | some p =>
      rw [hp] at hm
      have hrow : p ∈ r.principals.rows := Table.mem_of_find hp
      have hnot := List.find?_eq_none.mp hnone p hrow
      exact hnot (List.any_eq_true.mpr ⟨m, hm, by simpa using hid⟩)
  · rename_i q hfound
    right
    have hrow := List.mem_of_find?_eq_some hfound
    have hself : r.principal? q.name = some q := Table.find_of_mem hrow
    have hqleases : r.leases q.name = q.leases := by rw [leases, hself]; rfl
    have hany : q.leases.any (fun m => m.leaseId = l) = true := by
      have h := List.find?_some hfound
      exact h
    have hlisted : r.listed q.name l = true := by
      rw [listed, hqleases]
      exact hany
    have hq : q.name = name := hown q.name hlisted
    subst hq
    refine ⟨hlisted, ?_, fun k => ?_⟩
    · have hzero : ((q.dropLease l).expire now).liveLeases now = 0 ↔
          r.otherLive q.name l now = false := by
        rw [otherLive, hqleases]
        simp only [Principal.liveLeases, Principal.expire, Principal.dropLease, List.countP_eq_zero,
          List.mem_filter, List.any_eq_false, Bool.and_eq_true, decide_eq_true_eq,
          Bool.not_eq_true', Bool.not_eq_false]
        constructor
        · intro h m hm hc
          have hlive := h m ⟨⟨hm, hc.1⟩, hc.2⟩
          rw [hc.2] at hlive
          cases hlive
        · intro h m hm
          by_contra hc
          exact h m hm.1.1 ⟨hm.1.2, hm.2⟩
      simp only
      cases hl : r.otherLive q.name l now with
      | false => simp only [hzero.mpr hl, ↓reduceIte, Bool.false_eq_true]
      | true =>
        have hpos : ((q.dropLease l).expire now).liveLeases now ≠ 0 := by
          intro h
          rw [hzero.mp h] at hl
          cases hl
        simp only [hpos, ↓reduceIte]
    · have hmod := r.principal_modify q.name k (fun p => (p.dropLease l).expire now) (fun _ => rfl)
      refine (congrArg (fun o => (Option.map Principal.leases o).getD []) hmod).trans ?_
      split
      · rw [hself, hqleases]
        simp only [Option.map_some, Option.getD_some, Principal.expire, Principal.dropLease,
          List.filter_filter]
        exact List.filter_congr (fun m _ => Bool.and_comm _ _)
      · rfl

end Registry

/-- What a close does: it finds its lease and rotates where no other is live,
or it changes nothing. -/
inductive CloseTurn (e : Event) (name l token : String) : Prop
  | absent : e.pre.shared.registry.listed name l = false → grants e = none →
      e.post.shared.registry = e.pre.shared.registry → CloseTurn e name l token
  | closed : e.pre.shared.registry.listed name l = true →
      e.post.shared.registry.live name e.call.now =
        e.pre.shared.registry.otherLive name l e.call.now →
      grants e = (if e.pre.shared.registry.otherLive name l e.call.now ∨ name = "" then none
        else some (name, token)) → CloseTurn e name l token

theorem live_filter {r r' : Registry} {name l : String} {now : Time}
    (h : r'.leases name = (r.leases name).filter (fun m => m.leaseId ≠ l && !m.expired now)) :
    r'.live name now = r.otherLive name l now := by
  unfold Registry.live Registry.otherLive
  rw [h, Bool.eq_iff_iff]
  simp only [List.any_eq_true, List.mem_filter, Bool.and_eq_true]
  constructor
  · rintro ⟨m, ⟨hm, hk⟩, -⟩
    exact ⟨m, hm, hk⟩
  · rintro ⟨m, hm, hk⟩
    exact ⟨m, ⟨hm, hk⟩, hk.2⟩

theorem live_unlisted {r : Registry} {name l : String} {now : Time} (h : r.listed name l = false) :
    r.live name now = r.otherLive name l now := by
  unfold Registry.live Registry.otherLive
  rw [Bool.eq_iff_iff, List.any_eq_true, List.any_eq_true]
  constructor
  · rintro ⟨m, hm, hk⟩
    have hid := List.any_eq_false.mp h m hm
    exact ⟨m, hm, by simpa [hk] using hid⟩
  · rintro ⟨m, hm, hk⟩
    exact ⟨m, hm, ((Bool.and_eq_true _ _).mp hk).2⟩

theorem closeTurn {e : Event} {name l token : String}
    (hc : e.call.turn = .start (Call.closeLease l token))
    (hown : ∀ k, e.pre.shared.registry.listed k l = true → k = name) :
    CloseTurn e name l token := by
  obtain ⟨w, s⟩ := e
  rcases EventLoop.run_cases s w with ⟨c, hs, hr⟩ | ⟨i, a, f, before, behind, hs, -, -, -⟩ |
    ⟨i, a, hs, -, -⟩
  · cases hc.symm.trans hs
    have hpost : (Machine.Entry.post (⟨w, s⟩ : Event)).shared =
        (w.shared.start (.closeLease l token) s.now).2 :=
      congrArg (fun r => EventLoop.World.shared (Prod.snd r)) hr
    have hgrants : grants (⟨w, s⟩ : Event) =
        ((w.shared.registry.closeLease l s.now).1.filter (· ≠ "")).map (fun n => (n, token)) := by
      simp only [grants, hs, Broker.revokes, Broker.rotates, Broker.mints, Option.map_some]
      cases (w.shared.registry.closeLease l s.now).1.filter (· ≠ "") <;> rfl
    simp only [Broker.start] at hpost
    rcases Registry.close_cases s.now hown with ⟨hnone, hlisted⟩ | ⟨hlisted, hdrained, hleases⟩
    · rw [hnone] at hgrants hpost
      exact .absent hlisted hgrants (congrArg Broker.registry hpost)
    · have hleft : (Machine.Entry.post (⟨w, s⟩ : Event)).shared.registry.leases name =
          (w.shared.registry.leases name).filter (fun m => m.leaseId ≠ l && !m.expired s.now) := by
        rw [hpost]
        split
        · exact (hleases name).trans (if_pos rfl)
        · split
          · exact (hleases name).trans (if_pos rfl)
          · exact (Registry.leases_register ..).trans ((hleases name).trans (if_pos rfl))
      refine .closed hlisted (live_filter hleft) ?_
      rw [hgrants, hdrained]
      change _ = if w.shared.registry.otherLive name l s.now = true ∨ name = "" then _ else _
      cases w.shared.registry.otherLive name l s.now with
      | true => simp
      | false =>
        by_cases hname : name = ""
        · simp [hname]
        · simp [hname]
  · cases hc.symm.trans hs
  · cases hc.symm.trans hs

section close
variable {h older : List Event} {w : World} {e : Event} {name l token t : String}

/-- A token that resolved during the lease was granted before the close. -/
theorem during_granted (hrun : broker.machine.Run Minted older w)
    (hd : ResolvedDuring older name l t) : ∃ n ∈ older, grants n = some (name, t) := by
  obtain ⟨n, hn, -, p, hp, hname⟩ := hd
  obtain ⟨newer, before, rfl, hr, hm⟩ := hrun.of_mem hn
  have ho := OneToken.reach (hr.step hm)
  obtain ⟨k, hk, hpk⟩ := Broker.resolve_entry hp
  obtain ⟨g, hg, hgrants⟩ := ho.granted t k hk
  have hkn : k = name := (Broker.principal_name hpk).symm.trans hname
  exact ⟨g, List.mem_append_right _ hg, by rw [hgrants, hkn]⟩

/-- The principal of an open lease has a token, and it resolves. -/
theorem open_resolves (hrun : broker.machine.Run Minted h w) {now : Time}
    (hl : w.shared.registry.leaseOpen name l now = true) :
    ∃ t p, w.shared.registry.token name = some t ∧ w.shared.registry.resolve t = some p ∧
      p.name = name := by
  have ho := OneToken.reach hrun
  obtain ⟨m, hm, -⟩ := List.any_eq_true.mp hl
  unfold Registry.leases at hm
  cases hp : w.shared.registry.principal? name with
  | none =>
    rw [hp] at hm
    cases hm
  | some p =>
    have htoken : w.shared.registry.token name = some p.token := by rw [Registry.token, hp]; rfl
    exact ⟨p.token, p, htoken, ho.resolve_some (ho.listed _ _ htoken) hp, Broker.principal_name hp⟩

theorem during_token (hrun : broker.machine.Run Minted older w)
    (hd : ResolvedDuring older name l t) : ∃ n ∈ older,
      n.post.shared.registry.leaseOpen name l n.call.now = true ∧
        n.post.shared.registry.token name = some t := by
  obtain ⟨n, hn, hopen, p, hp, hname⟩ := hd
  obtain ⟨newer, before, rfl, hr, hm⟩ := hrun.of_mem hn
  obtain ⟨k, hk, hpk⟩ := Broker.resolve_entry hp
  obtain rfl : k = name := (Broker.principal_name hpk).symm.trans hname
  exact ⟨n, hn, hopen, (OneToken.reach (hr.step hm)).hold t k hk⟩

theorem kept_tokens (hg : grants e = none) :
    e.pre.shared.registry.SameTokens e.post.shared.registry := by
  cases tokenTurn e with
  | same _ h => exact h
  | minted r caps n t hg' _ _ =>
    rw [hg] at hg'
    cases hg'

theorem granted_token (hg : grants e = some (name, t)) :
    e.post.shared.registry.token name = some t := by
  cases tokenTurn e with
  | same hg' _ =>
    rw [hg] at hg'
    cases hg'
  | minted r caps n t' hg' _ h =>
    rw [hg] at hg'
    cases hg'
    rw [h.token, Registry.token_register, if_pos rfl]

/-- A token that was the name's and is not any more resolves to nothing. -/
theorem replaced_none {r : Registry} (ho : OneToken h r) (hg : ∃ n ∈ h, grants n = some (name, t))
    (hne : r.token name ≠ some t) : r.resolve t = none := by
  cases hr : r.resolve t with
  | none => rfl
  | some p =>
    obtain ⟨k, hk, -⟩ := Broker.resolve_entry hr
    obtain ⟨n, hn, hgn⟩ := hg
    obtain ⟨n', hn', hgn'⟩ := ho.granted t k hk
    obtain rfl := ho.once n hn n' hn' t name k hgn hgn'
    exact absurd (ho.hold t name hk) hne

theorem token_resolves {r : Registry} (ho : OneToken h r) (ht : r.token name = some t) :
    r.resolve t ≠ none := by
  intro hn
  cases hp : r.principal? name with
  | none =>
    rw [Registry.token, hp] at ht
    cases ht
  | some p =>
    rw [ho.resolve_some (ho.listed t name ht) hp] at hn
    cases hn

theorem closed_iff (hrun : broker.machine.Run Minted older e.pre) (hm : Minted older e.call)
    (hc : e.call.turn = .start (Call.closeLease l token))
    (hl : ∃ n ∈ older, leased n.call = some (l, name)) :
    Closed older e name l ↔ Timely older e name l := by
  have ho := OneToken.reach hrun
  have hle := Leased.reach hrun
  have hpost : OneToken (e :: older) e.post.shared.registry := ho.step hm
  have hown : ∀ k, e.pre.shared.registry.listed k l = true → k = name := by
    intro k hk
    obtain ⟨m, hmem, rfl⟩ := Registry.listed_iff.mp hk
    obtain ⟨n, hn, hopen⟩ := hle.opened k m hmem
    obtain ⟨n', hn', hopen'⟩ := hl
    exact hle.once n hn n' hn' _ k name hopen hopen'
  have hturn := closeTurn hc hown
  have hlive : e.post.shared.registry.live name e.call.now =
      e.pre.shared.registry.otherLive name l e.call.now := by
    cases hturn with
    | closed _ h _ => exact h
    | absent hlisted _ hsame =>
      rw [hsame]
      exact live_unlisted hlisted
  constructor
  · intro hclosed
    by_cases hfound : e.pre.shared.registry.listed name l = true ∧ name ≠ ""
    · exact Or.inl hfound
    · cases hother : e.pre.shared.registry.otherLive name l e.call.now with
      | true => exact Or.inr (Or.inl hother)
      | false =>
        refine Or.inr (Or.inr (fun n hn hopen heq => ?_))
        have hnone : grants e = none := by
          cases hturn with
          | absent _ hg _ => exact hg
          | closed hlisted _ hg =>
            rw [hg, if_pos]
            by_contra hor
            exact hfound ⟨hlisted, fun hname => hor (Or.inr hname)⟩
        obtain ⟨newer, before, hcut, hr, hm'⟩ := hrun.of_mem hn
        obtain ⟨t, p, ht, hp, hname⟩ := open_resolves (hr.step hm') hopen
        have hvoid := hclosed (hlive.trans hother) t ⟨n, hn, hopen, p, hp, hname⟩
        have hcur : e.post.shared.registry.token name = some t := by
          rw [(kept_tokens hnone).token, ← heq]
          exact ht
        exact token_resolves hpost hcur hvoid
  · intro htimely hdead t hd
    have hother := hlive.symm.trans hdead
    obtain ⟨g, hg, hgrants⟩ := during_granted hrun hd
    refine replaced_none hpost ⟨g, List.mem_cons_of_mem e hg, hgrants⟩ (fun hcur => ?_)
    cases hnow : grants e with
    | none =>
      rw [(kept_tokens hnow).token] at hcur
      rcases htimely with ⟨hlisted, hname⟩ | hlv | hreplaced
      · cases hturn with
        | absent habsent _ _ =>
          rw [habsent] at hlisted
          cases hlisted
        | closed _ _ hg' =>
          rw [hnow, if_neg (by simp [hother, hname])] at hg'
          cases hg'
      · rw [hother] at hlv
        cases hlv
      · obtain ⟨n, hn, hopen, ht⟩ := during_token hrun hd
        exact hreplaced n hn hopen (ht.trans hcur.symm)
    | some nt =>
      have hnt : nt = (name, token) := by
        cases hturn with
        | absent _ hg' _ =>
          rw [hnow] at hg'
          cases hg'
        | closed _ _ hg' =>
          rw [hnow] at hg'
          split at hg'
          · cases hg'
          · exact Option.some.inj hg'
      rw [hnt] at hnow
      rw [granted_token hnow] at hcur
      cases hcur
      exact ho.unheard hm hnow g hg name hgrants

end close

/-- After a close that leaves no live lease, nothing resolves that resolved
during the lease. -/
def NothingOutlives (h : List Event) : Prop :=
  ∀ newer e older l token name, h = newer ++ e :: older →
    e.call.turn = .start (Call.closeLease l token) →
      (∃ n ∈ older, leased n.call = some (l, name)) → Closed older e name l

def AllTimely (h : List Event) : Prop :=
  ∀ newer e older l token name, h = newer ++ e :: older →
    e.call.turn = .start (Call.closeLease l token) →
      (∃ n ∈ older, leased n.call = some (l, name)) → Timely older e name l

/-- In every run a principal has one token, and a token one principal; and no
access outlives its job exactly if every close is in time. -/
theorem lease_zero {h : List Event} {w : World} (hrun : broker.machine.Run Minted h w) :
    (∀ name p, w.shared.registry.principal? name = some p →
      ∃! t, w.shared.registry.resolve t = some p) ∧
    (∀ t n n', (t, n) ∈ w.shared.registry.byToken → (t, n') ∈ w.shared.registry.byToken → n = n') ∧
    (NothingOutlives h ↔ AllTimely h) := by
  have ho := OneToken.reach hrun
  refine ⟨fun name p hp => ?_, fun t n n' => ho.unique, ?_⟩
  · have hname := Broker.principal_name hp
    have htoken : w.shared.registry.token name = some p.token := by rw [Registry.token, hp]; rfl
    refine ⟨p.token, ho.resolve_some (ho.listed _ _ htoken) hp, fun t ht => ?_⟩
    obtain ⟨k, hk, hpk⟩ := Broker.resolve_entry ht
    obtain rfl : k = name := (Broker.principal_name hpk).symm.trans hname
    exact Option.some.inj ((ho.hold t k hk).symm.trans htoken)
  · constructor
    · intro hn newer e older l token name hh hc hl
      subst hh
      obtain ⟨hr, hm⟩ := hrun.split
      exact (closed_iff hr hm hc hl).mp (hn newer e older l token name rfl hc hl)
    · intro ht newer e older l token name hh hc hl
      subst hh
      obtain ⟨hr, hm⟩ := hrun.split
      exact (closed_iff hr hm hc hl).mpr (ht newer e older l token name rfl hc hl)

/-! ### A lease that is over before it is closed -/

theorem minted_calls (calls : List (EventLoop.Step broker)) (ht : (calls.filterMap draws).Nodup)
    (hne : "" ∉ calls.filterMap draws) (hl : (calls.filterMap leased).Pairwise (fun a b => a.1 ≠ b.1)) :
    broker.machine.Run Minted (broker.machine.history [] broker.machine.init calls)
      (broker.machine.after broker.machine.init calls) := by
  refine Machine.Run.history_of .start (fun before c later hcalls => ⟨fun t hd => ?_, ?_⟩)
  · have hmem : t ∈ calls.filterMap draws :=
      List.mem_filterMap.mpr ⟨c, by rw [hcalls]; simp, hd⟩
    refine ⟨fun h0 => hne (h0 ▸ hmem), fun e he hd' => ?_⟩
    rcases Machine.mem_history he with he | he
    · cases he
    · rw [hcalls, List.filterMap_append, List.nodup_append] at ht
      exact ht.2.2 t (List.mem_filterMap.mpr ⟨_, he, hd'⟩) t
        (List.mem_filterMap.mpr ⟨c, List.mem_cons_self .., hd⟩) rfl
  · intro l name hle e he name' hle'
    rcases Machine.mem_history he with he | he
    · cases he
    · rw [hcalls, List.filterMap_append, List.pairwise_append] at hl
      exact hl.2.2 _ (List.mem_filterMap.mpr ⟨_, he, hle'⟩) _
        (List.mem_filterMap.mpr ⟨c, List.mem_cons_self .., hle⟩) rfl

/-- The deadline of the lease passes, a request looks for a live one, and only
then the job closes it. -/
def sampleLapsed : List (EventLoop.Step broker) :=
  [⟨0, .start (Call.registerPrincipal "agent-runtime" "k" 0 0)⟩,
    ⟨0, .start (Call.openLease "agent-runtime" "task" 1000 "lease-1")⟩,
    ⟨2000, .start (Call.forward sampleRequest)⟩]

def sampleClose : EventLoop.Step broker := ⟨3000, .start (Call.closeLease "lease-1" "k2")⟩

def sampleEnd : Event := ⟨broker.machine.after broker.machine.init sampleLapsed, sampleClose⟩

/-- The token of the job still opens the broker after the job's close. -/
theorem token_outlives_the_job : ¬ ∀ h w, broker.machine.Run Minted h w → NothingOutlives h := by
  intro hall
  have hn := hall _ _ (minted_calls (sampleLapsed ++ [sampleClose]) (by decide) (by decide)
    (by decide))
  rw [Machine.history_concat] at hn
  have hclosed : Closed _ sampleEnd "agent-runtime" "lease-1" :=
    hn [] sampleEnd _ "lease-1" "k2" "agent-runtime" rfl rfl (by decide)
  have hopen : ∃ n ∈ broker.machine.history [] broker.machine.init sampleLapsed,
      n.post.shared.registry.leaseOpen "agent-runtime" "lease-1" n.call.now = true ∧
        (n.post.shared.registry.resolve "k").map Principal.name = some "agent-runtime" := by
    decide
  obtain ⟨n, hmem, hlease, hk⟩ := hopen
  obtain ⟨p, hp, hname⟩ := Option.map_eq_some_iff.mp hk
  have hvoid := hclosed (by decide) "k" ⟨n, hmem, hlease, p, hp, hname⟩
  have hstays : (sampleEnd.post.shared.registry.resolve "k").isSome = true := by decide
  rw [hvoid] at hstays
  cases hstays

def sampleInTime : List (EventLoop.Step broker) :=
  [⟨0, .start (Call.registerPrincipal "agent-runtime" "k" 0 0)⟩,
    ⟨0, .start (Call.openLease "agent-runtime" "task" 1000 "lease-1")⟩,
    ⟨500, .start (Call.closeLease "lease-1" "k2")⟩]

theorem lease_zero_sample :
    (NothingOutlives (broker.machine.history [] broker.machine.init sampleInTime) ↔
      AllTimely (broker.machine.history [] broker.machine.init sampleInTime)) :=
  (lease_zero (minted_calls sampleInTime (by decide) (by decide) (by decide))).2.2

end Solvio.ProviderBroker
