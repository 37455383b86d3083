import Solvio.ProviderBroker.Service

namespace Solvio.ProviderBroker
open Solvio.Lib

def Call.Registers (c : Call) (k : String) : Prop :=
  ∃ token requests tokens, c = .registerPrincipal k token requests tokens

namespace Principal

/-- A principal without its token and its leases: what the caps look at. -/
def books (p : Principal) : Principal := { p with token := "", generation := 0, leases := [] }

@[simp] theorem books_caps (p : Principal) : p.books.caps = p.caps := rfl
@[simp] theorem books_inflight (p : Principal) : p.books.inflight = p.inflight := rfl
@[simp] theorem books_day (p : Principal) : p.books.day = p.day := rfl
@[simp] theorem books_requests (p : Principal) : p.books.requestsToday = p.requestsToday := rfl
@[simp] theorem books_tokens (p : Principal) : p.books.tokensToday = p.tokensToday := rfl

@[simp] theorem books_expire (p : Principal) (now : Time) : (p.expire now).books = p.books := rfl

@[simp] theorem books_drop (p : Principal) (leaseId : String) :
    (p.dropLease leaseId).books = p.books := rfl

@[simp] theorem books_put (p : Principal) (l : Lease) : (p.putLease l).books = p.books := by
  unfold putLease
  split <;> rfl

theorem books_roll (p : Principal) (now : Time) : (p.rollDay now).books = p.books.rollDay now := by
  by_cases h : p.day = some (utcDay now) <;> simp [rollDay, books, h]

@[simp] theorem books_admission (p : Principal) (now : Time) :
    (p.admission now).2.books = p.books.rollDay now := by
  rw [← books_roll]
  simp only [admission]
  split_ifs <;> rfl

theorem books_precharge (p : Principal) (estimate : Nat) (now : Time) :
    (p.precharge estimate now).2.books = (p.books.precharge estimate now).2 ∧
      (p.precharge estimate now).1 = (p.books.precharge estimate now).1 := by
  have hroll := books_roll p now
  have htokens : (p.books.rollDay now).tokensToday = (p.rollDay now).tokensToday := by
    rw [← hroll, books_tokens]
  have hcaps : (p.books.rollDay now).caps = (p.rollDay now).caps := by
    rw [← hroll, books_caps]
  simp only [precharge, htokens, hcaps]
  split
  · exact ⟨hroll, rfl⟩
  · refine ⟨?_, rfl⟩
    rw [← hroll]
    rfl

theorem books_replace (p : Principal) (estimate reported : Nat) (now : Time) :
    (p.replaceEstimate estimate reported now).books =
      p.books.replaceEstimate estimate reported now := by
  simp only [replaceEstimate, ← books_roll]
  rfl

@[simp] theorem roll_day (p : Principal) (now : Time) : (p.rollDay now).day = some (utcDay now) := by
  unfold rollDay
  split
  · rfl
  · rename_i h
    simpa using h

@[simp] theorem roll_caps (p : Principal) (now : Time) : (p.rollDay now).caps = p.caps := by
  unfold rollDay
  split <;> rfl

@[simp] theorem roll_inflight (p : Principal) (now : Time) :
    (p.rollDay now).inflight = p.inflight := by
  unfold rollDay
  split <;> rfl

/-- The accounting of the reading's own day is not touched by the roll. -/
theorem roll_same {p : Principal} {now : Time} (h : p.day = some (utcDay now)) :
    p.rollDay now = p := by
  simp [rollDay, h]

theorem roll_other {p : Principal} {now : Time} (h : p.day ≠ some (utcDay now)) :
    (p.rollDay now).requestsToday = 0 ∧ (p.rollDay now).tokensToday = 0 := by
  simp [rollDay, h]

/-- A precharge that passes has checked the cap and booked one request. -/
theorem precharge_ok {p : Principal} {estimate : Nat} {now : Time}
    (h : (p.precharge estimate now).1 = .ok ()) :
    (p.rollDay now).tokensToday + estimate ≤ p.caps.tokensPerDay ∧
      (p.precharge estimate now).2 = { p.rollDay now with
        tokensToday := (p.rollDay now).tokensToday + estimate
        requestsToday := (p.rollDay now).requestsToday + 1 } := by
  simp only [precharge, roll_caps] at h ⊢
  split at h
  · cases h
  · rename_i hc
    rw [if_neg hc]
    exact ⟨Nat.le_of_not_lt hc, rfl⟩

theorem precharge_error {p : Principal} {estimate : Nat} {now : Time} {x : CapExceeded}
    (h : (p.precharge estimate now).1 = .error x) :
    (p.precharge estimate now).2 = p.rollDay now := by
  simp only [precharge] at h ⊢
  split at h
  · rename_i hc
    rw [if_pos hc]
  · cases h

end Principal

namespace Registry

def books (r : Registry) (name : String) : Option Principal :=
  (r.principal? name).map Principal.books

theorem principal_modify (r : Registry) (n k : String) (f : Principal → Principal) (hf) :
    (r.modify n f hf).principal? k = if k = n then (r.principal? n).map f else r.principal? k :=
  Table.find_modify _ _ _ f hf

/-- What changes only leases and tokens leaves the books alone. -/
theorem books_modify {r : Registry} {n : String} {f : Principal → Principal} {hf}
    (h : ∀ p, (f p).books = p.books) (k : String) : (r.modify n f hf).books k = r.books k := by
  rw [books, principal_modify, books]
  by_cases hk : k = n
  · subst hk
    rw [if_pos rfl, Option.map_map]
    exact congrArg (fun g => Option.map g (r.principal? k)) (funext h)
  · rw [if_neg hk]

theorem books_open (r : Registry) (name ref : String) (deadline now : Time) (leaseId k : String) :
    (r.openLease name ref deadline now leaseId).2.books k = r.books k := by
  unfold openLease
  split
  · rfl
  · split
    · exact books_modify (fun p => Principal.books_expire p now) k
    · rw [books_modify (fun p => Principal.books_put p _)]
      exact books_modify (fun p => Principal.books_expire p now) k

theorem books_close (r : Registry) (leaseId : String) (now : Time) (k : String) :
    (r.closeLease leaseId now).2.books k = r.books k := by
  unfold closeLease
  split
  · rfl
  · exact books_modify
      (fun p => (rfl : ((p.dropLease leaseId).expire now).books = p.books)) k

theorem books_live (r : Registry) (name : String) (now : Time) (k : String) :
    (r.hasLiveLease name now).2.books k = r.books k := by
  unfold hasLiveLease
  split
  · rfl
  · exact books_modify (fun p => Principal.books_expire p now) k

/-- A registration gives the name a token; its books stay, or are new. -/
theorem principal_register (r : Registry) (n : String) (caps : Option Caps) (token k : String) :
    (r.register n caps token).principal? k =
      if k = n then some (match r.principal? n with
        | none => { name := n, caps := caps.getD (defaultCaps n), token, generation := 1 }
        | some p => { p with
          caps := caps.getD p.caps
          token := token
          generation := p.generation + 1 })
      else r.principal? k := by
  unfold register
  simp only [principal?]
  cases hi : r.principals.insert? { name := n, caps := caps.getD (defaultCaps n) } with
  | some t =>
    have hf := Table.find_insert hi
    have hnone : r.principals.find? n = none := (Table.insert_some hi).1
    simp only [Table.find_modify, hf, hnone]
    by_cases hk : k = n
    · simp [hk, Keyed.key]
    · simp [hk, Ne.symm hk, Keyed.key]
  | none =>
    obtain ⟨p, hp⟩ := Table.insert_none.mp hi
    have hp' : r.principals.find? n = some p := hp
    simp only [Table.find_modify, hp']
    by_cases hk : k = n <;> simp [hk]

end Registry

namespace Broker

def books (b : Broker) (name : String) : Option Principal := b.registry.books name

theorem books_set (b : Broker) (n k : String) (f g : Principal → Principal) (hf)
    (h : ∀ p, (f p).books = g p.books) :
    (b.setPrincipal n f hf).books k = if k = n then (b.books n).map g else b.books k := by
  simp only [books, setPrincipal, Registry.books, Registry.principal_modify]
  split
  · rw [Option.map_map, Option.map_map]
    exact congrArg (fun g => Option.map g (b.registry.principal? n)) (funext h)
  · rfl

theorem books_admission (b : Broker) (n k : String) (now : Time) :
    (b.admission n now).books k = if k = n then (b.books n).map (·.rollDay now) else b.books k :=
  books_set _ _ _ _ _ _ (fun q => q.books_admission now)

theorem books_precharge (b : Broker) (n k : String) (estimate : Nat) (now : Time) :
    (b.precharge n estimate now).books k =
      if k = n then (b.books n).map (fun q => (q.precharge estimate now).2) else b.books k :=
  books_set _ _ _ _ _ _ (fun q => (q.books_precharge estimate now).1)

theorem books_replace (b : Broker) (n k : String) (estimate reported : Nat) (now : Time) :
    (b.replaceEstimate n estimate reported now).books k =
      if k = n then (b.books n).map (·.replaceEstimate estimate reported now) else b.books k :=
  books_set _ _ _ _ _ _ (fun q => q.books_replace estimate reported now)

/-- The gates roll the principal's day and do nothing else to any books. -/
theorem books_admitted (b : Broker) (p : Principal) (now : Time) (k : String) :
    (b.admitted p now).2.books k = b.books k ∨
      ∃ q, b.books k = some q ∧ (b.admitted p now).2.books k = some (q.rollDay now) := by
  have hlive : ∀ k, Broker.books { b with registry := (b.registry.hasLiveLease p.name now).2 } k =
      b.books k := fun k => Registry.books_live ..
  unfold admitted
  simp only
  split
  · rw [books_admission, hlive, hlive]
    split
    · rename_i hk
      subst hk
      cases hq : b.books p.name with
      | none => exact Or.inl rfl
      | some q => exact Or.inr ⟨q, rfl, rfl⟩
    · exact Or.inl rfl
  · exact Or.inl (hlive k)

theorem resolve_entry {r : Registry} {t : String} {p : Principal} (h : r.resolve t = some p) :
    ∃ name, (t, name) ∈ r.byToken ∧ r.principal? name = some p := by
  have hfold : ∀ (es : List (String × String)) (found : Option Principal),
      es.foldl (fun found e => if e.1 = t then r.principal? e.2 else found) found = some p →
        found = some p ∨ ∃ name, (t, name) ∈ es ∧ r.principal? name = some p := by
    intro es
    induction es with
    | nil => exact fun found h => Or.inl h
    | cons e es ih =>
      intro found h
      rcases ih _ h with h | ⟨name, hm, h⟩
      · change (if e.1 = t then r.principal? e.2 else found) = some p at h
        split at h
        · rename_i he
          exact Or.inr ⟨e.2, by rw [← he]; exact List.mem_cons_self .., h⟩
        · exact Or.inl h
      · exact Or.inr ⟨name, List.mem_cons_of_mem _ hm, h⟩
  unfold Registry.resolve at h
  split at h
  · cases h
  · rcases hfold _ _ h with h | h
    · cases h
    · exact h

theorem authenticate_some {b : Broker} {req : Request} {p : Principal}
    (h : b.authenticate req = some p) :
    ∃ token name, (token, name) ∈ b.registry.byToken ∧ req.presented = some token ∧
      b.registry.principal? name = some p := by
  simp only [authenticate, Option.bind_eq_some_iff] at h
  obtain ⟨token, htoken, hp⟩ := h
  obtain ⟨name, hm, hp⟩ := resolve_entry hp
  exact ⟨token, name, hm, htoken, hp⟩

theorem principal_name {r : Registry} {name : String} {p : Principal}
    (h : r.principal? name = some p) : p.name = name := Table.key_of_find h

theorem authenticate_books {b : Broker} {req : Request} {p : Principal}
    (h : b.authenticate req = some p) : b.books p.name = some p.books := by
  obtain ⟨token, name, -, -, hp⟩ := authenticate_some h
  rw [books, Registry.books, principal_name hp, hp]
  rfl

/-- What a new task does to a principal's books. -/
inductive Opened (b : Broker) (c : Call) (now : Time) (k : String) : Option Principal → Prop
  | same : ¬ c.Registers k → Opened b c now k (b.books k)
  | rolled (q : Principal) : ¬ c.Registers k → b.books k = some q →
      Opened b c now k (some (q.rollDay now))
  | seeded (token : String) (requests tokens : Nat) (q : Principal) :
      c = .registerPrincipal k token requests tokens → (∀ p, b.books k = some p → q = p) →
      (b.books k = none → q.inflight = 0) →
      Opened b c now k (some ({ q with caps := registeredCaps k }.seedDay requests tokens now))
  | fresh : ¬ c.Registers k → b.books k = none →
      Opened b c now k (some { name := k, caps := defaultCaps k })

theorem books_register (b : Broker) (n token k : String) (caps : Option Caps) :
    Broker.books { b with registry := b.registry.register n caps token } k =
      if k = n then some (match b.books n with
        | none => { name := n, caps := caps.getD (defaultCaps n) }
        | some p => { p with caps := caps.getD p.caps })
      else b.books k := by
  simp only [books, Registry.books, Registry.principal_register]
  split
  · cases b.registry.principal? n <;> rfl
  · rfl

@[simp] theorem books_abort (b : Broker) (n k : String) : (b.abortPrincipal n).books k = b.books k :=
  rfl

theorem rotate_opened (b : Broker) (n token k : String) :
    (b.rotate n token).books k = b.books k ∨
      b.books k = none ∧ (b.rotate n token).books k = some { name := k, caps := defaultCaps k } := by
  rw [rotate, books_abort, books_register]
  split
  · rename_i hk
    subst hk
    cases hb : b.books k with
    | none => exact Or.inr ⟨rfl, rfl⟩
    | some p => exact Or.inl rfl
  · exact Or.inl rfl

/-- The frame of a new request, and the books it leaves. -/
theorem start_books (b : Broker) (c : Call) (now : Time) (k : String) :
    Opened b c now k ((b.start c now).2.books k) ∧
      ∀ f ∈ (b.start c now).1, ∃ r : Reading, f = .reading r ∧ r.moment = now ∧
        (b.books r.principal).isSome := by
  have hgate : ¬ c.Registers k → ∀ p, Opened b c now k ((b.admitted p now).2.books k) := by
    intro hc p
    rcases b.books_admitted p now k with h | ⟨q, hq, h⟩
    · rw [h]
      exact .same hc
    · rw [h]
      exact .rolled q hc hq
  cases c with
  | forward req =>
    have hc : ¬ Call.Registers (.forward req) k := fun ⟨_, _, _, h⟩ => by cases h
    simp only [start, handleForward]
    split
    · exact ⟨.same hc, fun f hf => by cases hf⟩
    · rename_i p hp
      split
      · refine ⟨hgate hc p, fun f hf => ⟨_, (Option.mem_some_iff.mp hf).symm, rfl, ?_⟩⟩
        rw [authenticate_books hp]
        rfl
      · exact ⟨hgate hc p, fun f hf => by cases hf⟩
  | anthropic req configured =>
    have hc : ¬ Call.Registers (.anthropic req configured) k := fun ⟨_, _, _, h⟩ => by cases h
    simp only [start, handleAnthropic]
    split
    · exact ⟨.same hc, fun f hf => by cases hf⟩
    · rename_i p hp
      split
      · exact ⟨.same hc, fun f hf => by cases hf⟩
      · split
        · refine ⟨hgate hc p, fun f hf => ⟨_, (Option.mem_some_iff.mp hf).symm, rfl, ?_⟩⟩
          rw [authenticate_books hp]
          rfl
        · exact ⟨hgate hc p, fun f hf => by cases hf⟩
  | models req =>
    have hc : ¬ Call.Registers (.models req) k := fun ⟨_, _, _, h⟩ => by cases h
    refine ⟨?_, fun f hf => by cases hf⟩
    simp only [start, handleModels]
    split
    · exact .same hc
    · rename_i p hp
      rw [books_admission]
      split
      · rename_i hk
        subst hk
        rw [authenticate_books hp]
        exact .rolled _ hc (authenticate_books hp)
      · exact .same hc
  | registerPrincipal name token requests tokens =>
    refine ⟨?_, fun f hf => by cases hf⟩
    have hset : (b.start (.registerPrincipal name token requests tokens) now).2.books k =
        if k = name then (Broker.books { b with
            registry := b.registry.register name (some (registeredCaps name)) token } name).map
          (·.seedDay requests tokens now)
        else Broker.books { b with
          registry := b.registry.register name (some (registeredCaps name)) token } k :=
      books_set _ _ _ _ _ _ (fun q => rfl)
    rw [hset, books_register, books_register]
    split
    · rename_i hk
      subst hk
      rw [if_pos rfl]
      cases hb : b.books k with
      | none =>
        exact .seeded token requests tokens { name := k, caps := registeredCaps k } rfl
          (fun p hp => by rw [hb] at hp; cases hp) (fun _ => rfl)
      | some p =>
        exact .seeded token requests tokens p rfl
          (fun q hq => by rw [hb] at hq; exact Option.some.inj hq)
          (fun hn => by rw [hb] at hn; cases hn)
    · rename_i hk
      exact .same (fun ⟨_, _, _, h⟩ => hk (by cases h; rfl))
  | openLease name ref deadline leaseId =>
    have hc : ¬ Call.Registers (.openLease name ref deadline leaseId) k := fun ⟨_, _, _, h⟩ => by cases h
    refine ⟨?_, fun f hf => by cases hf⟩
    have h : (b.start (.openLease name ref deadline leaseId) now).2.books k = b.books k :=
      Registry.books_open ..
    rw [h]
    exact .same hc
  | closeLease leaseId token =>
    have hc : ¬ Call.Registers (.closeLease leaseId token) k := fun ⟨_, _, _, h⟩ => by cases h
    have hclose : Broker.books { b with registry := (b.registry.closeLease leaseId now).2 } k =
        b.books k := Registry.books_close ..
    simp only [start]
    split
    · exact ⟨by rw [hclose]; exact .same hc, fun f hf => by cases hf⟩
    · rename_i name _
      refine ⟨?_, fun f hf => by cases hf⟩
      simp only
      split
      · rw [hclose]
        exact .same hc
      · rcases rotate_opened { b with registry := (b.registry.closeLease leaseId now).2 } name
          token k with h | ⟨hn, h⟩
        · rw [h, hclose]
          exact .same hc
        · rw [h]
          exact .fresh hc (hclose ▸ hn)
  | rotateNow name token =>
    have hc : ¬ Call.Registers (.rotateNow name token) k := fun ⟨_, _, _, h⟩ => by cases h
    refine ⟨?_, fun f hf => by cases hf⟩
    simp only [start]
    rcases b.rotate_opened name token k with h | ⟨hn, h⟩
    · rw [h]
      exact .same hc
    · rw [h]
      exact .fresh hc hn
  | stop => exact ⟨.same (fun ⟨_, _, _, h⟩ => by cases h), fun f hf => by cases hf⟩

end Broker

end Solvio.ProviderBroker
