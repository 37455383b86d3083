import Solvio.ProviderBroker.Accounting

namespace Solvio.ProviderBroker
open Solvio.Lib

def Frame.principal : Frame → String
  | .reading r => r.principal
  | .forwarding p _ => p.principal

/-- The reading of the clock that the request was started with. -/
def Frame.moment : Frame → Time
  | .reading r => r.moment
  | .forwarding p _ => p.moment

/-- The same request at its next await. -/
inductive Frame.Continues : Frame → Frame → Prop
  | reading (r : Reading) (body : Bytes) : Continues (.reading r) (.reading { r with body })
  | forwarding (p : Posted) (phase phase' : Phase) (sent : Nat) (sniffer : UsageSniffer)
      (status : Nat) : (phase = .closing → False) → (phase' = .posting → False) →
      Continues (.forwarding p phase) (.forwarding { p with sent, sniffer, status } phase')

theorem Frame.Continues.principal_eq {f g : Frame} (h : f.Continues g) :
    g.principal = f.principal := by
  cases h <;> rfl

theorem Frame.Continues.moment_eq {f g : Frame} (h : f.Continues g) : g.moment = f.moment := by
  cases h <;> rfl

/-- The accounting that a turn uses, and with which reading of the clock. -/
def touches (b : Broker) (f : Frame) (a : Answer) : Option (String × Time) :=
  match f, a with
  | .reading r, .read [] _ =>
    match b.registry.principal? r.principal with
    | none => none
    | some p => match Broker.checkBody r p.caps with
      | .ok _ => some (r.principal, r.moment)
      | .error _ => none
  | .forwarding _ .closing, .cancelled => none
  | .forwarding p .closing, _ =>
    match p.reported (b.aborted p.forward) with
    | none => none
    | some _ => some (p.principal, p.moment)
  | _, _ => none

/-- It is the request's own. -/
theorem touches_moment {b : Broker} {f : Frame} {a : Answer} {name : String} {m : Time}
    (h : touches b f a = some (name, m)) : m = f.moment := by
  unfold touches at h
  split at h
  · split at h
    · cases h
    · split at h <;> cases h
      rfl
  · cases h
  · split at h <;> cases h
    rfl
  · cases h

/-- One place less in flight, and the reported usage in place of the estimate. -/
def Principal.settled (q : Principal) (p : Posted) (reported : Option Nat) : Principal :=
  let q := { q with inflight := q.inflight - 1 }
  match reported with
  | none => q
  | some n => q.replaceEstimate p.estimate n p.moment

theorem Principal.settled_inflight (q : Principal) (p : Posted) (reported : Option Nat) :
    (q.settled p reported).inflight = q.inflight - 1 := by
  cases reported with
  | none => rfl
  | some n => exact Principal.roll_inflight { q with inflight := q.inflight - 1 } p.moment

theorem Principal.settled_caps (q : Principal) (p : Posted) (reported : Option Nat) :
    (q.settled p reported).caps = q.caps := by
  cases reported with
  | none => rfl
  | some n => exact Principal.roll_caps { q with inflight := q.inflight - 1 } p.moment

/-- What a resumed request does to the books, and where it waits next. -/
inductive Resumed (b : Broker) (f : Frame) (a : Answer) :
    Option Frame → (String → Option Principal) → Prop
  | goes (g : Frame) : f.Continues g → Resumed b f a (some g) b.books
  | rejected (r : Reading) : f = .reading r → Resumed b f a none b.books
  | abandoned (p : Posted) : f = .forwarding p .closing → a = .cancelled →
      Resumed b f a none b.books
  | refused (r : Reading) (q : Principal) : f = .reading r → b.books r.principal = some q →
      touches b f a = some (r.principal, r.moment) →
      Resumed b f a none
        (fun k => if k = r.principal then some (q.rollDay r.moment) else b.books k)
  | precharged (r : Reading) (q : Principal) (p : Posted) (phase : Phase) :
      f = .reading r → b.books r.principal = some q →
      touches b f a = some (r.principal, r.moment) →
      p.request = r.request → p.principal = r.principal → p.moment = r.moment →
      p.forward = b.nextForward →
      (q.precharge p.estimate r.moment).1 = .ok () →
      Resumed b f a (some (.forwarding p phase))
        (fun k => if k = r.principal then
          some { (q.precharge p.estimate r.moment).2 with inflight := q.inflight + 1 }
          else b.books k)
  | settled (p : Posted) : f = .forwarding p .closing → a ≠ .cancelled →
      ((p.reported (b.aborted p.forward)).isSome → touches b f a = some (p.principal, p.moment)) →
      Resumed b f a none
        (fun k => if k = p.principal then
          (b.books p.principal).map (·.settled p (p.reported (b.aborted p.forward)))
          else b.books k)

namespace Broker

theorem precharge_inflight (q : Principal) (estimate : Nat) (now : Time) :
    (q.precharge estimate now).2.inflight = q.inflight := by
  simp only [Principal.precharge]
  split <;> simp

theorem beginForward_books (b : Broker) (r : Reading) (estimate : Nat) (credential : Bool)
    (k : String) : (b.beginForward r estimate credential).2.books k =
      if k = r.principal then
        (b.books r.principal).map (fun q => { q with inflight := q.inflight + 1 })
      else b.books k :=
  books_set _ _ _ _ _ _ (fun _ => rfl)

theorem bodyRead_books (b : Broker) (r : Reading) (credential : Bool) :
    Resumed b (.reading r) (.read [] credential) (b.bodyRead r credential).1
      (b.bodyRead r credential).2.books := by
  have hbooks : b.books r.principal = (b.registry.principal? r.principal).map Principal.books := rfl
  unfold bodyRead
  simp only
  cases hp : b.registry.principal? r.principal with
  | none => exact .rejected r rfl
  | some p =>
    simp only
    cases hc : checkBody r p.caps with
    | error x => exact .rejected r rfl
    | ok out =>
      obtain ⟨model, body⟩ := out
      have ht : touches b (.reading r) (.read [] credential) = some (r.principal, r.moment) := by
        simp only [touches, hp, hc]
      have hq : b.books r.principal = some p.books := by rw [hbooks, hp]; rfl
      obtain ⟨hpost, hres⟩ := p.books_precharge (estimateTokens r.body body model) r.moment
      simp only
      generalize estimateTokens r.body body model = estimate at hpost hres
      have hset : ∀ k, Broker.books (precharge { b with buffered := b.buffered + r.body.length }
          r.principal estimate r.moment) k =
          if k = r.principal then some (p.books.precharge estimate r.moment).2 else b.books k := by
        intro k
        rw [books_precharge]
        split
        · exact congrArg (Option.map _) hq
        · rfl
      cases hr : (p.precharge estimate r.moment).1 with
      | error x =>
        have hroll := Principal.precharge_error (hres.symm.trans hr)
        have hpost : Broker.books (releaseBuffer (precharge
            { b with buffered := b.buffered + r.body.length } r.principal estimate r.moment)
            r.body.length) =
            fun k => if k = r.principal then some (p.books.rollDay r.moment) else b.books k := by
          funext k
          rw [← hroll]
          exact hset k
        simp only
        rw [hpost]
        exact .refused r _ rfl hq ht
      | ok u =>
        have hok : (p.books.precharge estimate r.moment).1 = .ok () := hres.symm.trans hr
        have hpost : (beginForward (precharge { b with buffered := b.buffered + r.body.length }
            r.principal estimate r.moment) r estimate credential).2.books =
            fun k => if k = r.principal then
              some { (p.books.precharge estimate r.moment).2 with inflight := p.books.inflight + 1 }
            else b.books k := by
          funext k
          rw [beginForward_books, hset, hset, if_pos rfl]
          split
          · simp only [Option.map_some, precharge_inflight]
          · rfl
        simp only
        rw [hpost]
        exact .precharged r _ _ _ rfl hq ht rfl rfl rfl rfl hok

theorem settle_books (b : Broker) (p : Posted) (k : String) :
    (b.settle p).books k = if k = p.principal then
      (b.books p.principal).map (·.settled p (p.reported (b.aborted p.forward)))
      else b.books k := by
  unfold settle
  simp only
  cases hr : p.reported (b.aborted p.forward) with
  | none =>
    exact books_set _ _ _ _ _ _ (fun q => rfl)
  | some n =>
    change Broker.books (replaceEstimate (setPrincipal _ _ _ _) _ _ _ _) k = _
    rw [books_replace]
    rw [books_set _ _ _ _ (fun q => { q with inflight := q.inflight - 1 }) _ (fun q => rfl),
      books_set _ _ _ _ (fun q => { q with inflight := q.inflight - 1 }) _ (fun q => rfl),
      if_pos rfl]
    split
    · rw [Option.map_map]
      rfl
    · rfl

theorem resume_books (b : Broker) (f : Frame) (a : Answer) (now : Time) :
    Resumed b f a (b.resume f a now).1 (b.resume f a now).2.books := by
  cases f with
  | reading r =>
    cases a with
    | read chunk credential =>
      simp only [resume, readBody]
      split
      · rename_i hc
        subst hc
        exact b.bodyRead_books r credential
      · split
        · exact .rejected r rfl
        · exact .goes _ (.reading r _)
    | response status => exact .rejected r rfl
    | chunk c => exact .rejected r rfl
    | done => exact .rejected r rfl
    | failed => exact .rejected r rfl
    | cancelled => exact .rejected r rfl
  | forwarding p phase =>
    have hgo : ∀ phase' sent sniffer status, (phase = .closing → False) →
        (phase' = .posting → False) → Resumed b (.forwarding p phase) a
          (some (.forwarding { p with sent, sniffer, status } phase')) b.books :=
      fun phase' sent sniffer status h h' =>
        .goes _ (.forwarding p phase phase' sent sniffer status h h')
    cases phase with
    | posting =>
      cases a <;> first
        | exact hgo _ _ _ _ (fun h => by cases h) (fun h => by cases h)
        | (simp only [resume, forwardStep]; split <;> exact hgo _ _ _ _ (fun h => by cases h) (fun h => by cases h))
    | preparing => cases a <;> exact hgo _ _ _ _ (fun h => by cases h) (fun h => by cases h)
    | streaming =>
      cases a <;> first
        | exact hgo _ _ _ _ (fun h => by cases h) (fun h => by cases h)
        | (simp only [resume, forwardStep]; split <;> exact hgo _ _ _ _ (fun h => by cases h) (fun h => by cases h))
    | writing c => cases a <;> exact hgo _ _ _ _ (fun h => by cases h) (fun h => by cases h)
    | ending => cases a <;> exact hgo _ _ _ _ (fun h => by cases h) (fun h => by cases h)
    | lastEof => cases a <;> exact hgo _ _ _ _ (fun h => by cases h) (fun h => by cases h)
    | closing =>
      have hsettle : a ≠ .cancelled →
          Resumed b (.forwarding p .closing) a none (b.settle p).books := by
        intro ha
        rw [show (b.settle p).books = _ from funext (b.settle_books p)]
        refine .settled p rfl ha (fun hr => ?_)
        obtain ⟨n, hn⟩ := Option.isSome_iff_exists.mp hr
        cases a <;> simp only [touches, hn] at ha ⊢
        exact absurd rfl ha
      cases a <;> first
        | exact hsettle (fun h => by cases h)
        | exact .abandoned p rfl rfl

end Broker

end Solvio.ProviderBroker
