import Solvio.ProviderBroker.Denials
import Solvio.ProviderBroker.Turns
import Solvio.Lib.Raises

namespace Solvio.ProviderBroker
open Solvio.Lib

/-- The zone of the host, as the C library reads it: the instant of a local wall
clock, and the offset without daylight saving. -/
structure HostZone where
  mktime : Int → Time
  timezone : Int

/-- `_utc_midnight`: the day of a reading, taken for a local day. -/
def HostZone.utcMidnight (z : HostZone) (moment : Time) : Time :=
  z.mktime (utcDay moment * 86400000) - z.timezone

inductive Visit where
  | request (h : Handler) (w : Wire)
  | registerPrincipal (name token : String)
  | openLease (name ref : String) (deadline : Time) (leaseId : String)
  | closeLease (leaseId token : String)
  | rotateNow (name token : String)
  | stop

namespace Service

/-- `register_principal`, with the usage that the ledger has of today. -/
def registerPrincipal (z : HostZone) (name token : String) (now : Time) (d : Service) : Service :=
  let used := d.ledger.usageSince name (z.utcMidnight now)
  d.inBroker (fun b =>
    (b.start (.registerPrincipal name token used.requests used.tokens) now).2)

def start (z : HostZone) (v : Visit) (now : Time) (d : Service) : Option Seat × Service :=
  match v with
  | .request h w => ((d.handle h w now).1.seat, (d.handle h w now).2)
  | .registerPrincipal name token => (none, d.registerPrincipal z name token now)
  | .openLease name ref deadline leaseId =>
    (none, d.inBroker (fun b => (b.start (.openLease name ref deadline leaseId) now).2))
  | .closeLease leaseId token =>
    (none, d.inBroker (fun b => (b.start (.closeLease leaseId token) now).2))
  | .rotateNow name token => (none, d.inBroker (fun b => (b.start (.rotateNow name token) now).2))
  | .stop => (none, d.inBroker (fun b => (b.start .stop now).2))

end Service

/-- The service on its event loop. -/
def service (z : HostZone) : EventLoop Service where
  Frame := Seat
  Call := Visit
  Answer := Heard
  start v now d := d.start z v now
  resume s h _ d := ((d.resume s h).1.seat, (d.resume s h).2)
  init := ⟨.init, {}⟩

/-! ### What a turn writes -/

/-- A row that does not count, or none. -/
inductive Noted (l : BrokerLedger) (moment : Time) : BrokerLedger → Prop
  | same : Noted l moment l
  | row (e : Entry) (l' : BrokerLedger) : e.outcome.counts = false →
      l'.rows = BrokerLedger.newest (l.rows ++ [⟨l.nextId, moment, e⟩]) →
      l'.nextId = l.nextId + 1 → Noted l moment l'

theorem Noted.of_record {l l' : BrokerLedger} {e : Entry} {moment : Time} {id : Nat}
    (h : l.record e moment = .ok (id, l')) (hc : e.outcome.counts = false) :
    Noted l moment l' := by
  unfold BrokerLedger.record at h
  split at h
  · cases h
  · split at h
    · cases h
    · cases h
      exact .row e _ hc (BrokerLedger.trim_rows _) (BrokerLedger.trim_next _)

namespace Service

theorem deny_broker (d : Service) (w : Wire) (p : Option Principal) (x : Denial) (moment : Time) :
    (d.deny w p x moment).2.broker = d.broker := by
  unfold deny
  split <;> rfl

theorem deny_seat (d : Service) (w : Wire) (p : Option Principal) (x : Denial) (moment : Time) :
    (d.deny w p x moment).1.seat = none := by
  unfold deny
  split <;> rfl

theorem deny_noted (d : Service) (w : Wire) (p : Option Principal) (x : Denial) (moment : Time) :
    Noted d.ledger moment (d.deny w p x moment).2.ledger := by
  unfold deny
  split
  · exact .same
  · rename_i h
    exact .of_record h rfl

/-- The two ways in which gate three leaves the books. -/
def Rolls (b b' : Broker) (now : Time) : Prop :=
  ∀ k, b'.books k = b.books k ∨ ∃ q, b.books k = some q ∧ b'.books k = some (q.rollDay now)

/-- What a handler does up to the body: it may roll the day of its principal. -/
structure Began (d : Service) (now : Time) (out : Served × Service) : Prop where
  books : Rolls d.broker out.2.broker now
  noted : Noted d.ledger now out.2.ledger
  seat : ∀ s, out.1.seat = some s → ∃ w r, s = .reading w r ∧ r.moment = now

/-- What is left of it after a change of the books alone. -/
theorem Began.denied {d d' : Service} {now : Time} (hl : d'.ledger = d.ledger)
    (hb : Rolls d.broker d'.broker now)
    (w : Wire) (p : Option Principal) (x : Denial) : Began d now (d'.deny w p x now) where
  books k := by
    rw [deny_broker]
    exact hb k
  noted := hl ▸ d'.deny_noted w p x now
  seat s hs := by
    rw [deny_seat] at hs
    cases hs

theorem admission_rolls {b : Broker} {p : Principal} (hp : b.books p.name = some p.books)
    (now : Time) : Rolls b (b.admission p.name now) now := by
  intro k
  rw [Broker.books_admission]
  split
  · rename_i hk
    subst hk
    rw [hp]
    exact Or.inr ⟨_, rfl, rfl⟩
  · exact Or.inl rfl

theorem Began.goes {d d' : Service} {now : Time} {s : Served} (hl : d'.ledger = d.ledger)
    (hb : Rolls d.broker d'.broker now)
    (hs : ∀ s', s.seat = some s' → ∃ w r, s' = .reading w r ∧ r.moment = now) :
    Began d now (s, d') where
  books := hb
  noted := by
    change Noted d.ledger now d'.ledger
    rw [hl]
    exact .same
  seat := hs

theorem admitted_began {d : Service} {w : Wire} {p : Principal} {now : Time}
    {next : Service → Served × Service} (hp : d.broker.books p.name = some p.books)
    (hnext : ∀ d', d'.ledger = d.ledger → Rolls d.broker d'.broker now → Began d now (next d')) :
    Began d now (d.admitted w p now next) := by
  have hlive : ∀ k, Broker.books { d.broker with
      registry := (d.broker.registry.hasLiveLease p.name now).2 } k = d.broker.books k :=
    fun k => Registry.books_live ..
  have hadm := admission_rolls (b := { d.broker with
    registry := (d.broker.registry.hasLiveLease p.name now).2 }) ((hlive p.name).trans hp) now
  have hrolls : Rolls d.broker (Broker.admission { d.broker with
      registry := (d.broker.registry.hasLiveLease p.name now).2 } p.name now) now := by
    intro k
    rw [← hlive k]
    exact hadm k
  unfold admitted
  simp only
  split
  · refine Began.denied ?_ ?_ _ _ _
    · rfl
    · exact fun k => Or.inl (hlive k)
  · split
    · refine Began.denied ?_ ?_ _ _ _
      · rfl
      · exact hrolls
    · exact hnext _ rfl hrolls

theorem authenticates_books {b : Broker} {w : Wire} {p : Principal}
    (h : b.authenticates w.request = .ok (some p)) : b.books p.name = some p.books := by
  cases hc : b.comparable w with
  | false =>
    obtain ⟨x, hx⟩ := (b.authenticates_eq w).2 hc
    rw [hx] at h
    cases h
  | true =>
    rw [(b.authenticates_eq w).1 hc] at h
    exact Broker.authenticate_books (Except.ok.inj h)

theorem handle_began (d : Service) (h : Handler) (w : Wire) (now : Time) :
    Began d now (d.handle h w now) := by
  have hstill : Rolls d.broker d.broker now := fun k => Or.inl rfl
  have hraised : ∀ e, Began d now (.raised e, d) := fun e =>
    .goes rfl hstill (fun _ hs => by cases hs)
  have hbad : Began d now (d.deny w none badToken now) := .denied rfl hstill _ _ _
  cases h with
  | denied =>
    simp only [handle, handleDenied]
    split
    · exact hraised _
    · exact hbad
    · exact .denied rfl hstill _ _ _
  | models =>
    simp only [handle, handleModels]
    split
    · exact hraised _
    · exact hbad
    · rename_i p hp
      have hrolls := admission_rolls (authenticates_books hp) now
      split
      · refine Began.denied ?_ ?_ _ _ _
        · rfl
        · exact hrolls
      · split
        · exact .goes rfl hrolls (fun _ hs => by cases hs)
        · rename_i d' hd
          unfold recordLocal at hd
          obtain ⟨⟨id, l⟩, hl, rfl⟩ := map_ok.mp hd
          exact ⟨hrolls, .of_record hl rfl, fun _ hs => by cases hs⟩
  | forward =>
    simp only [handle, handleForward]
    split
    · exact hraised _
    · exact hbad
    · rename_i p hp
      refine admitted_began (authenticates_books hp) (fun d' hl hb => ?_)
      split
      · exact .denied hl hb _ _ _
      · exact .goes hl hb (fun s hs => ⟨_, _, (Option.some.inj hs).symm, rfl⟩)
  | anthropic configured =>
    simp only [handle, handleAnthropic]
    split
    · exact hraised _
    · exact hbad
    · rename_i p hp
      split
      · exact .denied rfl hstill _ _ _
      · refine admitted_began (authenticates_books hp) (fun d' hl hb => ?_)
        split
        · exact .denied hl hb _ _ _
        · split
          · exact .denied hl hb _ _ _
          · exact .goes hl hb (fun s hs => ⟨_, _, (Option.some.inj hs).symm, rfl⟩)

end Service

/-! ### The resumed turns -/

/-- What a resumed seat writes, and where it waits next. -/
inductive Wrote (d : Service) : Seat → Answer → Option Seat → BrokerLedger → Prop
  | noted (w : Wire) (r : Reading) (a : Answer) (l : BrokerLedger) : Noted d.ledger r.moment l →
      Wrote d (.reading w r) a none l
  | reads (w : Wire) (r r' : Reading) (a : Answer) :
      Wrote d (.reading w r) a (some (.reading w r')) d.ledger
  | forwards (w : Wire) (r : Reading) (a : Answer) (p : Posted) (phase : Phase)
      (l : BrokerLedger) (e : Entry) :
      l.rows = BrokerLedger.newest (d.ledger.rows ++ [⟨d.ledger.nextId, r.moment, e⟩]) →
      l.nextId = d.ledger.nextId + 1 → e.principal = r.principal → e.outcome = .forwarded →
      e.tokens = p.estimate →
      Wrote d (.reading w r) a (some (.forwarding d.ledger.nextId .upstreamError p phase)) l
  | goes (row : Nat) (o o' : Outcome) (p p' : Posted) (phase phase' : Phase) (a : Answer) :
      (o.counts = true → o'.counts = true) →
      Wrote d (.forwarding row o p phase) a (some (.forwarding row o' p' phase')) d.ledger
  | abandoned (row : Nat) (o : Outcome) (p : Posted) :
      Wrote d (.forwarding row o p .closing) .cancelled none d.ledger
  | settled (row : Nat) (o : Outcome) (p : Posted) (a : Answer) : a ≠ .cancelled →
      Wrote d (.forwarding row o p .closing) a none (d.settle row o p).ledger

theorem Broker.outcome_counts (b : Broker) (p : Posted) {o : Outcome} (ho : o.counts = true)
    (phase : Phase) (a : Answer) : (b.outcome p o phase a).counts = true := by
  have hoff : (b.brokenOff p).counts = true := by
    unfold brokenOff
    split <;> rfl
  unfold outcome
  split <;> first
    | exact ho
    | exact hoff
    | (split
       · rfl
       · split <;> rfl)

namespace Service

theorem deny_wrote {d d' : Service} (hl : d'.ledger = d.ledger) (w : Wire) (r : Reading)
    (a : Answer) (p : Option Principal) (x : Denial) :
    (d'.deny w p x r.moment).2.broker = d'.broker ∧
      (d'.deny w p x r.moment).1.seat.map Seat.frame = none ∧
      Wrote d (.reading w r) a (d'.deny w p x r.moment).1.seat
        (d'.deny w p x r.moment).2.ledger := by
  rw [deny_seat]
  exact ⟨deny_broker .., rfl, .noted _ _ _ _ (hl ▸ deny_noted ..)⟩

theorem begin_wrote {d d' : Service} (hl : d'.ledger = d.ledger) (w : Wire) (r : Reading)
    (a : Answer) (p : Principal) (model : String) (estimate : Nat) (credential : Bool) :
    (d'.beginForward w r p model estimate credential).2.broker =
        (d'.broker.beginForward r estimate credential).2 ∧
      (d'.beginForward w r p model estimate credential).1.seat.map Seat.frame =
        (d'.broker.beginForward r estimate credential).1 ∧
      Wrote d (.reading w r) a (d'.beginForward w r p model estimate credential).1.seat
        (d'.beginForward w r p model estimate credential).2.ledger := by
  obtain ⟨l, hrecord, hrows, hnext⟩ := BrokerLedger.record_ok (l := d'.ledger)
    (e := { principal := r.principal, generation := p.generation, method := w.method,
            path := r.path, outcome := .forwarded,
            leaseId := (d'.broker.registry.leaseRef r.principal r.moment).1,
            taskRef := (d'.broker.registry.leaseRef r.principal r.moment).2, model,
            requestBytes := r.body.length, inputTokens := estimate,
            tokensSource := some .estimated }) r.moment (Or.inl rfl) rfl
  simp only [beginForward, hrecord]
  refine ⟨trivial, rfl, ?_⟩
  rw [hl] at hrows hnext ⊢
  exact .forwards _ _ _ _ _ _ _ hrows hnext rfl rfl rfl

/-- A resumed turn is the broker's, with the ledger beside it. -/
theorem resume_turn (d : Service) (s : Seat) (h : Heard) (now : Time) :
    (d.resume s h).2.broker = (d.broker.resume s.frame h.answer now).2 ∧
      (d.resume s h).1.seat.map Seat.frame = (d.broker.resume s.frame h.answer now).1 ∧
      Wrote d s h.answer (d.resume s h).1.seat (d.resume s h).2.ledger := by
  cases s with
  | reading w r =>
    cases ha : h.answer with
    | read chunk credential =>
      simp only [resume, ha, Seat.frame, Broker.resume, readBody, Broker.readBody]
      split
      · simp only [bodyRead, Broker.bodyRead, inBroker]
        cases d.broker.registry.principal? r.principal with
        | none => exact ⟨rfl, rfl, .noted _ _ _ _ .same⟩
        | some p =>
          simp only
          cases Broker.checkBody r p.caps with
          | error x =>
            refine deny_wrote ?_ ..
            rfl
          | ok out =>
            obtain ⟨model, body⟩ := out
            simp only
            cases (p.precharge (estimateTokens r.body body model) r.moment).1 with
            | error x =>
              refine deny_wrote ?_ ..
              rfl
            | ok u =>
              simp only
              refine begin_wrote ?_ ..
              rfl
      · split
        · refine deny_wrote ?_ ..
          rfl
        · exact ⟨rfl, rfl, .reads ..⟩
    | _ =>
      simp only [resume, ha]
      exact ⟨rfl, rfl, .noted _ _ _ _ .same⟩
  | forwarding row o p phase =>
    change (d.forwardStep row o p phase h.answer).2.broker =
        (d.broker.forwardStep p phase h.answer).2 ∧
      (d.forwardStep row o p phase h.answer).1.seat.map Seat.frame =
        (d.broker.forwardStep p phase h.answer).1 ∧
      Wrote d (.forwarding row o p phase) h.answer (d.forwardStep row o p phase h.answer).1.seat
        (d.forwardStep row o p phase h.answer).2.ledger
    generalize h.answer = a
    have hgoes : ∀ (p' : Posted) (phase' : Phase) (broker : Broker),
        d.broker.forwardStep p phase a = (some (.forwarding p' phase'), broker) →
        (d.forwardStep row o p phase a).2.broker = (d.broker.forwardStep p phase a).2 ∧
        (d.forwardStep row o p phase a).1.seat.map Seat.frame =
          (d.broker.forwardStep p phase a).1 ∧
        Wrote d (.forwarding row o p phase) a (d.forwardStep row o p phase a).1.seat
          (d.forwardStep row o p phase a).2.ledger := by
      intro p' phase' broker heq
      simp only [forwardStep, heq]
      exact ⟨trivial, rfl, .goes _ _ _ _ _ _ _ _ (fun ho => d.broker.outcome_counts p ho phase a)⟩
    cases phase with
    | closing =>
      cases a with
      | cancelled => exact ⟨rfl, rfl, .abandoned ..⟩
      | _ => exact ⟨rfl, rfl, .settled _ _ _ _ (fun h => by cases h)⟩
    | streaming =>
      cases a with
      | chunk c =>
        by_cases habort : d.broker.aborted p.forward ∨ ¬ d.broker.listening
        · exact hgoes _ _ _ (if_pos habort)
        · exact hgoes _ _ _ (if_neg habort)
      | _ => exact hgoes _ _ _ rfl
    | _ => cases a <;> exact hgoes _ _ _ rfl

end Service

end Solvio.ProviderBroker
