import Solvio.ProviderBroker.Handlers

namespace Solvio.ProviderBroker
open Solvio.Lib

/-! ### Which gate rejects -/

/-- The handlers, with what the vault holds at the time of the request. -/
inductive Handler where
  | forward
  | anthropic (configured : Bool)
  | models
  | denied

def Service.handle (d : Service) (h : Handler) (w : Wire) (now : Time) : Served × Service :=
  match h with
  | .forward => d.handleForward w now
  | .anthropic configured => d.handleAnthropic w configured now
  | .models => d.handleModels w now
  | .denied => d.handleDenied w now

/-- A gate that lets pass unless the condition holds. -/
def closedIf (c : Prop) [Decidable c] (x : Denial) : Option Denial := if c then some x else none

/-- Gate three. -/
def Principal.capped (p : Principal) (now : Time) : Option Denial :=
  match (p.admission now).1 with
  | .ok _ => none
  | .error x => some x.denial

/-- Gates two and three. -/
def Broker.barred (b : Broker) (p : Principal) (now : Time) : Option Denial :=
  (closedIf ((b.registry.hasLiveLease p.name now).1 = false) leaseAbsent).or
    ((p.expire now).capped now)

/-- The denial of the first gate that a request does not pass, up to its body. -/
def Broker.refusal (b : Broker) (h : Handler) (w : Wire) (now : Time) : Option Denial :=
  match b.authenticate w.request with
  | none => some badToken
  | some p =>
    match h with
    | .denied => some pathNotAllowed
    | .models => p.capped now
    | .forward => (b.barred p now).or
        (closedIf (w.lone ∨ w.request.canonicalPath ∉ forwardedPaths) pathNotAllowed)
    | .anthropic configured =>
      (closedIf (p.name ∉ anthropicPrincipals) (principalNotAllowed w.request.path)).or
        ((b.barred p now).or
          ((closedIf (w.lone ∨ w.request.path ∉ anthropicPaths) pathNotAllowed).or
            (closedIf (¬ configured) (noCredential w.request.path))))

/-- The gates that a body comes to. -/
inductive BodyGate where
  | size
  | content (x : BodyRejected)
  | tokenCap
  | vault
deriving DecidableEq

/-- The gate that rejects a body at an answer, and its denial. -/
def Broker.bodyRefusal (b : Broker) (r : Reading) (h : Heard) : Option (BodyGate × Denial) :=
  match h.answer, b.registry.principal? r.principal with
  | .read chunk credential, some p =>
    if chunk = [] then
      match checkBody r p.caps with
      | .error x => some (.content x, r.denial p.caps x)
      | .ok (model, body) =>
        match (p.precharge (estimateTokens r.body body model) r.moment).1 with
        | .error x => some (.tokenCap, r.capped model x)
        | .ok _ =>
          if r.anthropic ∧ ¬ credential then
            some (.vault, ⟨h.refusal.reason, 503, r.path, model, r.body.length⟩)
          else none
    else if r.maxBytes < r.body.length + chunk.length ∨
        maxTotalBufferedBytes < b.buffered + (r.body.length + chunk.length) then
      some (.size, r.tooLarge)
    else none
  | _, _ => none

/-- A denial as it should be: its row and no other, its answer, and nothing of
it to the provider. -/
structure Booked (x : Denial) (moment : Time) (d : Service) (out : Served × Service) : Prop where
  answer : out.1 = .answers x.status x.reason
  row : ∃ e : Entry, e.outcome = .denied ∧ e.deniedReason = x.reason ∧
    out.2.ledger.rows = BrokerLedger.newest (d.ledger.rows ++ [⟨d.ledger.nextId, moment, e⟩])
  unsent : out.2.broker.nextForward = d.broker.nextForward

/-- The tokens of the registry and the presented one can be compared. -/
def Broker.comparable (b : Broker) (w : Wire) : Bool :=
  match w.request.presented with
  | none => true
  | some token =>
    decide (token = "") || b.registry.byToken.all (fun e => isAscii e.1 && isAscii token)

/-! ### The token gate -/

theorem fold_comparable (r : Registry) (presented : String) (es : List (String × String))
    (found : Option Principal) (h : es.all (fun e => isAscii e.1 && isAscii presented) = true) :
    es.foldlM (fun found e => do
      let same ← compareDigest e.1 presented
      pure (if same then r.principal? e.2 else found)) found =
    (.ok (es.foldl (fun found e => if e.1 = presented then r.principal? e.2 else found) found) :
      Except Raised (Option Principal)) := by
  induction es generalizing found with
  | nil => rfl
  | cons e es ih =>
    rw [List.all_cons, Bool.and_eq_true, Bool.and_eq_true] at h
    obtain ⟨hascii, hrest⟩ := h
    have hcompare : compareDigest e.1 presented = .ok (decide (e.1 = presented)) := if_pos hascii
    rw [List.foldlM_cons, hcompare]
    simp only [bind, Except.bind, pure, Except.pure, decide_eq_true_eq, List.foldl_cons]
    exact ih _ hrest

theorem fold_raises (r : Registry) (presented : String) (es : List (String × String))
    (found : Option Principal) (h : es.all (fun e => isAscii e.1 && isAscii presented) = false) :
    ∃ x, es.foldlM (fun found e => do
      let same ← compareDigest e.1 presented
      pure (if same then r.principal? e.2 else found)) found =
    (.error x : Except Raised (Option Principal)) := by
  induction es generalizing found with
  | nil => cases h
  | cons e es ih =>
    rw [List.foldlM_cons]
    cases hascii : (isAscii e.1 && isAscii presented) with
    | false =>
      have hcompare : compareDigest e.1 presented = .error .notAscii :=
        if_neg (fun hc => by rw [hc.1, hc.2] at hascii; cases hascii)
      rw [hcompare]
      exact ⟨.notAscii, rfl⟩
    | true =>
      have hcompare : compareDigest e.1 presented = .ok (decide (e.1 = presented)) :=
        if_pos (Bool.and_eq_true_iff.mp hascii)
      rw [hcompare]
      rw [List.all_cons, hascii, Bool.true_and] at h
      exact ih _ h

/-- The token gate gives the registry's answer, or raises. -/
theorem Broker.authenticates_eq (b : Broker) (w : Wire) :
    (b.comparable w = true → b.authenticates w.request = .ok (b.authenticate w.request)) ∧
      (b.comparable w = false → ∃ x, b.authenticates w.request = .error x) := by
  unfold comparable authenticates authenticate
  cases w.request.presented with
  | none => exact ⟨fun _ => rfl, fun h => by cases h⟩
  | some token =>
    simp only [Registry.resolves, Option.bind_some, Registry.resolve]
    by_cases hempty : token = ""
    · simp [hempty]
    · simp only [hempty, decide_false, Bool.false_or, if_false]
      exact ⟨fold_comparable _ _ _ _, fold_raises _ _ _ _⟩

/-! ### The write of a denial -/

theorem CapExceeded.reason_known (x : CapExceeded) : x.reason ∈ deniedReasons := by
  cases x <;> decide

theorem BodyRejected.reason_known {x : BodyRejected} (h : x ≠ .inputShapeNotAllowed) :
    x.reason ∈ deniedReasons := by
  cases x with
  | inputShapeNotAllowed => exact absurd rfl h
  | _ => decide

theorem principal_reason_known (path : String) :
    (principalNotAllowed path).reason ∈ deniedReasons := by
  change "principal_not_allowed" ∈ deniedReasons
  decide

theorem credential_reason_known (path : String) : (noCredential path).reason ∈ deniedReasons := by
  change "no_credential" ∈ deniedReasons
  decide

theorem BodyRejected.shape_unknown : BodyRejected.inputShapeNotAllowed.reason ∉ deniedReasons := by
  decide

/-- A denial that the ledger takes is booked and answered. -/
theorem Service.deny_booked {d d' : Service} {w : Wire} {p : Option Principal} {x : Denial}
    {moment : Time} (hledger : d'.ledger = d.ledger)
    (hnext : d'.broker.nextForward = d.broker.nextForward) (hreason : x.reason ∈ deniedReasons)
    (hlone : w.lone = false) : Booked x moment d (d'.deny w p x moment) := by
  obtain ⟨l, hl, hrows, -⟩ := BrokerLedger.record_ok (l := d'.ledger)
    (e := d'.denialEntry w p x moment) moment (Or.inr hreason) hlone
  unfold deny
  rw [hl]
  exact ⟨rfl, ⟨_, rfl, rfl, hledger ▸ hrows⟩, hnext⟩

/-- `_deny` ends the handler. -/
theorem Service.deny_ends (d : Service) (w : Wire) (p : Option Principal) (x : Denial)
    (moment : Time) (s : Seat) : (d.deny w p x moment).1 ≠ .waits s := by
  unfold deny
  split <;> exact nofun

/-- One that it does not take ends in its exception. -/
theorem Service.deny_raises {d d' : Service} {w : Wire} {p : Option Principal} {x : Denial}
    {moment : Time} (h : w.lone = true ∨ x.reason ≠ "" ∧ x.reason ∉ deniedReasons) (y : Denial) :
    ¬ Booked y moment d (d'.deny w p x moment) := by
  have hraise : ∃ e, d'.ledger.record (d'.denialEntry w p x moment) moment = .error e := by
    rcases h with h | ⟨hne, hr⟩
    · exact BrokerLedger.record_lone moment h
    · exact ⟨_, BrokerLedger.record_unknown moment hne hr⟩
  obtain ⟨e, he⟩ := hraise
  intro hbooked
  have hanswer := hbooked.answer
  unfold deny at hanswer
  rw [he] at hanswer
  cases hanswer

/-- The handler has come to `_deny`, with the ledger as it was. -/
def Service.Denies (d : Service) (w : Wire) (x : Denial) (moment : Time)
    (out : Served × Service) : Prop :=
  ∃ (d' : Service) (p : Option Principal), out = d'.deny w p x moment ∧
    d'.ledger = d.ledger ∧ d'.broker.nextForward = d.broker.nextForward

theorem Service.Denies.booked_iff {d : Service} {w : Wire} {x : Denial} {moment : Time}
    {out : Served × Service} (h : d.Denies w x moment out) (hne : x.reason ≠ "") :
    Booked x moment d out ↔ w.lone = false ∧ x.reason ∈ deniedReasons := by
  obtain ⟨d', p, rfl, hledger, hnext⟩ := h
  constructor
  · intro hbooked
    by_contra hbad
    refine Service.deny_raises ?_ x hbooked
    cases hlone : w.lone with
    | true => exact Or.inl rfl
    | false => exact Or.inr ⟨hne, fun hr => hbad ⟨hlone, hr⟩⟩
  · rintro ⟨hlone, hreason⟩
    exact Service.deny_booked hledger hnext hreason hlone

/-! ### The gates before the body -/

theorem closed_if_some {c : Prop} [Decidable c] {x y : Denial} (h : closedIf c x = some y) :
    c ∧ y = x := by
  unfold closedIf at h
  split at h
  · rename_i hc
    exact ⟨hc, (Option.some.inj h).symm⟩
  · cases h

theorem closed_if_none {c : Prop} [Decidable c] {x : Denial} (h : closedIf c x = none) : ¬ c := by
  unfold closedIf at h
  split at h
  · cases h
  · assumption

theorem Principal.capped_known {p : Principal} {now : Time} {x : Denial}
    (h : p.capped now = some x) : x.reason ∈ deniedReasons := by
  unfold capped at h
  split at h
  · cases h
  · rename_i e _
    cases h
    exact e.reason_known

theorem Broker.barred_known {b : Broker} {p : Principal} {now : Time} {x : Denial}
    (h : b.barred p now = some x) : x.reason ∈ deniedReasons := by
  rcases Option.or_eq_some_iff.mp h with h | ⟨-, h⟩
  · rw [(closed_if_some h).2]
    decide
  · exact Principal.capped_known h

/-- Every gate before the body has a reason that the ledger knows. -/
theorem Broker.refusal_known {b : Broker} {h : Handler} {w : Wire} {now : Time} {x : Denial}
    (hx : b.refusal h w now = some x) : x.reason ∈ deniedReasons := by
  unfold refusal at hx
  split at hx
  · cases hx
    decide
  · cases h with
    | denied =>
      cases hx
      decide
    | models => exact Principal.capped_known hx
    | forward =>
      rcases Option.or_eq_some_iff.mp hx with hx | ⟨-, hx⟩
      · exact barred_known hx
      · rw [(closed_if_some hx).2]
        decide
    | anthropic configured =>
      rcases Option.or_eq_some_iff.mp hx with hx | ⟨-, hx⟩
      · rw [(closed_if_some hx).2]
        exact principal_reason_known _
      · rcases Option.or_eq_some_iff.mp hx with hx | ⟨-, hx⟩
        · exact barred_known hx
        · rcases Option.or_eq_some_iff.mp hx with hx | ⟨-, hx⟩
          · rw [(closed_if_some hx).2]
            decide
          · rw [(closed_if_some hx).2]
            exact credential_reason_known _

/-- Gates two and three: closed, or the handler goes on. -/
theorem Service.admitted_cases (d : Service) (w : Wire) (p : Principal) (now : Time)
    (next : Service → Served × Service) :
    (∃ x, d.broker.barred p now = some x ∧ d.Denies w x now (d.admitted w p now next)) ∨
      (d.broker.barred p now = none ∧ ∃ d' : Service, d.admitted w p now next = next d' ∧
        d'.ledger = d.ledger ∧ d'.broker.nextForward = d.broker.nextForward) := by
  unfold admitted Broker.barred
  obtain ⟨live, registry⟩ := d.broker.registry.hasLiveLease p.name now
  cases live with
  | false => exact Or.inl ⟨leaseAbsent, rfl, _, _, if_pos (by simp), rfl, rfl⟩
  | true =>
    simp only [closedIf, Principal.capped, Bool.true_eq_false, if_false, Option.none_or,
      not_true_eq_false, inBroker]
    cases ((p.expire now).admission now).1 with
    | error x => exact Or.inl ⟨x.denial, rfl, _, _, rfl, rfl, rfl⟩
    | ok u => exact Or.inr ⟨rfl, _, rfl, rfl, rfl⟩

theorem Service.handle_refused {d : Service} {h : Handler} {w : Wire} {now : Time} {x : Denial}
    (hc : d.broker.comparable w = true) (hx : d.broker.refusal h w now = some x) :
    d.Denies w x now (d.handle h w now) := by
  have hauth := (d.broker.authenticates_eq w).1 hc
  unfold Broker.refusal at hx
  cases hp : d.broker.authenticate w.request with
  | none =>
    rw [hp] at hx hauth
    cases hx
    refine ⟨d, none, ?_, rfl, rfl⟩
    cases h <;>
      simp only [handle, handleForward, handleAnthropic, handleModels, handleDenied, hauth]
  | some p =>
    rw [hp] at hx hauth
    cases h with
    | denied =>
      cases hx
      exact ⟨d, some p, by simp only [handle, handleDenied, hauth], rfl, rfl⟩
    | models =>
      simp only [Principal.capped] at hx
      simp only [handle, handleModels, hauth]
      cases hadm : (p.admission now).1 with
      | ok u =>
        rw [hadm] at hx
        cases hx
      | error e =>
        rw [hadm] at hx
        cases hx
        exact ⟨_, _, rfl, rfl, rfl⟩
    | forward =>
      simp only [handle, handleForward, hauth]
      rcases d.admitted_cases w p now _ with ⟨y, hy, hden⟩ | ⟨hnone, d', heq, hl, hn⟩
      · simp only [hy, Option.some_or] at hx
        cases hx
        exact hden
      · simp only [hnone, Option.none_or] at hx
        obtain ⟨hpath, rfl⟩ := closed_if_some hx
        rw [heq, if_pos hpath]
        exact ⟨d', _, rfl, hl, hn⟩
    | anthropic configured =>
      simp only [handle, handleAnthropic, hauth]
      by_cases hname : p.name ∉ anthropicPrincipals
      · simp only [closedIf, if_pos hname, Option.some_or] at hx
        cases hx
        rw [if_pos hname]
        exact ⟨d, _, rfl, rfl, rfl⟩
      · rw [if_neg hname]
        simp only [closedIf, if_neg hname, Option.none_or] at hx
        rcases d.admitted_cases w p now _ with ⟨y, hy, hden⟩ | ⟨hnone, d', heq, hl, hn⟩
        · simp only [hy, Option.some_or] at hx
          cases hx
          exact hden
        · rw [heq]
          simp only [hnone, Option.none_or] at hx
          by_cases hpath : w.lone = true ∨ w.request.path ∉ anthropicPaths
          · simp only [if_pos hpath, Option.some_or] at hx
            cases hx
            rw [if_pos hpath]
            exact ⟨d', _, rfl, hl, hn⟩
          · simp only [if_neg hpath, Option.none_or] at hx
            rw [if_neg hpath]
            obtain ⟨hconf, rfl⟩ := closed_if_some hx
            rw [if_pos hconf]
            exact ⟨d', _, rfl, hl, hn⟩

/-- A comparison that raises ends the handler. -/
theorem Service.handle_raises {d : Service} {h : Handler} {w : Wire} {now : Time}
    (hc : d.broker.comparable w = false) : ∃ e, (d.handle h w now).1 = .raised e := by
  obtain ⟨e, he⟩ := (d.broker.authenticates_eq w).2 hc
  refine ⟨e, ?_⟩
  cases h <;> simp only [handle, handleForward, handleAnthropic, handleModels, handleDenied, he]

/-! ### The gates of the body -/

theorem too_large_known {r : Reading} : r.tooLarge.reason ∈ deniedReasons := by
  change "body_too_large" ∈ deniedReasons
  decide

/-- What an answer of the body's reader comes to. -/
inductive BodyTurn (d : Service) (w : Wire) (moment : Time) :
    Option (BodyGate × Denial) → Served × Service → Prop
  | rejects {out} (g : BodyGate) (x : Denial) : g ≠ .vault → x.reason ≠ "" →
      (x.reason ∈ deniedReasons ↔ g ≠ .content .inputShapeNotAllowed) → d.Denies w x moment out →
      BodyTurn d w moment (some (g, x)) out
  | unlent {out} (x : Denial) : (∀ status code, out.1 ≠ .answers status code) →
      (∀ w' r', out.1 ≠ .waits (.reading w' r')) → BodyTurn d w moment (some (.vault, x)) out
  | goes {out} : (∀ w' r', out.1 = .waits (.reading w' r') → out.2 = d) →
      BodyTurn d w moment none out

theorem reason_ne {reason : String} (h : reason ∈ deniedReasons) : reason ≠ "" := by
  rintro rfl
  revert h
  decide

theorem BodyTurn.known {d : Service} {w : Wire} {moment : Time} {out : Served × Service}
    {g : BodyGate} {x : Denial} (hv : g ≠ .vault) (hg : g ≠ .content .inputShapeNotAllowed)
    (hr : x.reason ∈ deniedReasons) (h : d.Denies w x moment out) :
    BodyTurn d w moment (some (g, x)) out :=
  .rejects g x hv (reason_ne hr) ⟨fun _ => hg, fun _ => hr⟩ h

theorem Service.begin_forward (d : Service) (w : Wire) (r : Reading) (p : Principal)
    (model : String) (estimate : Nat) (credential : Bool) :
    (∃ e, (d.beginForward w r p model estimate credential).1 = .raised e) ∨
      ∃ row posted phase, (d.beginForward w r p model estimate credential).1 =
        .waits (.forwarding row .upstreamError posted phase) := by
  unfold beginForward
  simp only
  split
  · exact Or.inl ⟨_, rfl⟩
  · exact Or.inr ⟨_, _, _, rfl⟩

theorem Service.body_read (d : Service) (w : Wire) (r : Reading) (h : Heard) (credential : Bool)
    (ha : h.answer = .read [] credential) :
    BodyTurn d w r.moment (d.broker.bodyRefusal r h) (d.bodyRead w r credential) := by
  unfold Broker.bodyRefusal bodyRead
  rw [ha]
  simp only [inBroker]
  cases d.broker.registry.principal? r.principal with
  | none => exact .goes (fun w' r' h => by cases h)
  | some p =>
    simp only [↓reduceIte]
    cases hcheck : Broker.checkBody r p.caps with
    | error x =>
      simp only
      by_cases hx : x = .inputShapeNotAllowed
      · subst hx
        exact .rejects _ _ (fun h => by cases h) (by decide : "input_shape_not_allowed" ≠ "")
          ⟨fun hr => absurd hr BodyRejected.shape_unknown, fun h => absurd rfl h⟩
          ⟨_, _, rfl, rfl, rfl⟩
      · exact .known (fun h => by cases h) (fun h => hx (by cases h; rfl)) (BodyRejected.reason_known hx)
          ⟨_, _, rfl, rfl, rfl⟩
    | ok out =>
      obtain ⟨model, body⟩ := out
      simp only
      cases (p.precharge (estimateTokens r.body body model) r.moment).1 with
      | error x =>
        exact .known (fun h => by cases h) (fun h => by cases h) (CapExceeded.reason_known x)
          ⟨_, _, rfl, rfl, rfl⟩
      | ok u =>
        simp only
        have hbegin := begin_forward { d with
          broker := Broker.precharge { d.broker with buffered := d.broker.buffered + r.body.length }
            r.principal (estimateTokens r.body body model) r.moment }
          w r p model (estimateTokens r.body body model) credential
        split
        · refine .unlent _ (fun status code hs => ?_) (fun w' r' hs => ?_)
          · rcases hbegin with ⟨e, he⟩ | ⟨row, posted, phase, he⟩
            · rw [he] at hs
              cases hs
            · rw [he] at hs
              cases hs
          · rcases hbegin with ⟨e, he⟩ | ⟨row, posted, phase, he⟩
            · rw [he] at hs
              cases hs
            · rw [he] at hs
              cases hs
        · refine .goes (fun w' r' hs => ?_)
          rcases hbegin with ⟨e, he⟩ | ⟨row, posted, phase, he⟩
          · rw [he] at hs
            cases hs
          · rw [he] at hs
            cases hs

theorem Service.body_turn (d : Service) (w : Wire) (r : Reading) (h : Heard) :
    BodyTurn d w r.moment (d.broker.bodyRefusal r h) (d.resume (.reading w r) h) := by
  cases ha : h.answer with
  | read chunk credential =>
    simp only [resume, ha, readBody]
    split
    · rename_i hchunk
      subst hchunk
      exact d.body_read w r h credential ha
    · rename_i hchunk
      unfold Broker.bodyRefusal
      simp only [ha]
      cases d.broker.registry.principal? r.principal with
      | none =>
        refine .goes (fun w' r' hs => ?_)
        split at hs
        · exact absurd hs (deny_ends _ _ _ _ _ _)
        · rename_i hlarge
          rw [if_neg hlarge]
      | some p =>
        simp only [if_neg hchunk]
        split
        · exact .known nofun nofun too_large_known ⟨_, _, rfl, rfl, rfl⟩
        · exact .goes (fun w' r' hs => rfl)
  | _ =>
    simp only [resume, ha, Broker.bodyRefusal]
    exact .goes (fun w' r' hs => rfl)

/-! ### Denials are booked -/

theorem Service.Denies.ends {d : Service} {w : Wire} {x : Denial} {moment : Time}
    {out : Served × Service} (h : d.Denies w x moment out) (s : Seat) : out.1 ≠ .waits s := by
  obtain ⟨d', p, rfl, -, -⟩ := h
  exact d'.deny_ends w p x moment s

/-- A handler that goes on has written nothing. -/
theorem Service.handle_waits {d : Service} {h : Handler} {w : Wire} {now : Time} {s : Seat}
    (hs : (d.handle h w now).1 = .waits s) : (d.handle h w now).2.ledger = d.ledger := by
  cases hc : d.broker.comparable w with
  | false =>
    obtain ⟨e, he⟩ : ∃ e, (d.handle h w now).1 = .raised e := d.handle_raises hc
    rw [he] at hs
    cases hs
  | true =>
    cases hx : d.broker.refusal h w now with
    | some x => exact absurd hs ((d.handle_refused hc hx).ends s)
    | none =>
      have hauth := (d.broker.authenticates_eq w).1 hc
      unfold Broker.refusal at hx
      cases hp : d.broker.authenticate w.request with
      | none =>
        rw [hp] at hx
        cases hx
      | some p =>
        rw [hp] at hx hauth
        cases h with
        | denied => cases hx
        | models =>
          simp only [handle, handleModels, hauth] at hs
          split at hs
          · exact absurd hs (deny_ends _ _ _ _ _ _)
          · split at hs <;> cases hs
        | forward =>
          simp only [handle, handleForward, hauth] at hs ⊢
          rcases d.admitted_cases w p now _ with ⟨y, -, hden⟩ | ⟨-, d', heq, hl, -⟩
          · exact absurd hs (hden.ends s)
          · rw [heq] at hs ⊢
            split at hs
            · exact absurd hs (deny_ends _ _ _ _ _ _)
            · rename_i hpath
              rw [if_neg hpath]
              exact hl
        | anthropic configured =>
          simp only [handle, handleAnthropic, hauth] at hs ⊢
          split at hs
          · exact absurd hs (deny_ends _ _ _ _ _ _)
          · rename_i hname
            rw [if_neg hname]
            rcases d.admitted_cases w p now _ with ⟨y, -, hden⟩ | ⟨-, d', heq, hl, -⟩
            · exact absurd hs (hden.ends s)
            · rw [heq] at hs ⊢
              split at hs
              · exact absurd hs (deny_ends _ _ _ _ _ _)
              · rename_i hpath
                rw [if_neg hpath]
                split at hs
                · exact absurd hs (deny_ends _ _ _ _ _ _)
                · rename_i hconf
                  rw [if_neg hconf]
                  exact hl

/-- A rejection before the body is booked exactly if its token can be compared
and its path can be written. One of the body is exactly if it is neither the
content gate's nor the vault's. What has gone on until then has written nothing. -/
theorem denials_booked (d : Service) (w : Wire) :
    (∀ h now,
      ((∀ x, d.broker.refusal h w now = some x → Booked x now d (d.handle h w now)) ↔
        ∀ x, d.broker.refusal h w now = some x →
          d.broker.comparable w = true ∧ w.lone = false) ∧
      ∀ s, (d.handle h w now).1 = .waits s → (d.handle h w now).2.ledger = d.ledger) ∧
    ∀ r heard,
      ((∀ g x, d.broker.bodyRefusal r heard = some (g, x) →
          Booked x r.moment d (d.resume (.reading w r) heard)) ↔
        ∀ g x, d.broker.bodyRefusal r heard = some (g, x) →
          w.lone = false ∧ g ≠ .vault ∧ g ≠ .content .inputShapeNotAllowed) ∧
      ∀ w' r', (d.resume (.reading w r) heard).1 = .waits (.reading w' r') →
        (d.resume (.reading w r) heard).2.ledger = d.ledger := by
  refine ⟨fun h now => ⟨forall_congr' fun x => imp_congr_right fun hx => ?_,
    fun s hs => Service.handle_waits hs⟩, fun r heard => ?_⟩
  · have hknown := Broker.refusal_known hx
    cases hc : d.broker.comparable w with
    | false =>
      obtain ⟨e, he⟩ : ∃ e, (d.handle h w now).1 = .raised e := d.handle_raises hc
      refine ⟨fun hb => ?_, fun hb => by cases hb.1⟩
      have hanswer := hb.answer
      rw [he] at hanswer
      cases hanswer
    | true =>
      rw [(d.handle_refused hc hx).booked_iff (reason_ne hknown)]
      exact ⟨fun h => ⟨rfl, h.1⟩, fun h => ⟨h.2, hknown⟩⟩
  · have hturn := d.body_turn w r heard
    generalize d.broker.bodyRefusal r heard = refused at hturn
    generalize d.resume (.reading w r) heard = out at hturn
    cases hturn with
    | rejects g x hv hne hreason hden =>
      refine ⟨?_, fun w' r' hs => absurd hs (hden.ends _)⟩
      have hiff := hden.booked_iff hne
      constructor
      · intro hb g' x' he
        cases he
        obtain ⟨hlone, hr⟩ := hiff.mp (hb g x rfl)
        exact ⟨hlone, hv, hreason.mp hr⟩
      · intro hcond g' x' he
        cases he
        obtain ⟨hlone, -, hg⟩ := hcond g x rfl
        exact hiff.mpr ⟨hlone, hreason.mpr hg⟩
    | unlent x hanswer hreads =>
      refine ⟨⟨fun hb => ?_, fun hcond => ?_⟩, fun w' r' hs => absurd hs (hreads w' r')⟩
      · exact absurd (hb .vault x rfl).answer (hanswer _ _)
      · exact absurd rfl (hcond .vault x rfl).2.1
    | goes hgoes =>
      refine ⟨⟨fun _ => nofun, fun _ => nofun⟩, fun w' r' hs => ?_⟩
      rw [hgoes w' r' hs]

/-! ### A document that is no document -/

def sampleDocumentToken : String := "sk-solvio-broker-1"

def sampleDocumentRequest : Request where
  authorization := "Bearer sk-solvio-broker-1"
  path := "/v1/responses"
  rawPath := "/v1/responses"

def sampleDocumentWire : Wire := { request := sampleDocumentRequest, method := "POST" }

/-- The document principal, with a lease. -/
def sampleDocumentService : Service where
  broker := (Broker.start (.openLease documentPrincipal "task" 1000 "lease-1") 0
    (Broker.start (.registerPrincipal documentPrincipal sampleDocumentToken 0 0) 0 .init).2).2
  ledger := {}

def sampleDocumentReading : Reading where
  anthropic := false
  request := sampleDocumentRequest
  principal := documentPrincipal
  moment := 1
  maxBytes := maxDocumentBodyBytes
  body := asciiBytes "\x7b\"model\":\"gpt-5.4-mini\",\"input\":\"x\"\x7d"

/-- The content gate rejects a text as the input. -/
def rejectsContent (d : Service) (r : Reading) : Bool :=
  match d.broker.bodyRefusal r { answer := .read [] false } with
  | some (.content .inputShapeNotAllowed, _) => true
  | _ => false

theorem sample_content : rejectsContent sampleDocumentService sampleDocumentReading = true := by
  decide +kernel

/-- Its denial is not booked: the write raises. -/
theorem content_denial_raises : ¬ ∀ d w r heard g x,
    Broker.bodyRefusal d.broker r heard = some (g, x) →
      Booked x r.moment d (d.resume (.reading w r) heard) := by
  intro hall
  have hsample := sample_content
  unfold rejectsContent at hsample
  split at hsample
  · rename_i x hx
    have hbooked := hall _ sampleDocumentWire _ _ _ _ hx
    have hturn := sampleDocumentService.body_turn sampleDocumentWire sampleDocumentReading
      { answer := .read [] false }
    rw [hx] at hturn
    cases hturn with
    | rejects _ _ _ hne hreason hden =>
      exact hreason.mp ((hden.booked_iff hne).mp hbooked).2 rfl
  · cases hsample

end Solvio.ProviderBroker
