import Solvio.Approval.Operations

namespace Solvio.Approval
open Solvio.Lib

/-! ### A decision, statement by statement -/

/-- What a decision executes on its connection. -/
inductive Statement where
  | begin | readRequest | readDevice | readRevocations | burn | readChallenge | count | readState
  | move | auditReason | audit | commit | auditConflict
deriving DecidableEq

/-- The conditional updates that match no row, and the statements at which the
database raises. -/
structure Races where
  burnLost : Bool := false
  countLost : Bool := false
  moveLost : Bool := false
  raises : Statement → Bool := fun _ => false

inductive Raised where
  | database
  | store (e : StoreError)
deriving DecidableEq

/-- How a decision leaves its transaction before the end. -/
inductive Exit where
  | denied (reason : String) (s : Store)
  | conflict (text : String)
  | raised (e : Raised)

abbrev Work (α : Type) := Except Exit α

namespace Races

def run (r : Races) (k : Statement) : Work Unit :=
  if r.raises k then .error (.raised .database) else .ok ()

/-- `_decision_deny`: the audit row is committed and the reason returned. -/
def deny (r : Races) (s : Store) (now : Time) (c : DecisionCall) (reason : String) : Work α := do
  r.run .audit
  r.run .commit
  .error (.denied reason
    (s.audited now "decision_rejected" (some c.approvalId) (some c.deviceId) (some reason) none))

/-- The read after a burn that matched no row. -/
def lostBurn (s : Store) (now : Time) (c : DecisionCall) (req : Request) : String :=
  match s.challenges.find? c.challengeNonce with
  | none => "unknown"
  | some row =>
    if row.consumed then "replay"
    else if row.expiresAt < now then "expired"
    else if row.approvalId ≠ c.approvalId ∨ row.deviceId ≠ c.deviceId ∨
        row.principal ≠ req.principal ∨ row.actionDigest ≠ req.actionDigest then "mismatch"
    else "display_mismatch"

def burn (r : Races) (s : Store) (now : Time) (c : DecisionCall) (req : Request) :
    Work Store := do
  r.run .burn
  if ¬ r.burnLost ∧ s.challenges.rowcount (fun row => row.challengeNonce = c.challengeNonce &&
      row.openFor now c.approvalId c.deviceId req.principal req.actionDigest
        c.challengePayloadSha256) = 1 then
    .ok (s.write (·.burnChallenge now c.challengeNonce c.approvalId c.deviceId req.principal
      req.actionDigest c.challengePayloadSha256))
  else do
    r.run .readChallenge
    r.deny s now c ("nonce_" ++ lostBurn s now c req)

def count (r : Races) (s : Store) (c : DecisionCall) : Work Store :=
  if c.newState = .approved ∧ c.appAttestCounter.isSome then do
    r.run .count
    .ok (if r.countLost then s
      else s.write (·.countDecision c.newState c.deviceId c.appAttestCounter))
  else .ok s

def transition (r : Races) (s : Store) (now : Time) (c : DecisionCall) : Work Store :=
  if c.newState = .executing then .error (.raised (.store .executionBypass))
  else do
    r.run .readState
    match s.requests.find? c.approvalId with
    | none => .error (.raised (.store (.approvalStoreError "unknown approval_id")))
    | some row =>
      if row.state.allowed c.newState = false then
        .error (.conflict (StoreError.illegalTransition row.state c.newState).text)
      else do
        r.run .move
        if r.moveLost ∨ s.requests.rowcount (fun row' => row'.approvalId = c.approvalId &&
            row'.state = row.state) ≠ 1 then
          .error (.conflict (StoreError.concurrentTransition c.approvalId row.state c.newState).text)
        else do
          r.run .audit
          .ok ((s.write (·.moveRequest c.approvalId row.state c.newState true now
            (some c.deviceId) none)).audited now ("state_" ++ c.newState.text)
              (some c.approvalId) (some c.deviceId) none none)

/-- The refusals of `_execution_authority`, each with the audit rows of its branch. -/
def denyAuthority (r : Races) (s : Store) (now : Time) (c : DecisionCall) (dev : Device)
    (reason : String) (revokedKind : Option String) : Work α :=
  if reason = "device_revoked" then do
    r.run .auditReason
    r.deny (s.audited now "decision_rejected_revoked_key" (some c.approvalId) (some c.deviceId)
      revokedKind none) now c "device_revoked"
  else if reason = "device_environment_not_allowed" then do
    r.run .auditReason
    r.deny (s.audited now "decision_rejected_environment" (some c.approvalId) (some c.deviceId)
      dev.environment none) now c reason
  else r.deny s now c reason

/-- The transaction of `_commit_decision`, on its working copy of the store. -/
def decision (r : Races) (s : Store) (now : Time) (c : DecisionCall) : Work Store := do
  r.run .begin
  r.run .readRequest
  match s.requests.find? c.approvalId with
  | none => r.deny s now c "unknown_request"
  | some req =>
    if req.state ≠ .pending then r.deny s now c "not_pending"
    else if req.expiresAt < now then r.deny s now c "request_expired"
    else do
      r.run .readDevice
      match s.devices.find? c.deviceId with
      | none => r.deny s now c "unknown_device"
      | some dev => do
        r.run .readRevocations
        match Store.executionAuthority s.toTables req dev c.allowedEnvironments with
        | .error (reason, revokedKind) => r.denyAuthority s now c dev reason revokedKind
        | .ok identity =>
          if fingerprint c.verifiedPublicKeyX963 ≠ identity.approvalKeySha256 then
            r.deny s now c "device_rebound"
          else if c.newState = .approved ∧ c.verifiedAppAttestPublicKey = none then
            r.deny s now c "assertion_required"
          else if c.newState = .approved ∧
              c.verifiedAppAttestPublicKey.map toHex ≠ some (dev.appAttestPublicKey.getD "") then
            r.deny s now c "device_rebound"
          else do
            let burned ← r.burn s now c req
            let counted ← r.count burned c
            let moved ← r.transition counted now c
            r.run .commit
            .ok moved

/-- What the caller gets, and the store that is committed. A lost race and an
exception roll the working copy back. -/
def settle (r : Races) (s : Store) (now : Time) (c : DecisionCall) :
    Work Store → Except Raised (Answer Unit) × Store
  | .ok s' => (.ok (.ok ()), s')
  | .error (.denied reason s') => (.ok (.error reason), s')
  | .error (.conflict text) =>
    if r.raises .auditConflict then (.error .database, s)
    else (.ok (.error "already_decided"), s.audited now "decision_conflict" (some c.approvalId)
      (some c.deviceId) (some (textPrefix 120 text)) none)
  | .error (.raised e) => (.error e, s)

/-- `_commit_decision`. -/
def commitDecision (r : Races) (s : Store) (now : Time) (c : DecisionCall) :
    Except Raised (Answer Unit) × Store :=
  r.settle s now c (r.decision s now c)

/-! ### Without races -/

@[simp] theorem quiet_run (k : Statement) : ({} : Races).run k = .ok () := rfl

@[simp] theorem ok_bind {α β : Type} (a : α) (f : α → Work β) : ((.ok a : Work α) >>= f) = f a := rfl

theorem cas_consume_eq (s : Store) (now : Time) (c : DecisionCall) (req : Request) :
    s.casConsumeChallenge now c.challengeNonce c.approvalId c.deviceId req.principal
      req.actionDigest c.challengePayloadSha256 =
      if s.challenges.rowcount (fun row => row.challengeNonce = c.challengeNonce &&
          row.openFor now c.approvalId c.deviceId req.principal req.actionDigest
            c.challengePayloadSha256) = 1 then
        (.ok (), s.write (·.burnChallenge now c.challengeNonce c.approvalId c.deviceId
          req.principal req.actionDigest c.challengePayloadSha256))
      else (.error (lostBurn s now c req), s) := by
  unfold Store.casConsumeChallenge lostBurn
  split
  · rfl
  · cases s.challenges.find? c.challengeNonce with
    | none => rfl
    | some row =>
      dsimp only
      split
      · rfl
      · split
        · rfl
        · split
          · rfl
          · rfl

theorem quiet_burn (s : Store) (now : Time) (c : DecisionCall) (req : Request) :
    ({} : Races).burn s now c req =
      match s.casConsumeChallenge now c.challengeNonce c.approvalId c.deviceId req.principal
        req.actionDigest c.challengePayloadSha256 with
      | (.error why, s') => ({} : Races).deny s' now c ("nonce_" ++ why)
      | (.ok _, s') => .ok s' := by
  rw [cas_consume_eq, burn]
  simp only [quiet_run, ok_bind, Bool.false_eq_true, not_false_eq_true, true_and]
  split
  · rfl
  · rfl

theorem quiet_count (s : Store) (c : DecisionCall) :
    ({} : Races).count s c =
      .ok (s.write (·.countDecision c.newState c.deviceId c.appAttestCounter)) := by
  unfold count Tables.countDecision
  cases c.appAttestCounter with
  | none => simp [Store.write]
  | some n =>
    by_cases h : c.newState = .approved
    · simp [h, quiet_run]
    · simp [h, Store.write]

/-- How the transition of the store's operations ends a decision. -/
def ended : Tx RequestState → Work Store
  | .ok (_, s') => .ok s'
  | .error (.illegalTransition cur new) => .error (.conflict (StoreError.illegalTransition cur new).text)
  | .error (.concurrentTransition a cur new) =>
    .error (.conflict (StoreError.concurrentTransition a cur new).text)
  | .error e => .error (.raised (.store e))

theorem quiet_transition (s : Store) (now : Time) (c : DecisionCall) :
    ({} : Races).transition s now c =
      ended (s.casTransition now c.approvalId c.newState (some c.deviceId) none true) := by
  unfold transition Store.casTransition
  split
  · rfl
  · rw [quiet_run, ok_bind]
    cases s.requests.find? c.approvalId with
    | none => rfl
    | some row =>
      dsimp only
      split
      · rfl
      · rw [quiet_run, ok_bind]
        simp only [Bool.false_eq_true, false_or]
        split
        · rfl
        · rfl

/-- A transaction of the store's operations settles in the same way. -/
def Agrees (s : Store) (now : Time) (c : DecisionCall) (w : Work Store) (t : Tx (Answer Unit)) :
    Prop :=
  ({} : Races).settle s now c w = match t with
    | .ok (answer, s') => (.ok answer, s')
    | .error e => (.error (.store e), s)

theorem decision_agrees (s : Store) (now : Time) (c : DecisionCall) :
    Agrees s now c (({} : Races).decision s now c)
      (s.commitDecision now c.approvalId c.deviceId c.newState c.challengeNonce
        c.challengePayloadSha256 c.verifiedPublicKeyX963 c.verifiedAppAttestPublicKey
        c.appAttestCounter c.allowedEnvironments) := by
  unfold decision Store.commitDecision
  simp only [quiet_run, ok_bind]
  cases s.requests.find? c.approvalId with
  | none => rfl
  | some req =>
    dsimp only
    split
    · rfl
    split
    · rfl
    cases s.devices.find? c.deviceId with
    | none => rfl
    | some dev =>
      dsimp only
      cases Store.executionAuthority s.toTables req dev c.allowedEnvironments with
      | error refusal =>
        obtain ⟨reason, revokedKind⟩ := refusal
        dsimp only [denyAuthority]
        split
        · rfl
        split
        · rfl
        · rfl
      | ok identity =>
        dsimp only
        split
        · rfl
        split
        · rfl
        split
        · rfl
        rw [quiet_burn]
        cases s.casConsumeChallenge now c.challengeNonce c.approvalId c.deviceId req.principal
          req.actionDigest c.challengePayloadSha256 with
        | mk answer burned =>
          cases answer with
          | error why => rfl
          | ok u =>
            simp only [ok_bind, quiet_count, quiet_transition]
            cases Store.casTransition _ now c.approvalId c.newState (some c.deviceId) none true with
            | ok moved => rfl
            | error e => cases e <;> rfl

/-- Where no race is lost and nothing raises, this is the decision of the
store's operations. -/
theorem commit_decision_quiet (s : Store) (now : Time) (c : DecisionCall) :
    ({} : Races).commitDecision s now c =
      match s.commitDecision now c.approvalId c.deviceId c.newState c.challengeNonce
        c.challengePayloadSha256 c.verifiedPublicKeyX963 c.verifiedAppAttestPublicKey
        c.appAttestCounter c.allowedEnvironments with
      | .ok (answer, s') => (.ok answer, s')
      | .error e => (.error (.store e), s) := decision_agrees s now c

/-! ### What a decision leaves -/

/-- The events of refusals: no state was reached. -/
def refusalEvents : List String :=
  ["decision_rejected", "decision_rejected_revoked_key", "decision_rejected_environment",
    "decision_conflict"]

/-- Refusals were written to the audit log, and nothing else changed. -/
structure OnlyAudited (s s' : Store) : Prop where
  tables : s'.toTables = s.toTables
  audit : ∃ rows, s'.audit = s.audit ++ rows ∧ ∀ a ∈ rows, a.event ∈ refusalEvents

theorem OnlyAudited.refl (s : Store) : OnlyAudited s s := ⟨rfl, [], by simp⟩

theorem OnlyAudited.audited {s s' : Store} (h : OnlyAudited s s') {now : Time} {event : String}
    {approvalId deviceId reason identity : Option String} (hevent : event ∈ refusalEvents) :
    OnlyAudited s (s'.audited now event approvalId deviceId reason identity) := by
  obtain ⟨rows, hrows, hall⟩ := h.audit
  refine ⟨h.tables, rows ++ [⟨now, approvalId, deviceId, event, reason, identity⟩], ?_, ?_⟩
  · simp [Store.audited, hrows]
  · intro a ha
    rcases List.mem_append.mp ha with ha | ha
    · exact hall a ha
    · rw [List.mem_singleton.mp ha]
      exact hevent

/-- Work on a store that ends with `P`, or with nothing but refusals written. -/
def Settled (s : Store) (P : Store → Prop) : Work Store → Prop
  | .ok s' => P s'
  | .error (.denied _ s') => OnlyAudited s s'
  | .error (.conflict _) => True
  | .error (.raised _) => True

variable {r : Races} {s w : Store} {now : Time} {c : DecisionCall} {P Q : Store → Prop}

theorem settled_run {k : Statement} {next : Work Store} (h : Settled s P next) :
    Settled s P (r.run k >>= fun _ => next) := by
  unfold run
  split
  · exact trivial
  · exact h

theorem settled_bind {x : Work Store} {f : Store → Work Store} (hx : Settled s P x)
    (hf : ∀ u, P u → Settled s Q (f u)) : Settled s Q (x >>= f) := by
  match x, hx with
  | .ok u, hx => exact hf u hx
  | .error (.denied _ _), hx => exact hx
  | .error (.conflict _), _ => exact trivial
  | .error (.raised _), _ => exact trivial

theorem settled_deny (h : OnlyAudited s w) (reason : String) :
    Settled s P (r.deny w now c reason) := by
  apply settled_run
  apply settled_run
  exact h.audited (by simp [refusalEvents])

theorem settled_deny_authority (dev : Device) (reason : String) (kind : Option String) :
    Settled s P (r.denyAuthority s now c dev reason kind) := by
  unfold denyAuthority
  split
  · apply settled_run
    exact settled_deny ((OnlyAudited.refl s).audited (by simp [refusalEvents])) _
  split
  · apply settled_run
    exact settled_deny ((OnlyAudited.refl s).audited (by simp [refusalEvents])) _
  · exact settled_deny (.refl s) _

theorem burn_settled (req : Request) :
    Settled s (fun u => (∃ row, s.challenges.find? c.challengeNonce = some row ∧
        row.openFor now c.approvalId c.deviceId req.principal req.actionDigest
          c.challengePayloadSha256 = true) ∧
      u = s.write (·.burnChallenge now c.challengeNonce c.approvalId c.deviceId req.principal
        req.actionDigest c.challengePayloadSha256)) (r.burn s now c req) := by
  apply settled_run
  split
  · rename_i hopen
    exact ⟨Table.rowcount_key_one.mp hopen.2, rfl⟩
  · apply settled_run
    exact settled_deny (.refl s) _

theorem count_settled :
    Settled s (fun u => u = w ∨ c.newState = .approved ∧
      u = w.write (·.countDecision c.newState c.deviceId c.appAttestCounter)) (r.count w c) := by
  unfold count
  split
  · rename_i h
    apply settled_run
    cases r.countLost with
    | true => exact .inl rfl
    | false => exact .inr ⟨h.1, rfl⟩
  · exact .inl rfl

theorem transition_settled :
    Settled s (fun u => ∃ row, w.requests.find? c.approvalId = some row ∧
        row.state.allowed c.newState = true ∧
      u = (w.write (·.moveRequest c.approvalId row.state c.newState true now (some c.deviceId)
        none)).audited now ("state_" ++ c.newState.text) (some c.approvalId) (some c.deviceId)
          none none) (r.transition w now c) := by
  unfold transition
  split
  · exact trivial
  apply settled_run
  cases hrow : w.requests.find? c.approvalId with
  | none => exact trivial
  | some row =>
    dsimp only
    split
    · exact trivial
    rename_i hallowed
    apply settled_run
    split
    · exact trivial
    apply settled_run
    exact ⟨row, rfl, by simpa using hallowed, rfl⟩

/-- What a decision has checked in the snapshot of its transaction, and exactly
what it changes. -/
structure Decided (s : Store) (now : Time) (c : DecisionCall) (req : Request) (dev : Device)
    (challenge : Challenge) (counter : Nat) (s' : Store) : Prop where
  request : s.requests.find? c.approvalId = some req
  pending : req.state = .pending
  lifetime : now ≤ req.expiresAt
  device : s.devices.find? c.deviceId = some dev
  active : dev.status = .active
  attested : dev.attestationStatus = .attested
  environment : dev.environment.getD "" ∈ c.allowedEnvironments
  principal : dev.principal = req.principal
  bound : ∃ key, fromHex dev.publicKeyX963 = some key ∧
    fingerprint key = fingerprint c.verifiedPublicKeyX963
  assertion : c.newState = .approved →
    c.verifiedAppAttestPublicKey.map toHex = some (dev.appAttestPublicKey.getD "")
  unrevoked : ∀ r ∈ s.revocations, ¬ (r.kind = .device ∧ r.value = c.deviceId) ∧
    ¬ (r.kind = .approvalKey ∧ r.value = fingerprint c.verifiedPublicKeyX963) ∧
    ¬ (r.kind = .appAttestKey ∧ r.value = dev.appAttestKeyId.getD "")
  nonce : s.challenges.find? c.challengeNonce = some challenge
  openFor : challenge.openFor now c.approvalId c.deviceId req.principal req.actionDigest
    c.challengePayloadSha256 = true
  burned : ∀ n, s'.challenges.find? n = if n = c.challengeNonce then
    some { challenge with consumed := true } else s.challenges.find? n
  moved : ∀ id, s'.requests.find? id = if id = c.approvalId then
    some (req.moved c.newState true now (some c.deviceId) none) else s.requests.find? id
  counted : dev.appAttestCounter ≤ counter ∧
    (c.newState ≠ .approved → counter = dev.appAttestCounter)
  devices : ∀ id, s'.devices.find? id = if id = c.deviceId then
    some { dev with appAttestCounter := counter } else s.devices.find? id
  others : s'.toTables = { s.toTables with
    devices := s'.devices, requests := s'.requests, challenges := s'.challenges }
  audit : s'.audit = s.audit ++
    [⟨now, some c.approvalId, some c.deviceId, "state_" ++ c.newState.text, none, none⟩]

theorem burn_find_one {t : Tables} {req : Request} {challenge : Challenge}
    (hrow : t.challenges.find? c.challengeNonce = some challenge)
    (hopen : challenge.openFor now c.approvalId c.deviceId req.principal req.actionDigest
      c.challengePayloadSha256 = true) (n : String) :
    (t.burnChallenge now c.challengeNonce c.approvalId c.deviceId req.principal req.actionDigest
      c.challengePayloadSha256).challenges.find? n = if n = c.challengeNonce then
        some { challenge with consumed := true } else t.challenges.find? n := by
  rw [Tables.burn_find]
  split
  · rename_i hn
    have hkey : challenge.challengeNonce = c.challengeNonce := Table.key_of_find hrow
    rw [hn, hrow, Option.map_some, hopen]
    simp [hkey]
  · rename_i hn
    cases hfound : t.challenges.find? n with
    | none => rfl
    | some row =>
      have hkey : row.challengeNonce = n := Table.key_of_find hfound
      simp [hkey, hn]

theorem count_find_one {t : Tables} {dev : Device} (hdev : t.devices.find? c.deviceId = some dev)
    (happroved : c.newState = .approved) (id : String) :
    (t.countDecision c.newState c.deviceId c.appAttestCounter).devices.find? id =
      if id = c.deviceId then
        some { dev with appAttestCounter := max dev.appAttestCounter (c.appAttestCounter.getD 0) }
      else t.devices.find? id := by
  rw [Tables.count_decision_find]
  split
  · rename_i hid
    have hkey : dev.deviceId = c.deviceId := Table.key_of_find hdev
    rw [hid, hdev, Option.map_some, if_pos ⟨happroved, hkey⟩]
  · rename_i hid
    cases hfound : t.devices.find? id with
    | none => rfl
    | some row =>
      have hkey : row.deviceId = id := Table.key_of_find hfound
      rw [Option.map_some, if_neg]
      rintro ⟨-, he⟩
      exact hid (hkey.symm.trans he)

/-- The three writes of a decision, one after the other. -/
theorem writes_settled {req : Request} {dev : Device} {identity : Store.DeviceIdentity}
    (hreq : s.requests.find? c.approvalId = some req) (hpending : req.state = .pending)
    (hlife : now ≤ req.expiresAt) (hdev : s.devices.find? c.deviceId = some dev)
    (hauth : Store.executionAuthority s.toTables req dev c.allowedEnvironments = .ok identity)
    (hkey : fingerprint c.verifiedPublicKeyX963 = identity.approvalKeySha256)
    (hassert : c.newState = .approved →
      c.verifiedAppAttestPublicKey.map toHex = some (dev.appAttestPublicKey.getD "")) :
    Settled s (fun u => ∃ challenge counter, Decided s now c req dev challenge counter u)
      (do
        let burned ← r.burn s now c req
        let counted ← r.count burned c
        let moved ← r.transition counted now c
        r.run .commit
        .ok moved) := by
  obtain ⟨⟨key, hhex, hfp⟩, haa, hrev, hactive, hatt, -, hprin, henv⟩ :=
    Store.execution_authority_ok hauth
  have hid : dev.deviceId = c.deviceId := Table.key_of_find hdev
  rw [hid, ← hkey, haa] at hrev
  apply settled_bind (burn_settled req)
  rintro burned ⟨⟨challenge, hrow, hopen⟩, rfl⟩
  apply settled_bind count_settled
  intro counted hcounted
  apply settled_bind transition_settled
  rintro moved ⟨row, hmoved, -, rfl⟩
  apply settled_run
  have hrequests : counted.requests = s.requests := by
    rcases hcounted with rfl | ⟨-, rfl⟩
    · rfl
    · obtain ⟨devices, hd⟩ := Tables.count_decision_frame _ c.newState c.deviceId c.appAttestCounter
      rw [Store.write_tables, hd]
      rfl
  rw [hrequests, hreq] at hmoved
  cases hmoved
  obtain ⟨counter, hcount, hdevices⟩ : ∃ counter, (dev.appAttestCounter ≤ counter ∧
      (c.newState ≠ .approved → counter = dev.appAttestCounter)) ∧
      ∀ id, counted.devices.find? id = if id = c.deviceId then
        some { dev with appAttestCounter := counter } else s.devices.find? id := by
    rcases hcounted with rfl | ⟨happroved, rfl⟩
    · refine ⟨dev.appAttestCounter, ⟨le_rfl, fun _ => rfl⟩, fun id => ?_⟩
      split
      · rename_i he
        rw [he]
        exact hdev
      · rfl
    · refine ⟨max dev.appAttestCounter (c.appAttestCounter.getD 0),
        ⟨le_max_left .., fun hne => absurd happroved hne⟩, fun id => ?_⟩
      exact count_find_one (t := s.toTables.burnChallenge now c.challengeNonce c.approvalId
        c.deviceId req.principal req.actionDigest c.challengePayloadSha256) hdev happroved id
  have hrest : counted.toTables = { s.toTables with
      devices := counted.devices, challenges := counted.challenges } ∧
      counted.challenges = (s.toTables.burnChallenge now c.challengeNonce c.approvalId c.deviceId
        req.principal req.actionDigest c.challengePayloadSha256).challenges ∧
      counted.audit = s.audit := by
    rcases hcounted with rfl | ⟨-, rfl⟩
    · exact ⟨rfl, rfl, rfl⟩
    · obtain ⟨devices, hd⟩ := Tables.count_decision_frame (s.toTables.burnChallenge now
        c.challengeNonce c.approvalId c.deviceId req.principal req.actionDigest
        c.challengePayloadSha256) c.newState c.deviceId c.appAttestCounter
      rw [Store.write_tables, Store.write_tables, hd]
      exact ⟨rfl, rfl, rfl⟩
  obtain ⟨htables, hchallenges, haudit⟩ := hrest
  refine ⟨challenge, counter, hreq, hpending, hlife, hdev, hactive, hatt, henv, hprin,
    ⟨key, hhex, hfp.symm.trans hkey.symm⟩, hassert, hrev, hrow, hopen, fun n => ?_, fun id => ?_,
    hcount, hdevices, ?_, ?_⟩
  · change counted.challenges.find? n = _
    rw [hchallenges]
    exact burn_find_one hrow hopen n
  · change (counted.toTables.moveRequest _ _ _ _ _ _ _).requests.find? id = _
    rw [Tables.find_move, hrequests, hreq]
    simp
  · exact congrArg (fun t : Tables => { t with
      requests := (counted.toTables.moveRequest c.approvalId req.state c.newState true now
        (some c.deviceId) none).requests }) htables
  · change counted.audit ++ _ = _
    rw [haudit]

theorem decision_settled (r : Races) (s : Store) (now : Time) (c : DecisionCall) :
    Settled s (fun u => ∃ req dev challenge counter, Decided s now c req dev challenge counter u)
      (r.decision s now c) := by
  apply settled_run
  apply settled_run
  cases hreq : s.requests.find? c.approvalId with
  | none => exact settled_deny (.refl s) _
  | some req =>
    dsimp only
    split
    · exact settled_deny (.refl s) _
    rename_i hpending
    split
    · exact settled_deny (.refl s) _
    rename_i hlife
    apply settled_run
    cases hdev : s.devices.find? c.deviceId with
    | none => exact settled_deny (.refl s) _
    | some dev =>
      apply settled_run
      cases hauth : Store.executionAuthority s.toTables req dev c.allowedEnvironments with
      | error refusal => exact settled_deny_authority dev _ _
      | ok identity =>
        dsimp only
        split
        · exact settled_deny (.refl s) _
        rename_i hkey
        split
        · exact settled_deny (.refl s) _
        split
        · exact settled_deny (.refl s) _
        rename_i hassert
        have hall := writes_settled (r := r) hreq (by simpa using hpending) (Int.not_lt.mp hlife)
          hdev hauth (by simpa using hkey) (fun hn => by simpa [hn] using hassert)
        generalize r.burn s now c req >>= _ = work at hall ⊢
        cases work with
        | ok u =>
          obtain ⟨challenge, counter, h⟩ := hall
          exact ⟨req, dev, challenge, counter, h⟩
        | error e =>
          cases e with
          | denied _ _ => exact hall
          | _ => exact trivial

/-- Whatever race is lost and wherever the database raises: a decision that
does not answer `ok` leaves the tables as they are and writes refusals at
most; one that does burns the nonce, moves the pending request and lowers no
counter, all in one commit, for a device that was entitled in its snapshot. -/
theorem refused_decision_changes_nothing (r : Races) (s : Store) (now : Time) (c : DecisionCall) :
    ((r.commitDecision s now c).1 ≠ .ok (.ok ()) → OnlyAudited s (r.commitDecision s now c).2) ∧
    ((r.commitDecision s now c).1 = .ok (.ok ()) → ∃ req dev challenge counter,
      Decided s now c req dev challenge counter (r.commitDecision s now c).2) := by
  have hall := decision_settled r s now c
  unfold commitDecision
  match r.decision s now c, hall with
  | .ok u, h => exact ⟨fun hne => absurd rfl hne, fun _ => h⟩
  | .error (.denied reason u), h => exact ⟨fun _ => h, fun he => by simp [settle] at he⟩
  | .error (.conflict text), _ =>
    unfold settle
    dsimp only
    split
    · exact ⟨fun _ => .refl s, fun he => by simp at he⟩
    · exact ⟨fun _ => (OnlyAudited.refl s).audited (by simp [refusalEvents]),
        fun he => by simp at he⟩
  | .error (.raised e), _ => exact ⟨fun _ => .refl s, fun he => by simp [settle] at he⟩

section sample

def sampleDevice : Device where
  deviceId := "phone"
  keyId := "key"
  publicKeyX963 := "0401"
  principal := "owner"
  transportCredHash := none
  attested := true
  status := .active
  enrolledAt := 0
  attestationStatus := .attested
  appAttestKeyId := none
  appAttestPublicKey := some "0402"
  appAttestCounter := 0
  attestedAt := some 0
  appId := none
  environment := some "production"
  currentEnrollmentId := some "enrollment"

/-- One pending request with its challenge on the phone. -/
def sampleStore : Store :=
  { Store.fresh with
    devices := ⟨[sampleDevice], by simp⟩
    requests := ⟨[⟨"approval", "owner", "codex_task", "modify", "task", "workspace", "digest",
      "summary", .pending, 0, 10, none, none, none⟩], by simp⟩
    challenges := ⟨[⟨"nonce", "approval", "phone", "owner", "digest", 0, 10, false, "payload"⟩],
      by simp⟩ }

/-- A denial whose assertion was made with a key that is not the phone's. -/
def sampleDenial : DecisionCall where
  approvalId := "approval"
  deviceId := "phone"
  newState := .denied
  challengeNonce := "nonce"
  challengePayloadSha256 := "payload"
  verifiedPublicKeyX963 := [4, 1]
  verifiedAppAttestPublicKey := some [4, 3]
  appAttestCounter := none
  allowedEnvironments := ["production"]

/-- A denial is not compared with the App Attest key. -/
theorem foreign_assertion_denies :
    (({} : Races).commitDecision sampleStore 0 sampleDenial).1 = .ok (.ok ()) ∧
    sampleStore.devices.find? sampleDenial.deviceId = some sampleDevice ∧
    sampleDenial.verifiedAppAttestPublicKey.map toHex ≠
      some (sampleDevice.appAttestPublicKey.getD "") := by
  decide +kernel

end sample

end Races

end Solvio.Approval
