import Solvio.Approval.Journal
import Solvio.Approval.Enrolment
import Solvio.Approval.Revocation
import Solvio.Lib.Runs

namespace Solvio.Approval
open Solvio.Lib

/-! ### The arguments of the long calls -/

structure RequestCall where
  approvalId : String
  principal : String
  tool : String
  mode : String
  task : String
  workspace : String
  actionDigest : String
  humanSummary : String
  expiresAt : Time

structure ChallengeCall where
  challengeNonce : String
  approvalId : String
  deviceId : String
  principal : String
  actionDigest : String
  expiresAt : Time
  payloadSha256 : String

structure ConsumeCall where
  challengeNonce : String
  approvalId : String
  deviceId : String
  principal : String
  actionDigest : String
  payloadSha256 : String

structure DecisionCall where
  approvalId : String
  deviceId : String
  newState : RequestState
  challengeNonce : String
  challengePayloadSha256 : String
  verifiedPublicKeyX963 : Bytes
  verifiedAppAttestPublicKey : Option Bytes
  appAttestCounter : Option Nat
  allowedEnvironments : List String

structure ClaimCall where
  approvalId : String
  deviceId : String
  identities : List IdentityRef
  executionId : String
  capability : String
  semantics : Semantics
  idempotencyKey : String
  owner : String
  leaseSeconds : Time
  coreInstanceId : Option String

structure FinishCall where
  attemptId : String
  status : AttemptStatus
  detail : Option String
  requestState : Option RequestState
  expectedStatus : Option AttemptStatus

structure EnrollmentCall where
  deviceId : String
  keyId : String
  publicKeyX963 : String
  principal : String
  appAttestKeyId : Option String
  identities : List IdentityRef
  enrollmentId : String
  nonce : String
  approvalPubkeySha256 : String
  bindingRaw : Bytes
  expiresAt : Time
  transportCredHash : Option String

structure FinalizeCall where
  enrollmentId : String
  appAttestPublicKeyX963 : Bytes
  appAttestCounter : Nat
  environment : String
  appId : String
  coreInstanceId : String

/-- Everything a caller can ask of the store, one atomic step each. -/
inductive StoreOp where
  | audit (event : String) (approvalId deviceId reason identity : Option String)
  | addEnrollmentToken (tokenHash principal : String) (expiresAt : Time)
  | consumeEnrollmentToken (tokenHash : String)
  | getDevice (deviceId : String)
  | getRequest (approvalId : String)
  | listPending (principal : Option String)
  | createRequest (c : RequestCall)
  | transition (approvalId : String) (new : RequestState) (deviceId error : Option String)
  | addChallenge (c : ChallengeCall)
  | consumeChallenge (c : ConsumeCall)
  | commitDecision (c : DecisionCall)
  | claimExecutionAttempt (c : ClaimCall)
  | beginExternalExecution (attemptId : String) (identities : List IdentityRef)
  | finishExecutionAttempt (c : FinishCall)
  | acquireRecoveryLease (attemptId owner : String) (leaseSeconds : Time)
  | recheckExecutionAuthority (attemptId : String) (allowedEnvironments : List String)
      (coreInstanceId : Option String)
  | openAttemptFor (executionId : String)
  | openAttemptById (attemptId : String)
  | openExecutionAttempts
  | attemptsFor (executionId : String)
  | beginEnrollmentAtomic (c : EnrollmentCall)
  | setDeviceAttestationFailed (enrollmentId deviceId : String) (reason : Option String)
  | finalizeAttestation (c : FinalizeCall)
  | peekAttestationChallenge (enrollmentId : String)
  | revokePlanned (plan : Store.RevocationPlan) (reason deviceId : Option String)
      (operation : String)
  | revokedIdentities (identities : List IdentityRef)

namespace StoreOp

@[reducible] def Reply : StoreOp → Type
  | audit .. | addEnrollmentToken .. | createRequest _ | addChallenge _ |
      setDeviceAttestationFailed .. => Unit
  | consumeEnrollmentToken _ => Answer String
  | getDevice _ => Option Device
  | getRequest _ => Option Request
  | listPending _ => List Request
  | transition .. => RequestState
  | consumeChallenge _ | commitDecision _ | beginExternalExecution .. | finishExecutionAttempt _ |
      acquireRecoveryLease .. | recheckExecutionAuthority .. | beginEnrollmentAtomic _ |
      finalizeAttestation _ => Answer Unit
  | claimExecutionAttempt _ => Answer String
  | openAttemptFor _ | openAttemptById _ => Option Attempt
  | openExecutionAttempts | attemptsFor _ => List Attempt
  | peekAttestationChallenge _ => Option AttestationChallenge
  | revokePlanned .. => Store.RevocationResult
  | revokedIdentities _ => Option RevokeKind

def tx (now : Time) (s : Store) : (op : StoreOp) → Tx op.Reply
  | audit event approvalId deviceId reason identity =>
    .ok ((), s.audited now event approvalId deviceId reason identity)
  | addEnrollmentToken tokenHash principal expiresAt =>
    s.addEnrollmentToken now tokenHash principal expiresAt
  | consumeEnrollmentToken tokenHash => s.consumeEnrollmentToken now tokenHash
  | getDevice deviceId => .ok (s.devices.find? deviceId, s)
  | getRequest approvalId => .ok (s.requests.find? approvalId, s)
  | listPending principal => s.listPending now principal
  | createRequest c =>
    s.createRequest now c.approvalId c.principal c.tool c.mode c.task c.workspace c.actionDigest
      c.humanSummary c.expiresAt
  | transition approvalId new deviceId error => s.transition now approvalId new deviceId error
  | addChallenge c =>
    s.addChallenge now c.challengeNonce c.approvalId c.deviceId c.principal c.actionDigest
      c.expiresAt c.payloadSha256
  | consumeChallenge c =>
    s.consumeChallenge now c.challengeNonce c.approvalId c.deviceId c.principal c.actionDigest
      c.payloadSha256
  | commitDecision c =>
    s.commitDecision now c.approvalId c.deviceId c.newState c.challengeNonce
      c.challengePayloadSha256 c.verifiedPublicKeyX963 c.verifiedAppAttestPublicKey
      c.appAttestCounter c.allowedEnvironments
  | claimExecutionAttempt c =>
    s.claimExecutionAttempt now c.approvalId c.deviceId c.identities c.executionId c.capability
      c.semantics c.idempotencyKey c.owner c.leaseSeconds c.coreInstanceId
  | beginExternalExecution attemptId identities => s.beginExternal now attemptId identities
  | finishExecutionAttempt c =>
    s.finishAttempt now c.attemptId c.status c.detail c.requestState c.expectedStatus
  | acquireRecoveryLease attemptId owner leaseSeconds =>
    s.acquireLease now attemptId owner leaseSeconds
  | recheckExecutionAuthority attemptId envs core =>
    s.recheckExecutionAuthority now attemptId envs core
  | openAttemptFor executionId => .ok (s.open? executionId, s)
  | openAttemptById attemptId => .ok (Store.openAttemptById s.toTables attemptId, s)
  | openExecutionAttempts => .ok (Store.openExecutionAttempts s.toTables, s)
  | attemptsFor executionId => .ok (Store.attemptsFor s.toTables executionId, s)
  | beginEnrollmentAtomic c =>
    s.beginEnrollmentAtomic now c.deviceId c.keyId c.publicKeyX963 c.principal c.appAttestKeyId
      c.identities c.enrollmentId c.nonce c.approvalPubkeySha256 c.bindingRaw c.expiresAt
      c.transportCredHash
  | setDeviceAttestationFailed enrollmentId deviceId reason =>
    s.setDeviceAttestationFailed now enrollmentId deviceId reason
  | finalizeAttestation c =>
    s.finalizeAttestation now c.enrollmentId c.appAttestPublicKeyX963 c.appAttestCounter
      c.environment c.appId c.coreInstanceId
  | peekAttestationChallenge enrollmentId => .ok (s.attestationChallenges.find? enrollmentId, s)
  | revokePlanned plan reason deviceId operation =>
    s.revokePlanned now plan reason deviceId operation
  | revokedIdentities identities => .ok (Store.revokedIdentities s.toTables identities, s)

/-- One call: an exception leaves the store as it was. -/
def run (op : StoreOp) (now : Time) (s : Store) : Except StoreError op.Reply × Store :=
  match op.tx now s with
  | .ok (answer, s') => (.ok answer, s')
  | .error e => (.error e, s)

theorem run_ok {op : StoreOp} {now : Time} {s s' : Store} {answer : op.Reply}
    (h : op.run now s = (.ok answer, s')) : op.tx now s = .ok (answer, s') := by
  unfold run at h
  split at h
  · rename_i he
    cases h
    exact he
  · cases h

/-- The answer alone, with the store it leaves. -/
theorem run_answered {op : StoreOp} {now : Time} {s : Store} {answer : op.Reply}
    (h : (op.run now s).1 = .ok answer) : op.tx now s = .ok (answer, (op.run now s).2) :=
  run_ok (Prod.ext h rfl)

end StoreOp

structure StoreCall where
  op : StoreOp
  now : Time

/-- The store as a sequential object. Every transaction is one step. -/
abbrev approvalStore : Machine Store where
  Call := StoreCall
  Reply c := Except StoreError c.op.Reply
  step c s := c.op.run c.now s
  init := .fresh

/-! ### What one step can do -/

def RequestCall.row (c : RequestCall) (now : Time) : Request :=
  ⟨c.approvalId, c.principal, c.tool, c.mode, c.task, c.workspace, c.actionDigest, c.humanSummary,
    .pending, now, c.expiresAt, none, none, none⟩

def ChallengeCall.row (c : ChallengeCall) (now : Time) : Challenge :=
  ⟨c.challengeNonce, c.approvalId, c.deviceId, c.principal, c.actionDigest, now, c.expiresAt, false,
    c.payloadSha256⟩

def EnrollmentCall.device (c : EnrollmentCall) (now : Time) : Device :=
  enrolledDevice now c.deviceId c.keyId c.publicKeyX963 c.principal c.appAttestKeyId
    c.transportCredHash c.enrollmentId

def EnrollmentCall.challenge (c : EnrollmentCall) (now : Time) : AttestationChallenge :=
  ⟨c.enrollmentId, c.nonce, c.deviceId, c.principal, c.keyId, c.approvalPubkeySha256, c.bindingRaw,
    now, c.expiresAt, false, c.appAttestKeyId, false⟩

def ClaimCall.attempt (c : ClaimCall) (now : Time) (t : Tables) : Attempt :=
  Store.claimedAttempt (t.enterExecuting now c.approvalId c.deviceId c.identities) now c.approvalId
    c.deviceId c.executionId c.capability c.semantics c.idempotencyKey c.owner c.leaseSeconds
    c.coreInstanceId

/-- What a committed decision writes. -/
def DecisionCall.decide (c : DecisionCall) (now : Time) (req : Request) (t : Tables) : Tables :=
  (((t.burnChallenge now c.challengeNonce c.approvalId c.deviceId req.principal req.actionDigest
    c.challengePayloadSha256).countDecision c.newState c.deviceId c.appAttestCounter).moveRequest
    c.approvalId .pending c.newState true now (some c.deviceId) none)

/-- What a decision does to a device row. -/
def DecisionCall.counted (c : DecisionCall) (d : Device) : Device :=
  if c.newState = .approved ∧ d.deviceId = c.deviceId then
    { d with appAttestCounter := max d.appAttestCounter (c.appAttestCounter.getD 0) }
  else d

/-- A decision writes the request, the challenge and the counter. -/
theorem DecisionCall.decide_eq (c : DecisionCall) (now : Time) (req : Request) (t : Tables) :
    ∃ devices, c.decide now req t = { t with
        devices
        requests := (t.moveRequest c.approvalId .pending c.newState true now (some c.deviceId)
          none).requests
        challenges := (t.burnChallenge now c.challengeNonce c.approvalId c.deviceId req.principal
          req.actionDigest c.challengePayloadSha256).challenges } ∧
      ∀ k, devices.find? k = (t.devices.find? k).map c.counted := by
  have hfind := Tables.count_decision_find (t.burnChallenge now c.challengeNonce c.approvalId
    c.deviceId req.principal req.actionDigest c.challengePayloadSha256) c.newState c.deviceId
    c.appAttestCounter
  obtain ⟨devices, hd⟩ := (t.burnChallenge now c.challengeNonce c.approvalId c.deviceId
    req.principal req.actionDigest c.challengePayloadSha256).count_decision_frame c.newState
    c.deviceId c.appAttestCounter
  rw [hd] at hfind
  exact ⟨devices, by rw [decide, hd]; rfl, hfind⟩

theorem DecisionCall.counted_same (c : DecisionCall) (d : Device) :
    ∃ n, c.counted d = { d with appAttestCounter := n } := by
  unfold counted
  split
  · exact ⟨_, rfl⟩
  · exact ⟨d.appAttestCounter, rfl⟩

/-- Every way in which a call can change the tables. A refusal, a read and an
exception change nothing. -/
inductive Change (now : Time) : StoreOp → Tables → Tables → Prop
  | unchanged {op : StoreOp} {t : Tables} : Change now op t t
  | tokens {op : StoreOp} {t : Tables} (enrollmentTokens : Table EnrollmentToken) :
    Change now op t { t with enrollmentTokens }
  | created {c : RequestCall} {t : Tables} {requests : Table Request}
    (inserted : t.requests.insert? (c.row now) = some requests) :
    Change now (.createRequest c) t { t with requests }
  | swept {principal : Option String} {t : Tables} :
    Change now (.listPending principal) t (t.expireRequests now)
  | moved {approvalId : String} {new cur : RequestState} {deviceId error : Option String}
    {t : Tables} {r : Request} (found : t.requests.find? approvalId = some r)
    (state : r.state = cur) (edge : cur.allowed new = true) (claimed : new ≠ .executing) :
    Change now (.transition approvalId new deviceId error) t
      (t.moveRequest approvalId cur new false now deviceId error)
  | issued {c : ChallengeCall} {t : Tables} {challenges : Table Challenge}
    (inserted : (t.closeChallenges c.approvalId).challenges.insert? (c.row now) = some challenges) :
    Change now (.addChallenge c) t { t with challenges }
  | burned {c : ConsumeCall} {t : Tables} {row : Challenge}
    (found : t.challenges.find? c.challengeNonce = some row)
    (bound : row.openFor now c.approvalId c.deviceId c.principal c.actionDigest c.payloadSha256) :
    Change now (.consumeChallenge c) t (t.burnChallenge now c.challengeNonce c.approvalId c.deviceId
      c.principal c.actionDigest c.payloadSha256)
  | decided {c : DecisionCall} {t : Tables} {req : Request} {dev : Device}
    {identity : Store.DeviceIdentity} {challenge : Challenge}
    (guard : Store.DecisionGuard t now c.approvalId c.deviceId c.newState c.challengeNonce
      c.challengePayloadSha256 c.verifiedPublicKeyX963 c.verifiedAppAttestPublicKey
      c.allowedEnvironments req dev identity challenge) :
    Change now (.commitDecision c) t (c.decide now req t)
  | claimed {c : ClaimCall} {t : Tables} {req : Request} {attempts : Table Attempt}
    (guard : Store.ClaimGuard t now c.approvalId c.deviceId c.identities c.executionId c.semantics
      req)
    (inserted : t.attempts.insert? (c.attempt now t) = some attempts) :
    Change now (.claimExecutionAttempt c) t
      { t.enterExecuting now c.approvalId c.deviceId c.identities with attempts }
  | crossed {attemptId : String} {identities : List IdentityRef} {t : Tables} {row : Attempt}
    (found : t.attempts.find? attemptId = some row) (status : row.status = .claimed)
    (live : identities.any t.isRevoked = false) :
    Change now (.beginExternalExecution attemptId identities) t (t.crossBoundary now attemptId)
  | refused {attemptId : String} {identities : List IdentityRef} {t : Tables} {row : Attempt}
    {r : Request} (found : t.attempts.find? attemptId = some row) (status : row.status = .claimed)
    (revoked : identities.any t.isRevoked = true)
    (request : t.requests.find? row.approvalId = some r) (executing : r.state = .executing) :
    Change now (.beginExternalExecution attemptId identities) t
      ((t.abandonClaimed now attemptId).moveRequest row.approvalId .executing .failed false now
        (some row.deviceId) (some "revoked_before_external_start"))
  | recorded {c : FinishCall} {t : Tables} {row : Attempt} (detail : Option String)
    (guard : Store.OutcomeGuard t c.attemptId c.status c.expectedStatus row)
    (stays : c.requestState = none) :
    Change now (.finishExecutionAttempt c) t
      (t.recordOutcome now c.attemptId row.status c.status detail)
  | finished {c : FinishCall} {t : Tables} {row : Attempt} {r : Request} {new cur : RequestState}
    (detail : Option String)
    (guard : Store.OutcomeGuard t c.attemptId c.status c.expectedStatus row)
    (moves : c.requestState = some new) (claimed : new ≠ .executing)
    (request : t.requests.find? row.approvalId = some r) (state : r.state = cur)
    (edge : cur.allowed new = true) :
    Change now (.finishExecutionAttempt c) t
      ((t.recordOutcome now c.attemptId row.status c.status detail).moveRequest row.approvalId cur
        new false now (some row.deviceId) (Store.outcomeError c.status c.detail))
  | leased {attemptId owner : String} {leaseSeconds : Time} {t : Tables} {row : Attempt}
    (found : t.attempts.find? attemptId = some row) (free : row.leasable now owner = true) :
    Change now (.acquireRecoveryLease attemptId owner leaseSeconds) t
      (t.leaseAttempt now attemptId owner (now + leaseSeconds))
  | enrolled {c : EnrollmentCall} {t u : Tables}
    {attestationChallenges : Table AttestationChallenge} (named : c.identities ≠ [])
    (live : c.identities.any t.isRevoked = false)
    (upserted : t.upsertDevice (c.device now) = some u)
    (inserted : (u.supersede c.deviceId c.enrollmentId).attestationChallenges.insert?
      (c.challenge now) = some attestationChallenges) :
    Change now (.beginEnrollmentAtomic c) t
      { u.supersede c.deviceId c.enrollmentId with attestationChallenges }
  | failed {enrollmentId deviceId : String} {reason : Option String} {t : Tables} :
    Change now (.setDeviceAttestationFailed enrollmentId deviceId reason) t
      (t.failAttestation deviceId enrollmentId)
  | attested {c : FinalizeCall} {t : Tables} {ch : AttestationChallenge} {dev : Device}
    {key : Bytes} {derived : String}
    (guard : Store.FinalizeGuard t now c.enrollmentId c.appAttestPublicKeyX963 c.environment
      c.coreInstanceId ch dev key derived) :
    Change now (.finalizeAttestation c) t
      (t.attest now ch.deviceId c.enrollmentId (toHex c.appAttestPublicKeyX963) c.appAttestCounter
        c.environment c.appId (fingerprint key) derived)
  | revoked {plan : Store.RevocationPlan} {reason deviceId : Option String} {operation : String}
    {t : Tables} {entries : List IdentityRef} {doomed : List String}
    (planned : plan t.devices.rows t.identityHistory.rows = (entries, doomed))
    (valued : ∀ e ∈ entries, e.2 ≠ "") :
    Change now (.revokePlanned plan reason deviceId operation) t
      (t.revokeAll now reason entries doomed)

theorem Change.of_tables {t u : Tables} {op : StoreOp} (h : u = t) : Change now op t u := by
  subst h
  exact .unchanged

/-- Every committed call is one of the listed changes. -/
theorem StoreOp.tx_change {op : StoreOp} {answer : op.Reply} {s s' : Store}
    (h : op.tx now s = .ok (answer, s')) : Change now op s.toTables s'.toTables := by
  cases op with
  | audit | getDevice | getRequest | openAttemptFor | openAttemptById | openExecutionAttempts |
      attemptsFor | peekAttestationChallenge | revokedIdentities =>
    cases h
    exact .unchanged
  | addEnrollmentToken =>
    obtain ⟨tokens, hs⟩ := Store.add_token_cases h
    exact hs ▸ .tokens tokens
  | consumeEnrollmentToken =>
    obtain ⟨tokens, hs⟩ := Store.consume_token_cases h
    exact hs ▸ .tokens tokens
  | listPending =>
    cases h
    rw [Store.expire_due_tables]
    exact .swept
  | createRequest c =>
    obtain ⟨requests, hi, hs⟩ := Store.create_request_cases h
    exact hs ▸ .created hi
  | transition =>
    obtain ⟨hn, ⟨r, hr, hcur⟩, hedge, hs⟩ := Store.cas_transition_cases h
    exact hs ▸ .moved hr hcur hedge hn
  | addChallenge c =>
    obtain ⟨challenges, hi, hs⟩ := Store.add_challenge_cases h
    exact hs ▸ .issued hi
  | consumeChallenge c =>
    rcases Store.cas_consume_cases (Except.ok.inj h) with ⟨_, _, rfl⟩ | ⟨_, ⟨row, hr, hb⟩, hs⟩
    · exact .unchanged
    · exact hs ▸ .burned hr hb
  | commitDecision c =>
    rcases Store.commit_decision_cases h with ⟨_, _, hs⟩ | ⟨_, _, _, _, _, hg, hs⟩
    · exact .of_tables hs
    · exact hs ▸ .decided hg
  | claimExecutionAttempt c =>
    rcases Store.claim_attempt_cases h with ⟨_, _, hs⟩ | ⟨_, _, hg, _, hi, hs⟩
    · exact .of_tables hs
    · exact hs ▸ .claimed hg hi
  | beginExternalExecution =>
    rcases Store.begin_external_cases h with
      ⟨_, _, hs⟩ | ⟨_, hr, hc, ⟨_, hl, hs⟩ | ⟨_, hrev, ⟨_, hq, hx⟩, hs⟩⟩
    · exact .of_tables hs
    · exact hs ▸ .crossed hr hc hl
    · exact hs ▸ .refused hr hc hrev hq hx
  | finishExecutionAttempt c =>
    rcases Store.finish_attempt_cases h with
      ⟨_, _, hs⟩ | ⟨_, _, detail, hg, ⟨hn, hs⟩ | ⟨_, _, hm, hn, ⟨_, hr, hcur⟩, hedge, hs⟩⟩
    · exact .of_tables hs
    · exact hs ▸ .recorded detail hg hn
    · exact hs ▸ .finished detail hg hm hn hr hcur hedge
  | acquireRecoveryLease =>
    rcases Store.acquire_lease_cases h with ⟨_, _, hs⟩ | ⟨_, ⟨_, hr, hf⟩, hs⟩
    · exact .of_tables hs
    · exact hs ▸ .leased hr hf
  | recheckExecutionAuthority => exact .of_tables (Store.recheck_tables h)
  | beginEnrollmentAtomic c =>
    rcases Store.begin_enrollment_cases h with ⟨_, _, hs⟩ | ⟨_, hn, hl, _, _, hu, hi, hs⟩
    · exact .of_tables hs
    · exact hs ▸ .enrolled hn hl hu hi
  | setDeviceAttestationFailed =>
    rw [Store.attestation_failed_cases h]
    exact .failed
  | finalizeAttestation c =>
    rcases Store.finalize_attestation_cases h with ⟨_, _, hs⟩ | ⟨_, _, _, _, _, hg, hs⟩
    · exact .of_tables hs
    · exact hs ▸ .attested hg
  | revokePlanned =>
    obtain ⟨_, _, hp, hv, _, _, hs⟩ := Store.revoke_planned_cases h
    exact hs ▸ .revoked hp hv

theorem StoreOp.run_change (op : StoreOp) (now : Time) (s : Store) :
    Change now op s.toTables (op.run now s).2.toTables := by
  unfold StoreOp.run
  split
  · rename_i h
    exact StoreOp.tx_change h
  · exact .unchanged

end Solvio.Approval
