import Solvio.Lib.Json
import Solvio.Approval.Requests

namespace Solvio.Approval
open Solvio.Lib

/-- Free, already held by this owner, or past its expiry. -/
def Attempt.leasable (a : Attempt) (now : Time) (owner : String) : Bool :=
  a.status.isOpen && (a.leaseOwner = none || a.leaseOwner = some owner ||
    (match a.leaseExpiresAt with | some t => t < now | none => false))

/-! ### Statements -/

namespace Tables

/-- The predicate of the one statement that may enter EXECUTING. -/
def claimable (s : Tables) (now : Time) (deviceId : String) (identities : List IdentityRef)
    (r : Request) : Bool :=
  r.state = .approved && r.decidedDevice = some deviceId && now < r.expiresAt &&
    (match s.devices.find? deviceId with
      | some d => d.status = .active && d.attestationStatus = .attested
      | none => false) &&
    !identities.any s.isRevoked

def enterExecuting (s : Tables) (now : Time) (approvalId deviceId : String)
    (identities : List IdentityRef) : Tables :=
  { s with
    requests := s.requests.update
      (fun r => r.approvalId = approvalId && s.claimable now deviceId identities r)
      (fun r => { r with state := .executing }) (fun _ => rfl) }

theorem find_enter (s : Tables) (now : Time) (approvalId deviceId : String)
    (identities : List IdentityRef) (k : String) :
    (s.enterExecuting now approvalId deviceId identities).requests.find? k =
      if k = approvalId then (s.requests.find? approvalId).map
        (fun r => if s.claimable now deviceId identities r then { r with state := .executing } else r)
      else s.requests.find? k :=
  Table.find_update_key s.requests approvalId k (s.claimable now deviceId identities)
    (fun r => { r with state := .executing }) (fun _ => rfl)

/-- An attempt row is only ever updated under its id and the status just read. -/
def updateAttempt (s : Tables) (attemptId : String) (expected : AttemptStatus)
    (f : Attempt → Attempt) (hf : ∀ a, (f a).attemptId = a.attemptId) : Tables :=
  { s with
    attempts := s.attempts.update (fun a => a.attemptId = attemptId && a.status = expected) f hf }

theorem mem_update_attempt {s : Tables} {f : Attempt → Attempt} {hf} {b : Attempt} :
    b ∈ (s.updateAttempt attemptId expected f hf).attempts ↔
      ∃ a ∈ s.attempts,
        b = if decide (a.attemptId = attemptId) && decide (a.status = expected) then f a else a :=
  @Table.mem_update _ _ _ s.attempts _ f hf b

def crossBoundary (s : Tables) (now : Time) (attemptId : String) : Tables :=
  s.updateAttempt attemptId .claimed
    (fun a => { a with status := .externalPending, boundaryAt := some now }) (fun _ => rfl)

def abandonClaimed (s : Tables) (now : Time) (attemptId : String) : Tables :=
  s.updateAttempt attemptId .claimed
    (fun a => { a with
      status := .abandoned
      finishedAt := some now
      detail := some "revoked_before_external_start" }) (fun _ => rfl)

def recordOutcome (s : Tables) (now : Time) (attemptId : String) (cur status : AttemptStatus)
    (detail : Option String) : Tables :=
  s.updateAttempt attemptId cur
    (fun a => { a with
      status := status
      finishedAt := some now
      detail := detail
      leaseOwner := none
      leaseExpiresAt := none }) (fun _ => rfl)

def leaseAttempt (s : Tables) (now : Time) (attemptId owner : String) (until_ : Time) : Tables :=
  { s with
    attempts := s.attempts.update (fun a => a.attemptId = attemptId && a.leasable now owner)
      (fun a => { a with leaseOwner := some owner, leaseExpiresAt := some until_ })
      (fun _ => rfl) }

/-- The attempt that the partial index of successes admits at most once. -/
def succeeded? (s : Tables) (executionId : String) : Option Attempt :=
  s.attempts.rows.find? (fun a => a.executionId = executionId && a.status = .succeeded)

def open? (s : Tables) (executionId : String) : Option Attempt :=
  s.attempts.rows.find? (fun a => a.executionId = executionId && a.status.isOpen)

/-- `_claim_authority_snapshot`: all six fields or no snapshot. -/
def claimAuthoritySnapshot (s : Tables) (approvalId deviceId : String)
    (coreInstanceId : Option String) : Option ClaimSnapshot :=
  match s.requests.find? approvalId, s.devices.find? deviceId with
  | some req, some dev =>
    match fromHex dev.publicKeyX963 with
    | none => none
    | some key =>
      let aakid := dev.appAttestKeyId.getD ""
      let enrollment := dev.currentEnrollmentId.getD ""
      let environment := dev.environment.getD ""
      let core := coreInstanceId.getD ""
      if aakid ≠ "" ∧ enrollment ≠ "" ∧ environment ≠ "" ∧ req.principal ≠ "" ∧ core ≠ "" then
        some ⟨core, req.principal, environment, enrollment, fingerprint key, aakid⟩
      else none
  | _, _ => none

end Tables

/-- `repr` of a clock reading. -/
def reprTime (t : Time) : String := String.ofList (Json.renderInt t) ++ ".0"

def attemptIdFor (executionId : String) (now : Time) (owner : String) : String :=
  "att-" ++ textPrefix 24 (hexdigest (encodeUtf8
    (executionId ++ "|" ++ reprTime now ++ "|" ++ owner)))

namespace Store

/-! ### The claim -/

/-- `_claim_execution`. -/
def claimExecution (s : Store) (now : Time) (approvalId deviceId : String)
    (identities : List IdentityRef) : Bool × Store :=
  if s.requests.rowcount (fun r => r.approvalId = approvalId &&
      s.claimable now deviceId identities r) = 1 then
    (true, (s.write (·.enterExecuting now approvalId deviceId identities)).audited now
      "state_EXECUTING" (some approvalId) (some deviceId) none none)
  else
    (false, s.audited now "execution_claim_rejected" (some approvalId) (some deviceId)
      (some "expired_revoked_or_inactive") none)

/-- The claim and its journal entry, in one transaction. -/
def claimExecutionAttempt (s : Store) (now : Time) (approvalId deviceId : String)
    (identities : List IdentityRef) (executionId capability : String) (semantics : Semantics)
    (idempotencyKey owner : String) (leaseSeconds : Time) (coreInstanceId : Option String) :
    Tx (Answer String) :=
  if identities = [] then .error (.valueError "claim_execution requires at least one identity")
  else if semantics.declared = false then .error (.valueError "unknown execution semantics")
  else
    match s.succeeded? executionId with
    | some _ =>
      .ok (.error "already_succeeded", s.audited now "execution_already_succeeded"
        (some approvalId) (some deviceId) (some executionId) none)
    | none =>
      match s.open? executionId with
      | some a =>
        .ok (.error ("attempt_in_flight:" ++ a.status.text), s.audited now
          "execution_attempt_in_flight" (some approvalId) (some deviceId) (some a.status.text) none)
      | none =>
        match s.claimExecution now approvalId deviceId identities with
        | (false, s') => .ok (.error "claim_rejected", s')
        | (true, s') =>
          let attemptId := attemptIdFor executionId now owner
          match s'.attempts.insert? ⟨attemptId, executionId, approvalId, deviceId, capability,
              semantics, idempotencyKey, .claimed, some owner, some (now + leaseSeconds), now,
              none, none, none, s'.claimAuthoritySnapshot approvalId deviceId coreInstanceId⟩ with
          | none => .error .integrityError
          | some attempts =>
            .ok (.ok attemptId, (s'.write (fun t => { t with attempts })).audited now
              "execution_attempt_claimed" (some approvalId) (some deviceId) (some attemptId) none)

/-! ### The boundary and the outcome -/

def execDeny (s : Store) (now : Time) (approvalId deviceId : Option String) (reason : String) :
    Tx (Answer α) :=
  s.refused now "execution_rejected" approvalId deviceId reason

/-- `_begin_external`: the durable boundary. A revoked identity closes the
attempt and the request instead. -/
def beginExternal (s : Store) (now : Time) (attemptId : String) (identities : List IdentityRef) :
    Tx (Answer Unit) :=
  if identities = [] then
    .error (.valueError "begin_external_execution requires at least one identity")
  else
    match s.attempts.find? attemptId with
    | none => s.execDeny now none none "unknown_attempt"
    | some row =>
      if row.status ≠ .claimed then
        s.execDeny now (some row.approvalId) (some row.deviceId)
          ("attempt_not_claimed:" ++ row.status.text)
      else if identities.any s.isRevoked then
        match (s.write (·.abandonClaimed now attemptId)).casTransition now row.approvalId .failed
            (some row.deviceId) (some "revoked_before_external_start") false with
        | .error e => .error e
        | .ok (_, s') =>
          .ok (.error "device_revoked", s'.audited now "execution_abandoned_revoked"
            (some row.approvalId) (some row.deviceId) (some attemptId) none)
      else if s.attempts.rowcount (fun a => a.attemptId = attemptId && a.status = .claimed) ≠ 1
      then s.execDeny now (some row.approvalId) (some row.deviceId) "boundary_lost"
      else
        .ok (.ok (), (s.write (·.crossBoundary now attemptId)).audited now
          "execution_external_boundary" (some row.approvalId) (some row.deviceId)
          (some attemptId) none)

/-- The error text that an outcome leaves on its request. -/
def outcomeError (status : AttemptStatus) (detail : Option String) : Option String :=
  if status = .succeeded then none
  else
    match detail with
    | some d => if d = "" then some status.text else some (textPrefix 120 d)
    | none => some status.text

/-- `_finish_attempt`. `expectedStatus` is the status the caller decided
against, when it names one. -/
def finishAttempt (s : Store) (now : Time) (attemptId : String) (status : AttemptStatus)
    (detail : Option String) (requestState : Option RequestState)
    (expectedStatus : Option AttemptStatus) : Tx (Answer Unit) :=
  if status = .claimed ∨ status = .externalPending then .error (.valueError "not an outcome")
  else
    match s.attempts.find? attemptId with
    | none => s.execDeny now none none "unknown_attempt"
    | some row =>
      if row.status.terminal then
        s.execDeny now (some row.approvalId) (some row.deviceId)
          ("attempt_already_final:" ++ row.status.text)
      else if expectedStatus.getD row.status ≠ row.status then
        s.execDeny now (some row.approvalId) (some row.deviceId)
          ("expected_status_mismatch:" ++ (expectedStatus.getD row.status).text ++ "->" ++
            row.status.text)
      else if s.attempts.rowcount (fun a => a.attemptId = attemptId && a.status = row.status) ≠ 1
      then s.execDeny now (some row.approvalId) (some row.deviceId) "outcome_lost"
      else if status = .succeeded ∧ s.succeeded? row.executionId ≠ none then
        -- the partial unique index on successes
        .error .integrityError
      else
        let s' := s.write (·.recordOutcome now attemptId row.status status
          (detail.bind (fun d => if d = "" then none else some (textPrefix 200 d))))
        let done (s' : Store) : Tx (Answer Unit) :=
          .ok (.ok (), s'.audited now ("execution_" ++ status.lower) (some row.approvalId)
            (some row.deviceId) (some attemptId) none)
        let conflict (e : StoreError) : Tx (Answer Unit) :=
          .ok (.error "conflict", s.audited now "execution_outcome_conflict" none none
            (some (textPrefix 120 e.text)) none)
        match requestState with
        | none => done s'
        | some new =>
          match s'.casTransition now row.approvalId new (some row.deviceId)
              (outcomeError status detail) false with
          | .ok (_, s') => done s'
          | .error (.illegalTransition cur new) => conflict (.illegalTransition cur new)
          | .error (.concurrentTransition a cur new) => conflict (.concurrentTransition a cur new)
          | .error e => .error e

def acquireLease (s : Store) (now : Time) (attemptId owner : String) (leaseSeconds : Time) :
    Tx (Answer Unit) :=
  if s.attempts.rowcount (fun a => a.attemptId = attemptId && a.leasable now owner) = 1 then
    .ok (.ok (), (s.write (·.leaseAttempt now attemptId owner (now + leaseSeconds))).audited now
      "execution_lease_acquired" none none (some (attemptId ++ ":" ++ owner)) none)
  else .ok (.error "lease_held", s)

/-! ### The recheck before a retry -/

/-- The first claimed column that is no longer the current one. -/
def reboundColumn (claim : ClaimSnapshot) (req : Request) (dev : Device)
    (identity : DeviceIdentity) (coreInstanceId : Option String) : Option String :=
  ([("core_instance", claim.coreInstanceId, coreInstanceId.getD ""),
    ("principal", claim.principal, req.principal),
    ("environment", claim.environment, dev.environment.getD ""),
    ("enrollment", claim.enrollmentId, dev.currentEnrollmentId.getD ""),
    ("approval_key", claim.approvalKeySha256, identity.approvalKeySha256),
    ("app_attest_key", claim.appAttestKeyId, identity.appAttestKeyId)].find?
      (fun p => p.2.1 ≠ p.2.2)).map Prod.fst

/-- `_claim_binding_mismatch`. -/
def claimBindingMismatch (s : Store) (now : Time) (att : Attempt) (req : Request) (dev : Device)
    (identity : DeviceIdentity) (coreInstanceId : Option String) : Option String × Store :=
  match att.claim with
  | none => (some "claim_identity_unbound", s)
  | some claim =>
    match reboundColumn claim req dev identity coreInstanceId with
    | none => (none, s)
    | some label =>
      (some ("claim_authority_changed:" ++ label), s.audited now
        "execution_rejected_claim_rebound" (some att.approvalId) (some att.deviceId) (some label)
        none)

def recheckExecutionAuthority (s : Store) (now : Time) (attemptId : String)
    (allowedEnvironments : List String) (coreInstanceId : Option String) : Tx (Answer Unit) :=
  match s.attempts.find? attemptId with
  | none => s.execDeny now none none "unknown_attempt"
  | some att =>
    let deny (s : Store) (reason : String) : Tx (Answer Unit) :=
      s.execDeny now (some att.approvalId) (some att.deviceId) reason
    if att.status.isOpen = false then deny s ("attempt_not_open:" ++ att.status.text)
    else
      match executionIdFor (coreInstanceId.getD "") att.approvalId with
      | none => .error (.valueError "execution identity requires a core instance and an approval")
      | some executionId =>
        if att.executionId ≠ executionId then deny s "wrong_core_instance"
        else
          match s.requests.find? att.approvalId with
          | none => deny s "unknown_request"
          | some req =>
            if req.state ≠ .executing ∧ req.state ≠ .approved then
              deny s ("request_not_executable:" ++ req.state.text)
            else if req.expiresAt < now then deny s "request_expired"
            else if req.decidedDevice ≠ some att.deviceId then deny s "device_binding_mismatch"
            else
              match s.devices.find? att.deviceId with
              | none => deny s "unknown_device"
              | some dev =>
                match executionAuthority s.toTables req dev allowedEnvironments with
                | .error (reason, revokedKind) =>
                  if reason = "device_revoked" then
                    deny (s.audited now "execution_rejected_revoked_key" (some att.approvalId)
                      (some att.deviceId) (some (revokedKind.getD dev.status.text)) none) reason
                  else deny s reason
                | .ok identity =>
                  match s.claimBindingMismatch now att req dev identity coreInstanceId with
                  | (none, s') => .ok (.ok (), s')
                  | (some bound, s') => deny s' bound

/-! ### Reads -/

def openAttemptById (s : Tables) (attemptId : String) : Option Attempt :=
  (s.attempts.find? attemptId).filter (fun a => a.status.isOpen)

def openExecutionAttempts (s : Tables) : List Attempt :=
  (s.attempts.rows.filter (fun a => a.status.isOpen)).insertionSort
    (fun a b => a.claimedAt ≤ b.claimedAt)

def attemptsFor (s : Tables) (executionId : String) : List Attempt :=
  (s.attempts.rows.filter (fun a => a.executionId = executionId)).insertionSort
    (fun a b => a.claimedAt ≤ b.claimedAt)

/-! ### What the operations can do -/

/-- The row that a claim writes to the journal. -/
def claimedAttempt (t : Tables) (now : Time) (approvalId deviceId executionId capability : String)
    (semantics : Semantics) (idempotencyKey owner : String) (leaseSeconds : Time)
    (coreInstanceId : Option String) : Attempt :=
  ⟨attemptIdFor executionId now owner, executionId, approvalId, deviceId, capability, semantics,
    idempotencyKey, .claimed, some owner, some (now + leaseSeconds), now, none, none, none,
    t.claimAuthoritySnapshot approvalId deviceId coreInstanceId⟩

theorem exec_deny_cases {s s' : Store} {answer : Answer α}
    (h : s.execDeny now approvalId deviceId reason = .ok (answer, s')) :
    (∃ why, answer = .error why) ∧ s'.toTables = s.toTables := by
  cases h
  exact ⟨⟨_, rfl⟩, rfl⟩

theorem claim_execution_won {s s' : Store}
    (h : s.claimExecution now approvalId deviceId identities = (true, s')) :
    (∃ r, s.requests.find? approvalId = some r ∧
      s.toTables.claimable now deviceId identities r = true) ∧
      s'.toTables = s.toTables.enterExecuting now approvalId deviceId identities := by
  unfold claimExecution at h
  split at h
  · rename_i hc
    cases h
    exact ⟨Table.rowcount_key_one.mp hc, rfl⟩
  · cases h

theorem claim_execution_lost {s s' : Store}
    (h : s.claimExecution now approvalId deviceId identities = (false, s')) :
    s'.toTables = s.toTables := by
  unfold claimExecution at h
  split at h
  · cases h
  · cases h
    rfl

/-- A claim has found no success and no open attempt of its execution, and has
moved an approved request that its predicate admits. -/
structure ClaimGuard (t : Tables) (now : Time) (approvalId deviceId : String)
    (identities : List IdentityRef) (executionId : String) (semantics : Semantics)
    (req : Request) : Prop where
  named : identities ≠ []
  declared : semantics.declared = true
  noSuccess : t.succeeded? executionId = none
  noOpen : t.open? executionId = none
  request : t.requests.find? approvalId = some req
  claimable : t.claimable now deviceId identities req = true

theorem claim_attempt_cases {s s' : Store}
    (h : s.claimExecutionAttempt now approvalId deviceId identities executionId capability semantics
      idempotencyKey owner leaseSeconds core = .ok (answer, s')) :
    (∃ why, answer = .error why ∧ s'.toTables = s.toTables) ∨
      ∃ req attempts, ClaimGuard s.toTables now approvalId deviceId identities executionId semantics
          req ∧
        answer = .ok (attemptIdFor executionId now owner) ∧
        s.attempts.insert? (claimedAttempt
          (s.toTables.enterExecuting now approvalId deviceId identities) now approvalId deviceId
          executionId capability semantics idempotencyKey owner leaseSeconds core) =
          some attempts ∧
        s'.toTables =
          { s.toTables.enterExecuting now approvalId deviceId identities with attempts } := by
  unfold claimExecutionAttempt at h
  split at h
  · cases h
  rename_i hids
  split at h
  · cases h
  rename_i hdecl
  split at h
  · cases h
    exact Or.inl ⟨_, rfl, rfl⟩
  rename_i hsucc
  split at h
  · cases h
    exact Or.inl ⟨_, rfl, rfl⟩
  rename_i hopen
  split at h
  · rename_i u hc
    cases h
    exact Or.inl ⟨_, rfl, claim_execution_lost hc⟩
  · rename_i u hc
    obtain ⟨⟨req, hreq, hclaim⟩, hu⟩ := claim_execution_won hc
    dsimp only at h
    split at h
    · cases h
    rename_i attempts hi
    cases h
    rw [hu] at hi
    refine Or.inr ⟨req, attempts, ⟨hids, by simpa using hdecl, hsucc, hopen, hreq, hclaim⟩, rfl,
      hi, ?_⟩
    simp only [audited_tables, write_tables, hu]

theorem begin_external_cases {s s' : Store}
    (h : s.beginExternal now attemptId identities = .ok (answer, s')) :
    (∃ why, answer = .error why ∧ s'.toTables = s.toTables) ∨
      ∃ row, s.attempts.find? attemptId = some row ∧ row.status = .claimed ∧
        ((answer = .ok () ∧ identities.any s.toTables.isRevoked = false ∧
            s'.toTables = s.toTables.crossBoundary now attemptId) ∨
          (answer = .error "device_revoked" ∧ identities.any s.toTables.isRevoked = true ∧
            (∃ r, s.requests.find? row.approvalId = some r ∧ r.state = .executing) ∧
            s'.toTables = (s.toTables.abandonClaimed now attemptId).moveRequest row.approvalId
              .executing .failed false now (some row.deviceId)
              (some "revoked_before_external_start"))) := by
  unfold beginExternal at h
  split at h
  · cases h
  split at h
  · obtain ⟨⟨why, hw⟩, hs⟩ := exec_deny_cases h
    exact Or.inl ⟨why, hw, hs⟩
  rename_i row hrow
  split at h
  · obtain ⟨⟨why, hw⟩, hs⟩ := exec_deny_cases h
    exact Or.inl ⟨why, hw, hs⟩
  rename_i hstatus
  have hcl : row.status = .claimed := by simpa using hstatus
  split at h
  · rename_i hrev
    split at h
    · cases h
    rename_i cur u hcas
    cases h
    obtain ⟨_, ⟨r, hr, hcur⟩, hedge, hu⟩ := cas_transition_cases hcas
    have hx : cur = .executing := by
      cases cur <;> simp [RequestState.allowed] at hedge ⊢
    subst hx
    exact Or.inr ⟨row, hrow, hcl, Or.inr ⟨rfl, hrev, ⟨r, hr, hcur⟩, hu⟩⟩
  · rename_i hrev
    split at h
    · obtain ⟨⟨why, hw⟩, hs⟩ := exec_deny_cases h
      exact Or.inl ⟨why, hw, hs⟩
    cases h
    exact Or.inr ⟨row, hrow, hcl, Or.inl ⟨rfl, by simpa using hrev, rfl⟩⟩

/-- An outcome is recorded on an open attempt that still has the status the
caller decided against. -/
structure OutcomeGuard (t : Tables) (attemptId : String) (status : AttemptStatus)
    (expectedStatus : Option AttemptStatus) (row : Attempt) : Prop where
  found : t.attempts.find? attemptId = some row
  isOpen : row.status.isOpen = true
  expected : expectedStatus.getD row.status = row.status
  outcome : status ≠ .claimed ∧ status ≠ .externalPending
  oneSuccess : status = .succeeded → t.succeeded? row.executionId = none

theorem finish_attempt_cases {s s' : Store}
    (h : s.finishAttempt now attemptId status detail requestState expectedStatus =
      .ok (answer, s')) :
    (∃ why, answer = .error why ∧ s'.toTables = s.toTables) ∨
      answer = .ok () ∧ ∃ row recorded, OutcomeGuard s.toTables attemptId status expectedStatus row ∧
        ((requestState = none ∧
            s'.toTables = s.toTables.recordOutcome now attemptId row.status status recorded) ∨
          ∃ new cur, requestState = some new ∧ new ≠ .executing ∧
            (∃ r, s.requests.find? row.approvalId = some r ∧ r.state = cur) ∧
            cur.allowed new = true ∧
            s'.toTables = (s.toTables.recordOutcome now attemptId row.status status
              recorded).moveRequest row.approvalId cur new false now (some row.deviceId)
              (outcomeError status detail)) := by
  unfold finishAttempt at h
  split at h
  · cases h
  rename_i hout
  split at h
  · obtain ⟨⟨why, hw⟩, hs⟩ := exec_deny_cases h
    exact Or.inl ⟨why, hw, hs⟩
  rename_i row hrow
  split at h
  · obtain ⟨⟨why, hw⟩, hs⟩ := exec_deny_cases h
    exact Or.inl ⟨why, hw, hs⟩
  rename_i hterm
  split at h
  · obtain ⟨⟨why, hw⟩, hs⟩ := exec_deny_cases h
    exact Or.inl ⟨why, hw, hs⟩
  rename_i hexp
  split at h
  · obtain ⟨⟨why, hw⟩, hs⟩ := exec_deny_cases h
    exact Or.inl ⟨why, hw, hs⟩
  split at h
  · cases h
  rename_i hone
  have hguard : OutcomeGuard s.toTables attemptId status expectedStatus row := by
    refine ⟨hrow, ?_, by simpa using hexp, by simpa [not_or] using hout, ?_⟩
    · exact (AttemptStatus.open_iff _).mpr (by simpa using hterm)
    · intro he
      simpa [he] using hone
  dsimp only at h
  split at h
  · cases h
    exact Or.inr ⟨rfl, row, _, hguard, Or.inl ⟨rfl, rfl⟩⟩
  · rename_i new
    split at h
    · rename_i cur u hcas
      cases h
      obtain ⟨hn, hcur, hedge, hu⟩ := cas_transition_cases hcas
      exact Or.inr ⟨rfl, row, _, hguard, Or.inr ⟨new, cur, rfl, hn, hcur, hedge, hu⟩⟩
    · cases h
      exact Or.inl ⟨_, rfl, rfl⟩
    · cases h
      exact Or.inl ⟨_, rfl, rfl⟩
    · cases h

theorem acquire_lease_cases {s s' : Store}
    (h : s.acquireLease now attemptId owner leaseSeconds = .ok (answer, s')) :
    (∃ why, answer = .error why ∧ s'.toTables = s.toTables) ∨
      answer = .ok () ∧
        (∃ row, s.attempts.find? attemptId = some row ∧ row.leasable now owner = true) ∧
        s'.toTables = s.toTables.leaseAttempt now attemptId owner (now + leaseSeconds) := by
  unfold acquireLease at h
  split at h
  · rename_i hc
    cases h
    exact Or.inr ⟨rfl, Table.rowcount_key_one.mp hc, rfl⟩
  · cases h
    exact Or.inl ⟨_, rfl, rfl⟩

theorem claim_binding_mismatch_tables (s : Store) (now : Time) (att : Attempt) (req : Request)
    (dev : Device) (identity : DeviceIdentity) (core : Option String) :
    (s.claimBindingMismatch now att req dev identity core).2.toTables = s.toTables := by
  unfold claimBindingMismatch
  repeat' split
  all_goals rfl

/-- A recheck writes its audit rows only. -/
theorem recheck_tables {s s' : Store}
    (h : s.recheckExecutionAuthority now attemptId envs core = .ok (answer, s')) :
    s'.toTables = s.toTables := by
  unfold recheckExecutionAuthority at h
  split at h
  · exact (exec_deny_cases h).2
  dsimp only at h
  split at h
  · exact (exec_deny_cases h).2
  split at h
  · cases h
  split at h
  · exact (exec_deny_cases h).2
  split at h
  · exact (exec_deny_cases h).2
  split at h
  · exact (exec_deny_cases h).2
  split at h
  · exact (exec_deny_cases h).2
  split at h
  · exact (exec_deny_cases h).2
  split at h
  · exact (exec_deny_cases h).2
  split at h
  · split at h
    · exact (exec_deny_cases h).2
    · exact (exec_deny_cases h).2
  have hbound := claim_binding_mismatch_tables s now
  split at h
  · rename_i hb
    cases h
    rw [← hbound, hb]
  · rename_i hb
    rw [(exec_deny_cases h).2, ← hbound, hb]

end Store

end Solvio.Approval
