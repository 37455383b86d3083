import Solvio.Approval.Tables

namespace Solvio.Approval
open Solvio.Lib

/-! ### Statements -/

/-- The columns a state change sets. `decided_at` is stamped by a decision
only, and `COALESCE` keeps a device or an error that is not overwritten. -/
def Request.moved (r : Request) (new : RequestState) (stampDecision : Bool) (now : Time)
    (deviceId error : Option String) : Request :=
  { r with
    state := new
    decidedAt := if stampDecision then some now else r.decidedAt
    decidedDevice := deviceId.or r.decidedDevice
    error := error.or r.error }

/-- Past its lifetime and not yet executing. -/
def Request.due (now : Time) (r : Request) : Bool :=
  (r.state = .pending || r.state = .approved) && r.expiresAt < now

def Challenge.openFor (c : Challenge) (now : Time)
    (approvalId deviceId principal actionDigest payloadSha256 : String) : Bool :=
  !c.consumed && now ≤ c.expiresAt && c.approvalId = approvalId && c.deviceId = deviceId &&
    c.principal = principal && c.actionDigest = actionDigest && c.payloadSha256 ≠ "" &&
    c.payloadSha256 = payloadSha256

namespace Tables

def moveRequest (s : Tables) (approvalId : String) (cur new : RequestState)
    (stampDecision : Bool) (now : Time) (deviceId error : Option String) : Tables :=
  { s with
    requests := s.requests.update (fun r => r.approvalId = approvalId && r.state = cur)
      (fun r => r.moved new stampDecision now deviceId error) (fun _ => rfl) }

theorem find_move (t : Tables) (approvalId : String) (cur new : RequestState) (stamp : Bool)
    (now : Time) (deviceId error : Option String) (k : String) :
    (t.moveRequest approvalId cur new stamp now deviceId error).requests.find? k =
      if k = approvalId then (t.requests.find? approvalId).map
        (fun r => if r.state = cur then r.moved new stamp now deviceId error else r)
      else t.requests.find? k := by
  have h := Table.find_update_key t.requests approvalId k (fun r => decide (r.state = cur))
    (fun r => r.moved new stamp now deviceId error) (fun _ => rfl)
  simp only [decide_eq_true_eq] at h
  exact h

/-- The same statement read row by row. -/
theorem move_map (t : Tables) (approvalId : String) (cur new : RequestState) (stamp : Bool)
    (now : Time) (deviceId error : Option String) (k : String) :
    (t.moveRequest approvalId cur new stamp now deviceId error).requests.find? k =
      (t.requests.find? k).map (fun r => if decide (r.approvalId = approvalId) &&
        decide (r.state = cur) then r.moved new stamp now deviceId error else r) :=
  Table.find_update t.requests
    (fun r => decide (r.approvalId = approvalId) && decide (r.state = cur))
    (fun r => r.moved new stamp now deviceId error) (fun _ => rfl) k

def expireRequests (s : Tables) (now : Time) : Tables :=
  { s with
    requests := s.requests.update (Request.due now) (fun r => { r with state := .expired })
      (fun _ => rfl) }

def burnChallenge (s : Tables) (now : Time)
    (nonce approvalId deviceId principal actionDigest payloadSha256 : String) : Tables :=
  { s with
    challenges := s.challenges.update
      (fun c => c.challengeNonce = nonce &&
        c.openFor now approvalId deviceId principal actionDigest payloadSha256)
      (fun c => { c with consumed := true }) (fun _ => rfl) }

theorem burn_find (s : Tables) (now : Time)
    (nonce approvalId deviceId principal actionDigest payloadSha256 k : String) :
    (s.burnChallenge now nonce approvalId deviceId principal actionDigest
      payloadSha256).challenges.find? k = (s.challenges.find? k).map
      (fun c => if decide (c.challengeNonce = nonce) &&
          c.openFor now approvalId deviceId principal actionDigest payloadSha256 then
        { c with consumed := true } else c) := by
  rw [burnChallenge, Table.find_update]

/-- Invalidates the open challenges of an approval. -/
def closeChallenges (s : Tables) (approvalId : String) : Tables :=
  { s with
    challenges := s.challenges.update (fun c => c.approvalId = approvalId && !c.consumed)
      (fun c => { c with consumed := true }) (fun _ => rfl) }

def raiseCounter (s : Tables) (deviceId : String) (counter : Nat) : Tables :=
  { s with
    devices := s.devices.update
      (fun d => d.deviceId = deviceId && d.appAttestCounter < counter)
      (fun d => { d with appAttestCounter := counter }) (fun _ => rfl) }

/-- Monotonic: an assertion counter never moves backwards. -/
def countDecision (s : Tables) (newState : RequestState) (deviceId : String)
    (counter : Option Nat) : Tables :=
  match counter with
  | some counter => if newState = .approved then s.raiseCounter deviceId counter else s
  | none => s

/-- A decision touches a device row in its counter only. -/
theorem count_decision_find (s : Tables) (newState : RequestState) (deviceId : String)
    (counter : Option Nat) (k : String) :
    (s.countDecision newState deviceId counter).devices.find? k = (s.devices.find? k).map
      (fun d => if newState = .approved ∧ d.deviceId = deviceId then
        { d with appAttestCounter := max d.appAttestCounter (counter.getD 0) } else d) := by
  unfold countDecision
  cases counter with
  | none =>
    cases s.devices.find? k with
    | none => rfl
    | some d => simp
  | some n =>
    dsimp only
    by_cases hn : newState = .approved
    · rw [if_pos hn, raiseCounter, Table.find_update]
      congr 1
      funext d
      simp only [Bool.and_eq_true, decide_eq_true_eq, hn, true_and, Option.getD_some]
      by_cases hd : d.deviceId = deviceId
      · by_cases hc : d.appAttestCounter < n
        · rw [if_pos ⟨hd, hc⟩, if_pos hd, Nat.max_eq_right (by omega)]
        · rw [if_neg (fun h => hc h.2), if_pos hd, Nat.max_eq_left (by omega)]
      · rw [if_neg (fun h => hd h.1), if_neg hd]
    · rw [if_neg hn]
      cases s.devices.find? k with
      | none => rfl
      | some d => simp [hn]

theorem count_decision_frame (s : Tables) (newState : RequestState) (deviceId : String)
    (counter : Option Nat) :
    ∃ devices, s.countDecision newState deviceId counter = { s with devices } := by
  unfold countDecision
  repeat' split
  all_goals exact ⟨_, rfl⟩

end Tables

namespace Store

/-! ### Requests -/

def createRequest (s : Store) (now : Time) (approvalId principal tool mode task workspace
    actionDigest humanSummary : String) (expiresAt : Time) : Tx Unit :=
  match s.requests.insert? ⟨approvalId, principal, tool, mode, task, workspace, actionDigest,
      humanSummary, .pending, now, expiresAt, none, none, none⟩ with
  | none => .error .integrityError
  | some requests =>
    .ok ((), (s.write (fun t => { t with requests })).audited now "request_created"
      (some approvalId) none (some principal) none)

/-- `_expire_due`: the sweep is one transaction with an audit row for each
request that it closes. -/
def expireDue (s : Store) (now : Time) : Store :=
  let due := s.requests.rows.filter (Request.due now)
  due.foldl (fun s r => s.audited now "state_EXPIRED" (some r.approvalId) none (some "ttl") none)
    (s.write (·.expireRequests now))

def listPending (s : Store) (now : Time) (principal : Option String) : Tx (List Request) :=
  let s := s.expireDue now
  .ok (s.requests.rows.filter (fun r => r.state = .pending &&
    (match principal with | none => true | some p => r.principal = p)), s)

/-- `_cas_transition`. The graph is checked on the row under the write lock and
EXECUTING is never produced here. -/
def casTransition (s : Store) (now : Time) (approvalId : String) (new : RequestState)
    (deviceId error : Option String) (stampDecision : Bool) : Tx RequestState :=
  if new = .executing then .error .executionBypass
  else
    match s.requests.find? approvalId with
    | none => .error (.approvalStoreError "unknown approval_id")
    | some r =>
      if r.state.allowed new = false then .error (.illegalTransition r.state new)
      else if s.requests.rowcount (fun r' => r'.approvalId = approvalId && r'.state = r.state) ≠ 1
      then .error (.concurrentTransition approvalId r.state new)
      else
        .ok (r.state,
          (s.write (·.moveRequest approvalId r.state new stampDecision now deviceId error)).audited
            now ("state_" ++ new.text) (some approvalId) deviceId error none)

def transition (s : Store) (now : Time) (approvalId : String) (new : RequestState)
    (deviceId error : Option String) : Tx RequestState :=
  s.casTransition now approvalId new deviceId error false

/-! ### Challenges -/

def addChallenge (s : Store) (now : Time)
    (nonce approvalId deviceId principal actionDigest : String) (expiresAt : Time)
    (payloadSha256 : String) : Tx Unit :=
  match (s.toTables.closeChallenges approvalId).challenges.insert? ⟨nonce, approvalId, deviceId,
      principal, actionDigest, now, expiresAt, false, payloadSha256⟩ with
  | none => .error .integrityError
  | some challenges =>
    .ok ((), (s.write (fun t => { t with challenges })).audited now "challenge_issued"
      (some approvalId) (some deviceId) none none)

/-- `_cas_consume_challenge`: one conditional update burns the nonce. The read
after it only names the loss. -/
def casConsumeChallenge (s : Store) (now : Time)
    (nonce approvalId deviceId principal actionDigest payloadSha256 : String) :
    Answer Unit × Store :=
  if s.challenges.rowcount (fun c => c.challengeNonce = nonce &&
      c.openFor now approvalId deviceId principal actionDigest payloadSha256) = 1 then
    (.ok (), s.write (·.burnChallenge now nonce approvalId deviceId principal actionDigest
      payloadSha256))
  else
    match s.challenges.find? nonce with
    | none => (.error "unknown", s)
    | some c =>
      if c.consumed then (.error "replay", s)
      else if c.expiresAt < now then (.error "expired", s)
      else if c.approvalId ≠ approvalId ∨ c.deviceId ≠ deviceId ∨ c.principal ≠ principal ∨
          c.actionDigest ≠ actionDigest then (.error "mismatch", s)
      else (.error "display_mismatch", s)

def consumeChallenge (s : Store) (now : Time)
    (nonce approvalId deviceId principal actionDigest payloadSha256 : String) :
    Tx (Answer Unit) :=
  .ok (s.casConsumeChallenge now nonce approvalId deviceId principal actionDigest payloadSha256)

/-! ### The decision -/

/-- The identities that a device row carries now. -/
structure DeviceIdentity where
  approvalKeySha256 : String
  appAttestKeyId : String

/-- `_execution_authority`: the predicate that a decision and a recovery retry
share. The second text of a refusal is the revoked kind. -/
def executionAuthority (s : Tables) (req : Request) (dev : Device) (allowedEnvs : List String) :
    Except (String × Option String) DeviceIdentity :=
  match fromHex dev.publicKeyX963 with
  | none => .error ("device_key_unreadable", none)
  | some key =>
    let fp := fingerprint key
    let aakid := dev.appAttestKeyId.getD ""
    match s.revocations.rows.find? (fun r => (r.kind = .device && r.value = dev.deviceId) ||
        (r.kind = .approvalKey && r.value = fp) || (r.kind = .appAttestKey && r.value = aakid)) with
    | some r => .error ("device_revoked", some r.kind.text)
    | none =>
      if dev.status = .revoked then .error ("device_revoked", some dev.status.text)
      else if dev.status ≠ .active then .error ("device_not_active", none)
      else if dev.attestationStatus ≠ .attested then .error ("device_not_attested", none)
      else if dev.currentEnrollmentId.getD "" = "" then .error ("no_current_enrollment", none)
      else if dev.principal ≠ req.principal then .error ("principal_mismatch", none)
      else if ¬ dev.environment.getD "" ∈ allowedEnvs then
        .error ("device_environment_not_allowed", none)
      else .ok ⟨fp, aakid⟩

def decisionDeny (s : Store) (now : Time) (approvalId deviceId reason : String) :
    Tx (Answer Unit) :=
  s.refused now "decision_rejected" (some approvalId) (some deviceId) reason

/-- `_commit_decision`: everything that carries authority is read again here,
and the nonce, the counter and the state change commit together. -/
def commitDecision (s : Store) (now : Time) (approvalId deviceId : String) (newState : RequestState)
    (challengeNonce challengePayloadSha256 : String) (verifiedPublicKeyX963 : Bytes)
    (verifiedAppAttestPublicKey : Option Bytes) (appAttestCounter : Option Nat)
    (allowedEnvironments : List String) : Tx (Answer Unit) :=
  match s.requests.find? approvalId with
  | none => s.decisionDeny now approvalId deviceId "unknown_request"
  | some req =>
    if req.state ≠ .pending then s.decisionDeny now approvalId deviceId "not_pending"
    else if req.expiresAt < now then s.decisionDeny now approvalId deviceId "request_expired"
    else
      match s.devices.find? deviceId with
      | none => s.decisionDeny now approvalId deviceId "unknown_device"
      | some dev =>
        match executionAuthority s.toTables req dev allowedEnvironments with
        | .error (reason, revokedKind) =>
          if reason = "device_revoked" then
            (s.audited now "decision_rejected_revoked_key" (some approvalId) (some deviceId)
              revokedKind none).decisionDeny now approvalId deviceId "device_revoked"
          else if reason = "device_environment_not_allowed" then
            (s.audited now "decision_rejected_environment" (some approvalId) (some deviceId)
              dev.environment none).decisionDeny now approvalId deviceId reason
          else s.decisionDeny now approvalId deviceId reason
        | .ok identity =>
          -- the signature was checked against a key read before this transaction
          if fingerprint verifiedPublicKeyX963 ≠ identity.approvalKeySha256 then
            s.decisionDeny now approvalId deviceId "device_rebound"
          else if newState = .approved ∧ verifiedAppAttestPublicKey = none then
            s.decisionDeny now approvalId deviceId "assertion_required"
          else if newState = .approved ∧
              verifiedAppAttestPublicKey.map toHex ≠ some (dev.appAttestPublicKey.getD "") then
            s.decisionDeny now approvalId deviceId "device_rebound"
          else
            match s.casConsumeChallenge now challengeNonce approvalId deviceId req.principal
                req.actionDigest challengePayloadSha256 with
            | (.error why, s') => s'.decisionDeny now approvalId deviceId ("nonce_" ++ why)
            | (.ok _, s') =>
              match (s'.write (·.countDecision newState deviceId appAttestCounter)).casTransition now
                  approvalId newState (some deviceId) none true with
              | .ok (_, s') => .ok (.ok (), s')
              | .error (.illegalTransition cur new) =>
                -- a lost race is rolled back and answered, never raised
                .ok (.error "already_decided", s.audited now "decision_conflict" (some approvalId)
                  (some deviceId) (some (textPrefix 120 (StoreError.illegalTransition cur new).text))
                  none)
              | .error (.concurrentTransition a cur new) =>
                .ok (.error "already_decided", s.audited now "decision_conflict" (some approvalId)
                  (some deviceId)
                  (some (textPrefix 120 (StoreError.concurrentTransition a cur new).text)) none)
              | .error e => .error e

/-! ### What the operations can do -/

theorem cas_transition_cases {s s' : Store} {stamp : Bool}
    (h : s.casTransition now approvalId new deviceId error stamp = .ok (cur, s')) :
    new ≠ .executing ∧ (∃ r, s.requests.find? approvalId = some r ∧ r.state = cur) ∧
      cur.allowed new = true ∧
      s'.toTables = s.toTables.moveRequest approvalId cur new stamp now deviceId error := by
  unfold casTransition at h
  split at h
  · cases h
  rename_i hn
  split at h
  · cases h
  rename_i r hr
  split at h
  · cases h
  rename_i ha
  split at h
  · cases h
  cases h
  exact ⟨hn, ⟨r, hr, rfl⟩, by simpa using ha, rfl⟩

theorem cas_consume_cases {s s' : Store}
    (h : s.casConsumeChallenge now nonce approvalId deviceId principal actionDigest payload =
      (answer, s')) :
    (∃ why, answer = .error why ∧ s' = s) ∨
      answer = .ok () ∧
        (∃ c, s.challenges.find? nonce = some c ∧
          c.openFor now approvalId deviceId principal actionDigest payload = true) ∧
        s'.toTables = s.toTables.burnChallenge now nonce approvalId deviceId principal actionDigest
          payload := by
  unfold casConsumeChallenge at h
  split at h
  · rename_i hc
    cases h
    exact Or.inr ⟨rfl, Table.rowcount_key_one.mp hc, rfl⟩
  · left
    repeat' split at h
    all_goals
      cases h
      exact ⟨_, rfl, rfl⟩

/-- What a granted authority has checked on the current rows. -/
theorem execution_authority_ok {s : Tables} {req : Request} {dev : Device}
    (h : executionAuthority s req dev envs = .ok identity) :
    (∃ key, fromHex dev.publicKeyX963 = some key ∧
      identity.approvalKeySha256 = fingerprint key) ∧
      identity.appAttestKeyId = dev.appAttestKeyId.getD "" ∧
      (∀ r ∈ s.revocations, ¬ (r.kind = .device ∧ r.value = dev.deviceId) ∧
        ¬ (r.kind = .approvalKey ∧ r.value = identity.approvalKeySha256) ∧
        ¬ (r.kind = .appAttestKey ∧ r.value = identity.appAttestKeyId)) ∧
      dev.status = .active ∧ dev.attestationStatus = .attested ∧
      dev.currentEnrollmentId.getD "" ≠ "" ∧ dev.principal = req.principal ∧
      dev.environment.getD "" ∈ envs := by
  unfold executionAuthority at h
  split at h
  · cases h
  rename_i key hkey
  dsimp only at h
  split at h
  · cases h
  rename_i hrev
  split at h
  · cases h
  split at h
  · cases h
  rename_i hactive
  split at h
  · cases h
  rename_i hatt
  split at h
  · cases h
  rename_i henr
  split at h
  · cases h
  rename_i hprin
  split at h
  · cases h
  rename_i henv
  cases h
  refine ⟨⟨key, hkey, rfl⟩, rfl, ?_, by simpa using hactive, by simpa using hatt, henr,
    by simpa using hprin, by simpa using henv⟩
  intro r hr
  have hn := List.find?_eq_none.mp hrev r hr
  simp only [Bool.or_eq_true, Bool.and_eq_true, decide_eq_true_eq, not_or] at hn
  exact ⟨hn.1.1, hn.1.2, hn.2⟩

/-- The guards under which a decision commits. -/
structure DecisionGuard (t : Tables) (now : Time) (approvalId deviceId : String)
    (newState : RequestState) (nonce payload : String) (verifiedKey : Bytes)
    (verifiedAppAttestKey : Option Bytes) (envs : List String) (req : Request) (dev : Device)
    (identity : DeviceIdentity) (challenge : Challenge) : Prop where
  request : t.requests.find? approvalId = some req
  pending : req.state = .pending
  lifetime : now ≤ req.expiresAt
  device : t.devices.find? deviceId = some dev
  authority : executionAuthority t req dev envs = .ok identity
  key : fingerprint verifiedKey = identity.approvalKeySha256
  assertion : newState = .approved →
    verifiedAppAttestKey.map toHex = some (dev.appAttestPublicKey.getD "")
  nonce : t.challenges.find? nonce = some challenge
  bound : challenge.openFor now approvalId deviceId req.principal req.actionDigest payload = true
  edge : RequestState.pending.allowed newState = true

/-- The store in which a decision has burnt its nonce and raised the counter. -/
def decided (s : Store) (now : Time) (approvalId deviceId : String) (newState : RequestState)
    (nonce payload : String) (counter : Option Nat) (req : Request) : Store :=
  (((s.write (·.burnChallenge now nonce approvalId deviceId req.principal req.actionDigest
    payload)).write (·.countDecision newState deviceId counter)).write (·.moveRequest approvalId
    .pending newState true now (some deviceId) none)).audited now ("state_" ++ newState.text)
    (some approvalId) (some deviceId) none none

/-- Under these checks the decision commits. -/
theorem commit_decision_ok {s : Store} {req : Request} {dev : Device} {identity : DeviceIdentity}
    {challenge : Challenge}
    (g : DecisionGuard s.toTables now approvalId deviceId newState nonce payload pk aapk envs req
      dev identity challenge) (hnew : newState ≠ .executing) (counter : Option Nat) :
    s.commitDecision now approvalId deviceId newState nonce payload pk aapk counter envs =
      .ok (.ok (), s.decided now approvalId deviceId newState nonce payload counter req) := by
  have hcount : s.challenges.rowcount (fun c => c.challengeNonce = nonce &&
      c.openFor now approvalId deviceId req.principal req.actionDigest payload) = 1 :=
    Table.rowcount_key_one.mpr ⟨challenge, g.nonce, g.bound⟩
  have hconsume : s.casConsumeChallenge now nonce approvalId deviceId req.principal
      req.actionDigest payload = (.ok (), s.write (·.burnChallenge now nonce approvalId deviceId
        req.principal req.actionDigest payload)) := by
    rw [casConsumeChallenge, if_pos hcount]
  have hfound : ((s.write (·.burnChallenge now nonce approvalId deviceId req.principal
      req.actionDigest payload)).write (·.countDecision newState deviceId counter)).requests =
      s.requests := by
    obtain ⟨devices, hd⟩ := (s.toTables.burnChallenge now nonce approvalId deviceId req.principal
      req.actionDigest payload).count_decision_frame newState deviceId counter
    simp only [write_tables, hd]
    rfl
  have hrow : s.requests.rowcount (fun r => r.approvalId = approvalId && r.state = req.state) = 1 :=
    Table.rowcount_key_one.mpr ⟨req, g.request, by simp⟩
  have hassert : ¬ (newState = .approved ∧ aapk = none) := by
    rintro ⟨hn, rfl⟩
    exact absurd (g.assertion hn) (by simp)
  have hbound : ¬ (newState = .approved ∧
      aapk.map toHex ≠ some (dev.appAttestPublicKey.getD "")) :=
    fun ⟨hn, hne⟩ => hne (g.assertion hn)
  have hedge : req.state.allowed newState ≠ false := by
    rw [g.pending, g.edge]
    simp
  unfold commitDecision
  simp only [g.request, g.device, g.authority]
  rw [if_neg (not_not.mpr g.pending), if_neg (Int.not_lt.mpr g.lifetime),
    if_neg (not_not.mpr g.key), if_neg hassert, if_neg hbound]
  simp only [hconsume]
  rw [casTransition, if_neg hnew, hfound, g.request]
  simp only
  rw [if_neg hedge, if_neg (not_not.mpr hrow), g.pending]
  rfl

theorem commit_decision_cases {s s' : Store}
    (h : s.commitDecision now approvalId deviceId newState nonce payload pk aapk counter envs =
      .ok (answer, s')) :
    (∃ why, answer = .error why ∧ s'.toTables = s.toTables) ∨
      answer = .ok () ∧ ∃ req dev identity challenge,
        DecisionGuard s.toTables now approvalId deviceId newState nonce payload pk aapk envs req dev
          identity challenge ∧
        s'.toTables = (((s.toTables.burnChallenge now nonce approvalId deviceId req.principal
          req.actionDigest payload).countDecision newState deviceId counter).moveRequest approvalId
          .pending newState true now (some deviceId) none) := by
  unfold commitDecision at h
  have hdeny : ∀ {u : Store} {why : String}, u.toTables = s.toTables →
      u.decisionDeny now approvalId deviceId why = .ok (answer, s') →
      ∃ why, answer = .error why ∧ s'.toTables = s.toTables := by
    intro u why hu he
    cases he
    exact ⟨_, rfl, hu⟩
  split at h
  · exact Or.inl (hdeny rfl h)
  rename_i req hreq
  split at h
  · exact Or.inl (hdeny rfl h)
  rename_i hpending
  split at h
  · exact Or.inl (hdeny rfl h)
  rename_i hlife
  split at h
  · exact Or.inl (hdeny rfl h)
  rename_i dev hdev
  split at h
  · repeat' split at h
    all_goals
      refine Or.inl (hdeny ?_ h)
      rfl
  rename_i identity hauth
  split at h
  · exact Or.inl (hdeny rfl h)
  rename_i hkey
  split at h
  · exact Or.inl (hdeny rfl h)
  split at h
  · exact Or.inl (hdeny rfl h)
  rename_i haa
  split at h
  · rename_i why u hc
    rcases cas_consume_cases hc with ⟨_, _, rfl⟩ | ⟨he, _⟩
    · exact Or.inl (hdeny rfl h)
    · cases he
  rename_i u hc
  obtain ⟨_, he, _⟩ | ⟨_, ⟨challenge, hnonce, hbound⟩, hu⟩ := cas_consume_cases hc
  · cases he
  split at h
  · rename_i cur v hcas
    cases h
    obtain ⟨_, ⟨r, hr, hcur⟩, hedge, hs⟩ := cas_transition_cases hcas
    have hst : req.state = .pending := by simpa using hpending
    have hru : ((u.write (·.countDecision newState deviceId counter)).requests) =
        s.requests := by
      obtain ⟨devices, hd⟩ := u.toTables.count_decision_frame newState deviceId counter
      simp only [write_tables, hd]
      rw [hu]
      rfl
    rw [hru, hreq] at hr
    cases hr
    rw [hst] at hcur
    subst hcur
    refine Or.inr ⟨rfl, req, dev, identity, challenge, ⟨hreq, hst, Int.not_lt.mp hlife, hdev, hauth,
      by simpa using hkey, ?_, hnonce, hbound, hedge⟩, ?_⟩
    · intro hn
      simpa [hn] using haa
    · rw [hs, write_tables, hu]
  · cases h
    exact Or.inl ⟨_, rfl, rfl⟩
  · cases h
    exact Or.inl ⟨_, rfl, rfl⟩
  · cases h

theorem add_challenge_cases {s s' : Store}
    (h : s.addChallenge now nonce approvalId deviceId principal actionDigest expiresAt payload =
      .ok (answer, s')) :
    ∃ challenges, (s.toTables.closeChallenges approvalId).challenges.insert? ⟨nonce, approvalId,
        deviceId, principal, actionDigest, now, expiresAt, false, payload⟩ = some challenges ∧
      s'.toTables = { s.toTables with challenges } := by
  unfold addChallenge at h
  split at h
  · cases h
  · rename_i challenges hi
    cases h
    exact ⟨challenges, hi, rfl⟩

theorem create_request_cases {s s' : Store}
    (h : s.createRequest now approvalId principal tool mode task workspace actionDigest
      humanSummary expiresAt = .ok (answer, s')) :
    ∃ requests, s.requests.insert? ⟨approvalId, principal, tool, mode, task, workspace,
        actionDigest, humanSummary, .pending, now, expiresAt, none, none, none⟩ = some requests ∧
      s'.toTables = { s.toTables with requests } := by
  unfold createRequest at h
  split at h
  · cases h
  · rename_i requests hi
    cases h
    exact ⟨requests, hi, rfl⟩

theorem expire_due_tables (s : Store) (now : Time) :
    (s.expireDue now).toTables = s.toTables.expireRequests now := by
  have hfold : ∀ (due : List Request) (u : Store),
      (due.foldl (fun s r => s.audited now "state_EXPIRED" (some r.approvalId) none (some "ttl")
        none) u).toTables = u.toTables := by
    intro due
    induction due with
    | nil => exact fun _ => rfl
    | cons r due ih => exact fun u => ih _
  simp only [expireDue, hfold, write_tables]

end Store

end Solvio.Approval
