import Solvio.Lib.Json
import Solvio.Approval.Tables

namespace Solvio.Approval
open Solvio.Lib

/-! ### Statements -/

/-- The row that an enrolment starts from. Whatever an earlier attestation left
is cleared. -/
def enrolledDevice (now : Time) (deviceId keyId publicKeyX963 principal : String)
    (appAttestKeyId transportCredHash : Option String) (enrollmentId : String) : Device :=
  { deviceId, keyId, publicKeyX963, principal, transportCredHash
    attested := false
    status := .active
    enrolledAt := now
    attestationStatus := .pendingAttestation
    appAttestKeyId
    appAttestPublicKey := none
    appAttestCounter := 0
    attestedAt := none
    appId := none
    environment := none
    currentEnrollmentId := some enrollmentId }

namespace Tables

/-- The upsert: a conflicting row is overwritten unless it is revoked, and
`none` is a row count of zero. -/
def upsertDevice (s : Tables) (row : Device) : Option Tables :=
  match s.devices.insert? row with
  | some devices => some { s with devices }
  | none =>
    if s.devices.rowcount (fun d => d.deviceId = row.deviceId && d.status ≠ .revoked) = 1 then
      some { s with
        devices := s.devices.update (fun d => d.deviceId = row.deviceId && d.status ≠ .revoked)
          (fun d => { row with deviceId := d.deviceId }) (fun _ => rfl) }
    else none

/-- Older generations of a device lose. -/
def supersede (s : Tables) (deviceId enrollmentId : String) : Tables :=
  { s with
    attestationChallenges := s.attestationChallenges.update
      (fun c => c.deviceId = deviceId && c.enrollmentId ≠ enrollmentId && !c.consumed &&
        !c.superseded)
      (fun c => { c with superseded := true }) (fun _ => rfl) }

def failAttestation (s : Tables) (deviceId enrollmentId : String) : Tables :=
  { s with
    devices := s.devices.update
      (fun d => d.deviceId = deviceId && (d.currentEnrollmentId = some enrollmentId &&
        d.attestationStatus = .pendingAttestation))
      (fun d => { d with attestationStatus := .attestationFailed }) (fun _ => rfl) }

theorem fail_find (s : Tables) (deviceId enrollmentId k : String) :
    (s.failAttestation deviceId enrollmentId).devices.find? k = (s.devices.find? k).map
      (fun d => if (d.deviceId = deviceId && (d.currentEnrollmentId = some enrollmentId &&
        d.attestationStatus = .pendingAttestation)) then
        { d with attestationStatus := .attestationFailed } else d) := by
  rw [failAttestation, Table.find_update]

/-- The trusted transition: the device row, its challenge and the history. -/
def attest (s : Tables) (now : Time) (deviceId enrollmentId : String) (appAttestPublicKey : String)
    (counter : Nat) (environment appId approvalKeySha256 appAttestKeyId : String) : Tables :=
  { s with
    devices := s.devices.update
      (fun d => d.deviceId = deviceId && (d.status = .active &&
        d.attestationStatus = .pendingAttestation && d.currentEnrollmentId = some enrollmentId))
      (fun d => { d with
        attestationStatus := .attested
        attested := true
        appAttestPublicKey := some appAttestPublicKey
        appAttestCounter := counter
        environment := some environment
        appId := some appId
        attestedAt := some now }) (fun _ => rfl)
    attestationChallenges := s.attestationChallenges.update
      (fun c => decide (c.enrollmentId = enrollmentId)) (fun c => { c with consumed := true })
      (fun _ => rfl)
    identityHistory :=
      (s.identityHistory.insert? ⟨deviceId, approvalKeySha256, appAttestKeyId, now,
        "attestation_completed"⟩).getD s.identityHistory }

theorem attest_find (s : Tables) (now : Time) (deviceId enrollmentId publicKey : String)
    (counter : Nat) (environment appId approvalKeySha256 appAttestKeyId k : String) :
    (s.attest now deviceId enrollmentId publicKey counter environment appId approvalKeySha256
      appAttestKeyId).devices.find? k = (s.devices.find? k).map
      (fun d => if (d.deviceId = deviceId && (d.status = .active &&
        d.attestationStatus = .pendingAttestation && d.currentEnrollmentId = some enrollmentId)) then
        { d with
          attestationStatus := .attested
          attested := true
          appAttestPublicKey := some publicKey
          appAttestCounter := counter
          environment := some environment
          appId := some appId
          attestedAt := some now } else d) := by
  rw [attest, Table.find_update]

end Tables

namespace Store

/-! ### One-time tokens -/

def addEnrollmentToken (s : Store) (now : Time) (tokenHash principal : String) (expiresAt : Time) :
    Tx Unit :=
  match s.enrollmentTokens.insert? ⟨tokenHash, principal, now, expiresAt, false⟩ with
  | none => .error .integrityError
  | some enrollmentTokens =>
    .ok ((), (s.write (fun t => { t with enrollmentTokens })).audited now "enroll_token_created"
      none none (some principal) none)

/-- `_consume_enroll`: the conditional update picks the one winner. -/
def consumeEnrollmentToken (s : Store) (now : Time) (tokenHash : String) : Tx (Answer String) :=
  match s.enrollmentTokens.find? tokenHash with
  | none => .ok (.error "unknown", s)
  | some t =>
    if t.consumed = false ∧ now ≤ t.expiresAt then
      .ok (.ok t.principal, s.write (fun r => { r with
        enrollmentTokens := r.enrollmentTokens.update
          (fun t => t.tokenHash = tokenHash && (!t.consumed && now ≤ t.expiresAt))
          (fun t => { t with consumed := true }) (fun _ => rfl) }))
    else if t.consumed then .ok (.error "already_consumed", s)
    else .ok (.error "expired", s)

/-! ### Enrolment -/

def enrollDeny (s : Store) (now : Time) (deviceId reason : String) : Tx (Answer Unit) :=
  .ok (.error "device_revoked", s.audited now "enrollment_rejected_revoked_key" none
    (some deviceId) (some reason) none)

/-- `_begin_enrollment_atomic`: revocation check, device row, supersede sweep
and the challenge, in one transaction. -/
def beginEnrollmentAtomic (s : Store) (now : Time) (deviceId keyId publicKeyX963 principal : String)
    (appAttestKeyId : Option String) (identities : List IdentityRef)
    (enrollmentId nonce approvalPubkeySha256 : String) (bindingRaw : Bytes) (expiresAt : Time)
    (transportCredHash : Option String) : Tx (Answer Unit) :=
  if identities = [] then .error (.valueError "begin_enrollment requires the bound identities")
  else if identities.any s.isRevoked then s.enrollDeny now deviceId "identity_revoked"
  else
    match s.upsertDevice (enrolledDevice now deviceId keyId publicKeyX963 principal
        appAttestKeyId transportCredHash enrollmentId) with
    | none =>
      (s.audited now "device_enroll_begin_rejected" none (some deviceId) (some "revoked")
        none).enrollDeny now deviceId "device_record_terminal"
    | some t =>
      let t := t.supersede deviceId enrollmentId
      match t.attestationChallenges.insert? ⟨enrollmentId, nonce, deviceId, principal, keyId,
          approvalPubkeySha256, bindingRaw, now, expiresAt, false, appAttestKeyId, false⟩ with
      | none => .error .integrityError
      | some attestationChallenges =>
        .ok (.ok (), ((s.write (fun _ => { t with attestationChallenges })).audited now
          "device_enroll_begin" none (some deviceId) (some principal) none).audited now
          "attestation_challenge" none (some deviceId) (some enrollmentId)
          (some (RevokeKind.approvalKey.text ++ ":" ++ approvalPubkeySha256)))

/-- `_set_att_failed`: only the enrolment that owns the device may fail it. -/
def setDeviceAttestationFailed (s : Store) (now : Time) (enrollmentId deviceId : String)
    (reason : Option String) : Tx Unit :=
  let detail := reason.bind (fun r => if r = "" then none else some (textPrefix 120 r))
  let event :=
    if s.devices.rowcount (fun d => d.deviceId = deviceId &&
        (d.currentEnrollmentId = some enrollmentId &&
          d.attestationStatus = .pendingAttestation)) = 1 then "device_attestation_failed"
    else "device_attestation_failed_stale"
  .ok ((), (s.write (·.failAttestation deviceId enrollmentId)).audited now event none
    (some deviceId) detail none)

def finalizeDeny (s : Store) (now : Time) (deviceId : Option String) (reason : String) :
    Tx (Answer Unit) :=
  s.refused now "device_attest_rejected" none deviceId reason

/-- `binding.get(k) == value` on a parsed binding. -/
def bindingNames (binding : Json) (k value : String) : Bool :=
  match binding.get? k with
  | some (.str text) => text = Text.ofString value
  | _ => false

/-- The revoked kind, or the status of a revoked row. -/
def finalizeRevoked (s : Tables) (dev : Device) (deviceId approvalKeySha256 appAttestKeyId : String) :
    Option String :=
  match s.revocations.rows.find? (fun r => (r.kind = .device && r.value = deviceId) ||
      (r.kind = .approvalKey && r.value = approvalKeySha256) ||
      (r.kind = .appAttestKey && r.value = appAttestKeyId)) with
  | some r => some r.kind.text
  | none => if dev.status = .revoked then some dev.status.text else none

/-- `_finalize_attestation`. The challenge says what was issued, the device row
says what is current, and both identities are computed from key material. -/
def finalizeAttestation (s : Store) (now : Time) (enrollmentId : String)
    (appAttestPublicKeyX963 : Bytes) (appAttestCounter : Nat) (environment appId : String)
    (coreInstanceId : String) : Tx (Answer Unit) :=
  match s.attestationChallenges.find? enrollmentId with
  | none => s.finalizeDeny now none "challenge_unknown"
  | some ch =>
    match firstRefusal [
        (ch.consumed, "challenge_already_consumed"),
        (ch.superseded, "challenge_superseded"),
        (ch.expiresAt < now, "challenge_expired"),
        (ch.appAttestKeyId.getD "" = "", "challenge_unbound")] with
    | some why => s.finalizeDeny now (some ch.deviceId) why
    | none =>
      match (decodeUtf8 ch.bindingRaw).bind (fun text => Json.loads text.toList) with
      | none => s.finalizeDeny now (some ch.deviceId) "challenge_binding_unreadable"
      | some (.obj kvs) =>
        match firstRefusal [
            (coreInstanceId = "" || !bindingNames (.obj kvs) "core_instance_id" coreInstanceId,
              "wrong_core_instance"),
            (!bindingNames (.obj kvs) "enrollment_id" enrollmentId ||
              !bindingNames (.obj kvs) "device_id" ch.deviceId, "challenge_binding_mismatch")] with
        | some why => s.finalizeDeny now (some ch.deviceId) why
        | none =>
          match s.devices.find? ch.deviceId with
          | none => s.finalizeDeny now (some ch.deviceId) "unknown_device"
          | some dev =>
            match fromHex dev.publicKeyX963 with
            | none => s.finalizeDeny now (some ch.deviceId) "device_key_unreadable"
            | some key =>
              match appAttestIdentityFromPublicKey appAttestPublicKeyX963 with
              | none => s.finalizeDeny now (some ch.deviceId) "app_attest_key_mismatch"
              | some derivedAakid =>
                match finalizeRevoked s.toTables dev ch.deviceId (fingerprint key) derivedAakid with
                | some kind =>
                  (s.audited now "enrollment_rejected_revoked_key" none (some ch.deviceId)
                    (some kind) none).finalizeDeny now (some ch.deviceId) "device_revoked"
                | none =>
                  match firstRefusal [
                      (dev.currentEnrollmentId.getD "" ≠ enrollmentId, "enrollment_superseded"),
                      (ch.approvalPubkeySha256 ≠ fingerprint key, "approval_key_mismatch"),
                      (ch.approvalKeyId ≠ dev.keyId, "approval_key_mismatch"),
                      (ch.principal ≠ dev.principal, "principal_mismatch"),
                      (!bindingNames (.obj kvs) "approval_public_key_sha256" (fingerprint key),
                        "approval_key_mismatch"),
                      (ch.appAttestKeyId ≠ some derivedAakid, "app_attest_key_mismatch"),
                      (dev.appAttestKeyId.getD "" ≠ derivedAakid, "device_rebound"),
                      (dev.status ≠ .active || dev.attestationStatus ≠ .pendingAttestation,
                        "not_pending_attestation"),
                      (environment = "", "environment_unknown")] with
                  | some why => s.finalizeDeny now (some ch.deviceId) why
                  | none =>
                    .ok (.ok (), (s.write (·.attest now ch.deviceId enrollmentId
                      (toHex appAttestPublicKeyX963) appAttestCounter environment appId
                      (fingerprint key) derivedAakid)).audited now "device_attested" none
                      (some ch.deviceId) (some environment)
                      (some (RevokeKind.appAttestKey.text ++ ":" ++ derivedAakid)))
      | some _ => .error .attributeError

/-! ### What the operations can do -/

theorem upsert_device_cases {t t' : Tables} {row : Device} (h : t.upsertDevice row = some t') :
    (∀ d, t.devices.find? row.deviceId = some d → d.status ≠ .revoked) ∧
      (∀ k, t'.devices.find? k = if k = row.deviceId then some row else t.devices.find? k) ∧
      t' = { t with devices := t'.devices } := by
  unfold Tables.upsertDevice at h
  split at h
  · rename_i devices hi
    cases h
    obtain ⟨hfree, _⟩ := Table.insert_some hi
    refine ⟨fun d hd => ?_, fun k => ?_, rfl⟩
    · have hn : t.devices.find? row.deviceId = none := hfree
      rw [hn] at hd
      cases hd
    · rw [Table.find_insert hi]
      exact if_congr eq_comm rfl rfl
  · split at h
    · rename_i hc
      cases h
      obtain ⟨d, hd, hs⟩ := Table.rowcount_key_one.mp hc
      have hd' : t.devices.find? row.deviceId = some d := hd
      have hs' : d.status ≠ .revoked := by simpa using hs
      refine ⟨fun e he => ?_, fun k => ?_, rfl⟩
      · rw [hd'] at he
        cases he
        exact hs'
      · have hu := Table.find_update_key t.devices row.deviceId k
          (fun d => decide (d.status ≠ .revoked))
          (fun d => { row with deviceId := d.deviceId }) (fun _ => rfl)
        have hk : d.deviceId = row.deviceId := Table.key_of_find hd
        rw [hd'] at hu
        refine hu.trans (if_congr Iff.rfl ?_ rfl)
        simp [hs', hk]
    · cases h

theorem consume_token_cases {s s' : Store}
    (h : s.consumeEnrollmentToken now tokenHash = .ok (answer, s')) :
    ∃ enrollmentTokens, s'.toTables = { s.toTables with enrollmentTokens } := by
  unfold consumeEnrollmentToken at h
  split at h
  · cases h
    exact ⟨_, rfl⟩
  · repeat' split at h
    all_goals
      cases h
      exact ⟨_, rfl⟩

theorem add_token_cases {s s' : Store}
    (h : s.addEnrollmentToken now tokenHash principal expiresAt = .ok (answer, s')) :
    ∃ enrollmentTokens, s'.toTables = { s.toTables with enrollmentTokens } := by
  unfold addEnrollmentToken at h
  split at h
  · cases h
  · cases h
    exact ⟨_, rfl⟩

theorem begin_enrollment_cases {s s' : Store} {keyId : String}
    (h : s.beginEnrollmentAtomic now deviceId keyId publicKeyX963 principal appAttestKeyId
      identities enrollmentId nonce approvalPubkeySha256 bindingRaw expiresAt transportCredHash =
      .ok (answer, s')) :
    (∃ why, answer = .error why ∧ s'.toTables = s.toTables) ∨
      answer = .ok () ∧ identities ≠ [] ∧ identities.any s.toTables.isRevoked = false ∧
        ∃ t attestationChallenges,
          s.toTables.upsertDevice (enrolledDevice now deviceId keyId publicKeyX963 principal
            appAttestKeyId transportCredHash enrollmentId) = some t ∧
          (t.supersede deviceId enrollmentId).attestationChallenges.insert? ⟨enrollmentId, nonce,
            deviceId, principal, keyId, approvalPubkeySha256, bindingRaw, now, expiresAt, false,
            appAttestKeyId, false⟩ = some attestationChallenges ∧
          s'.toTables = { t.supersede deviceId enrollmentId with attestationChallenges } := by
  unfold beginEnrollmentAtomic at h
  split at h
  · cases h
  rename_i hids
  split at h
  · cases h
    exact Or.inl ⟨_, rfl, rfl⟩
  rename_i hrev
  split at h
  · cases h
    exact Or.inl ⟨_, rfl, rfl⟩
  rename_i t ht
  dsimp only at h
  split at h
  · cases h
  rename_i attestationChallenges hi
  cases h
  exact Or.inr ⟨rfl, hids, by simpa using hrev, t, attestationChallenges, ht, hi, rfl⟩

theorem attestation_failed_cases {s s' : Store}
    (h : s.setDeviceAttestationFailed now enrollmentId deviceId reason = .ok (answer, s')) :
    s'.toTables = s.toTables.failAttestation deviceId enrollmentId := by
  cases h
  rfl

theorem finalize_revoked_none {t : Tables} {dev : Device}
    (h : finalizeRevoked t dev deviceId fp aakid = none) :
    (∀ r ∈ t.revocations, ¬ (r.kind = .device ∧ r.value = deviceId) ∧
      ¬ (r.kind = .approvalKey ∧ r.value = fp) ∧ ¬ (r.kind = .appAttestKey ∧ r.value = aakid)) ∧
      dev.status ≠ .revoked := by
  unfold finalizeRevoked at h
  split at h
  · cases h
  rename_i hrev
  split at h
  · cases h
  rename_i hstatus
  refine ⟨fun r hr => ?_, hstatus⟩
  have hn := List.find?_eq_none.mp hrev r hr
  simp only [Bool.or_eq_true, Bool.and_eq_true, decide_eq_true_eq, not_or] at hn
  exact ⟨hn.1.1, hn.1.2, hn.2⟩

/-- The checks under which an attestation promotes a device. -/
structure FinalizeGuard (t : Tables) (now : Time) (enrollmentId : String) (provenKey : Bytes)
    (environment coreInstanceId : String) (ch : AttestationChallenge) (dev : Device) (key : Bytes)
    (derived : String) : Prop where
  challenge : t.attestationChallenges.find? enrollmentId = some ch
  unconsumed : ch.consumed = false
  current : ch.superseded = false
  lifetime : now ≤ ch.expiresAt
  core : coreInstanceId ≠ ""
  binding : ∃ text kvs, decodeUtf8 ch.bindingRaw = some text ∧
    Json.loads text.toList = some (.obj kvs) ∧
    bindingNames (.obj kvs) "core_instance_id" coreInstanceId = true ∧
    bindingNames (.obj kvs) "enrollment_id" enrollmentId = true ∧
    bindingNames (.obj kvs) "device_id" ch.deviceId = true ∧
    bindingNames (.obj kvs) "approval_public_key_sha256" (fingerprint key) = true
  device : t.devices.find? ch.deviceId = some dev
  keyRead : fromHex dev.publicKeyX963 = some key
  derivation : appAttestIdentityFromPublicKey provenKey = some derived
  live : ∀ r ∈ t.revocations, ¬ (r.kind = .device ∧ r.value = ch.deviceId) ∧
    ¬ (r.kind = .approvalKey ∧ r.value = fingerprint key) ∧
    ¬ (r.kind = .appAttestKey ∧ r.value = derived)
  active : dev.status = .active
  pending : dev.attestationStatus = .pendingAttestation
  generation : dev.currentEnrollmentId.getD "" = enrollmentId
  approvalKey : ch.approvalPubkeySha256 = fingerprint key
  keyId : ch.approvalKeyId = dev.keyId
  principal : ch.principal = dev.principal
  challengeAppAttest : ch.appAttestKeyId = some derived
  deviceAppAttest : dev.appAttestKeyId.getD "" = derived
  environment : environment ≠ ""

theorem finalize_attestation_cases {s s' : Store}
    (h : s.finalizeAttestation now enrollmentId provenKey counter environment appId core =
      .ok (answer, s')) :
    (∃ why, answer = .error why ∧ s'.toTables = s.toTables) ∨
      answer = .ok () ∧ ∃ ch dev key derived,
        FinalizeGuard s.toTables now enrollmentId provenKey environment core ch dev key derived ∧
        s'.toTables = s.toTables.attest now ch.deviceId enrollmentId (toHex provenKey) counter
          environment appId (fingerprint key) derived := by
  have hdeny : ∀ {u : Store} {device : Option String} {why : String}, u.toTables = s.toTables →
      u.finalizeDeny now device why = .ok (answer, s') →
      ∃ why, answer = .error why ∧ s'.toTables = s.toTables := by
    intro u device why hu he
    cases he
    exact ⟨_, rfl, hu⟩
  unfold finalizeAttestation at h
  split at h
  · exact Or.inl (hdeny rfl h)
  rename_i ch hch
  split at h
  · exact Or.inl (hdeny rfl h)
  rename_i hissued
  split at h
  · exact Or.inl (hdeny rfl h)
  · rename_i kvs hbind
    obtain ⟨text, htext, hload⟩ := Option.bind_eq_some_iff.mp hbind
    split at h
    · exact Or.inl (hdeny rfl h)
    rename_i hnames
    split at h
    · exact Or.inl (hdeny rfl h)
    rename_i dev hdev
    split at h
    · exact Or.inl (hdeny rfl h)
    rename_i key hkey
    split at h
    · exact Or.inl (hdeny rfl h)
    rename_i derived hderived
    split at h
    · refine Or.inl (hdeny ?_ h)
      rfl
    rename_i hrev
    split at h
    · exact Or.inl (hdeny rfl h)
    rename_i hagree
    cases h
    have hlive := (finalize_revoked_none hrev).1
    simp only [first_refusal_none, List.forall_mem_cons, List.not_mem_nil, false_imp_iff,
      implies_true, and_true, decide_eq_false_iff_not, Bool.or_eq_false_iff,
      Bool.not_eq_false', ne_eq, decide_not] at hissued hnames hagree
    obtain ⟨hconsumed, hsuper, hlife, -⟩ := hissued
    obtain ⟨hgen, hfp, hkid, hprin, hbfp, haa, hdaa, hstate, henv⟩ := hagree
    exact Or.inr ⟨rfl, ch, dev, key, derived,
      { challenge := hch
        unconsumed := hconsumed
        current := hsuper
        lifetime := Int.not_lt.mp hlife
        core := hnames.1.1
        binding := ⟨text, kvs, htext, hload, hnames.1.2, hnames.2.1, hnames.2.2, hbfp⟩
        device := hdev
        keyRead := hkey
        derivation := hderived
        live := hlive
        active := by simpa using hstate.1
        pending := by simpa using hstate.2
        generation := by simpa using hgen
        approvalKey := by simpa using hfp
        keyId := by simpa using hkid
        principal := by simpa using hprin
        challengeAppAttest := by simpa using haa
        deviceAppAttest := by simpa using hdaa
        environment := henv }, rfl⟩
  · cases h

theorem identity_ne_empty {key : Bytes} {derived : String}
    (h : appAttestIdentityFromPublicKey key = some derived) : derived ≠ "" := by
  obtain ⟨raw, hlen, rfl⟩ := canonical_shape h
  intro hempty
  have hdecode := b64_decode_encode_chars raw
  have hnil : b64encodeChars raw = [] := String.ofList_eq_empty_iff.mp hempty
  rw [hnil] at hdecode
  cases hdecode
  cases hlen

/-- Under these checks the device is promoted. -/
theorem finalize_attestation_ok {s : Store} {now : Time} {enrollmentId environment core : String}
    {provenKey key : Bytes} {ch : AttestationChallenge} {dev : Device} {derived : String}
    (g : FinalizeGuard s.toTables now enrollmentId provenKey environment core ch dev key derived)
    (counter : Nat) (appId : String) :
    s.finalizeAttestation now enrollmentId provenKey counter environment appId core =
      .ok (.ok (), (s.write (·.attest now ch.deviceId enrollmentId (toHex provenKey) counter
        environment appId (fingerprint key) derived)).audited now "device_attested" none
        (some ch.deviceId) (some environment)
        (some (RevokeKind.appAttestKey.text ++ ":" ++ derived))) := by
  obtain ⟨text, kvs, htext, hload, hcore, henrol, hdevice, hkeyname⟩ := g.binding
  have hne := identity_ne_empty g.derivation
  have hissued : firstRefusal [
      (ch.consumed, "challenge_already_consumed"),
      (ch.superseded, "challenge_superseded"),
      (decide (ch.expiresAt < now), "challenge_expired"),
      (decide (ch.appAttestKeyId.getD "" = ""), "challenge_unbound")] = none := by
    rw [first_refusal_none]
    simp [g.unconsumed, g.current, g.challengeAppAttest, hne, g.lifetime]
  have hnames : firstRefusal [
      (decide (core = "") || !bindingNames (.obj kvs) "core_instance_id" core,
        "wrong_core_instance"),
      (!bindingNames (.obj kvs) "enrollment_id" enrollmentId ||
        !bindingNames (.obj kvs) "device_id" ch.deviceId, "challenge_binding_mismatch")] = none := by
    rw [first_refusal_none]
    simp [g.core, hcore, henrol, hdevice]
  have hlive : finalizeRevoked s.toTables dev ch.deviceId (fingerprint key) derived = none := by
    unfold finalizeRevoked
    rw [List.find?_eq_none.mpr (fun r hr => ?_)]
    · simp [g.active]
    · obtain ⟨h1, h2, h3⟩ := g.live r hr
      simp only [Bool.or_eq_true, Bool.and_eq_true, decide_eq_true_eq, not_or]
      exact ⟨⟨h1, h2⟩, h3⟩
  have hagree : firstRefusal [
      (decide (dev.currentEnrollmentId.getD "" ≠ enrollmentId), "enrollment_superseded"),
      (decide (ch.approvalPubkeySha256 ≠ fingerprint key), "approval_key_mismatch"),
      (decide (ch.approvalKeyId ≠ dev.keyId), "approval_key_mismatch"),
      (decide (ch.principal ≠ dev.principal), "principal_mismatch"),
      (!bindingNames (.obj kvs) "approval_public_key_sha256" (fingerprint key),
        "approval_key_mismatch"),
      (decide (ch.appAttestKeyId ≠ some derived), "app_attest_key_mismatch"),
      (decide (dev.appAttestKeyId.getD "" ≠ derived), "device_rebound"),
      (decide (dev.status ≠ .active) || decide (dev.attestationStatus ≠ .pendingAttestation),
        "not_pending_attestation"),
      (decide (environment = ""), "environment_unknown")] = none := by
    rw [first_refusal_none]
    simp [g.generation, g.approvalKey, g.keyId, g.principal, hkeyname, g.challengeAppAttest,
      g.deviceAppAttest, g.active, g.pending, g.environment]
  unfold finalizeAttestation
  rw [g.challenge]
  simp only [hissued, htext, Option.bind_some, hload, hnames, g.device, g.keyRead, g.derivation,
    hlive, hagree]

end Store

end Solvio.Approval
