import Solvio.Lib.JsonLoads
import Solvio.Approval.Operations

namespace Solvio.Approval
open Solvio.Lib

/-! ### How the production code calls the store -/

/-- The outcomes that the coordinator records, each with the request state it
asks for. -/
def coordinatorOutcomes : List (AttemptStatus × Option RequestState) :=
  [(.succeeded, some .consumed), (.failedSafe, some .failed), (.unknown, none),
    (.abandoned, some .failed)]

/-- The identities that an enrolment is checked against are the three it
writes, and its key columns are computed from one public key. -/
structure EnrollmentCall.WellFormed (c : EnrollmentCall) : Prop where
  key : ∃ x963 : Bytes, x963.length = 65 ∧ c.publicKeyX963 = toHex x963 ∧
    c.approvalPubkeySha256 = fingerprint x963 ∧ c.keyId = Approval.keyId x963
  appAttest : ∃ value aakid, canonicalAppAttestKeyId value = some aakid ∧
    c.appAttestKeyId = some aakid ∧
    c.identities = [(.device, c.deviceId), (.approvalKey, c.approvalPubkeySha256),
      (.appAttestKey, aakid)]

/-- The three plans of the control plane. -/
inductive ProductionPlan : Store.RevocationPlan → Prop
  | device (deviceId : String) : ProductionPlan (Store.devicePlan deviceId)
  | approvalKey (approvalPubkeySha256 : String) :
    ProductionPlan (Store.approvalKeyPlan approvalPubkeySha256)
  | appAttestKey {value canonical : String} (h : canonicalAppAttestKeyId value = some canonical) :
    ProductionPlan (Store.appAttestKeyPlan canonical)

/-- The shape in which the control plane and the coordinator of one core call
the store. Everything else about the arguments is free. -/
def ProductionCall (core : String) : StoreOp → Prop
  | .transition _ new deviceId _ => new = .expired ∧ deviceId = none
  | .commitDecision c => c.newState = .approved ∨ c.newState = .denied
  | .claimExecutionAttempt c =>
    executionIdFor core c.approvalId = some c.executionId ∧
      idempotencyKeyFor c.executionId c.capability = some c.idempotencyKey
  | .finishExecutionAttempt c => (c.status, c.requestState) ∈ coordinatorOutcomes
  | .beginEnrollmentAtomic c => c.WellFormed
  | .revokePlanned plan .. => ProductionPlan plan
  | _ => True

/-- A run of the store under one core's production callers. -/
abbrev ProductionRun (core : String) (h : List approvalStore.Entry) (s : Store) : Prop :=
  approvalStore.Run (fun _ c => ProductionCall core c.op) h s

/-! ### One core, one phone and one approval -/

section sample

def sampleCore : String := "core-1"

/-- An uncompressed point's encoding, told apart by one byte. -/
def sampleKey (n : UInt8) : Bytes := 4 :: List.replicate 64 n

def sampleBinding (deviceId enrollmentId : String) (n : UInt8) : Bytes :=
  encodeUtf8 (String.ofList (Json.render (.obj [
    Json.field "core_instance_id" (.string sampleCore),
    Json.field "enrollment_id" (.string enrollmentId),
    Json.field "device_id" (.string deviceId),
    Json.field "approval_public_key_sha256" (.string (fingerprint (sampleKey n)))])))

/-- The phone holds approval key `n` and App Attest key `n + 1`. -/
def sampleEnrolment (deviceId enrollmentId : String) (n : UInt8) : EnrollmentCall where
  deviceId := deviceId
  keyId := keyId (sampleKey n)
  publicKeyX963 := toHex (sampleKey n)
  principal := "owner"
  appAttestKeyId := some (b64encode (sha256 (sampleKey (n + 1))))
  identities := [(.device, deviceId), (.approvalKey, fingerprint (sampleKey n)),
    (.appAttestKey, b64encode (sha256 (sampleKey (n + 1))))]
  enrollmentId := enrollmentId
  nonce := "nonce-" ++ enrollmentId
  approvalPubkeySha256 := fingerprint (sampleKey n)
  bindingRaw := sampleBinding deviceId enrollmentId n
  expiresAt := 1000
  transportCredHash := none

theorem sample_enrolment_well_formed (deviceId enrollmentId : String) (n : UInt8) :
    (sampleEnrolment deviceId enrollmentId n).WellFormed :=
  ⟨⟨sampleKey n, by simp [sampleKey], rfl, rfl, rfl⟩,
    ⟨_, _, canonical_encode (sha256_length (sampleKey (n + 1))), rfl, rfl⟩⟩

def sampleProof (enrollmentId : String) (n : UInt8) : FinalizeCall :=
  ⟨enrollmentId, sampleKey (n + 1), 0, "production", "app", sampleCore⟩

def sampleRequest (approvalId : String) : RequestCall :=
  ⟨approvalId, "owner", "codex_task", "write", "task", "workspace", "digest", "summary", 1000⟩

def sampleChallenge (approvalId challengeNonce : String) : ChallengeCall :=
  ⟨challengeNonce, approvalId, "phone", "owner", "digest", 1000, "payload"⟩

def sampleDecision (approvalId challengeNonce : String) (counter : Nat) : DecisionCall :=
  ⟨approvalId, "phone", .approved, challengeNonce, "payload", sampleKey 7, some (sampleKey 8),
    some counter, ["production"]⟩

def sampleExecution (approvalId : String) : String :=
  (executionIdFor sampleCore approvalId).getD ""

def sampleClaim (approvalId : String) : ClaimCall where
  approvalId := approvalId
  deviceId := "phone"
  identities := [(.device, "phone")]
  executionId := sampleExecution approvalId
  capability := "codex_task"
  semantics := .nonIdempotentWrite
  idempotencyKey := (idempotencyKeyFor (sampleExecution approvalId) "codex_task").getD ""
  owner := "pid-1"
  leaseSeconds := 300
  coreInstanceId := some sampleCore

/-- An enrolment and its attestation. -/
def sampleEnrol (enrollmentId : String) (n : UInt8) (now : Time) : List StoreCall :=
  [⟨.beginEnrollmentAtomic (sampleEnrolment "phone" enrollmentId n), now⟩,
    ⟨.finalizeAttestation (sampleProof enrollmentId n), now + 1⟩]

/-- A request, its challenge and the decision on it. -/
def sampleDecide (approvalId challengeNonce : String) (counter : Nat) (now : Time) :
    List StoreCall :=
  [⟨.createRequest (sampleRequest approvalId), now⟩,
    ⟨.addChallenge (sampleChallenge approvalId challengeNonce), now + 1⟩,
    ⟨.commitDecision (sampleDecision approvalId challengeNonce counter), now + 2⟩]

/-- The store that knows one attested phone and nothing else. -/
def sampleEnrolled : Store where
  devices := ⟨[{ (sampleEnrolment "phone" "e1" 7).device 10 with
    attested := true
    attestationStatus := .attested
    appAttestPublicKey := some (toHex (sampleKey 8))
    attestedAt := some 11
    environment := some "production"
    appId := some "app" }], by simp⟩
  requests := .empty
  challenges := .empty
  enrollmentTokens := .empty
  attestationChallenges := ⟨[{ (sampleEnrolment "phone" "e1" 7).challenge 10 with
    consumed := true }], by simp⟩
  identityHistory := ⟨[⟨"phone", fingerprint (sampleKey 7), b64encode (sha256 (sampleKey 8)), 11,
    "attestation_completed"⟩], by simp⟩
  attempts := .empty
  revocations := .empty
  audit := [
    ⟨10, none, some "phone", "device_enroll_begin", some "owner", none⟩,
    ⟨10, none, some "phone", "attestation_challenge", some "e1",
      some ("approval_key:" ++ fingerprint (sampleKey 7))⟩,
    ⟨11, none, some "phone", "device_attested", some "production",
      some ("app_attest_key:" ++ b64encode (sha256 (sampleKey 8)))⟩]

/-- What the sample binding says, read back. -/
def sampleNames (enrollmentId : String) (n : UInt8) : Bool :=
  match (decodeUtf8 (sampleBinding "phone" enrollmentId n)).bind (fun t => Json.loads t.toList) with
  | some (.obj kvs) => Store.bindingNames (.obj kvs) "core_instance_id" sampleCore &&
    Store.bindingNames (.obj kvs) "enrollment_id" enrollmentId &&
    Store.bindingNames (.obj kvs) "device_id" "phone" &&
    Store.bindingNames (.obj kvs) "approval_public_key_sha256" (fingerprint (sampleKey n))
  | _ => false

/-- Every binding of the sample is read back as it was written. -/
theorem sample_names (enrollmentId : String) (n : UInt8) : sampleNames enrollmentId n = true := by
  have hload := Json.loads_render (v := .obj [
    Json.field "core_instance_id" (.string sampleCore),
    Json.field "enrollment_id" (.string enrollmentId),
    Json.field "device_id" (.string "phone"),
    Json.field "approval_public_key_sha256" (.string (fingerprint (sampleKey n)))])
    (by simp [Json.Readable, Json.ReadableMembers, Json.field, Json.string,
      Json.spelled_of_string])
  have hread : ∀ kvs k v, Json.get? (.obj kvs) k = some (.string v) →
      Store.bindingNames (.obj kvs) k v = true := by
    intro kvs k v hget
    simp [Store.bindingNames, hget, Json.string]
  simp only [sampleNames, sampleBinding, decode_encode_utf8, Option.bind_some, String.toList_ofList,
    hload, Bool.and_eq_true]
  refine ⟨⟨⟨hread _ _ _ ?_, hread _ _ _ ?_⟩, hread _ _ _ ?_⟩, hread _ _ _ ?_⟩ <;> rfl

theorem sample_names_first : sampleNames "e1" 7 = true := sample_names "e1" 7

theorem sample_names_binding {enrollmentId : String} {n : UInt8}
    (h : sampleNames enrollmentId n = true) : ∃ text kvs,
      decodeUtf8 (sampleBinding "phone" enrollmentId n) = some text ∧
      Json.loads text.toList = some (.obj kvs) ∧
      Store.bindingNames (.obj kvs) "core_instance_id" sampleCore = true ∧
      Store.bindingNames (.obj kvs) "enrollment_id" enrollmentId = true ∧
      Store.bindingNames (.obj kvs) "device_id" "phone" = true ∧
      Store.bindingNames (.obj kvs) "approval_public_key_sha256" (fingerprint (sampleKey n)) =
        true := by
  unfold sampleNames at h
  split at h
  · rename_i kvs hbind
    obtain ⟨text, htext, hload⟩ := Option.bind_eq_some_iff.mp hbind
    simp only [Bool.and_eq_true] at h
    exact ⟨text, kvs, htext, hload, h.1.1.1, h.1.1.2, h.1.2, h.2⟩
  · cases h

/-- The second half of an enrolment, whose challenge has been read back. -/
theorem sample_finalized {s : Store} {enrollmentId : String} {n : UInt8} {start now : Time}
    (hnames : sampleNames enrollmentId n = true)
    (hchallenge : s.attestationChallenges.find? enrollmentId =
      some ((sampleEnrolment "phone" enrollmentId n).challenge start))
    (hdevice : s.devices.find? "phone" = some ((sampleEnrolment "phone" enrollmentId n).device start))
    (hnow : now ≤ 1000) (hlive : s.revocations.rows = []) :
    (approvalStore.step ⟨.finalizeAttestation (sampleProof enrollmentId n), now⟩ s).2 =
      (s.write (·.attest now "phone" enrollmentId (toHex (sampleKey (n + 1))) 0 "production" "app"
        (fingerprint (sampleKey n)) (b64encode (sha256 (sampleKey (n + 1)))))).audited now
        "device_attested" none (some "phone") (some "production")
        (some (RevokeKind.appAttestKey.text ++ ":" ++ b64encode (sha256 (sampleKey (n + 1))))) := by
  have hbinding := sample_names_binding hnames
  have hraw : ((sampleEnrolment "phone" enrollmentId n).challenge start).bindingRaw =
      sampleBinding "phone" enrollmentId n := by
    simp only [sampleEnrolment, EnrollmentCall.challenge]
  rw [← hraw] at hbinding
  have hguard : Store.FinalizeGuard s.toTables now enrollmentId (sampleKey (n + 1)) "production"
      sampleCore ((sampleEnrolment "phone" enrollmentId n).challenge start)
      ((sampleEnrolment "phone" enrollmentId n).device start) (sampleKey n)
      (b64encode (sha256 (sampleKey (n + 1)))) := {
    challenge := hchallenge
    unconsumed := rfl
    current := rfl
    lifetime := hnow
    core := by decide
    binding := hbinding
    device := hdevice
    keyRead := from_hex_to_hex _
    derivation := canonical_encode (sha256_length _)
    live := fun r hr => by
      rw [Table.mem_rows, hlive] at hr
      cases hr
    active := rfl
    pending := rfl
    generation := rfl
    approvalKey := rfl
    keyId := rfl
    principal := rfl
    challengeAppAttest := rfl
    deviceAppAttest := rfl
    environment := by decide }
  have hok := Store.finalize_attestation_ok hguard 0 "app"
  change (StoreOp.run (.finalizeAttestation (sampleProof enrollmentId n)) now s).2 = _
  unfold StoreOp.run StoreOp.tx
  simp only [sampleProof]
  rw [hok]
  rfl

theorem after_one {σ : Type} (m : Machine σ) (s : σ) (c : m.Call) :
    m.after s [c] = (m.step c s).2 := rfl

theorem after_two {σ : Type} (m : Machine σ) (s : σ) (c d : m.Call) :
    m.after s [c, d] = (m.step d (m.step c s).2).2 := rfl

def sampleBegun : Store :=
  (approvalStore.step ⟨.beginEnrollmentAtomic (sampleEnrolment "phone" "e1" 7), 10⟩ .fresh).2

theorem sample_begun : sampleBegun.attestationChallenges.find? "e1" =
      some ((sampleEnrolment "phone" "e1" 7).challenge 10) ∧
    sampleBegun.devices.find? "phone" = some ((sampleEnrolment "phone" "e1" 7).device 10) ∧
    sampleBegun.revocations.rows = [] := ⟨rfl, rfl, rfl⟩

theorem sample_enrolled :
    approvalStore.after .fresh (sampleEnrol "e1" 7 10) = sampleEnrolled := by
  obtain ⟨hchallenge, hdevice, hlive⟩ := sample_begun
  have hlast := sample_finalized sample_names_first hchallenge hdevice
    (by decide : (10 : Time) + 1 ≤ 1000) hlive
  rw [sampleEnrol, after_two]
  refine hlast.trans ?_
  rw [show (7 + 1 : UInt8) = 8 from rfl]
  rfl

/-- A run that begins with the enrolment can be evaluated from there. -/
theorem sample_after (calls : List StoreCall) :
    approvalStore.after .fresh (sampleEnrol "e1" 7 10 ++ calls) =
      approvalStore.after sampleEnrolled calls := by
  rw [Machine.after_append, sample_enrolled]

theorem sample_history (calls : List StoreCall) :
    approvalStore.history [] .fresh (sampleEnrol "e1" 7 10 ++ calls) =
      approvalStore.history (approvalStore.history [] .fresh (sampleEnrol "e1" 7 10))
        sampleEnrolled calls := by
  rw [Machine.history_append, sample_enrolled]

/-- The request and its challenge wait for the decision. -/
def sampleAsked : Store := approvalStore.after sampleEnrolled
  [⟨.createRequest (sampleRequest "a1"), 20⟩, ⟨.addChallenge (sampleChallenge "a1" "n1"), 21⟩]

/-- The row of the request that waits. -/
def sampleWaiting : Request :=
  { approvalId := "a1", principal := "owner", tool := "codex_task", mode := "write", task := "task"
    workspace := "workspace", actionDigest := "digest", humanSummary := "summary"
    createdAt := 20, expiresAt := 1000, state := .pending, decidedAt := none, decidedDevice := none
    error := none }

/-- The phone, enrolled and attested. -/
def samplePhone : Device :=
  { (sampleEnrolment "phone" "e1" 7).device 10 with
    attested := true
    attestationStatus := .attested
    appAttestPublicKey := some (toHex (sampleKey 8))
    attestedAt := some 11
    environment := some "production"
    appId := some "app" }

theorem sample_authority : Store.executionAuthority sampleAsked.toTables sampleWaiting samplePhone ["production"] =
    .ok ⟨fingerprint (sampleKey 7), b64encode (sha256 (sampleKey 8))⟩ := by
  have hkey : fromHex samplePhone.publicKeyX963 = some (sampleKey 7) := from_hex_to_hex _
  rw [Store.executionAuthority, hkey]
  rfl

theorem sample_deciding : Store.DecisionGuard sampleAsked.toTables 22 "a1" "phone" .approved "n1" "payload"
    (sampleKey 7) (some (sampleKey 8)) ["production"] sampleWaiting samplePhone
    ⟨fingerprint (sampleKey 7), b64encode (sha256 (sampleKey 8))⟩
    ⟨"n1", "a1", "phone", "owner", "digest", 21, 1000, false, "payload"⟩ where
  request := rfl
  pending := rfl
  lifetime := by decide
  device := rfl
  authority := sample_authority
  key := rfl
  assertion _ := rfl
  nonce := rfl
  bound := rfl
  edge := rfl

def sampleDecided : Store :=
  sampleAsked.decided 22 "a1" "phone" .approved "n1" "payload" (some 1) sampleWaiting

/-- The decision of the sample, whose checks have been made. -/
theorem sample_committed {s : Store} {approvalId challengeNonce : String} {n : Nat}
    {now : Time} {req : Request} {dev : Device} {identity : Store.DeviceIdentity}
    {challenge : Challenge}
    (h : Store.DecisionGuard s.toTables now approvalId "phone" .approved challengeNonce "payload"
      (sampleKey 7) (some (sampleKey 8)) ["production"] req dev identity challenge) :
    approvalStore.step ⟨.commitDecision (sampleDecision approvalId challengeNonce n), now⟩ s =
      (.ok (.ok ()), s.decided now approvalId "phone" .approved challengeNonce "payload"
        (some n) req) := by
  have hok := Store.commit_decision_ok h (by decide) (some n)
  change StoreOp.run (.commitDecision (sampleDecision approvalId challengeNonce n)) now s = _
  unfold StoreOp.run StoreOp.tx
  simp only [sampleDecision]
  rw [hok]

theorem sample_decided :
    approvalStore.after sampleEnrolled (sampleDecide "a1" "n1" 1 20) = sampleDecided := by
  have hsplit : sampleDecide "a1" "n1" 1 20 =
      [⟨.createRequest (sampleRequest "a1"), 20⟩, ⟨.addChallenge (sampleChallenge "a1" "n1"), 21⟩] ++
        [⟨.commitDecision (sampleDecision "a1" "n1" 1), 22⟩] := rfl
  rw [hsplit, Machine.after_concat, ← sampleAsked, sample_committed sample_deciding, sampleDecided]

/-- A run that begins with the enrolment and the decision can be evaluated from there. -/
theorem sample_decided_after (calls : List StoreCall) :
    approvalStore.after .fresh (sampleEnrol "e1" 7 10 ++ (sampleDecide "a1" "n1" 1 20 ++ calls)) =
      approvalStore.after sampleDecided calls := by
  rw [sample_after, Machine.after_append, sample_decided]

/-- The phone approves one request, which is claimed. -/
def sampleClaimed : List StoreCall :=
  sampleEnrol "e1" 7 10 ++ (sampleDecide "a1" "n1" 1 20 ++
    [⟨.claimExecutionAttempt (sampleClaim "a1"), 30⟩])

def sampleRevocation : StoreCall :=
  ⟨.revokePlanned (Store.devicePlan "phone") (some "lost") (some "phone") "revoke_device", 40⟩

/-- Then it is revoked. -/
def sampleCalls : List StoreCall := sampleClaimed ++ [sampleRevocation]

theorem sample_enrol_production (enrollmentId : String) (n : UInt8) (now : Time) :
    ∀ c ∈ sampleEnrol enrollmentId n now, ProductionCall sampleCore c.op := by
  simp only [sampleEnrol, List.forall_mem_cons]
  exact ⟨sample_enrolment_well_formed "phone" enrollmentId n, trivial, by simp⟩

theorem sample_decide_production (approvalId challengeNonce : String) (counter : Nat) (now : Time) :
    ∀ c ∈ sampleDecide approvalId challengeNonce counter now, ProductionCall sampleCore c.op := by
  simp only [sampleDecide, List.forall_mem_cons]
  exact ⟨trivial, trivial, Or.inl rfl, by simp⟩

theorem sample_claim_production {approvalId : String} (h : approvalId ≠ "") :
    ProductionCall sampleCore (.claimExecutionAttempt (sampleClaim approvalId)) := by
  simp [ProductionCall, sampleClaim, sampleExecution, executionIdFor, idempotencyKeyFor, h,
    sampleCore]

theorem sample_calls_production : ∀ c ∈ sampleCalls, ProductionCall sampleCore c.op := by
  simp only [sampleCalls, sampleClaimed, List.forall_mem_append, List.forall_mem_cons]
  exact ⟨⟨sample_enrol_production "e1" 7 10, sample_decide_production "a1" "n1" 1 20,
    sample_claim_production (by decide), by simp⟩, .device "phone", by simp⟩

/-- The history of the sample, newest step first. -/
def sampleHistory : List approvalStore.Entry := approvalStore.history [] .fresh sampleCalls

def sampleStore : Store := approvalStore.after .fresh sampleCalls

theorem sample_run : ProductionRun sampleCore sampleHistory sampleStore :=
  Machine.Run.history .start (fun c hc _ => sample_calls_production c hc)

theorem sample_last : ∃ pre older, sampleHistory = ⟨pre, sampleRevocation⟩ :: older ∧
    sampleStore = (approvalStore.step sampleRevocation pre).2 := by
  refine ⟨approvalStore.after .fresh sampleClaimed, approvalStore.history [] .fresh sampleClaimed,
    ?_, ?_⟩
  · exact @Machine.history_concat _ approvalStore [] .fresh sampleClaimed sampleRevocation
  · exact @Machine.after_concat _ approvalStore .fresh sampleClaimed sampleRevocation

/-- What is revoked with a phone whose binding is still its first. -/
theorem sample_plan {d : Device} {b : IdentityBinding} (hid : d.deviceId = "phone")
    (hactive : d.status = .active) (hb : b.deviceId = "phone")
    (hkey : b.approvalKeySha256 ≠ "") (hatt : b.appAttestKeyId ≠ "")
    (hident : d.identities = [(.device, "phone"), (.approvalKey, b.approvalKeySha256),
      (.appAttestKey, b.appAttestKeyId)]) :
    Store.devicePlan "phone" [d] [b] = ([(.device, "phone"), (.approvalKey, b.approvalKeySha256),
      (.appAttestKey, b.appAttestKeyId)], ["phone"]) := by
  have hentries : Store.deviceEntries "phone" [d] [b] = [(.device, "phone"),
      (.approvalKey, b.approvalKeySha256), (.appAttestKey, b.appAttestKeyId)] := by
    simp [Store.deviceEntries, hid, hb, hident, hkey, hatt, List.eraseDups_cons]
  simp [Store.devicePlan, hentries, hactive, hident, hid]

/-- Three identities are revoked, and the device is closed. -/
theorem sample_revoked {s : Store} {f k : String} (hf : f ≠ "") (hk : k ≠ "")
    (hplan : Store.devicePlan "phone" s.devices.rows s.identityHistory.rows =
      ([(.device, "phone"), (.approvalKey, f), (.appAttestKey, k)], ["phone"]))
    (hnone : s.revocations = .empty) :
    ((approvalStore.step sampleRevocation s).2.requests,
      (approvalStore.step sampleRevocation s).2.devices,
      (approvalStore.step sampleRevocation s).2.revocations.rows.map Revocation.kind) =
    (s.requests, (s.toTables.revokeDeviceRow "phone").devices,
      [.device, .approvalKey, .appAttestKey]) := by
  change ((StoreOp.run (.revokePlanned (Store.devicePlan "phone") (some "lost") (some "phone")
    "revoke_device") 40 s).2.requests, (StoreOp.run (.revokePlanned (Store.devicePlan "phone")
    (some "lost") (some "phone") "revoke_device") 40 s).2.devices, List.map Revocation.kind
    (StoreOp.run (.revokePlanned (Store.devicePlan "phone") (some "lost") (some "phone")
    "revoke_device") 40 s).2.revocations.rows) = _
  unfold StoreOp.run StoreOp.tx Store.revokePlanned
  simp only [hplan]
  have hany : ([(RevokeKind.device, "phone"), (.approvalKey, f), (.appAttestKey, k)] :
      List IdentityRef).any (fun e => e.2 = "") = false := by simp [hf, hk]
  rw [if_neg (by rw [hany]; simp)]
  obtain ⟨⟨devices, requests, _, _, _, _, _, revocations⟩, audit⟩ := s
  simp only at hnone
  subst hnone
  rfl

/-- The store in which the request is being executed. -/
def sampleExecuting : Store :=
  (approvalStore.step ⟨.claimExecutionAttempt (sampleClaim "a1"), 30⟩ sampleDecided).2

theorem sample_executing :
    sampleExecuting.requests.rows.map (fun r => (r.state, r.decidedAt, r.decidedDevice)) =
      [(.executing, some 22, some "phone")] := by rfl

theorem sample_executing_phone :
    sampleExecuting.devices.rows = [{ samplePhone with appAttestCounter := 1 }] ∧
    sampleExecuting.identityHistory.rows = [⟨"phone", fingerprint (sampleKey 7),
      b64encode (sha256 (sampleKey 8)), 11, "attestation_completed"⟩] ∧
    sampleExecuting.revocations = .empty := ⟨rfl, rfl, rfl⟩

theorem attest_key_ne_empty (n : UInt8) : b64encode (sha256 (sampleKey n)) ≠ "" :=
  Store.identity_ne_empty (canonical_encode (sha256_length (sampleKey n)))

theorem sample_identities (counter : Nat) :
    ({ samplePhone with appAttestCounter := counter } : Device).identities =
      [(.device, "phone"), (.approvalKey, fingerprint (sampleKey 7)),
        (.appAttestKey, b64encode (sha256 (sampleKey 8)))] := by
  have hkey : fromHex samplePhone.publicKeyX963 = some (sampleKey 7) := from_hex_to_hex _
  have hne : samplePhone.publicKeyX963 ≠ "" := to_hex_ne_empty (by simp [sampleKey])
  have hatt : samplePhone.appAttestKeyId = some (b64encode (sha256 (sampleKey 8))) := rfl
  simp only [Device.identities, hkey, if_neg hne, hatt, if_neg (attest_key_ne_empty 8)]
  rfl

theorem sample_last_step : sampleStore = (approvalStore.step sampleRevocation sampleExecuting).2 := by
  rw [sampleStore, sampleCalls, sampleClaimed, List.append_assoc, List.append_assoc,
    sample_decided_after]
  exact after_two approvalStore sampleDecided _ _

/-- Every call of the sample does its work. -/
theorem sample_rows :
    (sampleStore.requests.rows.map (fun r => (r.state, r.decidedAt, r.decidedDevice)),
      sampleStore.devices.rows.map (fun d => (d.deviceId, d.status, d.attestationStatus)),
      sampleStore.revocations.rows.map Revocation.kind) =
    ([(.executing, some 22, some "phone")], [("phone", .revoked, .attested)],
      [.device, .approvalKey, .appAttestKey]) := by
  obtain ⟨hrows, hhistory, hnone⟩ := sample_executing_phone
  have hplan : Store.devicePlan "phone" sampleExecuting.devices.rows
      sampleExecuting.identityHistory.rows = ([(.device, "phone"),
        (.approvalKey, fingerprint (sampleKey 7)),
        (.appAttestKey, b64encode (sha256 (sampleKey 8)))], ["phone"]) := by
    rw [hrows, hhistory]
    exact sample_plan rfl rfl rfl (fingerprint_ne_empty _) (attest_key_ne_empty 8)
      (sample_identities 1)
  have hrevoked := sample_revoked (fingerprint_ne_empty _) (attest_key_ne_empty 8) hplan hnone
  simp only [Prod.mk.injEq] at hrevoked
  obtain ⟨hrequests, hdevices, hkinds⟩ := hrevoked
  rw [sample_last_step, hrequests, hdevices, hkinds, sample_executing]
  simp only [Tables.revokeDeviceRow, Table.update, hrows]
  rfl

theorem sample_request : ∃ r ∈ sampleStore.requests, r.state = .executing ∧
    r.decidedAt = some 22 ∧ r.decidedDevice = some "phone" := by
  obtain ⟨r, hr, hs⟩ := List.map_eq_singleton_iff.mp (Prod.mk.inj sample_rows).1
  simp only [Prod.mk.injEq] at hs
  exact ⟨r, by simp [Table.mem_rows, hr], hs⟩

theorem sample_device : ∃ d ∈ sampleStore.devices, d.deviceId = "phone" ∧ d.status = .revoked ∧
    d.attestationStatus = .attested := by
  obtain ⟨d, hd, hs⟩ := List.map_eq_singleton_iff.mp (Prod.mk.inj (Prod.mk.inj sample_rows).2).1
  simp only [Prod.mk.injEq] at hs
  exact ⟨d, by simp [Table.mem_rows, hd], hs⟩

end sample

end Solvio.Approval
