import Solvio.Approval.Identity
import Solvio.Lib.Table

namespace Solvio.Approval
open Solvio.Lib

/-- Clock readings. Two of them are only compared and shifted by a duration. -/
abbrev Time := Int

inductive RequestState where
  | pending
  | approved
  | denied
  | executing
  | consumed
  | expired
  | failed
deriving DecidableEq

namespace RequestState

def text : RequestState → String
  | pending => "PENDING"
  | approved => "APPROVED"
  | denied => "DENIED"
  | executing => "EXECUTING"
  | consumed => "CONSUMED"
  | expired => "EXPIRED"
  | failed => "FAILED"

/-- `_ALLOWED`: the edges of the request graph. -/
def allowed : RequestState → RequestState → Bool
  | pending, approved | pending, denied | pending, expired => true
  | approved, executing | approved, expired => true
  | executing, consumed | executing, failed => true
  | _, _ => false

theorem allowed_expired {cur : RequestState} (h : cur.allowed expired = true) :
    cur = pending ∨ cur = approved := by
  cases cur <;> simp [allowed] at h ⊢

theorem allowed_outcome {cur new : RequestState} (h : cur.allowed new = true)
    (hn : new = consumed ∨ new = failed) : cur = executing := by
  rcases hn with rfl | rfl <;> cases cur <;> simp [allowed] at h ⊢

end RequestState

inductive DeviceStatus where
  | active
  | revoked
deriving DecidableEq

def DeviceStatus.text : DeviceStatus → String
  | .active => "ACTIVE"
  | .revoked => "REVOKED"

inductive AttestationStatus where
  | pendingAttestation
  | attested
  | attestationFailed
  | unattested
deriving DecidableEq

inductive RevokeKind where
  | device
  | approvalKey
  | appAttestKey
deriving DecidableEq

namespace RevokeKind

def text : RevokeKind → String
  | device => "device"
  | approvalKey => "approval_key"
  | appAttestKey => "app_attest_key"

/-- `_REVOKE_EVENT`. -/
def event : RevokeKind → String
  | device => "device_revoked"
  | approvalKey => "approval_key_revoked"
  | appAttestKey => "app_attest_key_revoked"

end RevokeKind

abbrev IdentityRef := RevokeKind × String

structure Device where
  deviceId : String
  keyId : String
  publicKeyX963 : String
  principal : String
  transportCredHash : Option String
  attested : Bool
  status : DeviceStatus
  enrolledAt : Time
  attestationStatus : AttestationStatus
  appAttestKeyId : Option String
  appAttestPublicKey : Option String
  appAttestCounter : Nat
  attestedAt : Option Time
  appId : Option String
  environment : Option String
  currentEnrollmentId : Option String
deriving DecidableEq

structure Request where
  approvalId : String
  principal : String
  tool : String
  mode : String
  task : String
  workspace : String
  actionDigest : String
  humanSummary : String
  state : RequestState
  createdAt : Time
  expiresAt : Time
  decidedAt : Option Time
  decidedDevice : Option String
  error : Option String
deriving DecidableEq

structure Challenge where
  challengeNonce : String
  approvalId : String
  deviceId : String
  principal : String
  actionDigest : String
  issuedAt : Time
  expiresAt : Time
  consumed : Bool
  payloadSha256 : String
deriving DecidableEq

structure EnrollmentToken where
  tokenHash : String
  principal : String
  createdAt : Time
  expiresAt : Time
  consumed : Bool
deriving DecidableEq

structure AuditRow where
  ts : Time
  approvalId : Option String
  deviceId : Option String
  event : String
  reason : Option String
  identity : Option String
deriving DecidableEq

structure AttestationChallenge where
  enrollmentId : String
  nonce : String
  deviceId : String
  principal : String
  approvalKeyId : String
  approvalPubkeySha256 : String
  bindingRaw : Bytes
  issuedAt : Time
  expiresAt : Time
  consumed : Bool
  appAttestKeyId : Option String
  superseded : Bool
deriving DecidableEq

/-- A binding that an attestation once made trusted. -/
structure IdentityBinding where
  deviceId : String
  approvalKeySha256 : String
  appAttestKeyId : String
  boundAt : Time
  provenance : String
deriving DecidableEq

/-- The authority a claim was made under. A row holds all six columns or none,
so `claim_identity_bound` is the presence of the snapshot. -/
structure ClaimSnapshot where
  coreInstanceId : String
  principal : String
  environment : String
  enrollmentId : String
  approvalKeySha256 : String
  appAttestKeyId : String
deriving DecidableEq

structure Attempt where
  attemptId : String
  executionId : String
  approvalId : String
  deviceId : String
  capability : String
  semantics : Semantics
  idempotencyKey : String
  status : AttemptStatus
  leaseOwner : Option String
  leaseExpiresAt : Option Time
  claimedAt : Time
  boundaryAt : Option Time
  finishedAt : Option Time
  detail : Option String
  claim : Option ClaimSnapshot
deriving DecidableEq

structure Revocation where
  kind : RevokeKind
  value : String
  reason : Option String
  revokedAt : Time
deriving DecidableEq

instance : Keyed Device String := ⟨Device.deviceId⟩
instance : Keyed Request String := ⟨Request.approvalId⟩
instance : Keyed Challenge String := ⟨Challenge.challengeNonce⟩
instance : Keyed EnrollmentToken String := ⟨EnrollmentToken.tokenHash⟩
instance : Keyed AttestationChallenge String := ⟨AttestationChallenge.enrollmentId⟩
instance : Keyed IdentityBinding (String × String × String) :=
  ⟨fun b => (b.deviceId, b.approvalKeySha256, b.appAttestKeyId)⟩
instance : Keyed Attempt String := ⟨Attempt.attemptId⟩
instance : Keyed Revocation IdentityRef := ⟨fun r => (r.kind, r.value)⟩

/-- The tables that carry authority. The audit log is only ever appended to and
never read by an operation. -/
structure Tables where
  devices : Table Device
  requests : Table Request
  challenges : Table Challenge
  enrollmentTokens : Table EnrollmentToken
  attestationChallenges : Table AttestationChallenge
  identityHistory : Table IdentityBinding
  attempts : Table Attempt
  revocations : Table Revocation
deriving DecidableEq

structure Store extends Tables where
  audit : List AuditRow
deriving DecidableEq

def Tables.fresh : Tables :=
  ⟨.empty, .empty, .empty, .empty, .empty, .empty, .empty, .empty⟩

def Store.fresh : Store := ⟨.fresh, []⟩

/-- What a store operation raises. The transaction is rolled back. -/
inductive StoreError where
  | approvalStoreError (text : String)
  | illegalTransition (cur new : RequestState)
  | concurrentTransition (approvalId : String) (cur new : RequestState)
  | executionBypass
  | valueError (text : String)
  | integrityError
  | attributeError
deriving DecidableEq

/-- `str(exc)`. -/
def StoreError.text : StoreError → String
  | approvalStoreError text => text
  | illegalTransition cur new => cur.text ++ " -> " ++ new.text
  | concurrentTransition approvalId cur new =>
    approvalId ++ ": " ++ cur.text ++ " -> " ++ new.text ++ " lost the race"
  | executionBypass =>
    "EXECUTING must be claimed through claim_execution_attempt, which journals " ++
    "the attempt in the same transaction; the generic transition cannot do that"
  | valueError text => text
  | integrityError => "UNIQUE constraint failed"
  | attributeError => "object has no attribute 'get'"

/-- A committed transaction: the answer and the store it leaves. An error
commits nothing. -/
abbrev Tx (α : Type) := Except StoreError (α × Store)

/-- An answer is the value of `"ok"`, or a reason for the refusal. -/
abbrev Answer (α : Type) := Except String α

/-- A chain of early returns: the reason of the first check that holds. -/
def firstRefusal (checks : List (Bool × String)) : Option String :=
  (checks.find? Prod.fst).map Prod.snd

theorem first_refusal_none {checks : List (Bool × String)} :
    firstRefusal checks = none ↔ ∀ c ∈ checks, c.1 = false := by
  simp [firstRefusal, List.find?_eq_none]

namespace Store

/-- `_audit`. -/
def audited (s : Store) (now : Time) (event : String) (approvalId deviceId reason : Option String)
    (identity : Option String) : Store :=
  { s with audit := s.audit ++ [⟨now, approvalId, deviceId, event, reason, identity⟩] }

/-- A refusal commits its audit row and nothing else. -/
def refused (s : Store) (now : Time) (event : String) (approvalId deviceId : Option String)
    (reason : String) : Tx (Answer α) :=
  .ok (.error reason, s.audited now event approvalId deviceId (some reason) none)

/-- A statement that writes tables only. -/
def write (s : Store) (f : Tables → Tables) : Store := { s with toTables := f s.toTables }

@[simp] theorem write_tables (s : Store) (f : Tables → Tables) :
    (s.write f).toTables = f s.toTables := rfl

@[simp] theorem audited_tables (s : Store) (now : Time) (event : String)
    (approvalId deviceId reason identity : Option String) :
    (s.audited now event approvalId deviceId reason identity).toTables = s.toTables := rfl

end Store

def Tables.isRevoked (s : Tables) (identity : IdentityRef) : Bool :=
  (s.revocations.find? identity).isSome

theorem Tables.is_revoked_iff {s : Tables} {identity : IdentityRef} :
    s.isRevoked identity = true ↔
      ∃ r ∈ s.revocations, r.kind = identity.1 ∧ r.value = identity.2 := by
  constructor
  · intro h
    obtain ⟨r, hr⟩ := Option.isSome_iff_exists.mp h
    have hk := Table.key_of_find hr
    exact ⟨r, Table.mem_of_find hr, congrArg Prod.fst hk, congrArg Prod.snd hk⟩
  · rintro ⟨r, hr, hk, hv⟩
    have hf : s.revocations.find? identity = some r :=
      Table.find_some.mpr ⟨hr, Prod.ext hk hv⟩
    simp [isRevoked, hf]

end Solvio.Approval
