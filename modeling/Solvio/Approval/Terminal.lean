import Solvio.Approval.Agreement

namespace Solvio.Approval
open Solvio.Lib

/-! ### The block list and the device rows -/

/-- A device row that carries a revoked identity is itself revoked. -/
def Blocked (devices : Table Device) (revocations : Table Revocation) : Prop :=
  ∀ k d, devices.find? k = some d → ∀ i ∈ d.identities,
    (revocations.find? i).isSome = true → d.status = .revoked

/-- A plan dooms every live row that carries one of its identities. -/
def Covers (plan : Store.RevocationPlan) : Prop :=
  ∀ rows history, ∀ d ∈ rows, d.status ≠ .revoked → ∀ i ∈ d.identities,
    i ∈ (plan rows history).1 → d.deviceId ∈ (plan rows history).2

theorem approval_key_covers (fp : String) : Covers (Store.approvalKeyPlan fp) := by
  intro rows history d hd hlive i hi he
  simp only [Store.approvalKeyPlan, Store.identitiesPlan, List.mem_singleton] at he ⊢
  subst he
  refine List.mem_map.mpr ⟨d, List.mem_filter.mpr ⟨hd, ?_⟩, rfl⟩
  have hfp : d.approvalFingerprint = some fp := by
    simp only [Device.identities, List.mem_append, List.mem_singleton, Prod.mk.injEq, reduceCtorEq,
      false_and, false_or] at hi
    unfold Device.approvalFingerprint
    rcases hi with hi | hi
    · split at hi
      · simp at hi
      · rename_i hne
        rw [if_neg hne]
        split at hi
        · rename_i key hkey
          simp at hi
          simp [hkey, hi]
        · simp at hi
    · split at hi
      · split at hi <;> simp at hi
      · simp at hi
  simp [hlive, hfp]

theorem app_attest_key_covers {value canonical : String}
    (hc : canonicalAppAttestKeyId value = some canonical) :
    Covers (Store.appAttestKeyPlan canonical) := by
  intro rows history d hd hlive i hi he
  simp only [Store.appAttestKeyPlan, Store.identitiesPlan, List.mem_singleton] at he ⊢
  subst he
  refine List.mem_map.mpr ⟨d, List.mem_filter.mpr ⟨hd, ?_⟩, rfl⟩
  have haa : d.appAttestKeyId = some canonical := by
    simp only [Device.identities, List.mem_append, List.mem_singleton, Prod.mk.injEq, reduceCtorEq,
      false_and, false_or] at hi
    rcases hi with hi | hi
    · split at hi
      · simp at hi
      · split at hi <;> simp at hi
    · split at hi
      · rename_i aakid haa
        split at hi
        · simp at hi
        · simp at hi
          rw [haa, hi]
      · simp at hi
  have hsame : sameAppAttestKey d.appAttestKeyId canonical = true := by
    simp [haa, sameAppAttestKey, canonical_ne_empty hc, canonical_idempotent hc]
  simp [hlive, hsame]

theorem device_covers (deviceId : String) : Covers (Store.devicePlan deviceId) := by
  intro rows history d hd hlive i hi he
  have he' : i ∈ Store.deviceEntries deviceId rows history := he
  refine List.mem_map.mpr ⟨d, List.mem_filter.mpr ⟨hd, ?_⟩, rfl⟩
  have hany : d.identities.any (fun i =>
      (Store.deviceEntries deviceId rows history).any (fun e => e.2 = i.2)) = true :=
    List.any_eq_true.mpr ⟨i, hi, List.any_eq_true.mpr ⟨i, he', by simp⟩⟩
  simp [hlive, hany]

theorem ProductionPlan.covers {plan : Store.RevocationPlan} (h : ProductionPlan plan) :
    Covers plan := by
  cases h with
  | device deviceId => exact device_covers deviceId
  | approvalKey fp => exact approval_key_covers fp
  | appAttestKey hc => exact app_attest_key_covers hc

/-- The row of a production enrolment carries exactly the identities that the
enrolment was checked against. -/
theorem EnrollmentCall.WellFormed.identities {c : EnrollmentCall} (h : c.WellFormed) (now : Time) :
    (c.device now).identities = c.identities := by
  obtain ⟨x963, hlen, hpk, hfp, -⟩ := h.key
  obtain ⟨value, aakid, hcanon, haa, hids⟩ := h.appAttest
  have hne : toHex x963 ≠ "" := to_hex_ne_empty (by rintro rfl; simp at hlen)
  rw [hids]
  simp [Device.identities, EnrollmentCall.device, enrolledDevice, hpk, hne, from_hex_to_hex, hfp, haa,
    canonical_ne_empty hcanon]

namespace Blocked

variable {devices : Table Device} {revocations : Table Revocation}

theorem start : Blocked .empty .empty := by
  intro k d hd
  simp at hd

/-- Rows may change in anything but their identities and their status. -/
theorem map (h : Blocked devices revocations) {devices' : Table Device} (f : Device → Device)
    (find : ∀ k, devices'.find? k = (devices.find? k).map f)
    (same : ∀ d, (f d).identities = d.identities ∧ (f d).status = d.status) :
    Blocked devices' revocations := by
  intro k d hd i hi hr
  rw [find] at hd
  obtain ⟨e, he, rfl⟩ := Option.map_eq_some_iff.mp hd
  rw [(same e).1] at hi
  rw [(same e).2]
  exact h k e he i hi hr

theorem step {t u : Tables} {op : StoreOp} (h : Blocked t.devices t.revocations)
    (change : Change now op t u) (called : ProductionCall core op) :
    Blocked u.devices u.revocations := by
  cases change with
  | unchanged | tokens | created | swept | moved | issued | burned | claimed | crossed | refused |
      recorded | finished | leased => exact h
  | @decided c _ req _ _ _ guard =>
    obtain ⟨devices, hd, hfind⟩ := c.decide_eq now req t
    rw [hd]
    refine h.map _ hfind (fun d => ?_)
    obtain ⟨n, hn⟩ := c.counted_same d
    rw [hn]
    exact ⟨rfl, rfl⟩
  | failed =>
    refine h.map _ (t.fail_find _ _) (fun d => ?_)
    split <;> exact ⟨rfl, rfl⟩
  | attested =>
    refine h.map _ (t.attest_find _ _ _ _ _ _ _ _ _) (fun d => ?_)
    split <;> exact ⟨rfl, rfl⟩
  | @enrolled c _ v _ named live upserted inserted =>
    obtain ⟨-, hfind, hv⟩ := Store.upsert_device_cases upserted
    intro k d hd i hi hr
    have hd' : v.devices.find? k = some d := hd
    have hr' : (t.revocations.find? i).isSome = true := by
      rw [hv] at hr
      exact hr
    rw [hfind] at hd'
    split at hd'
    · cases hd'
      rw [EnrollmentCall.WellFormed.identities called now] at hi
      have := List.any_eq_false.mp live i hi
      exact absurd hr' this
    · exact h k d hd' i hi hr'
  | @revoked plan reason _ _ _ entries doomed planned valued =>
    have hcov := ProductionPlan.covers called t.devices.rows t.identityHistory.rows
    rw [planned] at hcov
    intro k d hd i hi hr
    rw [Tables.revoke_all_find] at hd
    obtain ⟨e, he, rfl⟩ := Option.map_eq_some_iff.mp hd
    unfold Tables.closed at hi ⊢
    split
    · rfl
    · rename_i hnd
      rw [if_neg hnd] at hi
      have hrev := (Tables.revoke_all_revoked t now reason entries doomed i).mp hr
      rcases hrev with hrev | hin
      · exact h k e he i hi hrev
      · by_contra hlive
        exact hnd (hcov e (Table.mem_of_find he) hlive i hi hin)

theorem of_run (hrun : ProductionRun core h s) : Blocked s.devices s.revocations :=
  hrun.invariant (fun s => Blocked s.devices s.revocations) start
    (fun _ s c hc hi => hi.step (StoreOp.run_change c.op c.now s) hc)

end Blocked

/-! ### Revocation only grows -/

theorem Change.revoked_mono {t u : Tables} {op : StoreOp} (change : Change now op t u)
    (i : IdentityRef) (h : t.isRevoked i = true) : u.isRevoked i = true := by
  cases change with
  | unchanged | tokens | created | swept | moved | issued | burned | claimed | crossed | refused |
      recorded | finished | leased | failed | attested => exact h
  | @decided c _ req _ _ _ guard =>
    obtain ⟨devices, hd, -⟩ := c.decide_eq now req t
    rw [hd]
    exact h
  | enrolled named live upserted inserted =>
    obtain ⟨-, -, hu⟩ := Store.upsert_device_cases upserted
    rw [hu]
    exact h
  | revoked => exact (Tables.revoke_all_revoked ..).mpr (Or.inl h)

/-- A revoked row stays a revoked row. -/
theorem Change.status_mono {t u : Tables} {op : StoreOp} (change : Change now op t u) (k : String)
    (h : ∃ d, t.devices.find? k = some d ∧ d.status = .revoked) :
    ∃ d, u.devices.find? k = some d ∧ d.status = .revoked := by
  obtain ⟨d, hd, hs⟩ := h
  have hmap : ∀ {f : Device → Device} {devices : Table Device},
      (devices.find? k = (t.devices.find? k).map f) → (f d).status = .revoked →
      ∃ d, devices.find? k = some d ∧ d.status = .revoked := by
    intro f devices hf hfd
    exact ⟨f d, by rw [hf, hd]; rfl, hfd⟩
  cases change with
  | unchanged | tokens | created | swept | moved | issued | burned | claimed | crossed | refused |
      recorded | finished | leased => exact ⟨d, hd, hs⟩
  | @decided c _ req _ _ _ guard =>
    obtain ⟨devices, hd', hfind⟩ := c.decide_eq now req t
    rw [hd']
    refine hmap (hfind k) ?_
    obtain ⟨n, hn⟩ := c.counted_same d
    rw [hn]
    exact hs
  | failed =>
    refine hmap (t.fail_find _ _ k) ?_
    split <;> exact hs
  | attested =>
    refine hmap (t.attest_find _ _ _ _ _ _ _ _ _ k) ?_
    split <;> exact hs
  | @enrolled c _ v _ named live upserted inserted =>
    obtain ⟨hfree, hfind, -⟩ := Store.upsert_device_cases upserted
    have hne : k ≠ c.deviceId := by
      rintro rfl
      exact hfree d hd hs
    exact ⟨d, (hfind k).trans ((if_neg hne).trans hd), hs⟩
  | revoked =>
    refine hmap (Tables.revoke_all_find ..) ?_
    unfold Tables.closed
    split
    · rfl
    · exact hs

/-! ### No authority after a revocation -/

/-- The steps that grant authority to a device row. -/
def StoreOp.Granted : (op : StoreOp) → Except StoreError op.Reply → Prop
  | .beginEnrollmentAtomic _, reply => reply = .ok (.ok ())
  | .finalizeAttestation _, reply => reply = .ok (.ok ())
  | .commitDecision _, reply => reply = .ok (.ok ())
  | .claimExecutionAttempt _, reply => ∃ attemptId, reply = .ok (.ok attemptId)
  | _, _ => False

/-- The device row that such a step is about carries the identity. -/
def StoreOp.Carries (t : Tables) (now : Time) (i : IdentityRef) : StoreOp → Prop
  | .beginEnrollmentAtomic c => i ∈ (c.device now).identities
  | .finalizeAttestation c => ∃ ch d, t.attestationChallenges.find? c.enrollmentId = some ch ∧
      t.devices.find? ch.deviceId = some d ∧ i ∈ d.identities
  | .commitDecision c => ∃ d, t.devices.find? c.deviceId = some d ∧ i ∈ d.identities
  | .claimExecutionAttempt c => ∃ d, t.devices.find? c.deviceId = some d ∧ i ∈ d.identities
  | _ => False

/-- A claim is made for a live, attested device. -/
theorem Tables.claimable_device {t : Tables} {r : Request}
    (h : t.claimable now deviceId identities r = true) :
    ∃ d, t.devices.find? deviceId = some d ∧ d.status = .active ∧ d.attestationStatus = .attested := by
  simp only [claimable, Bool.and_eq_true] at h
  have hd := h.1.2
  split at hd
  · rename_i d hfind
    simp only [Bool.and_eq_true, decide_eq_true_eq] at hd
    exact ⟨d, hfind, hd⟩
  · cases hd

theorem Blocked.not_granted {s : Store} {op : StoreOp} (h : Blocked s.devices s.revocations)
    (called : ProductionCall core op) {i : IdentityRef} (revoked : s.isRevoked i = true)
    (carries : op.Carries s.toTables now i) : ¬ op.Granted (op.run now s).1 := by
  intro hg
  have hactive : ∀ {k : String} {d : Device}, s.devices.find? k = some d → i ∈ d.identities →
      ¬ d.status = .active := by
    intro k d hd hi ha
    have := h k d hd i hi revoked
    rw [ha] at this
    cases this
  cases op with
  | beginEnrollmentAtomic c =>
    rcases Store.begin_enrollment_cases (StoreOp.run_answered hg) with ⟨_, he, _⟩ | ⟨_, _, hl, _⟩
    · cases he
    · have hi : i ∈ c.identities := called.identities now ▸ carries
      exact absurd revoked (List.any_eq_false.mp hl i hi)
  | finalizeAttestation c =>
    obtain ⟨ch, d, hch, hd, hi⟩ := carries
    rcases Store.finalize_attestation_cases (StoreOp.run_answered hg) with
      ⟨_, he, _⟩ | ⟨_, ch', d', _, _, guard, _⟩
    · cases he
    · have hc := guard.challenge
      rw [hch] at hc
      cases hc
      have hd' := guard.device
      rw [hd] at hd'
      cases hd'
      exact hactive hd hi guard.active
  | commitDecision c =>
    obtain ⟨d, hd, hi⟩ := carries
    rcases Store.commit_decision_cases (StoreOp.run_answered hg) with
      ⟨_, he, _⟩ | ⟨_, _, d', _, _, guard, _⟩
    · cases he
    · have hd' := guard.device
      rw [hd] at hd'
      cases hd'
      obtain ⟨-, -, -, hact, -⟩ := Store.execution_authority_ok guard.authority
      exact hactive hd hi hact
  | claimExecutionAttempt c =>
    obtain ⟨d, hd, hi⟩ := carries
    obtain ⟨attemptId, hg⟩ := hg
    rcases Store.claim_attempt_cases (StoreOp.run_answered hg) with
      ⟨_, he, _⟩ | ⟨_, _, guard, _⟩
    · cases he
    · obtain ⟨d', hd', hact, -⟩ := Tables.claimable_device guard.claimable
      rw [hd] at hd'
      cases hd'
      exact hactive hd hi hact
  | _ => exact hg

/-- Revocation is terminal: revoked identities close every row that carries
them, no revocation and no closed row is ever undone, and from then on nothing
is granted to a row that carries one of them. -/
theorem revocation_is_terminal (core : String) (h : List approvalStore.Entry) (s : Store)
    (hrun : ProductionRun core h s) :
    (∀ d ∈ s.devices, ∀ i ∈ d.identities, s.isRevoked i = true → d.status = .revoked) ∧
    (∀ newer e older, h = newer ++ e :: older →
      (∀ i, e.pre.isRevoked i = true → s.isRevoked i = true) ∧
      ∀ d ∈ e.pre.devices, d.status = .revoked →
        ∃ d' ∈ s.devices, d'.deviceId = d.deviceId ∧ d'.status = .revoked) ∧
    ∀ e ∈ h, ∀ i, e.pre.isRevoked i = true →
      e.call.op.Carries e.pre.toTables e.call.now i → ¬ e.call.op.Granted e.reply := by
  refine ⟨fun d hd i hi hr => ?_, ?_, fun e he i hr hc => ?_⟩
  · exact Blocked.of_run hrun d.deviceId d (Table.find_of_mem hd) i hi hr
  · rintro newer e older rfl
    refine ⟨fun i hi => ?_, fun d hd hs => ?_⟩
    · exact (hrun.forward (fun s => s.isRevoked i = true) hi
        (fun _ s c _ hr => (StoreOp.run_change c.op c.now s).revoked_mono i hr)).2.1
    · obtain ⟨d', hd', hs'⟩ := (hrun.forward
        (fun s => ∃ d', s.devices.find? d.deviceId = some d' ∧ d'.status = .revoked)
        ⟨d, Table.find_of_mem hd, hs⟩
        (fun _ s c _ hr => (StoreOp.run_change c.op c.now s).status_mono d.deviceId hr)).2.1
      exact ⟨d', Table.mem_of_find hd', Table.key_of_find hd', hs'⟩
  · obtain ⟨newer, older, -, hold, hcall⟩ := hrun.of_mem he
    exact (Blocked.of_run hold).not_granted hcall hr hc

/-- The revoked phone of the sample. -/
theorem revocation_is_terminal_sample : ∃ d ∈ sampleStore.devices,
    d.deviceId = "phone" ∧ d.status = .revoked ∧
    ∀ i ∈ d.identities, sampleStore.isRevoked i = true → d.status = .revoked := by
  obtain ⟨d, hd, hid, hrev, -⟩ := sample_device
  exact ⟨d, hd, hid, hrev,
    (revocation_is_terminal sampleCore sampleHistory sampleStore sample_run).1 d hd⟩

/-! ### The scope of a device revocation -/

theorem Change.history_mono {t u : Tables} {op : StoreOp} (change : Change now op t u)
    {b : IdentityBinding} (h : b ∈ t.identityHistory) : b ∈ u.identityHistory := by
  cases change with
  | unchanged | tokens | created | swept | moved | issued | burned | claimed | crossed | refused |
      recorded | finished | leased | failed => exact h
  | @decided c _ req _ _ _ guard =>
    obtain ⟨devices, hd, -⟩ := c.decide_eq now req t
    rw [hd]
    exact h
  | @attested c _ ch _ key derived guard =>
    simp only [Tables.attest]
    cases hi : t.identityHistory.insert? ⟨ch.deviceId, fingerprint key, derived, now,
        "attestation_completed"⟩ with
    | none => exact h
    | some _ => exact ((Table.insert_some hi).2 b).mpr (Or.inl h)
  | enrolled named live upserted inserted =>
    obtain ⟨-, -, hu⟩ := Store.upsert_device_cases upserted
    rw [hu]
    exact h
  | @revoked _ reason _ _ _ entries doomed planned valued =>
    obtain ⟨devices, revocations, hr⟩ := t.revoke_all_frame now reason entries doomed
    rw [hr]
    exact h

/-- An attestation leaves its binding in the history, or finds it there. -/
theorem Tables.attest_history (t : Tables) (now : Time)
    (deviceId enrollmentId publicKey : String) (counter : Nat)
    (environment appId approvalKeySha256 appAttestKeyId : String) :
    ∃ b ∈ (t.attest now deviceId enrollmentId publicKey counter environment appId approvalKeySha256
      appAttestKeyId).identityHistory, b.deviceId = deviceId ∧
      b.approvalKeySha256 = approvalKeySha256 ∧ b.appAttestKeyId = appAttestKeyId := by
  simp only [attest]
  cases hi : t.identityHistory.insert? ⟨deviceId, approvalKeySha256, appAttestKeyId, now,
      "attestation_completed"⟩ with
  | none =>
    obtain ⟨b, hb⟩ := Table.insert_none.mp hi
    have hk : (b.deviceId, b.approvalKeySha256, b.appAttestKeyId) =
        (deviceId, approvalKeySha256, appAttestKeyId) := Table.key_of_find hb
    simp only [Prod.mk.injEq] at hk
    exact ⟨b, Table.mem_of_find hb, hk⟩
  | some _ => exact ⟨_, ((Table.insert_some hi).2 _).mpr (Or.inr rfl), rfl, rfl, rfl⟩

theorem Store.mem_device_entries {rows : List Device} {history : List IdentityBinding}
    {b : IdentityBinding} (hb : b ∈ history) :
    (b.approvalKeySha256 ≠ "" →
      (RevokeKind.approvalKey, b.approvalKeySha256) ∈ deviceEntries b.deviceId rows history) ∧
    (b.appAttestKeyId ≠ "" →
      (RevokeKind.appAttestKey, b.appAttestKeyId) ∈ deviceEntries b.deviceId rows history) := by
  have hpast : ∀ i, i ∈ (if b.approvalKeySha256 = "" then []
        else [(RevokeKind.approvalKey, b.approvalKeySha256)]) ++
      (if b.appAttestKeyId = "" then [] else [(RevokeKind.appAttestKey, b.appAttestKeyId)]) →
      i ∈ deviceEntries b.deviceId rows history := by
    intro i hi
    simp only [deviceEntries]
    refine List.mem_eraseDups.mpr (List.mem_append_right _ (List.mem_flatMap.mpr ⟨b, ?_, hi⟩))
    exact List.mem_filter.mpr ⟨hb, by simp⟩
  exact ⟨fun hne => hpast _ (by simp [hne]), fun hne => hpast _ (by simp [hne])⟩

/-- A named device can always be revoked. -/
theorem Store.device_revocation_commits (pre : Store) (now : Time) {deviceId : String}
    (reason label : Option String) (operation : String) (named : deviceId ≠ "") :
    ∃ result, ((StoreOp.revokePlanned (devicePlan deviceId) reason label operation).run now
      pre).1 = .ok result := by
  have hvalued : (deviceEntries deviceId pre.devices.rows pre.identityHistory.rows).any
      (fun e => e.2 = "") = false := by
    simp only [deviceEntries, List.any_eq_false, decide_eq_true_eq]
    intro e he
    rcases List.mem_append.mp (List.mem_eraseDups.mp he) with hcur | hpast
    · rcases List.mem_cons.mp hcur with rfl | hcur
      · exact named
      · have := (List.mem_filter.mp hcur).2
        simp only [Bool.and_eq_true, decide_eq_true_eq] at this
        exact this.2
    · obtain ⟨b, -, hb⟩ := List.mem_flatMap.mp hpast
      rcases List.mem_append.mp hb with hb | hb <;> split at hb
      · cases hb
      · rename_i hne
        exact List.mem_singleton.mp hb ▸ hne
      · cases hb
      · rename_i hne
        exact List.mem_singleton.mp hb ▸ hne
  simp only [StoreOp.run, StoreOp.tx, revokePlanned, devicePlan, hvalued]
  exact ⟨_, rfl⟩

/-- A successful attestation of a device, and an identity that it made trusted. -/
def TrustedBy (e : approvalStore.Entry) (deviceId : String) (i : IdentityRef) : Prop :=
  ∃ c ch dev key derived, e.call.op = .finalizeAttestation c ∧ e.call.op.Granted e.reply ∧
    e.pre.attestationChallenges.find? c.enrollmentId = some ch ∧ ch.deviceId = deviceId ∧
    e.pre.devices.find? deviceId = some dev ∧ fromHex dev.publicKeyX963 = some key ∧
    appAttestIdentityFromPublicKey c.appAttestPublicKeyX963 = some derived ∧
    (i = (.approvalKey, fingerprint key) ∨ i = (.appAttestKey, derived))

theorem TrustedBy.history {e : approvalStore.Entry} (h : TrustedBy e deviceId i) :
    ∃ b ∈ e.post.identityHistory, b.deviceId = deviceId ∧
      ((i = (.approvalKey, b.approvalKeySha256) ∧ b.approvalKeySha256 ≠ "") ∨
        (i = (.appAttestKey, b.appAttestKeyId) ∧ b.appAttestKeyId ≠ "")) := by
  obtain ⟨c, ch, dev, key, derived, hop, hg, hch, rfl, hdev, hkey, hder, hi⟩ := h
  obtain ⟨pre, op, now⟩ := e
  cases hop
  rcases Store.finalize_attestation_cases (StoreOp.run_answered hg) with
    ⟨_, he, _⟩ | ⟨_, ch', dev', key', derived', guard, hs⟩
  · cases he
  have h1 := guard.challenge
  have h2 := guard.device
  have h3 := guard.keyRead
  have h4 := guard.derivation
  rw [show pre.attestationChallenges.find? c.enrollmentId = some ch from hch] at h1
  cases h1
  rw [show pre.devices.find? ch.deviceId = some dev from hdev] at h2
  cases h2
  rw [hkey] at h3
  cases h3
  rw [hder] at h4
  cases h4
  obtain ⟨b, hb, hbd, hbk, hba⟩ := pre.toTables.attest_history now ch.deviceId c.enrollmentId
    (toHex c.appAttestPublicKeyX963) c.appAttestCounter c.environment c.appId (fingerprint key)
    derived
  rw [← hs] at hb
  refine ⟨b, hb, hbd, ?_⟩
  rw [hbk, hba]
  rcases hi with rfl | rfl
  · exact Or.inl ⟨rfl, fingerprint_ne_empty key⟩
  · exact Or.inr ⟨rfl, canonical_ne_empty hder⟩

/-- What one committed device revocation covers at once. -/
theorem Store.device_revocation {pre post : Store} {result : RevocationResult}
    (h : pre.revokePlanned now (devicePlan deviceId) reason label operation = .ok (result, post)) :
    post.isRevoked (.device, deviceId) = true ∧
      (∀ b ∈ pre.identityHistory, b.deviceId = deviceId →
        (b.approvalKeySha256 ≠ "" → post.isRevoked (.approvalKey, b.approvalKeySha256) = true) ∧
        (b.appAttestKeyId ≠ "" → post.isRevoked (.appAttestKey, b.appAttestKeyId) = true)) ∧
      (∀ i, i ∈ result.newlyRevoked ↔ pre.isRevoked i = false ∧ post.isRevoked i = true) ∧
      (∀ i, i ∈ result.alreadyRevoked ↔ pre.isRevoked i = true ∧
        i ∈ deviceEntries deviceId pre.devices.rows pre.identityHistory.rows) := by
  obtain ⟨entries, doomed, hp, -, -, hlists, hs⟩ := revoke_planned_cases h
  have he : entries = deviceEntries deviceId pre.devices.rows pre.identityHistory.rows :=
    (congrArg Prod.fst hp).symm
  have hrev : ∀ i, post.isRevoked i = true ↔ pre.isRevoked i = true ∨ i ∈ entries := by
    intro i
    rw [hs]
    exact Tables.revoke_all_revoked ..
  obtain ⟨hnew, hold⟩ := hlists (he ▸ device_entries_nodup ..)
  refine ⟨(hrev _).mpr (Or.inr ?_), fun b hb hd => ?_, fun i => ?_, fun i => ?_⟩
  · rw [he]
    exact List.mem_eraseDups.mpr (by simp)
  · obtain ⟨h1, h2⟩ := mem_device_entries (Table.mem_rows.mp hb)
    rw [hd, ← he] at h1 h2
    exact ⟨fun hne => (hrev _).mpr (Or.inr (h1 hne)), fun hne => (hrev _).mpr (Or.inr (h2 hne))⟩
  · rw [hnew, List.mem_filter, hrev]
    by_cases hi : pre.isRevoked i = true <;> simp [hi]
  · rw [hold, List.mem_filter, he, and_comm]

/-- Revoking a device covers every key it was ever trusted with, under every
device row that carries one, and reports exactly what it wrote and what it
found. -/
theorem revoke_device_covers_every_key (core : String) (h : List approvalStore.Entry) (s : Store)
    (hrun : ProductionRun core h s) (newer older : List approvalStore.Entry) (pre : Store)
    (now : Time) (deviceId : String) (reason label : Option String) (operation : String)
    (result : Store.RevocationResult)
    (hsplit : h = newer ++
      ⟨pre, ⟨.revokePlanned (Store.devicePlan deviceId) reason label operation, now⟩⟩ :: older)
    (hreply : ((StoreOp.revokePlanned (Store.devicePlan deviceId) reason label operation).run now
      pre).1 = .ok result) :
    (∀ f ∈ h, ∀ i, TrustedBy f deviceId i → s.isRevoked i = true ∧
      ∀ d ∈ s.devices, i ∈ d.identities → d.status = .revoked) ∧
    (∀ i, i ∈ result.newlyRevoked ↔ pre.isRevoked i = false ∧
      ((StoreOp.revokePlanned (Store.devicePlan deviceId) reason label operation).run now
        pre).2.isRevoked i = true) ∧
    ∀ i, i ∈ result.alreadyRevoked ↔ pre.isRevoked i = true ∧
      i ∈ Store.deviceEntries deviceId pre.devices.rows pre.identityHistory.rows := by
  obtain ⟨hself, hpast, hnew, hold⟩ := Store.device_revocation (StoreOp.run_answered hreply)
  refine ⟨fun f hf i ht => ?_, hnew, hold⟩
  subst hsplit
  have hgrow : ∀ i, ((StoreOp.revokePlanned (Store.devicePlan deviceId) reason label operation).run
      now pre).2.isRevoked i = true → s.isRevoked i = true ∧ ∀ n ∈ newer, n.pre.isRevoked i = true :=
    fun i hi => hrun.since (fun s => s.isRevoked i = true) hi
      (fun _ s c _ _ hr => (StoreOp.run_change c.op c.now s).revoked_mono i hr)
  have hrevoked : s.isRevoked i = true := by
    rcases List.mem_append.mp hf with hlater | hearlier
    · -- after the revocation the device itself is blocked, so nothing is attested for it
      obtain ⟨n1, n2, -, hn, hcall⟩ := hrun.of_mem hf
      obtain ⟨c, ch, dev, key, derived, hop, hg, hch, rfl, hdev, -, -, -⟩ := ht
      have hcarry : f.call.op.Carries f.pre.toTables f.call.now (.device, ch.deviceId) := by
        rw [hop]
        refine ⟨ch, dev, hch, hdev, ?_⟩
        have hk : dev.deviceId = ch.deviceId := Table.key_of_find hdev
        simp [Device.identities, hk]
      exact absurd hg ((Blocked.of_run hn).not_granted hcall ((hgrow _ hself).2 f hlater) hcarry)
    · rcases List.mem_cons.mp hearlier with rfl | hearlier
      · obtain ⟨c, _, _, _, _, hop, -⟩ := ht
        cases hop
      · -- the binding was written to the history before the plan read it
        obtain ⟨b, hb, hbd, hi⟩ := ht.history
        obtain ⟨n, o, hno, -, -⟩ := hrun.split.1.of_mem hearlier
        have hkept : b ∈ pre.identityHistory := by
          have hpre := hrun.split.1
          rw [hno] at hpre
          exact (hpre.since (fun s => b ∈ s.identityHistory) hb
            (fun _ s c _ _ hr => (StoreOp.run_change c.op c.now s).history_mono hr)).1
        obtain ⟨h1, h2⟩ := hpast b hkept hbd
        rcases hi with ⟨rfl, hne⟩ | ⟨rfl, hne⟩
        · exact (hgrow _ (h1 hne)).1
        · exact (hgrow _ (h2 hne)).1
  exact ⟨hrevoked, fun d hd hi =>
    Blocked.of_run hrun d.deviceId d (Table.find_of_mem hd) i hi hrevoked⟩

/-- The revocation at the end of the sample. -/
theorem revoke_device_covers_sample : ∃ (pre : Store) (result : Store.RevocationResult),
    (∀ f ∈ sampleHistory, ∀ i, TrustedBy f "phone" i → sampleStore.isRevoked i = true) ∧
    ∀ i, i ∈ result.newlyRevoked ↔ pre.isRevoked i = false ∧ sampleStore.isRevoked i = true := by
  obtain ⟨pre, older, hsplit, hlast⟩ := sample_last
  have named : "phone" ≠ "" := by decide
  obtain ⟨result, hreply⟩ := pre.device_revocation_commits 40 (some "lost") (some "phone")
    "revoke_device" named
  obtain ⟨hcover, hnew, -⟩ := revoke_device_covers_every_key sampleCore sampleHistory sampleStore
    sample_run [] older pre 40 "phone" (some "lost") (some "phone") "revoke_device" result hsplit
    hreply
  refine ⟨pre, result, fun f hf i hi => (hcover f hf i hi).1, ?_⟩
  rw [hlast]
  exact hnew

end Solvio.Approval
