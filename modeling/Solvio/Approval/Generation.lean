import Solvio.Approval.Terminal

namespace Solvio.Approval
open Solvio.Lib

/-! ### Devices and the challenges they were enrolled with -/

/-- Still answerable. -/
def AttestationChallenge.live (c : AttestationChallenge) : Bool := !c.consumed && !c.superseded

/-- The challenge was issued for this very row, and the key that its
attestation proved is the one the row holds. -/
structure Proven (c : AttestationChallenge) (d : Device) : Prop where
  consumed : c.consumed = true
  current : c.superseded = false
  approvalKey : ∃ key, fromHex d.publicKeyX963 = some key ∧ c.approvalPubkeySha256 = fingerprint key
  keyId : c.approvalKeyId = d.keyId
  principal : c.principal = d.principal
  appAttest : ∃ proven derived, d.appAttestPublicKey = some (toHex proven) ∧
    appAttestIdentityFromPublicKey proven = some derived ∧ c.appAttestKeyId = some derived ∧
    d.appAttestKeyId = some derived

/-- Every device row names the challenge of its current enrolment; an attested
row was proven against it; and a device has one live challenge at most. -/
structure Generations (devices : Table Device) (challenges : Table AttestationChallenge) : Prop where
  owner : ∀ k d, devices.find? k = some d → ∃ eid c, d.currentEnrollmentId = some eid ∧
    challenges.find? eid = some c ∧ c.deviceId = k ∧
    (d.attestationStatus = .attested → Proven c d)
  single : ∀ c ∈ challenges, ∀ c' ∈ challenges, c.deviceId = c'.deviceId → c.live = true →
    c'.live = true → c = c'

namespace Generations

variable {devices : Table Device} {challenges : Table AttestationChallenge}

theorem start : Generations .empty .empty where
  owner k d hd := by simp at hd
  single c hc := absurd hc (Table.not_mem_empty c)

/-- A row may lose its attestation, and may change outside the enrolment. -/
theorem map (h : Generations devices challenges) {devices' : Table Device} (f : Device → Device)
    (find : ∀ k, devices'.find? k = (devices.find? k).map f)
    (same : ∀ d, (f d).currentEnrollmentId = d.currentEnrollmentId ∧
      ((f d).attestationStatus = .attested → d.attestationStatus = .attested) ∧
      ∀ c, Proven c d → Proven c (f d)) :
    Generations devices' challenges where
  owner k d hd := by
    rw [find] at hd
    obtain ⟨e, he, rfl⟩ := Option.map_eq_some_iff.mp hd
    obtain ⟨eid, c, hcur, hc, hk, hp⟩ := h.owner k e he
    obtain ⟨h1, h2, h3⟩ := same e
    exact ⟨eid, c, h1.trans hcur, hc, hk, fun ha => h3 c (hp (h2 ha))⟩
  single := h.single

/-- A new enrolment owns its device and leaves no other live challenge. -/
theorem enroll {t u : Tables} {c : EnrollmentCall} {attestationChallenges}
    (h : Generations t.devices t.attestationChallenges)
    (upserted : t.upsertDevice (c.device now) = some u)
    (inserted : (u.supersede c.deviceId c.enrollmentId).attestationChallenges.insert?
      (c.challenge now) = some attestationChallenges) :
    Generations u.devices attestationChallenges := by
  obtain ⟨-, hfind, hu⟩ := Store.upsert_device_cases upserted
  have hch : u.attestationChallenges = t.attestationChallenges := by rw [hu]
  obtain ⟨-, hmem⟩ := Table.insert_some inserted
  have hfindc := Table.find_insert inserted
  -- a superseded row differs from the old one in that column only
  let f : AttestationChallenge → AttestationChallenge := fun a =>
    if (a.deviceId = c.deviceId && a.enrollmentId ≠ c.enrollmentId && !a.consumed &&
      !a.superseded) then { a with superseded := true } else a
  have hsup : ∀ k, (u.supersede c.deviceId c.enrollmentId).attestationChallenges.find? k =
      (t.attestationChallenges.find? k).map f := by
    intro k
    rw [Tables.supersede, Table.find_update, hch]
  have hmems : ∀ b, b ∈ (u.supersede c.deviceId c.enrollmentId).attestationChallenges →
      ∃ a ∈ t.attestationChallenges, b = f a := by
    intro b hb
    simp only [Tables.supersede, Table.mem_update] at hb
    obtain ⟨a, ha, hba⟩ := hb
    exact ⟨a, hch ▸ ha, hba⟩
  have hfree : (u.supersede c.deviceId c.enrollmentId).attestationChallenges.find?
      c.enrollmentId = none := (Table.insert_some inserted).1
  constructor
  · intro k d hd
    rw [hfind] at hd
    split at hd
    · rename_i hk
      cases hd
      refine ⟨c.enrollmentId, c.challenge now, rfl, ?_, hk.symm, fun ha => by cases ha⟩
      exact Table.find_of_mem ((hmem _).mpr (Or.inr rfl))
    · rename_i hk
      obtain ⟨eid, a, hcur, ha, hak, hp⟩ := h.owner k d hd
      have hne : c.enrollmentId ≠ eid := by
        rintro rfl
        rw [hsup, ha] at hfree
        cases hfree
      have hfa : f a = a := by
        have hdk : a.deviceId ≠ c.deviceId := fun he => hk (hak.symm.trans he)
        simp [f, hdk]
      refine ⟨eid, a, hcur, ?_, hak, hp⟩
      rw [hfindc, if_neg (show ¬ Keyed.key (c.challenge now) = eid from hne), hsup, ha,
        Option.map_some, hfa]
  · have hdead : ∀ a ∈ t.attestationChallenges, (f a).deviceId = c.deviceId →
        a.enrollmentId ≠ c.enrollmentId → (f a).live = false := by
      intro a _ hd hne
      have had : a.deviceId = c.deviceId := by
        simp only [f] at hd
        split at hd <;> exact hd
      cases h1 : a.consumed <;> cases h2 : a.superseded <;>
        simp [f, AttestationChallenge.live, had, hne, h1, h2]
    have hkeep : ∀ a : AttestationChallenge, (f a).live = true → f a = a := by
      intro a hl
      simp only [f] at hl ⊢
      split at hl
      · simp [AttestationChallenge.live] at hl
      · rename_i hn
        rw [if_neg hn]
    have hold : ∀ b, b ∈ (u.supersede c.deviceId c.enrollmentId).attestationChallenges →
        b.live = true → b.deviceId ≠ c.deviceId ∧ b ∈ t.attestationChallenges := by
      intro b hb hl
      obtain ⟨a, ha, rfl⟩ := hmems b hb
      refine ⟨fun hd => ?_, by rw [hkeep a hl]; exact ha⟩
      have hne : a.enrollmentId ≠ c.enrollmentId := by
        intro he
        have : t.attestationChallenges.find? c.enrollmentId = some a :=
          he ▸ Table.find_of_mem ha
        rw [hsup, this] at hfree
        cases hfree
      rw [hdead a ha hd hne] at hl
      cases hl
    intro a ha b hb hd hla hlb
    rcases (hmem a).mp ha with ha | rfl <;> rcases (hmem b).mp hb with hb | rfl
    · exact h.single a (hold a ha hla).2 b (hold b hb hlb).2 hd hla hlb
    · exact absurd hd (hold a ha hla).1
    · exact absurd hd.symm (hold b hb hlb).1
    · rfl

/-- An attestation promotes the row whose challenge it consumed. -/
theorem attest {t : Tables} {ch : AttestationChallenge} {dev : Device}
    (h : Generations t.devices t.attestationChallenges)
    (guard : Store.FinalizeGuard t now enrollmentId provenKey environment core ch dev key derived) :
    Generations
      (t.attest now ch.deviceId enrollmentId (toHex provenKey) counter environment appId
        (fingerprint key) derived).devices
      (t.attest now ch.deviceId enrollmentId (toHex provenKey) counter environment appId
        (fingerprint key) derived).attestationChallenges := by
  have hfindc : ∀ k, (t.attest now ch.deviceId enrollmentId (toHex provenKey) counter environment
      appId (fingerprint key) derived).attestationChallenges.find? k =
      (t.attestationChallenges.find? k).map (fun c => if decide (c.enrollmentId = enrollmentId) then
        { c with consumed := true } else c) := by
    intro k
    rw [Tables.attest, Table.find_update]
  constructor
  · intro k d hd
    rw [Tables.attest_find] at hd
    obtain ⟨e, he, rfl⟩ := Option.map_eq_some_iff.mp hd
    obtain ⟨eid, c, hcur, hc, hk, hp⟩ := h.owner k e he
    have hekey : e.deviceId = k := Table.key_of_find he
    split
    · -- the promoted row: its challenge is the one that was checked
      rename_i hpred
      simp only [Bool.and_eq_true, decide_eq_true_eq] at hpred
      obtain ⟨hdev, -, hgen⟩ := hpred
      have heq : eid = enrollmentId := by
        rw [hcur] at hgen
        exact Option.some.inj hgen
      subst heq
      have hcc : c = ch := Option.some.inj (hc.symm.trans guard.challenge)
      subst hcc
      have hed : e = dev := by
        have hfd := guard.device
        rw [← hdev, hekey, he] at hfd
        exact Option.some.inj hfd
      subst hed
      refine ⟨eid, { c with consumed := true }, hcur, ?_, hk, fun _ => ?_⟩
      · rw [hfindc, hc, Option.map_some]
        have : c.enrollmentId = eid := Table.key_of_find hc
        simp [this]
      · have hne := canonical_ne_empty guard.derivation
        have haa : e.appAttestKeyId = some derived := by
          have hda := guard.deviceAppAttest
          cases hx : e.appAttestKeyId with
          | none => rw [hx] at hda; exact absurd hda.symm hne
          | some v => rw [hx] at hda; exact congrArg some hda
        exact
          { consumed := rfl
            current := guard.current
            approvalKey := ⟨key, guard.keyRead, guard.approvalKey⟩
            keyId := guard.keyId
            principal := guard.principal
            appAttest := ⟨provenKey, derived, rfl, guard.derivation, guard.challengeAppAttest, haa⟩ }
    · refine ⟨eid, (if decide (c.enrollmentId = enrollmentId) then { c with consumed := true }
        else c), hcur, by rw [hfindc, hc]; rfl, ?_, fun ha => ?_⟩
      · split <;> exact hk
      · obtain ⟨h1, h2, h3, h4, h5, h6⟩ := hp ha
        split
        · exact ⟨rfl, h2, h3, h4, h5, h6⟩
        · exact ⟨h1, h2, h3, h4, h5, h6⟩
  · intro b hb b' hb' hd hl hl'
    simp only [Tables.attest, Table.mem_update] at hb hb'
    obtain ⟨a, ha, rfl⟩ := hb
    obtain ⟨a', ha', rfl⟩ := hb'
    split at hl
    · simp [AttestationChallenge.live] at hl
    · split at hl'
      · simp [AttestationChallenge.live] at hl'
      · rename_i h1 h2
        rw [if_neg h1, if_neg h2] at hd ⊢
        exact h.single a ha a' ha' hd hl hl'

theorem step {t u : Tables} {op : StoreOp} (h : Generations t.devices t.attestationChallenges)
    (change : Change now op t u) : Generations u.devices u.attestationChallenges := by
  cases change with
  | unchanged | tokens | created | swept | moved | issued | burned | claimed | crossed | refused |
      recorded | finished | leased => exact h
  | @decided c _ req _ _ _ guard =>
    obtain ⟨devices, hd, hfind⟩ := c.decide_eq now req t
    rw [hd]
    refine h.map _ hfind (fun d => ?_)
    obtain ⟨n, hn⟩ := c.counted_same d
    rw [hn]
    exact ⟨rfl, id, fun _ ⟨h1, h2, h3, h4, h5, h6⟩ => ⟨h1, h2, h3, h4, h5, h6⟩⟩
  | failed =>
    refine h.map _ (t.fail_find _ _) (fun d => ?_)
    split
    · exact ⟨rfl, fun ha => (by cases ha),
        fun _ ⟨h1, h2, h3, h4, h5, h6⟩ => ⟨h1, h2, h3, h4, h5, h6⟩⟩
    · exact ⟨rfl, id, fun _ hp => hp⟩
  | attested guard => exact h.attest guard
  | enrolled named live upserted inserted =>
    have hnew := h.enroll upserted inserted
    exact hnew
  | @revoked _ reason _ _ _ entries doomed planned valued =>
    have hch : (t.revokeAll now reason entries doomed).attestationChallenges =
        t.attestationChallenges := by
      obtain ⟨devices, revocations, hr⟩ := t.revoke_all_frame now reason entries doomed
      rw [hr]
    rw [hch]
    refine h.map _ (Tables.revoke_all_find t now reason entries doomed) (fun d => ?_)
    unfold Tables.closed
    split
    · exact ⟨rfl, id, fun _ ⟨h1, h2, h3, h4, h5, h6⟩ => ⟨h1, h2, h3, h4, h5, h6⟩⟩
    · exact ⟨rfl, id, fun _ hp => hp⟩

theorem of_run {permits : List approvalStore.Entry → StoreCall → Prop}
    (hrun : approvalStore.Run permits h s) : Generations s.devices s.attestationChallenges :=
  hrun.invariant (fun s => Generations s.devices s.attestationChallenges) start
    (fun _ s c _ hi => hi.step (StoreOp.run_change c.op c.now s))

end Generations

/-! ### Attestation promotes its own enrolment -/

/-- The step speaks for this enrolment. -/
def StoreOp.SpeaksFor (op : StoreOp) (enrollmentId : String) : Prop :=
  (∃ c, op = .finalizeAttestation c ∧ c.enrollmentId = enrollmentId) ∨
    ∃ deviceId reason, op = .setDeviceAttestationFailed enrollmentId deviceId reason

/-- A step of an enrolment leaves every row alone that the enrolment does not
own. -/
theorem Change.foreign_enrolment {t u : Tables} {op : StoreOp} (change : Change now op t u)
    (speaks : op.SpeaksFor enrollmentId) {d : Device} (hd : d ∈ t.devices)
    (hne : d.currentEnrollmentId ≠ some enrollmentId) : u.devices.find? d.deviceId = some d := by
  have hfd := Table.find_of_mem hd
  rcases speaks with ⟨c, rfl, rfl⟩ | ⟨deviceId, reason, rfl⟩
  · cases change with
    | unchanged | tokens => exact hfd
    | attested guard =>
      rw [Tables.attest_find, show t.devices.find? d.deviceId = some d from hfd, Option.map_some]
      simp [hne]
  · cases change with
    | unchanged | tokens => exact hfd
    | failed =>
      rw [Tables.fail_find, show t.devices.find? d.deviceId = some d from hfd, Option.map_some]
      simp [hne]

/-- In every reachable state an attested row was proven by the challenge of its
own enrolment, a device has one live challenge at most, and an enrolment that
is not current neither attests nor fails a device. The calls are arbitrary. -/
theorem attestation_promotes_its_enrolment (permits : List approvalStore.Entry → StoreCall → Prop)
    (h : List approvalStore.Entry) (s : Store) (hrun : approvalStore.Run permits h s) :
    (∀ d ∈ s.devices, d.attestationStatus = .attested → ∃ c ∈ s.attestationChallenges,
      d.currentEnrollmentId = some c.enrollmentId ∧ Proven c d) ∧
    (∀ c ∈ s.attestationChallenges, ∀ c' ∈ s.attestationChallenges, c.deviceId = c'.deviceId →
      c.live = true → c'.live = true → c = c') ∧
    ∀ e ∈ h, ∀ enrollmentId, e.call.op.SpeaksFor enrollmentId →
      (∀ d ∈ e.pre.devices, d.currentEnrollmentId ≠ some enrollmentId →
        e.post.devices.find? d.deviceId = some d) ∧
      (e.call.op.Granted e.reply → ∃ d ∈ e.pre.devices,
        d.currentEnrollmentId = some enrollmentId) := by
  have hgen := Generations.of_run hrun
  refine ⟨fun d hd ha => ?_, hgen.single, fun e he enrollmentId hs => ⟨fun d hd hne => ?_, ?_⟩⟩
  · obtain ⟨eid, c, hcur, hc, -, hp⟩ := hgen.owner _ d (Table.find_of_mem hd)
    have hk : c.enrollmentId = eid := Table.key_of_find hc
    exact ⟨c, Table.mem_of_find hc, by rw [hk]; exact hcur, hp ha⟩
  · exact (StoreOp.run_change e.call.op e.call.now e.pre).foreign_enrolment hs hd hne
  · intro hg
    obtain ⟨newer, older, -, hold, -⟩ := hrun.of_mem he
    obtain ⟨pre, op, now⟩ := e
    rcases hs with ⟨c, hop, rfl⟩ | ⟨_, _, hop⟩
    · cases hop
      rcases Store.finalize_attestation_cases (StoreOp.run_answered hg) with
        ⟨_, hx, _⟩ | ⟨_, ch, dev, _, _, guard, _⟩
      · cases hx
      · obtain ⟨eid, _, hcur, -⟩ := (Generations.of_run hold).owner _ _ guard.device
        have hgn := guard.generation
        rw [hcur] at hgn
        exact ⟨dev, Table.mem_of_find guard.device, hcur.trans (congrArg some hgn)⟩
    · cases hop
      exact hg.elim

theorem attestation_promotes_sample : ∃ d ∈ sampleStore.devices, d.attestationStatus = .attested ∧
    ∃ c ∈ sampleStore.attestationChallenges,
      d.currentEnrollmentId = some c.enrollmentId ∧ Proven c d := by
  obtain ⟨d, hd, -, -, hatt⟩ := sample_device
  exact ⟨d, hd, hatt, (attestation_promotes_its_enrolment _ sampleHistory sampleStore
    sample_run).1 d hd hatt⟩

end Solvio.Approval
