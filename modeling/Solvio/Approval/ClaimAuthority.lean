import Solvio.Lib.Digests
import Solvio.Approval.Decisions

namespace Solvio.Approval
open Solvio.Lib

/-! ### The keys of a device row -/

/-- The columns that only an enrolment writes. -/
structure Device.SameKeys (d d' : Device) : Prop where
  publicKey : d'.publicKeyX963 = d.publicKeyX963
  appAttest : d'.appAttestKeyId = d.appAttestKeyId
  enrollment : d'.currentEnrollmentId = d.currentEnrollmentId

/-- A device row after a step was there before under the same keys, or was
enrolled by the step under a generation of its own. -/
theorem Change.device_origin {t u : Tables} {op : StoreOp} (change : Change now op t u) {k : String}
    {d' : Device} (hd : u.devices.find? k = some d') :
    (∃ d, t.devices.find? k = some d ∧ d.SameKeys d') ∨
      ∃ c, op = .beginEnrollmentAtomic c ∧ c.deviceId = k ∧ d' = c.device now ∧
        t.attestationChallenges.find? c.enrollmentId = none := by
  have mapped : ∀ {devices : Table Device} {f : Device → Device},
      devices.find? k = (t.devices.find? k).map f → devices.find? k = some d' →
      (∀ d : Device, d.SameKeys (f d)) → ∃ d, t.devices.find? k = some d ∧ d.SameKeys d' := by
    intro devices f hf hfind hsame
    rw [hf] at hfind
    obtain ⟨d, hfd, rfl⟩ := Option.map_eq_some_iff.mp hfind
    exact ⟨d, hfd, hsame d⟩
  cases change with
  | unchanged | tokens | created | swept | moved | issued | burned | claimed | crossed | refused |
      recorded | finished | leased => exact Or.inl ⟨d', hd, rfl, rfl, rfl⟩
  | @decided c _ req _ _ _ guard =>
    obtain ⟨devices, heq, hfind⟩ := c.decide_eq now req t
    rw [heq] at hd
    refine Or.inl (mapped (hfind k) hd (fun d => ?_))
    obtain ⟨n, hn⟩ := c.counted_same d
    rw [hn]
    exact ⟨rfl, rfl, rfl⟩
  | @enrolled c _ v _ named live upserted inserted =>
    obtain ⟨-, hfind, hv⟩ := Store.upsert_device_cases upserted
    have hrow : v.devices.find? k = some d' := hd
    rw [hfind] at hrow
    split at hrow
    · rename_i hk
      cases hrow
      refine Or.inr ⟨c, rfl, hk.symm, rfl, ?_⟩
      have hfree : (v.supersede c.deviceId c.enrollmentId).attestationChallenges.find?
          c.enrollmentId = none := (Table.insert_some inserted).1
      rw [Tables.supersede, Table.find_update, Option.map_eq_none_iff, hv] at hfree
      exact hfree
    · exact Or.inl ⟨d', hrow, rfl, rfl, rfl⟩
  | failed =>
    refine Or.inl (mapped (t.fail_find _ _ k) hd (fun d => ?_))
    split <;> exact ⟨rfl, rfl, rfl⟩
  | attested =>
    refine Or.inl (mapped (t.attest_find _ _ _ _ _ _ _ _ _ k) hd (fun d => ?_))
    split <;> exact ⟨rfl, rfl, rfl⟩
  | revoked =>
    refine Or.inl (mapped (Tables.revoke_all_find _ _ _ _ _ k) hd (fun d => ?_))
    unfold Tables.closed
    split <;> exact ⟨rfl, rfl, rfl⟩

/-- No enrolment is ever forgotten. -/
theorem Change.enrollment_kept {t u : Tables} {op : StoreOp} (change : Change now op t u)
    {eid : String} (h : t.attestationChallenges.find? eid ≠ none) :
    u.attestationChallenges.find? eid ≠ none := by
  cases change with
  | unchanged | tokens | created | swept | moved | issued | burned | claimed | crossed | refused |
      recorded | finished | leased | failed => exact h
  | @decided c _ req _ _ _ guard =>
    obtain ⟨devices, heq, -⟩ := c.decide_eq now req t
    rw [heq]
    exact h
  | @enrolled c _ v _ named live upserted inserted =>
    obtain ⟨-, -, hv⟩ := Store.upsert_device_cases upserted
    rw [Table.find_insert inserted]
    split
    · simp
    · rw [Tables.supersede, Table.find_update, hv]
      simpa using h
  | attested =>
    rw [Tables.attest, Table.find_update]
    simpa using h
  | @revoked _ reason _ _ _ entries doomed planned valued =>
    obtain ⟨devices, revocations, hr⟩ := t.revoke_all_frame now reason entries doomed
    rw [hr]
    exact h

/-! ### Authority -/

/-- What a device could speak with. -/
structure Authority where
  approvalKeySha256 : String
  appAttestKeyId : String
  enrollmentId : String
deriving DecidableEq

def Device.authority (d : Device) : Option Authority :=
  (fromHex d.publicKeyX963).map (fun key =>
    ⟨fingerprint key, d.appAttestKeyId.getD "", d.currentEnrollmentId.getD ""⟩)

theorem Device.SameKeys.authority {d d' : Device} (h : d.SameKeys d') :
    d'.authority = d.authority := by
  simp only [Device.authority, h.publicKey, h.appAttest, h.enrollment]

def ClaimSnapshot.authority (snap : ClaimSnapshot) : Authority :=
  ⟨snap.approvalKeySha256, snap.appAttestKeyId, snap.enrollmentId⟩

/-- The step claimed a request for execution. -/
def Claims (e : approvalStore.Entry) (c : ClaimCall) : Prop :=
  e.call.op = .claimExecutionAttempt c ∧ e.call.op.Granted e.reply

/-- The step enrolled this device anew. -/
def Enrols (e : approvalStore.Entry) (deviceId : String) : Prop :=
  ∃ c, e.call.op = .beginEnrollmentAtomic c ∧ c.deviceId = deviceId ∧ e.call.op.Granted e.reply

theorem Claims.of_reply {pre : Store} {c : ClaimCall} {now : Time} {attemptId : String}
    (h : ((StoreOp.claimExecutionAttempt c).run now pre).1 = .ok (.ok attemptId)) :
    Claims ⟨pre, ⟨.claimExecutionAttempt c, now⟩⟩ c := ⟨rfl, attemptId, h⟩

theorem Claims.guard {e : approvalStore.Entry} {c : ClaimCall} (h : Claims e c) :
    (∃ req, Store.ClaimGuard e.pre.toTables e.call.now c.approvalId c.deviceId c.identities
      c.executionId c.semantics req) ∧
    c.attempt e.call.now e.pre.toTables ∈ e.post.attempts := by
  obtain ⟨pre, op, now⟩ := e
  obtain ⟨hop, hg⟩ := h
  cases hop
  obtain ⟨attemptId, hg⟩ := hg
  rcases Store.claim_attempt_cases (StoreOp.run_answered hg) with
    ⟨_, he, _⟩ | ⟨req, attempts, guard, -, inserted, hs⟩
  · cases he
  · refine ⟨⟨req, guard⟩, ?_⟩
    have hpost : (Machine.Entry.post (⟨pre, ⟨.claimExecutionAttempt c, now⟩⟩ :
        approvalStore.Entry)).attempts = attempts := congrArg Tables.attempts hs
    rw [hpost]
    exact ((Table.insert_some inserted).2 _).mpr (Or.inr rfl)

/-- An enrolment that is not granted writes nothing. -/
theorem StoreOp.enroll_or_unchanged (c : EnrollmentCall) (now : Time) (s : Store) :
    ((StoreOp.beginEnrollmentAtomic c).run now s).1 = .ok (.ok ()) ∨
      ((StoreOp.beginEnrollmentAtomic c).run now s).2.toTables = s.toTables := by
  unfold StoreOp.run
  split
  · rename_i h
    rcases Store.begin_enrollment_cases h with ⟨_, _, hs⟩ | ⟨rfl, _⟩
    · exact Or.inr hs
    · exact Or.inl rfl
  · exact Or.inr rfl

/-- Without an enrolment a step leaves the keys of a device alone. -/
theorem Enrols.keys_kept {e : approvalStore.Entry} {deviceId : String} (h : ¬ Enrols e deviceId)
    {d' : Device} (hd : e.post.devices.find? deviceId = some d') :
    ∃ d, e.pre.devices.find? deviceId = some d ∧ d.SameKeys d' := by
  obtain ⟨pre, op, now⟩ := e
  rcases (StoreOp.run_change op now pre).device_origin hd with hsame | ⟨c, rfl, hid, -, -⟩
  · exact hsame
  · rcases StoreOp.enroll_or_unchanged c now pre with hg | hs
    · exact absurd ⟨c, rfl, hid, hg⟩ h
    · refine ⟨d', ?_, rfl, rfl, rfl⟩
      rw [← hd]
      exact congrArg (fun t => t.devices.find? deviceId) hs.symm

/-- An enrolment opens a generation that the store did not know. -/
theorem Enrols.fresh {e : approvalStore.Entry} {deviceId eid : String} (h : Enrols e deviceId)
    (known : e.pre.attestationChallenges.find? eid ≠ none) :
    ∀ d, e.post.devices.find? deviceId = some d → d.currentEnrollmentId ≠ some eid := by
  intro d hd he
  obtain ⟨pre, op, now⟩ := e
  obtain ⟨c, hop, rfl, hg⟩ := h
  cases hop
  rcases Store.begin_enrollment_cases (StoreOp.run_answered hg) with
    ⟨_, hx, _⟩ | ⟨-, -, -, v, challenges, upserted, inserted, hs⟩
  · cases hx
  obtain ⟨-, hfind, hv⟩ := Store.upsert_device_cases upserted
  have hrow : (Machine.Entry.post (⟨pre, ⟨.beginEnrollmentAtomic c, now⟩⟩ :
      approvalStore.Entry)).devices.find? c.deviceId = some (c.device now) := by
    have hpost : (Machine.Entry.post (⟨pre, ⟨.beginEnrollmentAtomic c, now⟩⟩ :
        approvalStore.Entry)).devices = v.devices :=
      (congrArg Tables.devices hs).trans rfl
    rw [hpost, hfind]
    exact if_pos rfl
  rw [hd] at hrow
  cases hrow
  have hfree : (v.supersede c.deviceId c.enrollmentId).attestationChallenges.find?
      c.enrollmentId = none := (Table.insert_some inserted).1
  rw [Tables.supersede, Table.find_update, Option.map_eq_none_iff, hv] at hfree
  obtain rfl : c.enrollmentId = eid := Option.some.inj he
  exact known hfree

/-! ### The decision behind a claim -/

/-- A request becomes APPROVED by a decision only. -/
theorem Change.approved_origin {t u : Tables} {op : StoreOp} (change : Change now op t u)
    (called : ProductionCall core op) {k : String} {r : Request}
    (hr : u.requests.find? k = some r) (approved : r.state = .approved) :
    t.requests.find? k = some r ∨ ∃ c, op = .commitDecision c := by
  have mapped : ∀ (p : Request → Bool) (f : Request → Request) {requests : Table Request},
      requests.find? k = (t.requests.find? k).map (fun r => if p r then f r else r) →
      requests.find? k = some r → (∀ r, (f r).state ≠ .approved) → t.requests.find? k = some r := by
    intro p f requests hf hfind hne
    rw [hf] at hfind
    obtain ⟨q, hq, hqr⟩ := Option.map_eq_some_iff.mp hfind
    split at hqr
    · exact absurd (hqr ▸ approved) (hne q)
    · exact hqr ▸ hq
  cases change with
  | unchanged | tokens | issued | burned | crossed | recorded | leased | failed | attested =>
    exact Or.inl hr
  | created inserted =>
    rw [Table.find_insert inserted] at hr
    split at hr
    · cases hr
      cases approved
    · exact Or.inl hr
  | swept =>
    refine Or.inl (mapped (Request.due now) (fun r => { r with state := .expired }) ?_ hr
      (fun _ => by simp))
    rw [Tables.expireRequests, Table.find_update]
  | moved =>
    obtain ⟨rfl, rfl⟩ := called
    exact Or.inl (mapped _ _ (t.move_map _ _ _ _ _ _ _ k) hr (fun _ => by simp [Request.moved]))
  | @decided c => exact Or.inr ⟨c, rfl⟩
  | @claimed c =>
    refine Or.inl (mapped (fun r => decide (r.approvalId = c.approvalId) &&
      t.claimable now c.deviceId c.identities r) (fun r => { r with state := .executing }) ?_ hr
      (fun _ => by simp))
    rw [Tables.enterExecuting, Table.find_update]
  | @refused attemptId =>
    exact Or.inl (mapped _ _ ((t.abandonClaimed now attemptId).move_map _ _ _ _ _ _ _ k) hr
      (fun _ => by simp [Request.moved]))
  | @finished c _ row _ _ _ detail guard moves claimed request state edge =>
    refine Or.inl (mapped _ _ ((t.recordOutcome now c.attemptId row.status c.status detail).move_map
      _ _ _ _ _ _ _ k) hr (fun _ => ?_))
    have hout : (c.status, c.requestState) ∈ coordinatorOutcomes := called
    rw [moves] at hout
    rintro rfl
    simp [coordinatorOutcomes] at hout
  | enrolled named live upserted inserted =>
    obtain ⟨-, -, hu⟩ := Store.upsert_device_cases upserted
    rw [hu] at hr
    exact Or.inl hr
  | @revoked _ reason _ _ _ entries doomed planned valued =>
    obtain ⟨devices, revocations, hv⟩ := t.revoke_all_frame now reason entries doomed
    rw [hv] at hr
    exact Or.inl hr

/-- A decision that is not granted writes nothing. -/
theorem StoreOp.commit_or_unchanged (c : DecisionCall) (now : Time) (s : Store) :
    ((StoreOp.commitDecision c).run now s).1 = .ok (.ok ()) ∨
      ((StoreOp.commitDecision c).run now s).2.toTables = s.toTables := by
  unfold StoreOp.run
  split
  · rename_i h
    rcases Store.commit_decision_cases h with ⟨_, _, hs⟩ | ⟨rfl, _⟩
    · exact Or.inr hs
    · exact Or.inl rfl
  · exact Or.inr rfl

/-- The step approved this request for this device. -/
structure Approves (e : approvalStore.Entry) (c : DecisionCall) (approvalId deviceId : String) :
    Prop where
  decides : Decides e c
  approved : c.newState = .approved
  approval : c.approvalId = approvalId
  device : c.deviceId = deviceId

variable {core : String} {h : List approvalStore.Entry} {s : Store}

/-- An approved request carries the device of a decision in the history. -/
theorem approved_by (hrun : ProductionRun core h s) :
    ∀ k r, s.requests.find? k = some r → r.state = .approved →
      ∃ e ∈ h, ∃ c deviceId, Approves e c k deviceId ∧ r.decidedDevice = some deviceId := by
  refine hrun.induct (fun h s => ∀ k r, s.requests.find? k = some r → r.state = .approved →
    ∃ e ∈ h, ∃ c deviceId, Approves e c k deviceId ∧ r.decidedDevice = some deviceId)
    (fun k r hr => by cases hr) (fun h s call hrun called ih k r hr approved => ?_)
  have old : s.requests.find? k = some r → ∃ e ∈ (⟨s, call⟩ : approvalStore.Entry) :: h,
      ∃ c deviceId, Approves e c k deviceId ∧ r.decidedDevice = some deviceId := by
    intro hold
    obtain ⟨e, he, hx⟩ := ih k r hold approved
    exact ⟨e, List.mem_cons_of_mem _ he, hx⟩
  rcases (StoreOp.run_change call.op call.now s).approved_origin called hr approved with
    hold | ⟨c, hop⟩
  · exact old hold
  · obtain ⟨op, now⟩ := call
    cases hop
    rcases StoreOp.commit_or_unchanged c now s with hreply | hsame
    · have hd : Decides ⟨s, ⟨.commitDecision c, now⟩⟩ c := Decides.of_reply hreply
      obtain ⟨req, dev, identity, challenge, guard, hpost⟩ := hd.guard
      obtain ⟨devices, heq, -⟩ := c.decide_eq now req s.toTables
      have hfind : (s.toTables.moveRequest c.approvalId .pending c.newState true now
          (some c.deviceId) none).requests.find? k = some r := by
        rw [← hr]
        show _ = (Machine.Entry.post (⟨s, ⟨.commitDecision c, now⟩⟩ :
          approvalStore.Entry)).requests.find? k
        rw [hpost, heq]
      rw [Tables.find_move] at hfind
      split at hfind
      · rename_i hk
        rw [guard.request, Option.map_some, if_pos guard.pending] at hfind
        cases hfind
        exact ⟨_, List.mem_cons_self .., c, c.deviceId, ⟨hd, approved, hk.symm, rfl⟩, rfl⟩
      · exact old hfind
    · refine old ?_
      rw [← hr]
      exact congrArg (fun t => t.requests.find? k) hsame.symm

/-! ### The authority that executes -/

/-- The snapshot is taken from the row. -/
theorem Tables.snapshot_authority {t : Tables} {approvalId deviceId : String}
    {coreInstanceId : Option String} {snap : ClaimSnapshot} {d : Device}
    (h : t.claimAuthoritySnapshot approvalId deviceId coreInstanceId = some snap)
    (hd : t.devices.find? deviceId = some d) : d.authority = some snap.authority := by
  unfold claimAuthoritySnapshot at h
  split at h
  · rename_i req dev hreq hdev
    obtain rfl : d = dev := Option.some.inj (hd.symm.trans hdev)
    split at h
    · cases h
    · rename_i key hkey
      dsimp only at h
      split at h
      · cases h
        simp only [Device.authority, hkey, Option.map_some, ClaimSnapshot.authority]
      · cases h
  · cases h

/-- An enrolled row has a key. -/
theorem enrolled_key (hrun : ProductionRun core h s) :
    ∀ k d, s.devices.find? k = some d → d.publicKeyX963 ≠ "" := by
  refine hrun.invariant (fun s => ∀ k d, s.devices.find? k = some d → d.publicKeyX963 ≠ "")
    (fun k d hd => by cases hd) (fun _ s c called hi k d hd => ?_)
  rcases (StoreOp.run_change c.op c.now s).device_origin hd with ⟨d', hd', hsame⟩ | ⟨a, hop, -, rfl, -⟩
  · rw [hsame.publicKey]
    exact hi k d' hd'
  · have hwell : ProductionCall core c.op := called
    rw [hop] at hwell
    obtain ⟨x963, hlen, hkey, -⟩ := EnrollmentCall.WellFormed.key hwell
    show a.publicKeyX963 ≠ ""
    rw [hkey]
    refine to_hex_ne_empty (fun hnil => ?_)
    rw [hnil] at hlen
    cases hlen

/-- A live attested row carries no revoked key. -/
theorem live_keys (hrun : ProductionRun core h s) {d : Device} {k : String} {a : Authority}
    (hd : s.devices.find? k = some d) (active : d.status = .active)
    (attested : d.attestationStatus = .attested) (ha : d.authority = some a) :
    s.isRevoked (.approvalKey, a.approvalKeySha256) = false ∧
      s.isRevoked (.appAttestKey, a.appAttestKeyId) = false := by
  have hlive : ∀ i ∈ d.identities, s.isRevoked i = false := by
    intro i hi
    rw [Bool.eq_false_iff]
    intro hr
    have := Blocked.of_run hrun k d hd i hi hr
    rw [active] at this
    cases this
  obtain ⟨key, hkey, rfl⟩ := Option.map_eq_some_iff.mp ha
  obtain ⟨_, _, -, -, -, hproven⟩ := (Generations.of_run hrun).owner k d hd
  obtain ⟨_, derived, -, hder, -, haak⟩ := (hproven attested).appAttest
  have hne := enrolled_key hrun k d hd
  have haakne : derived ≠ "" := canonical_ne_empty hder
  constructor
  · exact hlive _ (by simp [Device.identities, hne, hkey])
  · exact hlive _ (by simp [Device.identities, haak, haakne])

def Tables.authorityOf (t : Tables) (deviceId : String) : Option Authority :=
  (t.devices.find? deviceId).bind Device.authority

/-- The claim was made, and recorded, under this authority, and none of its keys
was revoked. -/
structure Executes (e : approvalStore.Entry) (c : ClaimCall) (a : Authority) : Prop where
  current : e.pre.authorityOf c.deviceId = some a
  recorded : ∀ snap, (c.attempt e.call.now e.pre.toTables).claim = some snap → snap.authority = a
  approvalKey : e.pre.isRevoked (.approvalKey, a.approvalKeySha256) = false
  appAttestKey : e.pre.isRevoked (.appAttestKey, a.appAttestKeyId) = false

/-- The authority of a decision, and the generation it belongs to. -/
theorem Decides.authority {e : approvalStore.Entry} {c : DecisionCall} (hd : Decides e c) :
    ∃ d a, e.pre.devices.find? c.deviceId = some d ∧ d.authority = some a ∧
      a.enrollmentId = d.currentEnrollmentId.getD "" ∧ a.enrollmentId ≠ "" := by
  obtain ⟨req, dev, identity, challenge, guard, -⟩ := hd.guard
  obtain ⟨⟨key, hkey, -⟩, -, -, -, -, henr, -⟩ := Store.execution_authority_ok guard.authority
  exact ⟨dev, _, guard.device, by rw [Device.authority, hkey]; rfl, rfl, henr⟩

/-- Between two enrolments the authority of a device does not move. -/
theorem authority_carried {newer older : List approvalStore.Entry} {e : approvalStore.Entry}
    {deviceId : String} {a : Authority} (hrun : ProductionRun core (newer ++ e :: older) s)
    (start : e.pre.authorityOf deviceId = some a)
    (quiet : ∀ n ∈ newer ++ [e], ¬ Enrols n deviceId) :
    ∀ d, s.devices.find? deviceId = some d → d.authority = some a := by
  have hstep : ∀ n : approvalStore.Entry, ¬ Enrols n deviceId →
      (∀ d, n.pre.devices.find? deviceId = some d → d.authority = some a) →
      ∀ d, n.post.devices.find? deviceId = some d → d.authority = some a := by
    intro n hn hi d hd
    obtain ⟨d', hd', hsame⟩ := Enrols.keys_kept hn hd
    rw [hsame.authority]
    exact hi d' hd'
  refine (hrun.carried (fun s => ∀ d, s.devices.find? deviceId = some d → d.authority = some a)
    (hstep e (quiet e (by simp)) (fun d hd => ?_))
    (fun n hn hi => hstep n (quiet n (by simp [hn])) hi)).1
  rw [Tables.authorityOf, hd] at start
  exact start

/-- Once a device has been enrolled anew, it never speaks for an older
generation again. -/
theorem generation_lost {newer older : List approvalStore.Entry} {n : approvalStore.Entry}
    {deviceId eid : String} (hrun : ProductionRun core (newer ++ n :: older) s)
    (enrols : Enrols n deviceId) (known : n.pre.attestationChallenges.find? eid ≠ none) :
    ∀ d, s.devices.find? deviceId = some d → d.currentEnrollmentId ≠ some eid := by
  refine (hrun.since (fun s => s.attestationChallenges.find? eid ≠ none ∧
    ∀ d, s.devices.find? deviceId = some d → d.currentEnrollmentId ≠ some eid)
    ⟨(StoreOp.run_change n.call.op n.call.now n.pre).enrollment_kept known, enrols.fresh known⟩
    (fun _ s c _ _ ⟨hk, hi⟩ => ?_)).1.2
  refine ⟨(StoreOp.run_change c.op c.now s).enrollment_kept hk, fun d hd => ?_⟩
  rcases (StoreOp.run_change c.op c.now s).device_origin hd with ⟨d', hd', hsame⟩ | ⟨a, -, -, rfl, hfree⟩
  · rw [hsame.enrollment]
    exact hi d' hd'
  · intro he
    obtain rfl : a.enrollmentId = eid := Option.some.inj he
    exact hk hfree

/-- Behind every claim stands the approval of one device, and the claim executes
under the authority of that approval exactly when the device has not been
enrolled anew in between. -/
theorem claim_under_deciding_authority (core : String) (h : List approvalStore.Entry) (s : Store)
    (hrun : ProductionRun core h s) (newer older : List approvalStore.Entry)
    (e : approvalStore.Entry) (c : ClaimCall) (hsplit : h = newer ++ e :: older)
    (hclaim : Claims e c) :
    c.attempt e.call.now e.pre.toTables ∈ e.post.attempts ∧
    ∃ mid d old decision a, older = mid ++ d :: old ∧
      Approves d decision c.approvalId c.deviceId ∧ d.pre.authorityOf c.deviceId = some a ∧
      (Executes e c a ↔ ∀ n ∈ mid, ¬ Enrols n c.deviceId) := by
  subst hsplit
  obtain ⟨⟨req, guard⟩, hatt⟩ := hclaim.guard
  refine ⟨hatt, ?_⟩
  have hpre := hrun.split.1
  have hc := guard.claimable
  simp only [Tables.claimable, Bool.and_eq_true, decide_eq_true_eq] at hc
  obtain ⟨d, hd, decision, deviceId, happ, hdev⟩ :=
    approved_by hpre c.approvalId req guard.request hc.1.1.1.1
  obtain rfl : deviceId = c.deviceId := Option.some.inj (hdev.symm.trans hc.1.1.1.2)
  obtain ⟨mid, old, rfl⟩ := List.append_of_mem hd
  obtain ⟨row, a, hrow, ha, henr, hne⟩ := happ.decides.authority
  rw [happ.device] at hrow
  have hstart : d.pre.authorityOf c.deviceId = some a := by rw [Tables.authorityOf, hrow]; exact ha
  refine ⟨mid, d, old, decision, a, rfl, happ, hstart, fun hex n hn henrols => ?_, fun quiet => ?_⟩
  · -- an enrolment in between has opened a new generation
    obtain ⟨m1, m2, rfl⟩ := List.append_of_mem hn
    have hrun1 : ProductionRun core (m1 ++ n :: (m2 ++ d :: old)) e.pre := by simpa using hpre
    obtain ⟨eid, ch, hcur, hch, -⟩ := (Generations.of_run hpre.split.1).owner _ row hrow
    have hknown : n.pre.attestationChallenges.find? eid ≠ none :=
      (hrun1.split.1.forward (fun s => s.attestationChallenges.find? eid ≠ none) (by simp [hch])
        (fun _ s c _ hk => (StoreOp.run_change c.op c.now s).enrollment_kept hk)).2.1
    obtain ⟨now, hnow, hauth⟩ := Option.bind_eq_some_iff.mp hex.current
    refine generation_lost hrun1 henrols hknown now hnow ?_
    obtain ⟨key, -, rfl⟩ := Option.map_eq_some_iff.mp hauth
    rw [hcur] at henr
    have hid : now.currentEnrollmentId.getD "" = eid := henr
    cases hx : now.currentEnrollmentId with
    | none => exact absurd (by simp [hx]) hne
    | some x =>
      rw [hx] at hid
      exact congrArg some hid
  · have hquiet : ∀ n ∈ mid ++ [d], ¬ Enrols n c.deviceId := by
      intro n hn henrols
      rcases List.mem_append.mp hn with hn | hn
      · exact quiet n hn henrols
      · obtain rfl := List.mem_singleton.mp hn
        obtain ⟨_, hop, -⟩ := henrols
        rw [happ.decides.1] at hop
        cases hop
    have hkeep := authority_carried hpre hstart hquiet
    obtain ⟨now, hnow, hactive, hattested⟩ := Tables.claimable_device guard.claimable
    have hauth := hkeep now hnow
    obtain ⟨hkey, happkey⟩ := live_keys hpre hnow hactive hattested hauth
    refine ⟨by rw [Tables.authorityOf, hnow]; exact hauth, fun snap hsnap => ?_, hkey, happkey⟩
    have hs := Tables.snapshot_authority hsnap hnow
    rw [hauth] at hs
    exact (Option.some.inj hs).symm

/-- The claim of the sample succeeds. -/
theorem sample_claims : Claims ⟨approvalStore.after .fresh (sampleEnrol "e1" 7 10 ++
    sampleDecide "a1" "n1" 1 20), ⟨.claimExecutionAttempt (sampleClaim "a1"), 30⟩⟩
    (sampleClaim "a1") := by
  have h : ((StoreOp.claimExecutionAttempt (sampleClaim "a1")).run 30 (approvalStore.after .fresh
      (sampleEnrol "e1" 7 10 ++ sampleDecide "a1" "n1" 1 20))).1 =
      .ok (.ok (attemptIdFor (sampleExecution "a1") 30 "pid-1")) := by
    rw [sample_after, sample_decided]
    rfl
  exact Claims.of_reply h

theorem claim_under_deciding_authority_sample :
    ∃ (e : approvalStore.Entry) (c : ClaimCall) (mid : List approvalStore.Entry)
      (d : approvalStore.Entry) (decision : DecisionCall) (a : Authority), Claims e c ∧
    Approves d decision "a1" "phone" ∧ (Executes e c a ↔ ∀ n ∈ mid, ¬ Enrols n "phone") := by
  have hrun : ProductionRun sampleCore (approvalStore.history [] .fresh sampleClaimed)
      (approvalStore.after .fresh sampleClaimed) :=
    Machine.Run.history .start (fun c hc _ => sample_calls_production c
      (List.mem_append_left [sampleRevocation] hc))
  have hsplit : approvalStore.history [] .fresh sampleClaimed = [] ++
      ⟨approvalStore.after .fresh (sampleEnrol "e1" 7 10 ++ sampleDecide "a1" "n1" 1 20),
        ⟨.claimExecutionAttempt (sampleClaim "a1"), 30⟩⟩ ::
      approvalStore.history [] .fresh (sampleEnrol "e1" 7 10 ++ sampleDecide "a1" "n1" 1 20) := by
    rw [sampleClaimed, ← List.append_assoc]
    exact @Machine.history_concat _ approvalStore [] .fresh _ _
  obtain ⟨-, mid, d, old, decision, a, -, happ, -, hiff⟩ := claim_under_deciding_authority
    sampleCore _ _ hrun [] _ _ _ hsplit sample_claims
  exact ⟨_, _, mid, d, decision, a, sample_claims, happ, hiff⟩

/-- After the approval the phone is enrolled anew under other keys, and the key
that approved is revoked. -/
def sampleRekeyed : List StoreCall :=
  sampleEnrol "e1" 7 10 ++ (sampleDecide "a1" "n1" 1 20 ++ (sampleEnrol "e2" 9 30 ++
    [⟨.revokePlanned (Store.approvalKeyPlan (fingerprint (sampleKey 7))) none none
      "revoke_approval_key", 40⟩]))

/-- The second enrolment, begun. -/
def sampleSecond : Store :=
  (approvalStore.step ⟨.beginEnrollmentAtomic (sampleEnrolment "phone" "e2" 9), 30⟩
    (approvalStore.after sampleEnrolled (sampleDecide "a1" "n1" 1 20))).2

theorem sample_second : (sampleSecond.attestationChallenges.find? "e2",
      sampleSecond.devices.find? "phone", sampleSecond.revocations.rows.length) =
    (some ((sampleEnrolment "phone" "e2" 9).challenge 30),
      some ((sampleEnrolment "phone" "e2" 9).device 30), 0) := by
  rw [sampleSecond, sample_decided]
  rfl

theorem sample_names_second : sampleNames "e2" 9 = true := sample_names "e2" 9

/-- The same phone under its second keys. -/
def samplePromoted : Store :=
  (sampleSecond.write (·.attest 31 "phone" "e2" (toHex (sampleKey 10)) 0 "production" "app"
    (fingerprint (sampleKey 9)) (b64encode (sha256 (sampleKey 10))))).audited 31
    "device_attested" none (some "phone") (some "production")
    (some (RevokeKind.appAttestKey.text ++ ":" ++ b64encode (sha256 (sampleKey 10))))

theorem sample_promoted :
    approvalStore.after (approvalStore.after sampleEnrolled (sampleDecide "a1" "n1" 1 20))
      (sampleEnrol "e2" 9 30) = samplePromoted := by
  have hsecond := sample_second
  simp only [Prod.mk.injEq] at hsecond
  obtain ⟨hchallenge, hdevice, hlive⟩ := hsecond
  have hlast := sample_finalized sample_names_second hchallenge hdevice
    (by decide : (30 : Time) + 1 ≤ 1000) (List.length_eq_zero_iff.mp hlive)
  rw [show (9 + 1 : UInt8) = 10 from rfl, show (30 + 1 : Time) = 31 from rfl] at hlast
  rw [sampleEnrol, after_two, ← sampleSecond, show (30 + 1 : Time) = 31 from rfl, hlast,
    samplePromoted]

/-- A key is revoked that no phone holds any more. -/
theorem sample_key_revoked {s : Store} {f g : String} {d : Device} (hf : f ≠ "")
    (hrows : s.devices.rows = [d]) (hd : d.approvalFingerprint = some g) (hne : g ≠ f)
    (hnone : s.revocations = .empty) :
    (approvalStore.step ⟨.revokePlanned (Store.approvalKeyPlan f) none none
      "revoke_approval_key", 40⟩ s).2 =
      (s.write (·.insertRevocation ⟨.approvalKey, f, none, 40⟩)).audited 40
        RevokeKind.approvalKey.event none none none
        (some (RevokeKind.approvalKey.text ++ ":" ++ f)) := by
  have hplan : Store.approvalKeyPlan f s.devices.rows s.identityHistory.rows =
      ([(.approvalKey, f)], []) := by
    simp [Store.approvalKeyPlan, Store.identitiesPlan, hrows, hd, hne]
  change (StoreOp.run (.revokePlanned (Store.approvalKeyPlan f) none none
    "revoke_approval_key") 40 s).2 = _
  unfold StoreOp.run StoreOp.tx Store.revokePlanned
  simp only [hplan]
  have hany : ([(RevokeKind.approvalKey, f)] : List IdentityRef).any (fun e => e.2 = "") = false :=
    by simp [hf]
  rw [if_neg (by rw [hany]; simp)]
  obtain ⟨⟨_, _, _, _, _, _, _, revocations⟩, audit⟩ := s
  simp only at hnone
  subst hnone
  rfl

theorem sample_keys_differ : fingerprint (sampleKey 9) ≠ fingerprint (sampleKey 7) := by
  simp only [fingerprint, hexdigest, sha256_run, to_hex_run]
  decide +kernel

/-- The phone under its second keys, with the first one revoked. -/
def sampleRevoked : Store :=
  (samplePromoted.write (·.insertRevocation ⟨.approvalKey, fingerprint (sampleKey 7), none, 40⟩)
    ).audited 40 RevokeKind.approvalKey.event none none none
    (some (RevokeKind.approvalKey.text ++ ":" ++ fingerprint (sampleKey 7)))

theorem sample_revoked_after : approvalStore.after .fresh sampleRekeyed = sampleRevoked := by
  obtain ⟨d, hrows, hkey, hnone⟩ : ∃ d, samplePromoted.devices.rows = [d] ∧
      d.publicKeyX963 = toHex (sampleKey 9) ∧ samplePromoted.revocations = .empty := by
    rw [samplePromoted, sampleSecond, sample_decided]
    exact ⟨_, rfl, rfl, rfl⟩
  have hfingerprint : d.approvalFingerprint = some (fingerprint (sampleKey 9)) := by
    have hne : d.publicKeyX963 ≠ "" := hkey ▸ to_hex_ne_empty (by simp [sampleKey])
    rw [Device.approvalFingerprint, if_neg hne, hkey, from_hex_to_hex, Option.map_some]
  rw [sampleRekeyed, sample_after, Machine.after_append, Machine.after_append, sample_promoted,
    after_one, sample_key_revoked (fingerprint_ne_empty _) hrows hfingerprint sample_keys_differ
      hnone, sampleRevoked]

/-- All six fields of a snapshot. -/
theorem snapshot_taken {t : Tables} {approvalId deviceId c : String} {req : Request}
    {dev : Device} {key : Bytes} (hreq : t.requests.find? approvalId = some req)
    (hdev : t.devices.find? deviceId = some dev) (hkey : fromHex dev.publicKeyX963 = some key)
    (hfull : dev.appAttestKeyId.getD "" ≠ "" ∧ dev.currentEnrollmentId.getD "" ≠ "" ∧
      dev.environment.getD "" ≠ "" ∧ req.principal ≠ "" ∧ c ≠ "") :
    t.claimAuthoritySnapshot approvalId deviceId (some c) =
      some ⟨c, req.principal, dev.environment.getD "", dev.currentEnrollmentId.getD "",
        fingerprint key, dev.appAttestKeyId.getD ""⟩ := by
  rw [Tables.claimAuthoritySnapshot, hreq, hdev]
  simp only [hkey]
  exact if_pos hfull

/-- The rows that the second claim reads. -/
theorem sample_claimed_rows : ∃ req dev,
    (sampleRevoked.toTables.enterExecuting 50 "a1" "phone" [(.device, "phone")]).requests.find? "a1" =
      some req ∧ req.principal = "owner" ∧
    (sampleRevoked.toTables.enterExecuting 50 "a1" "phone" [(.device, "phone")]).devices.find?
      "phone" = some dev ∧ dev.publicKeyX963 = toHex (sampleKey 9) ∧
    dev.appAttestKeyId = some (b64encode (sha256 (sampleKey 10))) ∧
    dev.currentEnrollmentId = some "e2" ∧ dev.environment = some "production" := by
  rw [sampleRevoked, samplePromoted, sampleSecond, sample_decided]
  exact ⟨_, _, rfl, rfl, rfl, rfl, rfl, rfl, rfl⟩

theorem attempt_claim (c : ClaimCall) (now : Time) (t : Tables) : (c.attempt now t).claim =
    (t.enterExecuting now c.approvalId c.deviceId c.identities).claimAuthoritySnapshot c.approvalId
      c.deviceId c.coreInstanceId := rfl

theorem sample_snapshot :
    ((sampleClaim "a1").attempt 50 sampleRevoked.toTables).claim.map ClaimSnapshot.authority =
      some ⟨fingerprint (sampleKey 9), b64encode (sha256 (sampleKey 10)), "e2"⟩ := by
  obtain ⟨req, dev, hreq, hprincipal, hdev, hkey, hatt, henrolled, henvironment⟩ :=
    sample_claimed_rows
  have hsnap := snapshot_taken (c := sampleCore) hreq hdev
    (by rw [hkey]; exact from_hex_to_hex (sampleKey 9))
    (by
      rw [hatt, henrolled, henvironment, hprincipal]
      exact ⟨attest_key_ne_empty 10, by decide, by decide, by decide, by decide⟩)
  rw [hatt, henrolled] at hsnap
  rw [attempt_claim]
  change Option.map _ (Tables.claimAuthoritySnapshot (sampleRevoked.toTables.enterExecuting 50 "a1"
    "phone" [(.device, "phone")]) "a1" "phone" (some sampleCore)) = _
  rw [hsnap]
  rfl

theorem sample_rekeyed :
    (((StoreOp.claimExecutionAttempt (sampleClaim "a1")).run 50
        (approvalStore.after .fresh sampleRekeyed)).1,
      ((sampleClaim "a1").attempt 50 (approvalStore.after .fresh sampleRekeyed).toTables).claim.map
        ClaimSnapshot.authority,
      (approvalStore.after .fresh sampleRekeyed).isRevoked
        (.approvalKey, fingerprint (sampleKey 7))) =
    (.ok (.ok (attemptIdFor (sampleExecution "a1") 50 "pid-1")),
      some ⟨fingerprint (sampleKey 9), b64encode (sha256 (sampleKey 10)), "e2"⟩, true) := by
  rw [sample_revoked_after, sample_snapshot]
  simp only [Prod.mk.injEq, true_and]
  rw [sampleRevoked, samplePromoted, sampleSecond, sample_decided]
  constructor
  · rfl
  · rw [Tables.is_revoked_iff]
    exact ⟨_, List.mem_singleton.mpr rfl, rfl, rfl⟩

theorem sample_phone_authority : samplePhone.authority =
    some ⟨fingerprint (sampleKey 7), b64encode (sha256 (sampleKey 8)), "e1"⟩ := by
  have hkey : fromHex samplePhone.publicKeyX963 = some (sampleKey 7) := from_hex_to_hex _
  rw [Device.authority, hkey]
  rfl

theorem sample_rekeyed_approved : ∃ mid d old,
    approvalStore.history [] .fresh sampleRekeyed = mid ++ d :: old ∧
      Approves d (sampleDecision "a1" "n1" 1) "a1" "phone" ∧ d.pre.authorityOf "phone" =
        some ⟨fingerprint (sampleKey 7), b64encode (sha256 (sampleKey 8)), "e1"⟩ := by
  have hreply := congrArg Prod.fst (sample_committed (n := 1) sample_deciding)
  have hphone : sampleAsked.devices.find? "phone" = some samplePhone := rfl
  rw [sampleRekeyed, sample_history]
  refine ⟨[_, _, _], _, _, rfl, ⟨Decides.of_reply hreply, rfl, rfl, rfl⟩, ?_⟩
  change sampleAsked.authorityOf "phone" = _
  rw [Tables.authorityOf, hphone, Option.bind_some, sample_phone_authority]

/-- The claim that then succeeds records the new keys. -/
theorem claim_under_other_authority : ∃ newer e older c,
    approvalStore.history [] .fresh (sampleRekeyed ++
      [⟨.claimExecutionAttempt (sampleClaim "a1"), 50⟩]) = newer ++ e :: older ∧
    Claims e c ∧ ∃ mid d old decision a, older = mid ++ d :: old ∧
      Approves d decision c.approvalId c.deviceId ∧ d.pre.authorityOf c.deviceId = some a ∧
      e.pre.isRevoked (.approvalKey, a.approvalKeySha256) = true ∧
      ∃ snap, (c.attempt e.call.now e.pre.toTables).claim = some snap ∧
        snap.authority.enrollmentId ≠ a.enrollmentId := by
  have hfacts := sample_rekeyed
  obtain ⟨mid, d, old, hmid, happ, hauth⟩ := sample_rekeyed_approved
  rw [Machine.history_concat]
  generalize approvalStore.after .fresh sampleRekeyed = pre at *
  simp only [Prod.mk.injEq] at hfacts
  obtain ⟨hclaim, hsnap, hrevoked⟩ := hfacts
  obtain ⟨snap, hrecorded, hkeys⟩ := Option.map_eq_some_iff.mp hsnap
  refine ⟨[], _, _, sampleClaim "a1", rfl, Claims.of_reply hclaim, mid, d, old,
    sampleDecision "a1" "n1" 1, _, hmid, happ, hauth, hrevoked, snap, hrecorded, ?_⟩
  rw [hkeys]
  decide

end Solvio.Approval
