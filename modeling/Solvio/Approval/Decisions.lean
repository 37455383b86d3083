import Solvio.Approval.Attempts
import Solvio.Approval.Generation

namespace Solvio.Approval
open Solvio.Lib

/-! ### What a request keeps -/

/-- The stored action and its lifetime. No operation writes these columns. -/
structure Request.SameAction (r r' : Request) : Prop where
  principal : r'.principal = r.principal
  tool : r'.tool = r.tool
  mode : r'.mode = r.mode
  task : r'.task = r.task
  workspace : r'.workspace = r.workspace
  actionDigest : r'.actionDigest = r.actionDigest
  humanSummary : r'.humanSummary = r.humanSummary
  expiresAt : r'.expiresAt = r.expiresAt

theorem Request.SameAction.refl (r : Request) : r.SameAction r :=
  ⟨rfl, rfl, rfl, rfl, rfl, rfl, rfl, rfl⟩

theorem Request.SameAction.trans {r q p : Request} (h : r.SameAction q) (g : q.SameAction p) :
    r.SameAction p :=
  ⟨g.1.trans h.1, g.2.trans h.2, g.3.trans h.3, g.4.trans h.4, g.5.trans h.5, g.6.trans h.6,
    g.7.trans h.7, g.8.trans h.8⟩

/-- A request that has left PENDING never returns and keeps the time of its
decision. Its device is overwritten where the step names one. -/
def Request.Settles (device : Option String) (r r' : Request) : Prop :=
  r.SameAction r' ∧ (r.state ≠ .pending → r'.state ≠ .pending ∧ r'.decidedAt = r.decidedAt ∧
    r'.decidedDevice = device.or r.decidedDevice)

theorem Request.Settles.refl (r : Request) : r.Settles none r :=
  ⟨.refl r, fun h => ⟨h, rfl, rfl⟩⟩

theorem RequestState.allowed_settles {cur new : RequestState} (h : cur.allowed new = true) :
    new ≠ .pending := by
  rintro rfl
  cases cur <;> simp [allowed] at h

/-- A state change stamps the decision time only on its way out of PENDING. -/
theorem Request.moved_settles (r : Request) {cur new : RequestState} {stamp : Bool} (now : Time)
    (deviceId error : Option String) (edge : cur.allowed new = true)
    (hstamp : stamp = true → cur = .pending) (p : Bool) :
    ∃ device, (device = none ∨ p = true ∧ r.state = cur ∧ device = deviceId) ∧ r.Settles device
      (if p && decide (r.state = cur) then r.moved new stamp now deviceId error else r) := by
  split
  · rename_i hp
    simp only [Bool.and_eq_true, decide_eq_true_eq] at hp
    refine ⟨deviceId, Or.inr ⟨hp.1, hp.2, rfl⟩, ⟨rfl, rfl, rfl, rfl, rfl, rfl, rfl, rfl⟩,
      fun hne => ⟨RequestState.allowed_settles edge, ?_, rfl⟩⟩
    have hs : stamp = false := by
      cases stamp with
      | false => rfl
      | true => exact absurd (hp.2.trans (hstamp rfl)) hne
    simp [moved, hs]
  · exact ⟨none, Or.inl rfl, .refl r⟩

/-- The call moves this request under the name of a device. -/
def StoreOp.Redirects (op : StoreOp) (approvalId : String) : Prop :=
  ∃ new device error, op = .transition approvalId new (some device) error

/-- Where a step may take the device of a settled request from. -/
def StoreOp.Names (op : StoreOp) (t : Tables) (approvalId : String) (device : Option String) :
    Prop :=
  device = none ∨ op.Redirects approvalId ∨
    ∃ a ∈ t.attempts, a.approvalId = approvalId ∧ device = some a.deviceId

/-- No call removes a request, writes its action, or decides it again. -/
theorem Change.request_kept {t u : Tables} {op : StoreOp} (change : Change now op t u) {k : String}
    {r : Request} (hr : t.requests.find? k = some r) :
    ∃ r' device, u.requests.find? k = some r' ∧ r.Settles device r' ∧
      (r.state ≠ .pending → op.Names t k device) := by
  have hk : r.approvalId = k := Table.key_of_find hr
  have same : u.requests.find? k = some r → ∃ r' device, u.requests.find? k = some r' ∧
      r.Settles device r' ∧ (r.state ≠ .pending → op.Names t k device) :=
    fun h => ⟨r, none, h, .refl r, fun _ => Or.inl rfl⟩
  have written : ∀ (p : Bool) (st : RequestState), st ≠ .pending →
      r.Settles none (if p then { r with state := st } else r) := by
    intro p st hst
    split
    · exact ⟨⟨rfl, rfl, rfl, rfl, rfl, rfl, rfl, rfl⟩, fun _ => ⟨hst, rfl, rfl⟩⟩
    · exact .refl r
  cases change with
  | unchanged | tokens | issued | burned | crossed | recorded | leased | failed | attested =>
    exact same hr
  | created inserted =>
    obtain ⟨hfree, -⟩ := Table.insert_some inserted
    apply same
    rw [Table.find_insert inserted, if_neg]
    · exact hr
    · rintro rfl
      rw [hfree] at hr
      cases hr
  | swept =>
    refine ⟨if Request.due now r then { r with state := .expired } else r, none, ?_,
      written _ _ (by simp), fun _ => Or.inl rfl⟩
    rw [Tables.expireRequests, Table.find_update, hr]
    rfl
  | @moved approvalId new cur deviceId error _ _ found state edge claimed =>
    obtain ⟨device, hd, hs⟩ := r.moved_settles now deviceId error edge
      (fun (hs : false = true) => by cases hs) (decide (r.approvalId = approvalId))
    refine ⟨_, device, ?_, hs, fun _ => ?_⟩
    · rw [Tables.move_map, hr]
      rfl
    · rcases hd with rfl | ⟨hp, -, rfl⟩
      · exact Or.inl rfl
      cases device with
      | none => exact Or.inl rfl
      | some d => exact Or.inr (Or.inl ⟨new, d, error, by rw [← hk, of_decide_eq_true hp]⟩)
  | @decided c _ req _ _ _ guard =>
    obtain ⟨devices, heq, -⟩ := c.decide_eq now req t
    obtain ⟨device, hd, hs⟩ := r.moved_settles now (some c.deviceId) none guard.edge
      (fun (_ : true = true) => rfl) (decide (r.approvalId = c.approvalId))
    refine ⟨_, device, ?_, hs, fun hne => ?_⟩
    · rw [heq]
      exact (t.move_map _ _ _ _ _ _ _ k).trans (by rw [hr]; rfl)
    · rcases hd with rfl | ⟨-, hp, -⟩
      · exact Or.inl rfl
      · exact absurd hp hne
  | @claimed c _ _ _ guard inserted =>
    refine ⟨if decide (r.approvalId = c.approvalId) && t.claimable now c.deviceId c.identities r
      then { r with state := .executing } else r, none, ?_, written _ _ (by simp),
      fun _ => Or.inl rfl⟩
    rw [Tables.enterExecuting, Table.find_update, hr]
    rfl
  | @refused attemptId _ _ row _ found _ _ _ _ =>
    obtain ⟨device, hd, hs⟩ := r.moved_settles now (some row.deviceId)
      (some "revoked_before_external_start") (rfl : RequestState.executing.allowed .failed = true)
      (fun (hs : false = true) => by cases hs) (decide (r.approvalId = row.approvalId))
    refine ⟨_, device, ?_, hs, fun _ => ?_⟩
    · exact ((t.abandonClaimed now attemptId).move_map _ _ _ _ _ _ _ k).trans (by
        show (t.requests.find? k).map _ = _
        rw [hr]; rfl)
    · rcases hd with rfl | ⟨hp, -, rfl⟩
      · exact Or.inl rfl
      · exact Or.inr (Or.inr ⟨row, Table.mem_of_find found,
          by rw [← hk, of_decide_eq_true hp], rfl⟩)
  | @finished c _ row _ new cur detail guard moves claimed request state edge =>
    obtain ⟨device, hd, hs⟩ := r.moved_settles now (some row.deviceId)
      (Store.outcomeError c.status c.detail) edge (fun (hs : false = true) => by cases hs)
      (decide (r.approvalId = row.approvalId))
    refine ⟨_, device, ?_, hs, fun _ => ?_⟩
    · exact ((t.recordOutcome now c.attemptId row.status c.status detail).move_map
        _ _ _ _ _ _ _ k).trans (by
          show (t.requests.find? k).map _ = _
          rw [hr]; rfl)
    · rcases hd with rfl | ⟨hp, -, rfl⟩
      · exact Or.inl rfl
      · exact Or.inr (Or.inr ⟨row, Table.mem_of_find guard.found,
          by rw [← hk, of_decide_eq_true hp], rfl⟩)
  | enrolled named live upserted inserted =>
    obtain ⟨-, -, hu⟩ := Store.upsert_device_cases upserted
    apply same
    rw [hu]
    exact hr
  | @revoked _ reason _ _ _ entries doomed planned valued =>
    obtain ⟨devices, revocations, hv⟩ := t.revoke_all_frame now reason entries doomed
    apply same
    rw [hv]
    exact hr

/-- Every attempt belongs to a request that has left PENDING. -/
def Accounted (t : Tables) : Prop :=
  ∀ a ∈ t.attempts, ∃ r, t.requests.find? a.approvalId = some r ∧ r.state ≠ .pending

theorem Accounted.step {t u : Tables} {op : StoreOp} (h : Accounted t) (change : Change now op t u) :
    Accounted u := by
  intro b hb
  rcases change.attempt_origin hb with ⟨a, ha, hadv⟩ | ⟨c, req, -, guard, rfl⟩
  · obtain ⟨r, hr, hne⟩ := h a ha
    obtain ⟨r', _, hr', ⟨-, hset⟩, -⟩ := change.request_kept hr
    rw [hadv.1.approvalId]
    exact ⟨r', hr', (hset hne).1⟩
  · have hne : req.state ≠ .pending := by
      have hc := guard.claimable
      simp only [Tables.claimable, Bool.and_eq_true, decide_eq_true_eq] at hc
      rw [hc.1.1.1.1]
      simp
    obtain ⟨r', _, hr', ⟨-, hset⟩, -⟩ := change.request_kept guard.request
    exact ⟨r', hr', (hset hne).1⟩

/-- The device of a settled request, and of whatever was claimed for it. -/
structure DecidedBy (t : Tables) (approvalId deviceId : String) : Prop where
  request : ∃ r, t.requests.find? approvalId = some r ∧ r.state ≠ .pending ∧
    r.decidedDevice = some deviceId
  attempts : ∀ a ∈ t.attempts, a.approvalId = approvalId → a.deviceId = deviceId

/-- Only a move under the name of a device gives a settled request another. -/
theorem DecidedBy.step {t u : Tables} {op : StoreOp} {approvalId deviceId : String}
    (h : DecidedBy t approvalId deviceId) (change : Change now op t u)
    (unnamed : ¬ op.Redirects approvalId) : DecidedBy u approvalId deviceId := by
  obtain ⟨r, hr, hne, hdev⟩ := h.request
  obtain ⟨r', device, hr', ⟨-, hset⟩, hnames⟩ := change.request_kept hr
  obtain ⟨hne', -, hdev'⟩ := hset hne
  refine ⟨⟨r', hr', hne', ?_⟩, fun b hb hid => ?_⟩
  · rw [hdev', hdev]
    rcases hnames hne with rfl | hred | ⟨a, ha, hid, rfl⟩
    · rfl
    · exact absurd hred unnamed
    · rw [h.attempts a ha hid]
      rfl
  · rcases change.attempt_origin hb with ⟨a, ha, hadv⟩ | ⟨c, req, -, guard, rfl⟩
    · rw [hadv.1.deviceId]
      exact h.attempts a ha (hadv.1.approvalId ▸ hid)
    · -- the claim's predicate compares the caller's device with the stored one
      have hreq := guard.request
      rw [show c.approvalId = approvalId from hid, hr] at hreq
      cases hreq
      have hc := guard.claimable
      simp only [Tables.claimable, Bool.and_eq_true, decide_eq_true_eq] at hc
      exact Option.some.inj (hc.1.1.1.2.symm.trans hdev)

/-! ### Challenges -/

/-- A challenge keeps every column but `consumed`, which is never cleared. -/
def Challenge.Burns (c c' : Challenge) : Prop :=
  c' = c ∨ c' = { c with consumed := true }

theorem Change.challenge_kept {t u : Tables} {op : StoreOp} (change : Change now op t u)
    {k : String} {c : Challenge} (hc : t.challenges.find? k = some c) :
    ∃ c', u.challenges.find? k = some c' ∧ c.Burns c' := by
  have hmap : ∀ {challenges : Table Challenge} {p : Challenge → Bool},
      challenges.find? k = (t.challenges.find? k).map
        (fun c => if p c then { c with consumed := true } else c) →
      ∃ c', challenges.find? k = some c' ∧ c.Burns c' := by
    intro challenges p hf
    refine ⟨if p c then { c with consumed := true } else c, by rw [hf, hc]; rfl, ?_⟩
    split
    · exact Or.inr rfl
    · exact Or.inl rfl
  cases change with
  | unchanged | tokens | created | swept | moved | claimed | crossed | refused | recorded |
      finished | leased | failed | attested => exact ⟨c, hc, Or.inl rfl⟩
  | @issued a _ challenges inserted =>
    have hfree := (Table.insert_some inserted).1
    have hclose : ∀ k, (t.closeChallenges a.approvalId).challenges.find? k =
        (t.challenges.find? k).map (fun c => if decide (c.approvalId = a.approvalId) &&
          !c.consumed then { c with consumed := true } else c) := by
      intro k
      rw [Tables.closeChallenges, Table.find_update]
    have hne : Keyed.key (a.row now) ≠ k := by
      rintro rfl
      rw [hclose, hc] at hfree
      cases hfree
    have hfind := Table.find_insert inserted k
    rw [if_neg hne, hclose] at hfind
    exact hmap hfind
  | burned => exact hmap (t.burn_find _ _ _ _ _ _ _ k)
  | @decided a _ req _ _ _ guard =>
    obtain ⟨devices, hd, -⟩ := a.decide_eq now req t
    rw [hd]
    exact hmap (t.burn_find _ _ _ _ _ _ _ k)
  | enrolled named live upserted inserted =>
    obtain ⟨-, -, hu⟩ := Store.upsert_device_cases upserted
    rw [hu]
    exact ⟨c, hc, Or.inl rfl⟩
  | @revoked _ reason _ _ _ entries doomed planned valued =>
    obtain ⟨devices, revocations, hv⟩ := t.revoke_all_frame now reason entries doomed
    rw [hv]
    exact ⟨c, hc, Or.inl rfl⟩

/-- An approval has one open challenge at most. -/
def OneOpen (challenges : Table Challenge) : Prop :=
  ∀ c ∈ challenges, ∀ c' ∈ challenges, c.approvalId = c'.approvalId → c.consumed = false →
    c'.consumed = false → c = c'

namespace OneOpen

/-- Burning only closes. -/
theorem burn {challenges : Table Challenge} (h : OneOpen challenges) (p : Challenge → Bool) (hf) :
    OneOpen (challenges.update p (fun c => { c with consumed := true }) hf) := by
  intro b hb b' hb' he ho ho'
  obtain ⟨a, ha, rfl⟩ := Table.mem_update.mp hb
  obtain ⟨a', ha', rfl⟩ := Table.mem_update.mp hb'
  split at ho
  · cases ho
  split at ho'
  · cases ho'
  rename_i h1 h2
  rw [if_neg h1, if_neg h2] at he ⊢
  exact h a ha a' ha' he ho ho'

theorem step {t u : Tables} {op : StoreOp} (h : OneOpen t.challenges) (change : Change now op t u) :
    OneOpen u.challenges := by
  cases change with
  | unchanged | tokens | created | swept | moved | claimed | crossed | refused | recorded |
      finished | leased | failed | attested => exact h
  | @issued a _ challenges inserted =>
    obtain ⟨-, hmem⟩ := Table.insert_some inserted
    -- the sweep has closed every challenge of this approval
    have hold : ∀ b ∈ (t.closeChallenges a.approvalId).challenges, b.consumed = false →
        b.approvalId ≠ a.approvalId := by
      intro b hb ho he
      simp only [Tables.closeChallenges, Table.mem_update] at hb
      obtain ⟨d, -, rfl⟩ := hb
      split at ho
      · cases ho
      · rename_i hp
        rw [if_neg hp] at he
        simp [he, ho] at hp
    have hclosed : OneOpen (t.closeChallenges a.approvalId).challenges :=
      h.burn _ (fun _ => rfl)
    intro b hb b' hb' he ho ho'
    rcases (hmem b).mp hb with hb | rfl <;> rcases (hmem b').mp hb' with hb' | rfl
    · exact hclosed b hb b' hb' he ho ho'
    · exact absurd he (hold b hb ho)
    · exact absurd he.symm (hold b' hb' ho')
    · rfl
  | burned => exact h.burn _ (fun _ => rfl)
  | @decided a _ req _ _ _ guard =>
    obtain ⟨devices, hd, -⟩ := a.decide_eq now req t
    rw [hd]
    exact h.burn _ (fun _ => rfl)
  | enrolled named live upserted inserted =>
    obtain ⟨-, -, hu⟩ := Store.upsert_device_cases upserted
    rw [hu]
    exact h
  | @revoked _ reason _ _ _ entries doomed planned valued =>
    obtain ⟨devices, revocations, hv⟩ := t.revoke_all_frame now reason entries doomed
    rw [hv]
    exact h

end OneOpen

/-! ### Issues and decisions in a history -/

/-- The step issued this challenge. -/
def Issues (e : approvalStore.Entry) (c : ChallengeCall) : Prop :=
  e.call.op = .addChallenge c ∧
    ∃ challenges, (e.pre.closeChallenges c.approvalId).challenges.insert? (c.row e.call.now) =
      some challenges ∧ e.post.challenges = challenges

/-- The step committed this decision. -/
def Decides (e : approvalStore.Entry) (c : DecisionCall) : Prop :=
  e.call.op = .commitDecision c ∧ e.call.op.Granted e.reply

theorem Decides.of_reply {pre : Store} {c : DecisionCall} {now : Time}
    (h : ((StoreOp.commitDecision c).run now pre).1 = .ok (.ok ())) :
    Decides ⟨pre, ⟨.commitDecision c, now⟩⟩ c := ⟨rfl, h⟩

/-- A committed decision, and the rows it was taken on. -/
theorem Decides.guard {e : approvalStore.Entry} {c : DecisionCall} (h : Decides e c) :
    ∃ req dev identity challenge, Store.DecisionGuard e.pre.toTables e.call.now c.approvalId
      c.deviceId c.newState c.challengeNonce c.challengePayloadSha256 c.verifiedPublicKeyX963
      c.verifiedAppAttestPublicKey c.allowedEnvironments req dev identity challenge ∧
      e.post.toTables = c.decide e.call.now req e.pre.toTables := by
  obtain ⟨pre, op, now⟩ := e
  obtain ⟨hop, hg⟩ := h
  cases hop
  rcases Store.commit_decision_cases (StoreOp.run_answered hg) with
    ⟨_, he, _⟩ | ⟨_, req, dev, identity, challenge, hguard, hs⟩
  · cases he
  · exact ⟨req, dev, identity, challenge, hguard, hs⟩

theorem Decides.post {e : approvalStore.Entry} {c : DecisionCall} (h : Decides e c) :
    ∃ r, e.post.requests.find? c.approvalId = some r ∧ r.state ≠ .pending ∧
      r.decidedAt = some e.call.now ∧ r.decidedDevice = some c.deviceId := by
  obtain ⟨req, dev, identity, challenge, guard, hs⟩ := h.guard
  obtain ⟨devices, heq, -⟩ := c.decide_eq e.call.now req e.pre.toTables
  refine ⟨req.moved c.newState true e.call.now (some c.deviceId) none, ?_,
    RequestState.allowed_settles guard.edge, rfl, rfl⟩
  rw [hs, heq]
  show (e.pre.toTables.moveRequest c.approvalId .pending c.newState true e.call.now
    (some c.deviceId) none).requests.find? c.approvalId = _
  rw [Tables.find_move, if_pos rfl, guard.request, Option.map_some, if_pos guard.pending]

/-- A stored challenge still has the columns it was issued with. -/
def IssuedAs (ch : Challenge) (c : ChallengeCall) : Prop :=
  ch.challengeNonce = c.challengeNonce ∧ ch.approvalId = c.approvalId ∧ ch.deviceId = c.deviceId ∧
    ch.principal = c.principal ∧ ch.actionDigest = c.actionDigest ∧ ch.expiresAt = c.expiresAt ∧
    ch.payloadSha256 = c.payloadSha256

/-- A challenge that is new after a step was issued by that step. -/
theorem Change.challenge_origin {t u : Tables} {op : StoreOp} (change : Change now op t u)
    {ch : Challenge} (h : ch ∈ u.challenges) :
    (∃ ch' ∈ t.challenges, ch'.Burns ch) ∨ ∃ c, op = .addChallenge c ∧ ch = c.row now ∧
      (t.closeChallenges c.approvalId).challenges.insert? (c.row now) = some u.challenges := by
  have hupd : ∀ {p : Challenge → Bool}, ch ∈ t.challenges.update p
      (fun c => { c with consumed := true }) (fun _ => rfl) →
      ∃ ch' ∈ t.challenges, ch'.Burns ch := by
    intro p hmem
    obtain ⟨a, ha, rfl⟩ := Table.mem_update.mp hmem
    refine ⟨a, ha, ?_⟩
    split
    · exact Or.inr rfl
    · exact Or.inl rfl
  cases change with
  | unchanged | tokens | created | swept | moved | claimed | crossed | refused | recorded |
      finished | leased | failed | attested => exact Or.inl ⟨ch, h, Or.inl rfl⟩
  | @issued a _ challenges inserted =>
    rcases ((Table.insert_some inserted).2 ch).mp h with hold | rfl
    · exact Or.inl (hupd hold)
    · exact Or.inr ⟨a, rfl, rfl, inserted⟩
  | burned => exact Or.inl (hupd h)
  | @decided a _ req _ _ _ guard =>
    obtain ⟨devices, hd, -⟩ := a.decide_eq now req t
    rw [hd] at h
    exact Or.inl (hupd h)
  | enrolled named live upserted inserted =>
    obtain ⟨-, -, hu⟩ := Store.upsert_device_cases upserted
    rw [hu] at h
    exact Or.inl ⟨ch, h, Or.inl rfl⟩
  | @revoked _ reason _ _ _ entries doomed planned valued =>
    obtain ⟨devices, revocations, hv⟩ := t.revoke_all_frame now reason entries doomed
    rw [hv] at h
    exact Or.inl ⟨ch, h, Or.inl rfl⟩

section run

variable {permits : List approvalStore.Entry → StoreCall → Prop} {h : List approvalStore.Entry}
  {s : Store}

theorem OneOpen.of_run (hrun : approvalStore.Run permits h s) : OneOpen s.challenges :=
  hrun.invariant (fun s => OneOpen s.challenges)
    (fun c hc => absurd hc (Table.not_mem_empty c))
    (fun _ s c _ hi => hi.step (StoreOp.run_change c.op c.now s))

/-- Every stored challenge was issued by a step of the run. -/
theorem challenge_issued (hrun : approvalStore.Run permits h s) :
    ∀ ch ∈ s.challenges, ∃ e ∈ h, ∃ c, Issues e c ∧ IssuedAs ch c := by
  refine hrun.induct (fun h s => ∀ ch ∈ s.challenges, ∃ e ∈ h, ∃ c, Issues e c ∧ IssuedAs ch c)
    (fun ch hch => absurd hch (Table.not_mem_empty ch)) (fun h s c _ _ ih ch hch => ?_)
  rcases (StoreOp.run_change c.op c.now s).challenge_origin hch with
    ⟨ch', hch', hb⟩ | ⟨a, hop, rfl, hi⟩
  · obtain ⟨e, he, a, hissue, has⟩ := ih ch' hch'
    refine ⟨e, List.mem_cons_of_mem _ he, a, hissue, ?_⟩
    rcases hb with rfl | rfl
    · exact has
    · exact has
  · exact ⟨⟨s, c⟩, by simp, a, ⟨hop, _, hi, rfl⟩, rfl, rfl, rfl, rfl, rfl, rfl, rfl⟩

theorem Accounted.of_run (hrun : approvalStore.Run permits h s) : Accounted s.toTables :=
  hrun.invariant (fun s => Accounted s.toTables) (fun a ha => absurd ha (Table.not_mem_empty a))
    (fun _ s c _ hi => hi.step (StoreOp.run_change c.op c.now s))

/-- After a decision its request is out of PENDING in every later state. -/
theorem Decides.settled {newer older : List approvalStore.Entry} {e : approvalStore.Entry}
    {c : DecisionCall} (hrun : approvalStore.Run permits (newer ++ e :: older) s)
    (hd : Decides e c) :
    (∃ r, s.requests.find? c.approvalId = some r ∧ r.state ≠ .pending ∧
      r.decidedAt = some e.call.now) ∧
    ∀ n ∈ newer, ∃ r, n.pre.requests.find? c.approvalId = some r ∧ r.state ≠ .pending := by
  have hpost : ∃ r, e.post.requests.find? c.approvalId = some r ∧ r.state ≠ .pending ∧
      r.decidedAt = some e.call.now := by
    obtain ⟨r, hr, hst, hat, -⟩ := hd.post
    exact ⟨r, hr, hst, hat⟩
  obtain ⟨hlast, hall⟩ := hrun.since (fun s => ∃ r, s.requests.find? c.approvalId = some r ∧
    r.state ≠ .pending ∧ r.decidedAt = some e.call.now) hpost (by
      rintro _ s' call _ _ ⟨r, hr, hne, hat⟩
      obtain ⟨r', _, hr', ⟨-, hset⟩, -⟩ := (StoreOp.run_change call.op call.now s').request_kept hr
      exact ⟨r', hr', (hset hne).1, (hset hne).2.1.trans hat⟩)
  exact ⟨hlast, fun n hn => by
    obtain ⟨r, hr, hne, -⟩ := hall n hn
    exact ⟨r, hr, hne⟩⟩

/-- A request is decided once. -/
theorem Decides.once {newer older : List approvalStore.Entry} {e n : approvalStore.Entry}
    {c c' : DecisionCall} (hrun : approvalStore.Run permits (newer ++ e :: older) s)
    (hd : Decides e c) (hn : n ∈ newer) (hd' : Decides n c') : c'.approvalId ≠ c.approvalId := by
  intro he
  obtain ⟨r, hr, hne⟩ := (hd.settled hrun).2 n hn
  obtain ⟨req, _, _, _, guard, _⟩ := hd'.guard
  have hreq := guard.request
  rw [he, hr] at hreq
  cases hreq
  exact hne guard.pending

/-- The device of a decision stays, unless a later move of the request names
another. -/
theorem Decides.device_kept {newer older : List approvalStore.Entry} {e : approvalStore.Entry}
    {c : DecisionCall} (hrun : approvalStore.Run permits (newer ++ e :: older) s)
    (hd : Decides e c) (unnamed : ∀ n ∈ newer, ¬ n.call.op.Redirects c.approvalId) :
    DecidedBy s.toTables c.approvalId c.deviceId := by
  have hpost : DecidedBy e.post.toTables c.approvalId c.deviceId := by
    obtain ⟨r, hr, hst, -, hdev⟩ := hd.post
    obtain ⟨req, dev, identity, challenge, guard, hs⟩ := hd.guard
    refine ⟨⟨r, hr, hst, hdev⟩, fun a ha hid => ?_⟩
    -- nothing was claimed for a pending request
    obtain ⟨devices, heq, -⟩ := c.decide_eq e.call.now req e.pre.toTables
    rw [hs, heq] at ha
    obtain ⟨q, hq, hne⟩ := Accounted.of_run hrun.split.1 a ha
    rw [hid, guard.request] at hq
    cases hq
    exact absurd guard.pending hne
  exact (hrun.carried (fun s => DecidedBy s.toTables c.approvalId c.deviceId) hpost
    (fun n hn hi => hi.step (StoreOp.run_change n.call.op n.call.now n.pre) (unnamed n hn))).1

end run

/-! ### One nonce, one decision -/

/-- The decision was taken on the challenge that this call issued. -/
structure DecisionCall.Uses (c : DecisionCall) (e : approvalStore.Entry) (i : ChallengeCall) :
    Prop where
  nonce : i.challengeNonce = c.challengeNonce
  approval : i.approvalId = c.approvalId
  device : i.deviceId = c.deviceId
  request : ∃ r, e.pre.requests.find? c.approvalId = some r ∧ i.principal = r.principal ∧
    i.actionDigest = r.actionDigest
  payload : i.payloadSha256 = c.challengePayloadSha256
  named : c.challengePayloadSha256 ≠ ""
  lifetime : e.call.now ≤ i.expiresAt

/-- Every decision was taken on a challenge issued before it. -/
theorem Decides.uses {permits : List approvalStore.Entry → StoreCall → Prop}
    {older : List approvalStore.Entry} {e : approvalStore.Entry} {c : DecisionCall}
    (hrun : approvalStore.Run permits older e.pre) (hd : Decides e c) :
    ∃ n ∈ older, ∃ i, Issues n i ∧ c.Uses e i := by
  obtain ⟨req, dev, identity, challenge, guard, -⟩ := hd.guard
  obtain ⟨n, hn, i, hissue, hnonce, happ, hdev, hprin, hact, hexp, hpay⟩ :=
    challenge_issued hrun challenge (Table.mem_of_find guard.nonce)
  have hkey : challenge.challengeNonce = c.challengeNonce := Table.key_of_find guard.nonce
  have hb := guard.bound
  simp only [Challenge.openFor, Bool.and_eq_true, decide_eq_true_eq] at hb
  obtain ⟨⟨⟨⟨⟨⟨⟨-, hlife⟩, ha⟩, hd⟩, hp⟩, hg⟩, hnamed⟩, hq⟩ := hb
  exact ⟨n, hn, i, hissue, {
    nonce := hnonce.symm.trans hkey
    approval := happ.symm.trans ha
    device := hdev.symm.trans hd
    request := ⟨req, guard.request, hprin.symm.trans hp, hact.symm.trans hg⟩
    payload := hpay.symm.trans hq
    named := hq ▸ hnamed
    lifetime := hexp ▸ hlife }⟩

/-- An approval has one open challenge and one decision at most, each decision
uses up a challenge of its own, and what it stamped on the request stays. -/
theorem one_nonce_one_decision (permits : List approvalStore.Entry → StoreCall → Prop)
    (h : List approvalStore.Entry) (s : Store) (hrun : approvalStore.Run permits h s) :
    OneOpen s.challenges ∧
    (∃ issueOf : Nat → Nat,
      (∀ i e c, h[i]? = some e → Decides e c → i < issueOf i ∧
        ∃ n a, h[issueOf i]? = some n ∧ Issues n a ∧ c.Uses e a) ∧
      ∀ i j e f c d, h[i]? = some e → Decides e c → h[j]? = some f → Decides f d →
        issueOf i = issueOf j → i = j) ∧
    (∀ (i j : Nat) e f c d, h[i]? = some e → Decides e c → h[j]? = some f → Decides f d →
      c.approvalId = d.approvalId → i = j) ∧
    ∀ newer e older c, h = newer ++ e :: older → Decides e c →
      ∃ r, s.requests.find? c.approvalId = some r ∧ r.decidedAt = some e.call.now ∧
        ((∀ n ∈ newer, ¬ n.call.op.Redirects c.approvalId) →
          r.decidedDevice = some c.deviceId) := by
  have once : ∀ (i j : Nat) e f c d, h[i]? = some e → Decides e c → h[j]? = some f → Decides f d →
      c.approvalId = d.approvalId → ¬ i < j := by
    intro i j e f c d hi hc hj hd hid hlt
    obtain ⟨hcut, -⟩ := hrun.getElem hj
    have hmem : e ∈ h.take j :=
      List.mem_iff_getElem?.mpr ⟨i, by rw [List.getElem?_take, if_pos hlt, hi]⟩
    rw [hcut] at hrun
    exact hd.once hrun hmem hc hid
  have unique : ∀ (i j : Nat) e f c d, h[i]? = some e → Decides e c → h[j]? = some f → Decides f d →
      c.approvalId = d.approvalId → i = j := by
    intro i j e f c d hi hc hj hd hid
    rcases Nat.lt_trichotomy i j with hlt | heq | hlt
    · exact absurd hlt (once i j e f c d hi hc hj hd hid)
    · exact heq
    · exact absurd hlt (once j i f e d c hj hd hi hc hid.symm)
  have issued : ∀ i : Nat, ∃ k : Nat, ∀ e c, h[i]? = some e → Decides e c → i < k ∧
      ∃ n a, h[k]? = some n ∧ Issues n a ∧ c.Uses e a := by
    intro i
    by_cases hdec : ∃ e c, h[i]? = some e ∧ Decides e c
    · obtain ⟨e, c, hi, hc⟩ := hdec
      obtain ⟨n, hn, a, hissue, huses⟩ := hc.uses (hrun.getElem hi).2
      obtain ⟨k, hk⟩ := List.mem_iff_getElem?.mp hn
      rw [List.getElem?_drop] at hk
      refine ⟨i + 1 + k, fun e' c' hi' hc' => ⟨by omega, n, a, hk, hissue, ?_⟩⟩
      obtain rfl : e = e' := Option.some.inj (hi.symm.trans hi')
      obtain rfl : c = c' := by simpa using hc.1.symm.trans hc'.1
      exact huses
    · exact ⟨0, fun e c hi hc => absurd ⟨e, c, hi, hc⟩ hdec⟩
  refine ⟨OneOpen.of_run hrun, ?_, unique, ?_⟩
  · choose issueOf hissue using issued
    refine ⟨issueOf, fun i e c hi hc => hissue i e c hi hc, ?_⟩
    intro i j e f c d hi hc hj hd heq
    obtain ⟨-, n, a, hn, hna, hca⟩ := hissue i e c hi hc
    obtain ⟨-, n', a', hn', hna', hda⟩ := hissue j f d hj hd
    obtain rfl : n = n' := by
      rw [heq, hn'] at hn
      exact (Option.some.inj hn).symm
    obtain rfl : a = a' := by simpa using hna.1.symm.trans hna'.1
    exact unique i j e f c d hi hc hj hd (hca.approval.symm.trans hda.approval)
  · rintro newer e older c rfl hc
    obtain ⟨r, hr, -, hat⟩ := (hc.settled hrun).1
    refine ⟨r, hr, hat, fun hun => ?_⟩
    obtain ⟨q, hq, -, hdev⟩ := (hc.device_kept hrun hun).request
    rw [hr] at hq
    cases hq
    exact hdev

/-- The decision of the sample is the only one it can have. -/
theorem one_nonce_one_decision_sample : OneOpen sampleStore.challenges ∧
    ∀ newer e older c, sampleHistory = newer ++ e :: older → Decides e c →
      ∃ r, sampleStore.requests.find? c.approvalId = some r ∧ r.decidedAt = some e.call.now := by
  obtain ⟨hopen, -, -, hkept⟩ := one_nonce_one_decision _ sampleHistory sampleStore sample_run
  refine ⟨hopen, fun newer e older c he hc => ?_⟩
  obtain ⟨r, hr, hat, -⟩ := hkept newer e older c he hc
  exact ⟨r, hr, hat⟩

/-- A decided request that is expired under the name of another device. -/
def sampleRedirected : List StoreCall :=
  sampleEnrol "e1" 7 10 ++ (sampleDecide "a1" "n1" 1 20 ++
    [⟨.transition "a1" .expired (some "tablet") none, 30⟩])

/-- `COALESCE` writes the new name over the device that decided. -/
theorem decided_device_redirected : ∃ newer e older c,
    approvalStore.history [] .fresh sampleRedirected = newer ++ e :: older ∧ Decides e c ∧
    c.deviceId = "phone" ∧ ∃ r, (approvalStore.after .fresh sampleRedirected).requests.find?
      c.approvalId = some r ∧ r.decidedDevice = some "tablet" := by
  have hreply := congrArg Prod.fst (sample_committed (n := 1) sample_deciding)
  rw [sampleRedirected, sample_history, sample_decided_after]
  refine ⟨[_], _, _, sampleDecision "a1" "n1" 1, rfl, Decides.of_reply hreply, rfl, ?_⟩
  exact Option.map_eq_some_iff.mp (rfl : Option.map Request.decidedDevice
    ((approvalStore.after sampleDecided [⟨.transition "a1" .expired (some "tablet") none, 30⟩]
      ).requests.find? "a1") = some (some "tablet"))

end Solvio.Approval
