import Solvio.Approval.Attempts
import Solvio.Approval.Production

namespace Solvio.Approval
open Solvio.Lib

/-! ### The journal and the requests -/

/-- The request state that an attempt of this status stands for. -/
def RequestState.journals : RequestState → AttemptStatus → Bool
  | .executing, status => status.isOpen
  | .consumed, status => status = .succeeded
  | .failed, status => status = .failedSafe || status = .abandoned
  | _, _ => false

/-- The states that only a claim leads to. -/
def RequestState.claimed : RequestState → Bool
  | .executing | .consumed | .failed => true
  | _ => false

/-- Every attempt belongs to a request that agrees with it, no request has two
attempts, and a request past its claim has one. -/
structure Journalled (requests : Table Request) (attempts : Table Attempt) : Prop where
  request : ∀ a ∈ attempts, ∃ r, requests.find? a.approvalId = some r ∧
    r.state.journals a.status = true ∧ r.decidedDevice = some a.deviceId
  unique : ∀ a ∈ attempts, ∀ b ∈ attempts, a.approvalId = b.approvalId → a = b
  attempt : ∀ k r, requests.find? k = some r → r.state.claimed = true →
    ∃ a ∈ attempts, a.approvalId = k

theorem RequestState.journals_claimed {st : RequestState} {status : AttemptStatus}
    (h : st.journals status = true) : st.claimed = true := by
  cases st <;> simp [journals, claimed] at h ⊢

theorem RequestState.journals_open {st : RequestState} {status : AttemptStatus}
    (h : st.journals status = true) : status.isOpen = true ↔ st = .executing := by
  cases st <;> cases status <;> simp [journals, AttemptStatus.isOpen] at h ⊢

namespace Journalled

variable {requests : Table Request} {attempts : Table Attempt}

theorem start : Journalled .empty .empty where
  request a ha := absurd ha (Table.not_mem_empty a)
  unique a ha := absurd ha (Table.not_mem_empty a)
  attempt k r h := by simp at h

/-- Requests that are not past their claim may be written freely. -/
theorem unclaimed (h : Journalled requests attempts) {requests' : Table Request}
    (same : ∀ k r, r.state.claimed = true →
      (requests'.find? k = some r ↔ requests.find? k = some r)) :
    Journalled requests' attempts where
  request a ha := by
    obtain ⟨r, hr, hj, hd⟩ := h.request a ha
    exact ⟨r, (same _ _ (RequestState.journals_claimed hj)).mpr hr, hj, hd⟩
  unique := h.unique
  attempt k r hr hc := h.attempt k r ((same k r hc).mp hr) hc

/-- A move outside the claimed states. -/
theorem move {t : Tables} {cur new : RequestState} (h : Journalled t.requests attempts)
    (hcur : cur.claimed = false) (hnew : new.claimed = false) :
    Journalled (t.moveRequest approvalId cur new stamp now deviceId error).requests attempts := by
  refine h.unclaimed (fun k r hc => ?_)
  rw [t.find_move]
  split
  · rename_i hk
    subst hk
    constructor
    · intro hr
      obtain ⟨q, hq, hqr⟩ := Option.map_eq_some_iff.mp hr
      split at hqr
      · subst hqr
        simp [Request.moved, hnew] at hc
      · exact hqr ▸ hq
    · intro hr
      have hne : r.state ≠ cur := by
        rintro rfl
        simp [hc] at hcur
      simp [hr, hne]
  · exact Iff.rfl

/-- An update of attempts that keeps each one inside its request state. -/
theorem update (h : Journalled requests attempts) {p : Attempt → Bool} {f : Attempt → Attempt} (hf)
    (ids : ∀ a, (f a).approvalId = a.approvalId ∧ (f a).deviceId = a.deviceId)
    (status : ∀ a ∈ attempts, p a = true → ∀ st : RequestState,
      st.journals a.status = true → st.journals (f a).status = true) :
    Journalled requests (attempts.update p f hf) where
  request b hb := by
    obtain ⟨a, ha, rfl⟩ := Table.mem_update.mp hb
    obtain ⟨r, hr, hj, hd⟩ := h.request a ha
    split
    · rename_i hp
      exact ⟨r, by rw [(ids a).1]; exact hr, status a ha hp _ hj, by rw [(ids a).2]; exact hd⟩
    · exact ⟨r, hr, hj, hd⟩
  unique b hb c hc he := by
    obtain ⟨a, ha, rfl⟩ := Table.mem_update.mp hb
    obtain ⟨d, hd, rfl⟩ := Table.mem_update.mp hc
    have hid : ∀ x : Attempt, (if p x = true then f x else x).approvalId = x.approvalId := by
      intro x
      split
      · exact (ids x).1
      · rfl
    rw [hid, hid] at he
    rw [h.unique a ha d hd he]
  attempt k r hr hc := by
    obtain ⟨a, ha, hk⟩ := h.attempt k r hr hc
    refine ⟨_, Table.mem_update_of_mem hf ha, ?_⟩
    split
    · exact (ids a).1.trans hk
    · exact hk

/-- An outcome that takes the request with it. -/
theorem finish {t : Tables} (h : Journalled t.requests t.attempts) {row : Attempt}
    {cur : AttemptStatus} {f : Attempt → Attempt} {hf} {new : RequestState}
    (found : t.attempts.find? attemptId = some row) (current : row.status = cur)
    (isOpen : cur.isOpen = true)
    (ids : ∀ a, (f a).approvalId = a.approvalId ∧ (f a).deviceId = a.deviceId)
    (status : new.journals (f row).status = true) :
    Journalled
      ((t.updateAttempt attemptId cur f hf).moveRequest row.approvalId .executing new false
        now (some row.deviceId) error).requests
      (t.updateAttempt attemptId cur f hf).attempts := by
  subst current
  have hrow := Table.mem_of_find found
  have hkey : row.attemptId = attemptId := Table.key_of_find found
  obtain ⟨r, hr, hj, hd⟩ := h.request row hrow
  have hx : r.state = .executing := (RequestState.journals_open hj).mp isOpen
  have hmove := Tables.find_move (t.updateAttempt attemptId row.status f hf) row.approvalId
    .executing new false now (some row.deviceId) error
  have hreq : (t.updateAttempt attemptId row.status f hf).requests = t.requests := rfl
  rw [hreq] at hmove
  -- the updated row is the only attempt of its request
  have hone : ∀ a ∈ t.attempts, a = row ∨ ¬ a.attemptId = attemptId ∧
      a.approvalId ≠ row.approvalId := by
    intro a ha
    by_cases he : a = row
    · exact Or.inl he
    · exact Or.inr ⟨fun hk => he (Table.eq_of_key ha hrow (hk.trans hkey.symm)),
        fun hap => he (h.unique a ha row hrow hap)⟩
  have hid : ∀ a : Attempt, (if (decide (a.attemptId = attemptId) &&
      decide (a.status = row.status)) = true then f a else a).approvalId = a.approvalId := by
    intro a
    split
    · exact (ids a).1
    · rfl
  constructor
  · intro b hb
    obtain ⟨a, ha, rfl⟩ := Tables.mem_update_attempt.mp hb
    rcases hone a ha with rfl | ⟨hp, hne⟩
    · simp only [hkey, decide_true, Bool.and_self, if_true]
      rw [hmove, (ids a).1, if_pos rfl, hr, Option.map_some, if_pos hx]
      exact ⟨_, rfl, status, by simp [Request.moved, (ids a).2]⟩
    · simp only [hp, decide_false, Bool.false_and, Bool.false_eq_true, if_false]
      rw [hmove, if_neg hne]
      exact h.request a ha
  · intro b hb c hc he
    obtain ⟨a, ha, rfl⟩ := Tables.mem_update_attempt.mp hb
    obtain ⟨d, hd, rfl⟩ := Tables.mem_update_attempt.mp hc
    rw [hid, hid] at he
    rw [h.unique a ha d hd he]
  · intro k q hq hc
    have hold : ∃ q, t.requests.find? k = some q ∧ q.state.claimed = true := by
      rw [hmove] at hq
      split at hq
      · rename_i hk
        subst hk
        exact ⟨r, hr, by rw [hx]; rfl⟩
      · exact ⟨q, hq, hc⟩
    obtain ⟨q, hq, hc⟩ := hold
    obtain ⟨a, ha, hk⟩ := h.attempt k q hq hc
    exact ⟨_, Tables.mem_update_attempt.mpr ⟨a, ha, rfl⟩, (hid a).trans hk⟩

/-- A claim moves an approved request and journals it. -/
theorem claim {t : Tables} (h : Journalled t.requests t.attempts) {req : Request}
    {attempts : Table Attempt} {a : Attempt} (found : t.requests.find? approvalId = some req)
    (claimable : t.claimable now deviceId identities req = true)
    (inserted : t.attempts.insert? a = some attempts) (approval : a.approvalId = approvalId)
    (device : a.deviceId = deviceId) (status : a.status = .claimed) :
    Journalled (t.enterExecuting now approvalId deviceId identities).requests attempts := by
  have henter := t.find_enter now approvalId deviceId identities
  obtain ⟨-, hmem⟩ := Table.insert_some inserted
  have happ : req.state = .approved ∧ req.decidedDevice = some deviceId := by
    simp only [Tables.claimable, Bool.and_eq_true, decide_eq_true_eq] at claimable
    exact claimable.1.1.1
  -- an approved request has no attempt yet
  have hnone : ∀ b ∈ t.attempts, b.approvalId ≠ approvalId := by
    rintro b hb rfl
    obtain ⟨r, hr, hj, -⟩ := h.request b hb
    rw [found] at hr
    cases hr
    rw [happ.1] at hj
    cases hj
  constructor
  · intro b hb
    rcases (hmem b).mp hb with hb | rfl
    · rw [henter, if_neg (hnone b hb)]
      exact h.request b hb
    · rw [henter, if_pos approval, found, Option.map_some, if_pos claimable]
      exact ⟨_, rfl, by rw [status]; rfl, by rw [device]; exact happ.2⟩
  · intro b hb c hc he
    rcases (hmem b).mp hb with hb | rfl <;> rcases (hmem c).mp hc with hc | rfl
    · exact h.unique b hb c hc he
    · exact absurd (he.trans approval) (hnone b hb)
    · exact absurd (he.symm.trans approval) (hnone c hc)
    · rfl
  · intro k r hr hc
    rw [henter] at hr
    split at hr
    · rename_i hk
      exact ⟨a, (hmem a).mpr (Or.inr rfl), approval.trans hk.symm⟩
    · obtain ⟨b, hb, hk⟩ := h.attempt k r hr hc
      exact ⟨b, (hmem b).mpr (Or.inl hb), hk⟩

/-- One production call keeps the journal and the requests in agreement. -/
theorem step {t u : Tables} {op : StoreOp} (h : Journalled t.requests t.attempts)
    (change : Change now op t u) (called : ProductionCall core op) :
    Journalled u.requests u.attempts := by
  cases change with
  | unchanged | tokens | issued | burned | failed | attested => exact h
  | created inserted =>
    obtain ⟨hfree, -⟩ := Table.insert_some inserted
    refine h.unclaimed (fun k r hc => ?_)
    rw [Table.find_insert inserted]
    split
    · rename_i hk
      subst hk
      rw [hfree]
      refine ⟨fun he => ?_, fun he => by cases he⟩
      cases he
      cases hc
    · exact Iff.rfl
  | swept =>
    refine h.unclaimed (fun k r hc => ?_)
    simp only [Tables.expireRequests, Table.find_update]
    constructor
    · intro hr
      obtain ⟨q, hq, rfl⟩ := Option.map_eq_some_iff.mp hr
      split at hc
      · cases hc
      · rename_i hdue
        rw [hq, if_neg hdue]
    · intro hr
      have hdue : ¬ r.due now = true := by
        intro hd
        simp only [Request.due, Bool.and_eq_true, Bool.or_eq_true, decide_eq_true_eq] at hd
        rcases hd.1 with hs | hs <;> rw [hs] at hc <;> cases hc
      rw [hr, Option.map_some, if_neg hdue]
  | moved found state edge claimed =>
    obtain ⟨rfl, rfl⟩ := called
    rcases RequestState.allowed_expired edge with rfl | rfl <;> exact h.move rfl rfl
  | @decided c _ req _ _ _ guard =>
    have hnew : c.newState.claimed = false := by
      rcases called with hn | hn <;> rw [hn] <;> rfl
    obtain ⟨devices, hd, -⟩ := c.decide_eq now req t
    rw [hd]
    exact h.move rfl hnew
  | claimed guard inserted => exact h.claim guard.request guard.claimable inserted rfl rfl rfl
  | crossed found status live =>
    refine h.update ?_ (fun _ => ⟨rfl, rfl⟩) (fun a _ hp st hj => ?_)
    · exact fun _ => rfl
    simp only [Bool.and_eq_true, decide_eq_true_eq] at hp
    rw [hp.2] at hj
    cases st <;> first | rfl | cases hj
  | @refused _ _ _ row _ found status revoked request executing =>
    exact h.finish found status rfl (fun _ => ⟨rfl, rfl⟩) rfl
  | @recorded c _ row detail guard stays =>
    have hunknown : c.status = .unknown := by
      have hc : (c.status, c.requestState) ∈ coordinatorOutcomes := called
      rw [stays] at hc
      simpa [coordinatorOutcomes] using hc
    refine h.update ?_ (fun _ => ⟨rfl, rfl⟩) (fun a _ hp st hj => ?_)
    · exact fun _ => rfl
    simp only [Bool.and_eq_true, decide_eq_true_eq] at hp
    rw [hp.2] at hj
    have hx : st = .executing := (RequestState.journals_open hj).mp guard.isOpen
    rw [hx]
    exact hunknown ▸ rfl
  | @finished c _ row _ new cur detail guard moves claimed request state edge =>
    have hc : (c.status, some new) ∈ coordinatorOutcomes := moves ▸ called
    have hout : (c.status = .succeeded ∧ new = .consumed) ∨ (c.status = .failedSafe ∧ new = .failed) ∨
        (c.status = .abandoned ∧ new = .failed) := by
      simpa [coordinatorOutcomes] using hc
    have hx : cur = .executing := by
      refine RequestState.allowed_outcome edge ?_
      rcases hout with ⟨-, hn⟩ | ⟨-, hn⟩ | ⟨-, hn⟩
      exacts [Or.inl hn, Or.inr hn, Or.inr hn]
    subst hx
    refine h.finish guard.found rfl guard.isOpen (fun _ => ⟨rfl, rfl⟩) ?_
    show new.journals c.status = true
    rcases hout with ⟨hs, hn⟩ | ⟨hs, hn⟩ | ⟨hs, hn⟩ <;> rw [hs, hn] <;> rfl
  | leased found free =>
    refine h.update ?_ (fun _ => ⟨rfl, rfl⟩) (fun _ _ _ _ hj => hj)
    exact fun _ => rfl
  | enrolled named live upserted inserted =>
    obtain ⟨-, -, hu⟩ := Store.upsert_device_cases upserted
    rw [hu]
    exact h
  | revoked planned valued =>
    rename_i reason _ _ entries doomed
    obtain ⟨devices, revocations, hr⟩ := t.revoke_all_frame now reason entries doomed
    rw [hr]
    exact h

theorem of_run (hrun : ProductionRun core h s) : Journalled s.requests s.attempts :=
  hrun.invariant (fun s => Journalled s.requests s.attempts) start
    (fun _ s c hc hi => hi.step (StoreOp.run_change c.op c.now s) hc)

end Journalled

/-! ### Agreement -/

def Tables.attemptsOf (t : Tables) (approvalId : String) : List Attempt :=
  t.attempts.rows.filter (fun a => a.approvalId = approvalId)

/-- What the two state machines say about each other. -/
structure Agrees (t : Tables) (r : Request) : Prop where
  executing : r.state = .executing ↔
    (t.attemptsOf r.approvalId).countP (fun a => a.status.isOpen) = 1
  consumed : r.state = .consumed ↔
    (t.attemptsOf r.approvalId).countP (fun a => a.status = .succeeded) = 1
  failed : r.state = .failed → t.attemptsOf r.approvalId ≠ [] ∧
    ∀ a ∈ t.attemptsOf r.approvalId, a.status = .failedSafe ∨ a.status = .abandoned
  unclaimed : r.state = .pending ∨ r.state = .approved ∨ r.state = .denied ∨ r.state = .expired →
    t.attemptsOf r.approvalId = []

/-- A request has no attempt, or one that it agrees with. -/
theorem Journalled.attempts_of {t : Tables} (h : Journalled t.requests t.attempts) {r : Request}
    (hr : r ∈ t.requests) :
    (t.attemptsOf r.approvalId = [] ∧ r.state.claimed = false) ∨
      ∃ a, t.attemptsOf r.approvalId = [a] ∧ r.state.journals a.status = true := by
  have hfind := Table.find_of_mem hr
  have hmem : ∀ a, a ∈ t.attemptsOf r.approvalId ↔ a ∈ t.attempts ∧ a.approvalId = r.approvalId := by
    intro a
    simp [Tables.attemptsOf, Table.mem_rows]
  have hnodup : (t.attemptsOf r.approvalId).Nodup :=
    t.attempts.distinct.of_map.filter _
  cases hl : t.attemptsOf r.approvalId with
  | nil =>
    refine Or.inl ⟨rfl, ?_⟩
    by_contra hc
    obtain ⟨a, ha, hk⟩ := h.attempt _ r hfind (by simpa using hc)
    have := (hmem a).mpr ⟨ha, hk⟩
    simp [hl] at this
  | cons a rest =>
    right
    have ha := (hmem a).mp (by simp [hl])
    have hrest : rest = [] := by
      rw [List.eq_nil_iff_forall_not_mem]
      intro b hb
      have hb' := (hmem b).mp (by simp [hl, hb])
      have he := h.unique a ha.1 b hb'.1 (ha.2.trans hb'.2.symm)
      subst he
      rw [hl] at hnodup
      exact (List.nodup_cons.mp hnodup).1 hb
    obtain ⟨q, hq, hj, -⟩ := h.request a ha.1
    rw [ha.2] at hq
    have hqr : r = q := Option.some.inj (hfind.symm.trans hq)
    exact ⟨a, by rw [hrest], by rw [hqr]; exact hj⟩

/-- In every state that production callers can reach, the journal and the
requests tell the same story. -/
theorem journal_request_agreement (core : String) (h : List approvalStore.Entry) (s : Store)
    (hrun : ProductionRun core h s) : ∀ r ∈ s.requests, Agrees s.toTables r := by
  intro r hr
  rcases (Journalled.of_run hrun).attempts_of hr with ⟨hl, hc⟩ | ⟨a, hl, hj⟩
  · constructor
    all_goals rw [hl]
    · cases hs : r.state <;> simp [hs, RequestState.claimed] at hc ⊢
    · cases hs : r.state <;> simp [hs, RequestState.claimed] at hc ⊢
    · intro hs
      simp [hs, RequestState.claimed] at hc
    · exact fun _ => rfl
  · constructor
    all_goals rw [hl]
    · simp only [List.countP_singleton]
      rw [← RequestState.journals_open hj]
      by_cases ho : a.status.isOpen = true <;> simp [ho]
    · simp only [List.countP_singleton]
      cases hs : r.state <;> cases ha : a.status <;>
        simp [hs, ha, RequestState.journals, AttemptStatus.isOpen] at hj ⊢
    · intro hs
      rw [hs] at hj
      simpa [RequestState.journals] using hj
    · intro hs
      rcases hs with hs | hs | hs | hs <;> rw [hs] at hj <;> cases hj

theorem journal_request_agreement_sample : ∃ r ∈ sampleStore.requests,
    r.state = .executing ∧ Agrees sampleStore.toTables r := by
  obtain ⟨r, hr, hs, -⟩ := sample_request
  exact ⟨r, hr, hs, journal_request_agreement sampleCore sampleHistory sampleStore sample_run r hr⟩

end Solvio.Approval
