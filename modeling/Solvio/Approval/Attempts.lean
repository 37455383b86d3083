import Solvio.Approval.Operations

namespace Solvio.Approval
open Solvio.Lib

/-! ### What an attempt keeps -/

/-- The columns a claim writes. No later operation changes them. -/
structure Attempt.SameClaim (a b : Attempt) : Prop where
  attemptId : b.attemptId = a.attemptId
  executionId : b.executionId = a.executionId
  approvalId : b.approvalId = a.approvalId
  deviceId : b.deviceId = a.deviceId
  capability : b.capability = a.capability
  semantics : b.semantics = a.semantics
  idempotencyKey : b.idempotencyKey = a.idempotencyKey
  claim : b.claim = a.claim

theorem Attempt.SameClaim.refl (a : Attempt) : a.SameClaim a :=
  ⟨rfl, rfl, rfl, rfl, rfl, rfl, rfl, rfl⟩

theorem Attempt.SameClaim.trans {a b c : Attempt} (h : a.SameClaim b) (g : b.SameClaim c) :
    a.SameClaim c :=
  ⟨g.1.trans h.1, g.2.trans h.2, g.3.trans h.3, g.4.trans h.4, g.5.trans h.5, g.6.trans h.6,
    g.7.trans h.7, g.8.trans h.8⟩

/-- A closed attempt stays closed, and no attempt returns to CLAIMED. -/
def Attempt.Advances (a b : Attempt) : Prop :=
  a.SameClaim b ∧ (a.status.terminal = true → b.status = a.status) ∧
    (b.status = .claimed → a.status = .claimed)

theorem Attempt.Advances.refl (a : Attempt) : a.Advances a :=
  ⟨.refl a, fun _ => rfl, id⟩

theorem Attempt.Advances.trans {a b c : Attempt} (h : a.Advances b) (g : b.Advances c) :
    a.Advances c := by
  refine ⟨h.1.trans g.1, fun ht => ?_, fun hc => h.2.2 (g.2.2 hc)⟩
  have hb := h.2.1 ht
  exact (g.2.1 (by rw [hb]; exact ht)).trans hb

/-- What an `UPDATE` of an open attempt is allowed to write. -/
theorem Attempt.advances_open {a b : Attempt} (same : a.SameClaim b)
    (isOpen : a.status.isOpen = true) (status : b.status ≠ .claimed) : a.Advances b := by
  refine ⟨same, fun ht => ?_, fun hc => absurd hc status⟩
  rw [(AttemptStatus.open_iff a.status).mp isOpen] at ht
  cases ht

namespace Tables

variable {t : Tables} {attemptId : String} {cur : AttemptStatus} {f : Attempt → Attempt}
  (advances : ∀ a : Attempt, a.status = cur → a.Advances (f a))
  (hf : ∀ a, (f a).attemptId = a.attemptId)

include advances

theorem update_attempt_origin {b : Attempt}
    (hb : b ∈ (t.updateAttempt attemptId cur f hf).attempts) : ∃ a ∈ t.attempts, a.Advances b := by
  obtain ⟨a, ha, rfl⟩ := mem_update_attempt.mp hb
  refine ⟨a, ha, ?_⟩
  split
  · rename_i hp
    simp only [Bool.and_eq_true, decide_eq_true_eq] at hp
    exact advances a hp.2
  · exact .refl a

theorem update_attempt_kept {a : Attempt}
    (ha : a ∈ t.attempts) :
    ∃ b ∈ (t.updateAttempt attemptId cur f hf).attempts, a.Advances b := by
  refine ⟨_, mem_update_attempt.mpr ⟨a, ha, rfl⟩, ?_⟩
  split
  · rename_i hp
    simp only [Bool.and_eq_true, decide_eq_true_eq] at hp
    exact advances a hp.2
  · exact .refl a

end Tables

section writes

variable (now : Time) (a : Attempt)

theorem Attempt.crossed_advances (h : a.status = .claimed) :
    a.Advances { a with status := .externalPending, boundaryAt := some now } :=
  advances_open ⟨rfl, rfl, rfl, rfl, rfl, rfl, rfl, rfl⟩ (by rw [h]; rfl) (by simp)

theorem Attempt.abandoned_advances (h : a.status = .claimed) :
    a.Advances { a with
      status := .abandoned
      finishedAt := some now
      detail := some "revoked_before_external_start" } :=
  advances_open ⟨rfl, rfl, rfl, rfl, rfl, rfl, rfl, rfl⟩ (by rw [h]; rfl) (by simp)

theorem Attempt.recorded_advances {cur status : AttemptStatus} (detail : Option String)
    (isOpen : cur.isOpen = true) (outcome : status ≠ .claimed) (h : a.status = cur) :
    a.Advances { a with
      status := status
      finishedAt := some now
      detail := detail
      leaseOwner := none
      leaseExpiresAt := none } :=
  advances_open ⟨rfl, rfl, rfl, rfl, rfl, rfl, rfl, rfl⟩ (by rw [h]; exact isOpen) outcome

end writes

/-- Every attempt that a step leaves was there before, or was claimed by it. -/
theorem Change.attempt_origin {t u : Tables} {op : StoreOp} (change : Change now op t u)
    {b : Attempt} (hb : b ∈ u.attempts) :
    (∃ a ∈ t.attempts, a.Advances b) ∨ ∃ c req, op = .claimExecutionAttempt c ∧
      Store.ClaimGuard t now c.approvalId c.deviceId c.identities c.executionId c.semantics req ∧
      b = c.attempt now t := by
  cases change with
  | unchanged | tokens | created | swept | moved | issued | burned | failed | attested =>
    exact Or.inl ⟨b, hb, .refl b⟩
  | @decided c _ req _ _ _ guard =>
    obtain ⟨devices, hd, -⟩ := c.decide_eq now req t
    rw [hd] at hb
    exact Or.inl ⟨b, hb, .refl b⟩
  | @claimed c _ req _ guard inserted =>
    rcases ((Table.insert_some inserted).2 b).mp hb with hold | rfl
    · exact Or.inl ⟨b, hold, .refl b⟩
    · exact Or.inr ⟨c, req, rfl, guard, rfl⟩
  | crossed =>
    exact Or.inl (Tables.update_attempt_origin (Attempt.crossed_advances now) (fun _ => rfl) hb)
  | refused =>
    exact Or.inl (Tables.update_attempt_origin (Attempt.abandoned_advances now) (fun _ => rfl) hb)
  | recorded detail guard | finished detail guard =>
    exact Or.inl (Tables.update_attempt_origin
      (fun a => a.recorded_advances now detail guard.isOpen guard.outcome.1) (fun _ => rfl) hb)
  | leased =>
    simp only [Tables.leaseAttempt, Table.mem_update] at hb
    obtain ⟨a, ha, rfl⟩ := hb
    refine Or.inl ⟨a, ha, ?_⟩
    split
    · exact ⟨⟨rfl, rfl, rfl, rfl, rfl, rfl, rfl, rfl⟩, fun _ => rfl, id⟩
    · exact .refl a
  | enrolled named live upserted inserted =>
    obtain ⟨-, -, hu⟩ := Store.upsert_device_cases upserted
    rw [hu] at hb
    exact Or.inl ⟨b, hb, .refl b⟩
  | @revoked _ reason _ _ _ entries doomed planned valued =>
    obtain ⟨devices, revocations, hv⟩ := t.revoke_all_frame now reason entries doomed
    rw [hv] at hb
    exact Or.inl ⟨b, hb, .refl b⟩

/-- No attempt is ever removed. -/
theorem Change.attempt_kept {t u : Tables} {op : StoreOp} (change : Change now op t u)
    {a : Attempt} (ha : a ∈ t.attempts) : ∃ b ∈ u.attempts, a.Advances b := by
  cases change with
  | unchanged | tokens | created | swept | moved | issued | burned | failed | attested =>
    exact ⟨a, ha, .refl a⟩
  | @decided c _ req _ _ _ guard =>
    obtain ⟨devices, hd, -⟩ := c.decide_eq now req t
    rw [hd]
    exact ⟨a, ha, .refl a⟩
  | claimed guard inserted =>
    exact ⟨a, ((Table.insert_some inserted).2 a).mpr (Or.inl ha), .refl a⟩
  | crossed => exact Tables.update_attempt_kept (Attempt.crossed_advances now) (fun _ => rfl) ha
  | refused => exact Tables.update_attempt_kept (Attempt.abandoned_advances now) (fun _ => rfl) ha
  | recorded detail guard | finished detail guard =>
    exact Tables.update_attempt_kept
      (fun a => a.recorded_advances now detail guard.isOpen guard.outcome.1) (fun _ => rfl) ha
  | @leased attemptId owner _ _ _ =>
    simp only [Tables.leaseAttempt, Table.mem_update]
    refine ⟨_, ⟨a, ha, rfl⟩, ?_⟩
    split
    · exact ⟨⟨rfl, rfl, rfl, rfl, rfl, rfl, rfl, rfl⟩, fun _ => rfl, id⟩
    · exact .refl a
  | enrolled named live upserted inserted =>
    obtain ⟨-, -, hu⟩ := Store.upsert_device_cases upserted
    rw [hu]
    exact ⟨a, ha, .refl a⟩
  | @revoked _ reason _ _ _ entries doomed planned valued =>
    obtain ⟨devices, revocations, hv⟩ := t.revoke_all_frame now reason entries doomed
    rw [hv]
    exact ⟨a, ha, .refl a⟩

end Solvio.Approval
