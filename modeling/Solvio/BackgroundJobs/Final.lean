import Solvio.BackgroundJobs.Manager

namespace Solvio.BackgroundJobs.RunsOnce
open Solvio.Lib

abbrev Event : Type := shared.Event

abbrev World : Type := shared.World

/-! ### The property -/

/-- The job is submitted to this node with this. -/
def Submits (e : Event) (id nodeId : String) (s : Submission) : Prop :=
  e.call.op = .submitJob id nodeId s

/-- A job that has ended keeps its status. -/
def Final (e : Event) : Prop := ∀ id row, e.pre.find? id = some row → row.status.terminal = true →
  ∃ row', e.post.find? id = some row' ∧ row'.status = row.status

/-- A reconciliation gets to a job by submitting it or by looking it up. -/
def Visits (e : Event) (id : String) : Prop := (∃ node s, Submits e id node s) ∨ e.call.op = .get id

/-- The task has returned, or something was raised in it. -/
def Over (W : World) (task : Nat) : Prop :=
  W.tasks task = some (.ret ()) ∨ W.tasks task = some .fail

/-- A job runs once, its end is final, and a reconciliation leaves none out. -/
structure JobsRunOnce (W : World) : Prop where
  same : ∀ e ∈ W.log, ∀ e' ∈ W.log, ∀ id node s node' s', Submits e id node s →
    Submits e' id node' s' → node = node' ∧ s = s'
  final : ∀ e ∈ W.log, Final e
  stopped : ∀ e ∈ W.log, ∀ id node s, Submits e id node s →
    ∃ row, e.pre.find? id = some row ∧ row.status.terminal = false
  visited : ∀ newer e older, W.log = newer ++ e :: older → e.call.op = .listNonTerminal →
    Over W e.call.task → ∀ row ∈ e.pre, row.status.terminal = false →
      ∃ v ∈ newer, v.call.task = e.call.task ∧ Visits v row.localJobId

/-! ### When it is so -/

/-- The row of a job is read, or created. -/
def Looks : Op → String → Prop
  | .get id, k => id = k
  | .listNonTerminal, _ => True
  | .createPending job, k => job.localJobId = k
  | _, _ => False

/-- A job is submitted, or its status is written. -/
def Acts : Op → String → Prop
  | .submitJob id _ _, k => id = k
  | .markSubmitted id _ _, k => id = k
  | .updateStatus id _ _ _, k => id = k
  | _, _ => False

def Ended (t : Ledger) (id : String) : Prop := ∃ row, t.find? id = some row ∧ row.status.terminal = true

def Open (t : Ledger) (id : String) : Prop := ∃ row, t.find? id = some row ∧ row.status.terminal = false

/-- The step ends the job. -/
def Finishes (e : Event) (id : String) : Prop := ¬ Ended e.pre id ∧ Ended e.post id

/-- Nobody has ended the job since the task has read its row. -/
def Untouched (older : List Event) (task : Nat) (id : String) : Prop :=
  ∀ newer v rest, older = newer ++ v :: rest → v.call.task = task → Looks v.call.op id →
    (∀ n ∈ newer, n.call.task = task → ¬ Looks n.call.op id) → ∀ n ∈ newer, ¬ Finishes n id

/-- The node answers, or is not reached, or does not know the job. -/
def Harmless (e : Event) : Prop := match e.call.op with
  | .submitJob _ _ _ => ∀ x, e.call.input.submitted = .error x → x = .unavailable
  | .getJob _ _ _ => ∀ x, e.call.input.jobMeta = .error x → x = .unavailable ∨ x = .capability "NOT_FOUND"
  | _ => True

/-- What a step goes by: nobody has ended the job in between, a node that is asked to
cancel a job that has ended answers what the ledger says, and a node that a
reconciliation asks does not refuse. -/
structure Regular (older : List Event) (e : Event) : Prop where
  untouched : ∀ id, Acts e.call.op id → Untouched older e.call.task id
  again : ∀ id node remote row status, e.call.op = .cancelJob id node remote →
    e.pre.find? id = some row → row.status.terminal = true →
      e.call.input.cancelled = .ok status → localStatus status .cancelRequested = row.status
  caught : ∀ v ∈ older, v.call.task = e.call.task → v.call.op = .listNonTerminal → Harmless e

/-! ### What the programs ask for -/

/-- The task has read the row when the job had not ended, and has not read it again. -/
def Fresh (task : Nat) (id : String) (L : List Event) : Prop :=
  Shared.Since (w := shared) task (fun op => ¬ Looks op id)
    (fun _ v => Looks v.call.op id ∧ Open v.post id) L

/-- The node has been asked to cancel a job that had ended, and answers this. -/
def Again (task : Nat) (id : String) (status : LocalJobStatus) (L : List Event) : Prop :=
  Shared.Since (w := shared) task (fun _ => False) (fun older c => (∃ node remote answer,
    c.call.op = .cancelJob id node remote ∧ c.call.input.cancelled = .ok answer ∧
      localStatus answer .cancelRequested = status) ∧ ∃ v ∈ older, Ended v.post id) L

/-- A row that somebody has seen. -/
def Seen (L : List Event) (id : String) (p : Job → Prop) : Prop :=
  ∃ v ∈ L, ∃ row, v.post.find? id = some row ∧ p row

def permits : shared.Discipline := fun L a => match a.op with
  | .createPending job => job.status = .localPendingSubmit ∧ job.remoteJobId = none
  | .submitJob id node s => Fresh a.task id L ∧ Seen L id (fun row => row.nodeId = node) ∧
    Seen L id (fun row => row.submission = s)
  | .markSubmitted id _ _ => Fresh a.task id L
  | .updateStatus id status _ _ =>
    (Fresh a.task id L ∨ Again a.task id status L ∨
      status = .cancelled ∧ Seen L id (fun row => row.remoteJobId = none ∧ row.status.terminal = true)) ∧
    (status ≠ .cancelled → Seen L id (fun row => row.remoteJobId.isSome))
  | _ => True

/-! ### What a step does to a row -/

/-- What stays of a row. -/
structure Continues (row row' : Job) : Prop where
  nodeId : row'.nodeId = row.nodeId
  submission : row'.submission = row.submission
  remote : row.remoteJobId.isSome → row'.remoteJobId.isSome

theorem Continues.refl (row : Job) : Continues row row := ⟨rfl, rfl, id⟩

theorem Continues.trans {a b c : Job} (h : Continues a b) (g : Continues b c) : Continues a c :=
  ⟨g.nodeId.trans h.nodeId, g.submission.trans h.submission, fun ha => g.remote (h.remote ha)⟩

/-- The row that a step leaves of a row. -/
def left (op : Op) (row : Job) : Job := match op with
  | .markSubmitted id remote status => if row.localJobId = id then row.submitted remote status else row
  | .updateStatus id status attempts error =>
    if row.localJobId = id then row.updated status attempts error else row
  | .setResultMeta id available digest =>
    if row.localJobId = id then row.described available digest else row
  | _ => row

theorem step_left (op : Op) (o : Outside) {t : Ledger} {id : String} {row : Job}
    (h : t.find? id = some row) : (step op o t).2.find? id = some (left op row) := by
  have hkey : row.localJobId = id := Table.key_of_find h
  cases op with
  | createPending job =>
    simp only [step, left]
    cases hinsert : t.insert? job with
    | none => exact h
    | some t' =>
      have hfree := (Table.insert_some hinsert).1
      change t'.find? id = some row
      rw [Table.find_insert hinsert]
      split
      · rename_i heq
        rw [heq, h] at hfree
        cases hfree
      · exact h
  | markSubmitted k remote status =>
    simp only [step, left, Table.find_modify, hkey]
    by_cases hk : id = k
    · rw [if_pos hk, if_pos hk, ← hk, h]
      rfl
    · rw [if_neg hk, if_neg hk, h]
  | updateStatus k status attempts error =>
    simp only [step, left, Table.find_modify, hkey]
    by_cases hk : id = k
    · rw [if_pos hk, if_pos hk, ← hk, h]
      rfl
    · rw [if_neg hk, if_neg hk, h]
  | setResultMeta k available digest =>
    simp only [step, left, Table.find_modify, hkey]
    by_cases hk : id = k
    · rw [if_pos hk, if_pos hk, ← hk, h]
      rfl
    · rw [if_neg hk, if_neg hk, h]
  | _ => exact h

theorem left_continues (op : Op) (row : Job) : Continues row (left op row) := by
  unfold left
  split
  · split
    · exact ⟨rfl, rfl, fun _ => rfl⟩
    · exact .refl row
  · split
    · exact ⟨rfl, rfl, id⟩
    · exact .refl row
  · split
    · exact ⟨rfl, rfl, id⟩
    · exact .refl row
  · exact .refl row

/-- Only a submission and a new status change the status. -/
theorem left_status {op : Op} {row : Job} (h : ¬ Acts op row.localJobId) :
    (left op row).status = row.status := by
  unfold left
  split
  · split
    · rename_i heq
      exact absurd heq.symm h
    · rfl
  · split
    · rename_i heq
      exact absurd heq.symm h
    · rfl
  · split <;> rfl
  · rfl

theorem left_key (op : Op) (row : Job) : (left op row).localJobId = row.localJobId := by
  unfold left
  split
  · split <;> rfl
  · split <;> rfl
  · split <;> rfl
  · rfl

/-! ### What runs keep -/

section
variable {L : List Event} {t : Ledger}

/-- A row stays, with what it is submitted with. -/
theorem row_stays (hrun : shared.machine.Run permits L t) {v : Event} (hv : v ∈ L) {id : String}
    {row : Job} (hrow : v.post.find? id = some row) :
    ∃ row', t.find? id = some row' ∧ Continues row row' := by
  obtain ⟨newer, older, rfl⟩ := List.append_of_mem hv
  refine (hrun.carried (fun t => ∃ row', t.find? id = some row' ∧ Continues row row')
    ⟨row, hrow, .refl row⟩ ?_).1
  rintro n - ⟨row', hrow', hcontinues⟩
  exact ⟨_, step_left n.call.op n.call.input hrow', hcontinues.trans (left_continues ..)⟩

theorem seen_stays (hrun : shared.machine.Run permits L t) {id : String} {p : Job → Prop}
    (h : Seen L id p) (hp : ∀ row row', Continues row row' → p row → p row') :
    ∃ row, t.find? id = some row ∧ p row := by
  obtain ⟨v, hv, row, hrow, hprow⟩ := h
  obtain ⟨row', hrow', hcontinues⟩ := row_stays hrun hv hrow
  exact ⟨row', hrow', hp _ _ hcontinues hprow⟩

theorem submission_seen (hrun : shared.machine.Run permits L t) {id node : String} {s : Submission}
    (hnode : Seen L id (fun row => row.nodeId = node))
    (hs : Seen L id (fun row => row.submission = s)) :
    ∃ row, t.find? id = some row ∧ row.nodeId = node ∧ row.submission = s := by
  obtain ⟨row, hrow, rfl⟩ := seen_stays hrun hnode (fun _ _ h hp => h.nodeId.trans hp)
  obtain ⟨row', hrow', rfl⟩ := seen_stays hrun hs (fun _ _ h hp => h.submission.trans hp)
  rw [hrow] at hrow'
  cases hrow'
  exact ⟨row, hrow, rfl, rfl⟩

theorem all_same (hrun : shared.machine.Run permits L t) {e e' : Event} (he : e ∈ L) (he' : e' ∈ L)
    {id node : String} {s : Submission} {node' : String} {s' : Submission}
    (h : Submits e id node s) (h' : Submits e' id node' s') : node = node' ∧ s = s' := by
  have hnow : ∀ e ∈ L, ∀ node s, Submits e id node s →
      ∃ row, t.find? id = some row ∧ row.nodeId = node ∧ row.submission = s := by
    intro e he node s h
    obtain ⟨newer, older, rfl, hbefore, hpermits⟩ := hrun.of_mem he
    have hop : e.call.op = .submitJob id node s := h
    simp only [permits, hop] at hpermits
    obtain ⟨row, hrow, hnode, hs⟩ := submission_seen hbefore hpermits.2.1 hpermits.2.2
    obtain ⟨row', hrow', hcontinues⟩ := row_stays hrun he (step_left e.call.op e.call.input hrow)
    have hall := (left_continues e.call.op row).trans hcontinues
    exact ⟨row', hrow', hall.nodeId.trans hnode, hall.submission.trans hs⟩
  obtain ⟨row, hrow, hnode, hs⟩ := hnow e he node s h
  obtain ⟨row', hrow', hnode', hs'⟩ := hnow e' he' node' s' h'
  rw [hrow] at hrow'
  cases hrow'
  exact ⟨hnode.symm.trans hnode', hs.symm.trans hs'⟩

/-- What has no id at the node is not submitted yet, or cancelled. -/
def Remoteless (t : Ledger) : Prop := ∀ id row, t.find? id = some row → row.remoteJobId = none →
  row.status = .localPendingSubmit ∨ row.status = .cancelled

/-- A row after a step was there before it, or has just been created. -/
theorem row_origin (op : Op) (o : Outside) (t : Ledger) {id : String} {row : Job}
    (h : (step op o t).2.find? id = some row) :
    (∃ old, t.find? id = some old ∧ row = left op old) ∨ op = .createPending row := by
  cases hold : t.find? id with
  | some old =>
    rw [step_left op o hold] at h
    exact .inl ⟨old, rfl, (Option.some.inj h).symm⟩
  | none =>
    cases op with
    | createPending job =>
      simp only [step] at h
      cases hinsert : t.insert? job with
      | none =>
        rw [hinsert] at h
        simp [hold] at h
      | some t' =>
        rw [hinsert] at h
        simp only [Table.find_insert hinsert] at h
        split at h
        · exact .inr (congrArg _ (Option.some.inj h))
        · rw [hold] at h
          cases h
    | markSubmitted k remote status =>
      simp only [step, Table.find_modify] at h
      split at h
      · rename_i heq
        rw [← heq, hold] at h
        cases h
      · rw [hold] at h
        cases h
    | updateStatus k status attempts error =>
      simp only [step, Table.find_modify] at h
      split at h
      · rename_i heq
        rw [← heq, hold] at h
        cases h
      · rw [hold] at h
        cases h
    | setResultMeta k available digest =>
      simp only [step, Table.find_modify] at h
      split at h
      · rename_i heq
        rw [← heq, hold] at h
        cases h
      · rw [hold] at h
        cases h
    | _ =>
      rw [show (step _ o t).2 = t from rfl, hold] at h
      cases h

theorem run_remoteless (hrun : shared.machine.Run permits L t) : Remoteless t := by
  refine hrun.induct (fun _ t => Remoteless t) (fun id row hrow _ => ?_) ?_
  · simp [Table.find_empty] at hrow
  · intro L t a hrun hpermits ih id row hrow hremote
    rcases row_origin a.op a.input t hrow with ⟨old, hold, rfl⟩ | hop
    · have hkey : old.localJobId = id := Table.key_of_find hold
      have hnone : old.remoteJobId = none := by
        by_contra hsome
        have := (left_continues a.op old).remote (Option.isSome_iff_ne_none.mpr hsome)
        rw [hremote] at this
        cases this
      by_cases hacts : Acts a.op old.localJobId
      · cases hop : a.op with
        | updateStatus k status attempts error =>
          simp only [hop, Acts] at hacts
          simp only [left, hacts, if_true]
          by_cases hcancelled : status = .cancelled
          · exact .inr hcancelled
          · simp only [permits, hop] at hpermits
            obtain ⟨row, hrow, hsome⟩ := seen_stays hrun (hpermits.2 hcancelled)
              (fun _ _ h => h.remote)
            rw [hacts, hkey, hold] at hrow
            cases hrow
            rw [hnone] at hsome
            cases hsome
        | markSubmitted k remote status =>
          simp only [hop, Acts] at hacts
          simp [left, hop, hacts, Job.submitted] at hremote
        | setResultMeta k available digest => simp [hop, Acts] at hacts
        | _ =>
          simp only [left]
          exact ih id old hold hnone
      · rw [left_status hacts]
        exact ih id old hold hnone
    · simp only [permits, hop] at hpermits
      exact .inl hpermits.1

/-- What a task has read, and nobody has ended since, has not ended. -/
theorem open_now (hrun : shared.machine.Run permits L t) {task : Nat} {id : String}
    (hfresh : Fresh task id L) (huntouched : Untouched L task id) : Open t id := by
  obtain ⟨newer, v, older, rfl, htask, ⟨hlooks, hopen⟩, hunseen⟩ := hfresh
  have hkept := huntouched newer v older rfl htask hlooks hunseen
  refine (hrun.carried (Open · id) hopen (fun n hn hpre => ?_)).1
  obtain ⟨row, hrow, hstatus⟩ := hpre
  have hpost := step_left n.call.op n.call.input hrow
  refine ⟨_, hpost, ?_⟩
  by_contra hterminal
  refine hkept n hn ⟨?_, _, hpost, by simpa using hterminal⟩
  rintro ⟨row', hrow', hended⟩
  rw [hrow] at hrow'
  cases hrow'
  rw [hstatus] at hended
  cases hended

/-- What has ended before steps that end nothing anew is as it was. -/
theorem ended_now (hrun : shared.machine.Run permits L t) (hfinal : ∀ e ∈ L, Final e) {v : Event}
    (hv : v ∈ L) {id : String} {row : Job} (hrow : v.post.find? id = some row)
    (hended : row.status.terminal = true) :
    ∃ row', t.find? id = some row' ∧ row'.status = row.status := by
  obtain ⟨newer, older, rfl⟩ := List.append_of_mem hv
  refine (hrun.carried (fun t => ∃ row', t.find? id = some row' ∧ row'.status = row.status)
    ⟨row, hrow, rfl⟩ ?_).1
  rintro n hn ⟨row', hrow', hstatus⟩
  obtain ⟨row'', hrow'', hsame⟩ := hfinal n (List.mem_append_left _ hn) id row' hrow'
    (hstatus ▸ hended)
  exact ⟨row'', hrow'', hsame.trans hstatus⟩

/-- What a step does that does not touch a job's status. -/
theorem final_idle {e : Event} {id : String} {row : Job} (hrow : e.pre.find? id = some row)
    (hidle : ¬ Acts e.call.op id) :
    ∃ row', e.post.find? id = some row' ∧ row'.status = row.status := by
  have hkey : row.localJobId = id := Table.key_of_find hrow
  exact ⟨_, step_left e.call.op e.call.input hrow, left_status (hkey ▸ hidle)⟩

/-- The next step, after steps that were final. -/
theorem step_final (hrun : shared.machine.Run permits L t) (heach : Machine.Each Regular L)
    (hfinal : ∀ e ∈ L, Final e) {a : shared.Act} (hpermits : permits L a)
    (hregular : Regular L ⟨t, a⟩) :
    Final ⟨t, a⟩ ∧ ∀ id node s, a.op = .submitJob id node s → Open t id := by
  have hopen : ∀ id, Acts a.op id → Fresh a.task id L → Open t id := fun id hacts hfresh =>
    open_now hrun hfresh (hregular.untouched id hacts)
  refine ⟨fun id row hrow hended => ?_, fun id node s hop => ?_⟩
  · by_cases hacts : Acts a.op id
    · have hclosed : ¬ Open t id := by
        rintro ⟨row', hrow', hstatus⟩
        have heq : t.find? id = some row := hrow
        rw [heq] at hrow'
        cases hrow'
        rw [hended] at hstatus
        cases hstatus
      cases hop : a.op with
      | submitJob k node s =>
        simp only [permits, hop] at hpermits
        obtain rfl : k = id := by simpa [hop, Acts] using hacts
        exact absurd (hopen k hacts hpermits.1) hclosed
      | markSubmitted k remote status =>
        simp only [permits, hop] at hpermits
        obtain rfl : k = id := by simpa [hop, Acts] using hacts
        exact absurd (hopen k hacts hpermits) hclosed
      | updateStatus k status attempts error =>
        simp only [permits, hop] at hpermits
        obtain rfl : k = id := by simpa [hop, Acts] using hacts
        have hkey : row.localJobId = k := Table.key_of_find hrow
        have hpost := step_left a.op a.input hrow
        refine ⟨_, hpost, ?_⟩
        have hleft : (left a.op row).status = status := by simp [left, hop, hkey, Job.updated]
        rw [hleft]
        rcases hpermits.1 with hfresh | hagain | ⟨rfl, v, hv, old, hold, hremote, hterminal⟩
        · exact absurd (hopen k hacts hfresh) hclosed
        · -- the node has been asked about a job that had ended
          obtain ⟨newer, c, older, rfl, htask, ⟨⟨node, remote, answer, hc, hanswer, hlocal⟩,
            v, hv, old, hold, hterminal⟩, -⟩ := hagain
          obtain ⟨hbefore, -⟩ := hrun.split
          obtain ⟨row', hrow', hstatus⟩ := ended_now hbefore
            (fun e he => hfinal e (by simp [he])) hv hold hterminal
          have hsame := heach.split.1.again k node remote row' answer hc hrow'
            (hstatus ▸ hterminal) hanswer
          have hcpost : c.post.find? k = some row' := by
            have h := step_left c.call.op c.call.input hrow'
            have hidle : left c.call.op row' = row' := by simp [left, hc]
            rwa [hidle] at h
          obtain ⟨now, hnow, hkept⟩ := ended_now hrun hfinal
            (List.mem_append_right _ (List.mem_cons_self ..)) hcpost (hstatus ▸ hterminal)
          rw [show t.find? k = some row from hrow] at hnow
          cases hnow
          rw [hkept, ← hsame, hlocal]
        · -- a job that the node does not have has been cancelled here
          obtain ⟨newer, older, rfl⟩ := List.append_of_mem hv
          obtain ⟨hbefore, hfirst⟩ := hrun.split
          have hstatus : old.status = .cancelled := by
            rcases run_remoteless (hbefore.step hfirst) k old hold hremote with h | h
            · rw [h] at hterminal
              cases hterminal
            · exact h
          obtain ⟨now, hnow, hkept⟩ := ended_now hrun hfinal hv hold hterminal
          rw [show t.find? k = some row from hrow] at hnow
          cases hnow
          rw [hkept, hstatus]
      | _ => simp [hop, Acts] at hacts
    · exact final_idle hrow hacts
  · simp only [permits, hop] at hpermits
    exact hopen id (by simp [hop, Acts]) hpermits.1

theorem run_final (hrun : shared.machine.Run permits L t) (heach : Machine.Each Regular L) :
    ∀ e ∈ L, Final e ∧ ∀ id node s, Submits e id node s → Open e.pre id := by
  induction hrun with
  | start => exact fun e he => by cases he
  | step hbefore hpermits ih =>
    intro e he
    have hall := ih heach.2
    rcases List.mem_cons.mp he with rfl | he
    · exact step_final hbefore heach.2 (fun e he => (hall e he).1) hpermits heach.1
    · exact hall e he

end

end Solvio.BackgroundJobs.RunsOnce
