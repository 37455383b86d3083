import Mathlib.Data.List.Sort
import Solvio.Lib.Runs
import Solvio.Lib.Table

namespace Solvio.Deep
open Solvio.Lib

/-! ### Events and tasks -/

inductive EventKind where
  | taskCreated
  | executorStarting
  | running
  | observation
  | toolRequested
  | waitingForApproval
  | resumed
  | cancelling
  | cancelled
  | succeeded
  | failed
deriving DecidableEq

inductive Status where
  | queued
  | running
  | waitingForUser
  | succeeded
  | failed
  | cancelled
  | timedOut
deriving DecidableEq

/-- `TERMINAL_KINDS`. -/
def EventKind.terminal : EventKind → Bool
  | .cancelled | .succeeded | .failed => true
  | _ => false

/-- `TERMINAL`. -/
def Status.terminal : Status → Bool
  | .succeeded | .failed | .cancelled | .timedOut => true
  | _ => false

/-- `_STATUS_FOR`. -/
def EventKind.status? : EventKind → Option Status
  | .taskCreated | .executorStarting => some .queued
  | .running | .resumed => some .running
  | .waitingForApproval => some .waitingForUser
  | .succeeded => some .succeeded
  | .failed => some .failed
  | .cancelled => some .cancelled
  | .observation | .toolRequested | .cancelling => none

/-- What is written beside an event; a caller hands in a `P`. -/
inductive Payload (P : Type) where
  | created (taskType : String)
  | given (p : P)
  | late (p : P)
  | lateEnd (kind : EventKind)
  | ended (reason : String)
  | bySolvio
deriving DecidableEq

structure DeepEvent (P : Type) where
  taskId : String
  seq : Nat
  kind : EventKind
  payload : Payload P
deriving DecidableEq

/-- A row of `deep_tasks`. -/
structure Task (R : Type) where
  taskId : String
  taskType : String
  instruction : String
  status : Status
  executorRunId : String
  nextSeq : Nat
  result : Option R
  failureReason : String

variable {P R : Type}

instance : Keyed (Task R) String := ⟨Task.taskId⟩

/-- The three tables. -/
structure Journal (P R : Type) where
  tasks : Table (Task R)
  events : List (DeepEvent P)
  paused : Bool

namespace Journal

variable (j : Journal P R)

def empty : Journal P R := ⟨Table.empty, [], false⟩

/-- The events of a task, in the order of their rows. -/
def log (id : String) : List (DeepEvent P) := j.events.filter (fun e => e.taskId = id)

/-- `_append`, of a row that was just read. -/
def append (row : Task R) (kind : EventKind) (payload : Payload P) : DeepEvent P × Journal P R :=
  let event := ⟨row.taskId, row.nextSeq, kind, payload⟩
  (event, { j with
    events := j.events ++ [event]
    tasks := j.tasks.modify row.taskId (fun t => { t with nextSeq := row.nextSeq + 1 })
      (fun _ => rfl) })

/-- `_set_status`: never over a terminal status. -/
def setStatus (id : String) (status : Status) : Journal P R :=
  { j with
    tasks := j.tasks.modify id
      (fun t => if t.status.terminal then t else { t with status := status })
      (fun t => by split <;> rfl) }

/-! ### The calls -/

inductive Call (P R : Type) where
  | create (id taskType instruction : String)
  | attachRun (id runId : String)
  | record (id : String) (kind : EventKind) (payload : P)
  | finish (id : String) (kind : EventKind) (result : Option R) (reason : String)
      (status : Option Status)
  | cancel (id : String)
  | setPaused (paused : Bool)

/-- An event or `None`, a truth value, or an exception. -/
inductive Answer (P : Type) where
  | event (e : Option (DeepEvent P))
  | flag (b : Bool)
  | integrityError
  | keyError

/-- `_create`. -/
def create (id taskType instruction : String) : Answer P × Journal P R :=
  let row : Task R := ⟨id, taskType, instruction, .queued, "", 0, none, ""⟩
  match j.tasks.insert? row with
  | none => (.integrityError, j)
  | some tasks =>
    let (event, j) := { j with tasks := tasks }.append row .taskCreated (.created taskType)
    (.event (some event), j)

/-- `_attach_run`. -/
def attachRun (id runId : String) : Answer P × Journal P R :=
  match j.tasks.find? id with
  | none => (.flag false, j)
  | some row =>
    (.flag (!row.status.terminal), { j with
      tasks := j.tasks.modify id (fun t => { t with executorRunId := runId }) (fun _ => rfl) })

/-- `_record`. A late end is an observation. -/
def record (id : String) (kind : EventKind) (payload : P) : Answer P × Journal P R :=
  match j.tasks.find? id with
  | none => (.event none, j)
  | some row =>
    let alreadyDone := row.status.terminal
    let late := alreadyDone && kind.terminal
    let kind := if late then .observation else kind
    let (event, j) := j.append row kind (if late then .late payload else .given payload)
    let j := match kind.status? with
      | some status => if alreadyDone then j else j.setStatus id status
      | none => j
    (.event (if alreadyDone then none else some event), j)

/-- `_finish`. A kind without a status is a `KeyError` behind the insert. -/
def finish (id : String) (kind : EventKind) (result : Option R) (reason : String)
    (status : Option Status) : Answer P × Journal P R :=
  match j.tasks.find? id with
  | none => (.event none, j)
  | some row =>
    if row.status.terminal then
      let (event, j) := j.append row .observation (.lateEnd kind)
      (.event (some event), j)
    else
      let (event, j) := j.append row kind (.ended reason)
      match status.or kind.status? with
      | none => (.keyError, j)
      | some status => (.event (some event), { j with
          tasks := j.tasks.modify id
            (fun t => { t with status := status, result := result, failureReason := reason })
            (fun _ => rfl) })

/-- `_cancel`. -/
def cancel (id : String) : Answer P × Journal P R :=
  match j.tasks.find? id with
  | none => (.event none, j)
  | some row =>
    if row.status.terminal then (.event none, j)
    else
      let (event, j) := j.append row .cancelled .bySolvio
      (.event (some event), { j with
        tasks := j.tasks.modify id (fun t => { t with status := .cancelled }) (fun _ => rfl) })

def step : Call P R → Answer P × Journal P R
  | .create id taskType instruction => j.create id taskType instruction
  | .attachRun id runId => j.attachRun id runId
  | .record id kind payload => j.record id kind payload
  | .finish id kind result reason status => j.finish id kind result reason status
  | .cancel id => j.cancel id
  | .setPaused paused => (.flag paused, { j with paused := paused })

/-- What is pushed to the readers behind a call. `create` pushes nothing. -/
def published : Call P R → Answer P → Option (DeepEvent P)
  | .create .., _ => none
  | _, .event e => e
  | _, _ => none

/-- `_unfinished`. -/
def unfinished : List (Task R) := j.tasks.rows.filter (fun t => !t.status.terminal)

/-- `_replay`. -/
def replay (id : String) (afterSeq : Int) : List (DeepEvent P) :=
  ((j.log id).filter (fun e => afterSeq < e.seq)).insertionSort (fun e e' => e.seq ≤ e'.seq)

end Journal

/-! ### The rows that a call leaves -/

/-- The row behind `record`. -/
def Task.recorded (row : Task R) (kind : EventKind) : Task R :=
  { row with
    nextSeq := row.nextSeq + 1
    status := if row.status.terminal then row.status else kind.status?.getD row.status }

/-- The row behind `finish`, in this status. -/
def Task.finished (row : Task R) (result : Option R) (reason : String) :
    Option Status → Task R
  | none => { row with nextSeq := row.nextSeq + 1 }
  | some status =>
    if row.status.terminal then { row with nextSeq := row.nextSeq + 1 }
    else { row with
      nextSeq := row.nextSeq + 1, status := status, result := result, failureReason := reason }

/-- The row behind `cancel`. -/
def Task.cancelled (row : Task R) : Task R :=
  if row.status.terminal then row
  else { row with nextSeq := row.nextSeq + 1, status := .cancelled }

/-- What `finish` writes when it ends a task. -/
def endStatus (kind : EventKind) (status : Option Status) : Option Status := status.or kind.status?

/-- A task ends with a terminal kind and in a terminal status. -/
def Journal.Call.Proper : Journal.Call P R → Prop
  | .finish _ kind _ _ status => kind.terminal = true ∧ ∀ s ∈ status, s.terminal = true
  | _ => True

/-- The task a call is about. -/
def Journal.Call.taskId? : Journal.Call P R → Option String
  | .create id .. | .attachRun id _ | .record id .. | .finish id .. | .cancel id => some id
  | .setPaused _ => none

section Rows

variable {j : Journal P R} {id : String} {row : Task R}

theorem status_kind {kind : EventKind} {status : Status} (h : kind.status? = some status) :
    status.terminal = kind.terminal := by
  cases kind <;> cases h <;> rfl

theorem no_status_kind {kind : EventKind} (h : kind.status? = none) : kind.terminal = false := by
  cases kind <;> first | rfl | cases h

theorem end_status {kind : EventKind} {status : Option Status}
    (h : kind.terminal = true ∧ ∀ s ∈ status, s.terminal = true) :
    ∃ s, endStatus kind status = some s ∧ s.terminal = true := by
  obtain ⟨hkind, hstatus⟩ := h
  cases status with
  | some s => exact ⟨s, rfl, hstatus s rfl⟩
  | none =>
    cases hs : kind.status? with
    | none =>
      rw [no_status_kind hs] at hkind
      cases hkind
    | some s => exact ⟨s, hs, (status_kind hs).trans hkind⟩

theorem find_append {kind : EventKind} {payload : Payload P}
    (h : j.tasks.find? row.taskId = some row) (id : String) :
    (j.append row kind payload).2.tasks.find? id =
      if id = row.taskId then some { row with nextSeq := row.nextSeq + 1 }
      else j.tasks.find? id := by
  simp only [Journal.append, Table.find_modify, h, Option.map_some]

theorem find_set_status {s : Status} {t : Task R} (h : j.tasks.find? id = some t)
    (ht : t.status.terminal = false) (id' : String) : (j.setStatus id s).tasks.find? id' =
      if id' = id then some { t with status := s } else j.tasks.find? id' := by
  simp [Journal.setStatus, h, ht]

theorem find_record (h : j.tasks.find? row.taskId = some row) (kind : EventKind) (payload : P)
    (id : String) : (j.record row.taskId kind payload).2.tasks.find? id =
      if id = row.taskId then some (row.recorded kind) else j.tasks.find? id := by
  simp only [Journal.record, h, Task.recorded]
  cases hdone : row.status.terminal with
  | true =>
    simp only [if_true]
    cases (if true && kind.terminal then EventKind.observation else kind).status? <;>
    exact find_append h id
  | false =>
    simp only [Bool.false_and, Bool.false_eq_true, if_false]
    cases kind.status? with
    | none => exact find_append h id
    | some s =>
      have hnext : (j.append row kind (.given payload)).2.tasks.find? row.taskId =
          some { row with nextSeq := row.nextSeq + 1 } := by
        rw [find_append h, if_pos rfl]
      simp only [find_set_status hnext hdone, Option.getD_some]
      split
      · rfl
      · rename_i hne
        rw [find_append h, if_neg hne]

theorem find_finish (h : j.tasks.find? row.taskId = some row) (kind : EventKind)
    (result : Option R) (reason : String) (status : Option Status) (id : String) :
    (j.finish row.taskId kind result reason status).2.tasks.find? id =
      if id = row.taskId then some (row.finished result reason (endStatus kind status))
      else j.tasks.find? id := by
  cases hdone : row.status.terminal with
  | true =>
    have hrow : row.finished result reason (endStatus kind status) =
        { row with nextSeq := row.nextSeq + 1 } := by
      cases endStatus kind status with
      | none => rfl
      | some s => simp only [Task.finished, hdone, if_true]
    simp only [Journal.finish, h, hdone, if_true, hrow]
    exact find_append h id
  | false =>
    simp only [Journal.finish, h, hdone, Bool.false_eq_true, if_false, endStatus]
    cases status.or kind.status? with
    | none => exact find_append h id
    | some s =>
      simp only [Task.finished, hdone, Bool.false_eq_true, if_false, Table.find_modify,
        find_append h, if_true, Option.map_some]
      split <;> rfl

theorem find_cancel (h : j.tasks.find? row.taskId = some row) (id : String) :
    (j.cancel row.taskId).2.tasks.find? id =
      if id = row.taskId then some row.cancelled else j.tasks.find? id := by
  cases hdone : row.status.terminal with
  | true =>
    simp only [Journal.cancel, h, hdone, if_true, Task.cancelled]
    split
    · rename_i heq
      rw [heq, h]
    · rfl
  | false =>
    simp only [Journal.cancel, h, hdone, Bool.false_eq_true, if_false, Task.cancelled,
      Table.find_modify, find_append h, if_true, Option.map_some]
    split <;> rfl

theorem find_attach (h : j.tasks.find? row.taskId = some row) (runId id : String) :
    (j.attachRun row.taskId runId).2.tasks.find? id =
      if id = row.taskId then some { row with executorRunId := runId } else j.tasks.find? id := by
  simp only [Journal.attachRun, h, Table.find_modify, Option.map_some]

/-- A new task, or none: then the key was there. -/
theorem create_cases (j : Journal P R) (id taskType instruction : String) :
    (j.create id taskType instruction = (.integrityError, j)) ∨
    (j.tasks.find? id = none ∧
      (j.create id taskType instruction).1 =
        .event (some ⟨id, 0, .taskCreated, .created taskType⟩) ∧
      (j.create id taskType instruction).2.events =
        j.events ++ [⟨id, 0, .taskCreated, .created taskType⟩] ∧
      ∀ id', (j.create id taskType instruction).2.tasks.find? id' =
        if id' = id then some ⟨id, taskType, instruction, .queued, "", 1, none, ""⟩
        else j.tasks.find? id') := by
  cases hins : j.tasks.insert? (⟨id, taskType, instruction, .queued, "", 0, none, ""⟩ : Task R) with
  | none => exact Or.inl (by simp only [Journal.create, hins])
  | some tasks =>
    have hfind (k : String) : tasks.find? k =
        if id = k then some ⟨id, taskType, instruction, .queued, "", 0, none, ""⟩
        else j.tasks.find? k := Table.find_insert hins k
    have hnew : j.tasks.find? id = none := (Table.insert_some hins).1
    simp only [Journal.create, hins]
    refine Or.inr ⟨hnew, rfl, rfl, fun id' => ?_⟩
    simp only [Journal.append, Table.find_modify, hfind, if_true, Option.map_some]
    by_cases hid : id' = id
    · rw [if_pos hid, if_pos hid]
    · rw [if_neg hid, if_neg (Ne.symm hid), if_neg hid]

/-- A call for a task that is not there does nothing. -/
theorem step_unknown {c : Journal.Call P R} (hid : c.taskId? = some id)
    (h : j.tasks.find? id = none) (hc : ∀ taskType instruction, c ≠ .create id taskType instruction) :
    (j.step c).2 = j ∧ Journal.published c (j.step c).1 = none := by
  cases c with
  | create id' taskType instruction =>
    cases hid
    exact absurd rfl (hc taskType instruction)
  | setPaused paused => cases hid
  | attachRun id' runId =>
    cases hid
    simp only [Journal.step, Journal.attachRun, h, Journal.published, and_self]
  | record id' kind payload =>
    cases hid
    simp only [Journal.step, Journal.record, h, Journal.published, and_self]
  | finish id' kind result reason status =>
    cases hid
    simp only [Journal.step, Journal.finish, h, Journal.published, and_self]
  | cancel id' =>
    cases hid
    simp only [Journal.step, Journal.cancel, h, Journal.published, and_self]

end Rows

/-! ### What a call does -/

/-- Only the handle of the executor may differ. -/
structure Task.Same (t t' : Task R) : Prop where
  status : t'.status = t.status
  nextSeq : t'.nextSeq = t.nextSeq
  result : t'.result = t.result
  failureReason : t'.failureReason = t.failureReason

/-- How a journal and what is pushed to the readers come of a journal. -/
inductive Effect (j j' : Journal P R) : Option (DeepEvent P) → Prop where
  | quiet (events : j'.events = j.events)
      (rows : ∀ id, Option.Rel Task.Same (j.tasks.find? id) (j'.tasks.find? id)) : Effect j j' none
  | created {e : DeepEvent P} {row' : Task R} (new : j.tasks.find? e.taskId = none)
      (events : j'.events = j.events ++ [e])
      (rows : ∀ id, j'.tasks.find? id = if id = e.taskId then some row' else j.tasks.find? id)
      (first : e.seq = 0 ∧ e.kind.terminal = false)
      (next : row'.nextSeq = 1 ∧ row'.status.terminal = false) : Effect j j' none
  | appended {e : DeepEvent P} {row row' : Task R} {pushed : Option (DeepEvent P)}
      (old : j.tasks.find? e.taskId = some row) (events : j'.events = j.events ++ [e])
      (rows : ∀ id, j'.tasks.find? id = if id = e.taskId then some row' else j.tasks.find? id)
      (next : e.seq = row.nextSeq ∧ row'.nextSeq = row.nextSeq + 1)
      (running : row.status.terminal = false →
        row'.status.terminal = e.kind.terminal ∧ pushed = some e)
      (finished : row.status.terminal = true → e.kind.terminal = false ∧
        row'.status = row.status ∧ row'.result = row.result ∧
        row'.failureReason = row.failureReason ∧ ∀ e' ∈ pushed, e' = e) : Effect j j' pushed

section Calls

variable {j : Journal P R} {id : String} {row : Task R}

theorem Task.Same.refl (t : Task R) : t.Same t := ⟨rfl, rfl, rfl, rfl⟩

theorem effect_none (j : Journal P R) : Effect j j none := by
  refine .quiet rfl (fun id => ?_)
  cases j.tasks.find? id with
  | none => exact .none
  | some t => exact .some (.refl t)

theorem record_effect (h : j.tasks.find? row.taskId = some row) (kind : EventKind) (payload : P) :
    Effect j (j.record row.taskId kind payload).2
      (Journal.published (R := R) (.record row.taskId kind payload)
        (j.record row.taskId kind payload).1) := by
  have hrows := find_record h kind payload
  cases hdone : row.status.terminal with
  | true =>
    have hevents : (j.record row.taskId kind payload).2.events = j.events ++ [⟨row.taskId,
        row.nextSeq, if kind.terminal then .observation else kind,
        if kind.terminal then .late payload else .given payload⟩] := by
      simp only [Journal.record, h, hdone, Bool.true_and, if_true]
      cases (if kind.terminal then EventKind.observation else kind).status? <;> rfl
    refine .appended h hevents hrows ⟨rfl, rfl⟩ (fun hrun => by rw [hdone] at hrun; cases hrun)
      (fun _ => ⟨?_, ?_, rfl, rfl, fun e he => ?_⟩)
    · split
      · rfl
      · rename_i hne
        exact Bool.eq_false_iff.mpr hne
    · simp only [Task.recorded, hdone, if_true]
    · simp only [Journal.record, h, hdone, if_true, Journal.published] at he
      cases he
  | false =>
    have hevents : (j.record row.taskId kind payload).2.events =
        j.events ++ [⟨row.taskId, row.nextSeq, kind, .given payload⟩] := by
      simp only [Journal.record, h, hdone, Bool.false_and, Bool.false_eq_true, if_false]
      cases kind.status? <;> rfl
    refine .appended h hevents hrows ⟨rfl, rfl⟩ (fun _ => ⟨?_, ?_⟩)
      (fun hend => by rw [hdone] at hend; cases hend)
    · simp only [Task.recorded, hdone, Bool.false_eq_true, if_false]
      cases hstatus : kind.status? with
      | none => rw [no_status_kind hstatus, Option.getD_none, hdone]
      | some s => exact status_kind hstatus
    · simp only [Journal.record, h, hdone, Bool.false_and, Bool.false_eq_true, if_false,
        Journal.published]
      rfl

theorem finish_effect (h : j.tasks.find? row.taskId = some row) {kind : EventKind}
    (result : Option R) (reason : String) {status : Option Status}
    (hproper : kind.terminal = true ∧ ∀ s ∈ status, s.terminal = true) :
    Effect j (j.finish row.taskId kind result reason status).2
      (Journal.published (.finish row.taskId kind result reason status)
        (j.finish row.taskId kind result reason status).1) := by
  obtain ⟨s, hs, hend⟩ := end_status hproper
  have hrows := find_finish h kind result reason status
  rw [hs] at hrows
  have hs : status.or kind.status? = some s := hs
  cases hdone : row.status.terminal with
  | true =>
    have hevents : (j.finish row.taskId kind result reason status).2.events =
        j.events ++ [⟨row.taskId, row.nextSeq, .observation, .lateEnd kind⟩] := by
      simp only [Journal.finish, h, hdone, if_true]
      rfl
    have hrow : row.finished result reason (some s) = { row with nextSeq := row.nextSeq + 1 } := by
      simp only [Task.finished, hdone, if_true]
    rw [hrow] at hrows
    refine .appended h hevents hrows ⟨rfl, rfl⟩ (fun hrun => by rw [hdone] at hrun; cases hrun)
      (fun _ => ⟨rfl, rfl, rfl, rfl, fun e he => ?_⟩)
    simp only [Journal.finish, h, hdone, if_true, Journal.published] at he
    exact (Option.some.inj he).symm
  | false =>
    have hevents : (j.finish row.taskId kind result reason status).2.events =
        j.events ++ [⟨row.taskId, row.nextSeq, kind, .ended reason⟩] := by
      simp only [Journal.finish, h, hdone, Bool.false_eq_true, if_false, hs]
      rfl
    refine .appended h hevents hrows ⟨rfl, ?_⟩ (fun _ => ⟨?_, ?_⟩)
      (fun hend' => by rw [hdone] at hend'; cases hend')
    · simp only [Task.finished, hdone, Bool.false_eq_true, if_false]
    · simp only [Task.finished, hdone, Bool.false_eq_true, if_false]
      exact hend.trans hproper.1.symm
    · simp only [Journal.finish, h, hdone, Bool.false_eq_true, if_false, hs, Journal.published]
      rfl

theorem cancel_effect (h : j.tasks.find? row.taskId = some row) :
    Effect j (j.cancel row.taskId).2
      (Journal.published (R := R) (.cancel row.taskId) (j.cancel row.taskId).1) := by
  have hrows := find_cancel h
  cases hdone : row.status.terminal with
  | true =>
    simp only [Journal.cancel, h, hdone, if_true]
    exact effect_none j
  | false =>
    have hevents : (j.cancel row.taskId).2.events =
        j.events ++ [⟨row.taskId, row.nextSeq, .cancelled, .bySolvio⟩] := by
      simp only [Journal.cancel, h, hdone, Bool.false_eq_true, if_false]
      rfl
    refine .appended h hevents hrows ⟨rfl, ?_⟩ (fun _ => ⟨?_, ?_⟩)
      (fun hend => by rw [hdone] at hend; cases hend)
    · simp only [Task.cancelled, hdone, Bool.false_eq_true, if_false]
    · simp only [Task.cancelled, hdone, Bool.false_eq_true, if_false]
      rfl
    · simp only [Journal.cancel, h, hdone, Bool.false_eq_true, if_false, Journal.published]
      rfl

theorem create_effect (j : Journal P R) (id taskType instruction : String) :
    Effect j (j.create id taskType instruction).2 none := by
  rcases create_cases j id taskType instruction with hsame | ⟨hnew, -, hevents, hrows⟩
  · rw [hsame]
    exact effect_none j
  · exact .created hnew hevents hrows ⟨rfl, rfl⟩ ⟨rfl, rfl⟩

theorem attach_effect (h : j.tasks.find? row.taskId = some row) (runId : String) :
    Effect j (j.attachRun row.taskId runId).2 none := by
  refine .quiet (by simp only [Journal.attachRun, h]) (fun id => ?_)
  rw [find_attach h]
  split
  · rename_i heq
    rw [heq, h]
    exact .some ⟨rfl, rfl, rfl, rfl⟩
  · cases j.tasks.find? id with
    | none => exact .none
    | some t => exact .some (.refl t)

/-- Every call that ends a task properly has one of these effects. -/
theorem step_effect (j : Journal P R) {c : Journal.Call P R} (hc : c.Proper) :
    Effect j (j.step c).2 (Journal.published c (j.step c).1) := by
  cases hid : c.taskId? with
  | none =>
    cases c with
    | setPaused paused =>
      refine .quiet rfl (fun id => ?_)
      simp only [Journal.step]
      cases j.tasks.find? id with
      | none => exact .none
      | some t => exact .some (.refl t)
    | _ => cases hid
  | some id =>
    cases h : j.tasks.find? id with
    | none =>
      cases c with
      | create id taskType instruction => exact create_effect j id taskType instruction
      | _ =>
        obtain ⟨hsame, hnone⟩ := step_unknown hid h (fun _ _ hc => by cases hc)
        rw [hsame, hnone]
        exact effect_none j
    | some row =>
      obtain rfl : row.taskId = id := Table.key_of_find h
      cases c with
      | create id taskType instruction => exact create_effect j id taskType instruction
      | setPaused paused => cases hid
      | attachRun id runId =>
        cases hid
        have hquiet := attach_effect h runId
        simp only [Journal.step, Journal.attachRun, h] at hquiet ⊢
        exact hquiet
      | record id kind payload =>
        cases hid
        exact record_effect h kind payload
      | finish id kind result reason status =>
        cases hid
        exact finish_effect h result reason hc
      | cancel id =>
        cases hid
        exact cancel_effect h

/-- A call for one task does not touch the row of another. -/
theorem step_foreign (j : Journal P R) {c : Journal.Call P R} (h : c.taskId? ≠ some id) :
    (j.step c).2.tasks.find? id = j.tasks.find? id := by
  cases hother : c.taskId? with
  | none =>
    cases c with
    | setPaused paused => rfl
    | _ => cases hother
  | some id' =>
    have hne : id ≠ id' := fun heq => h (by rw [hother, heq])
    cases hrow : j.tasks.find? id' with
    | none =>
      cases c with
      | create id₁ taskType instruction =>
        cases hother
        rcases create_cases j id' taskType instruction with hsame | ⟨-, -, -, hrows⟩
        · simp only [Journal.step, hsame]
        · exact (hrows id).trans (if_neg hne)
      | _ => rw [(step_unknown hother hrow (fun _ _ hc => by cases hc)).1]
    | some row =>
      obtain rfl : row.taskId = id' := Table.key_of_find hrow
      cases c with
      | setPaused paused => rfl
      | create id₁ taskType instruction =>
        cases hother
        rcases create_cases j row.taskId taskType instruction with hsame | ⟨-, -, -, hrows⟩
        · simp only [Journal.step, hsame]
        · exact (hrows id).trans (if_neg hne)
      | attachRun id₁ runId =>
        cases hother
        exact (find_attach hrow runId id).trans (if_neg hne)
      | record id₁ kind payload =>
        cases hother
        exact (find_record hrow kind payload id).trans (if_neg hne)
      | finish id₁ kind result reason status =>
        cases hother
        exact (find_finish hrow kind result reason status id).trans (if_neg hne)
      | cancel id₁ =>
        cases hother
        exact (find_cancel hrow id).trans (if_neg hne)

end Calls

/-! ### Whole runs -/

/-- The log of a task is numbered without a gap and ends the task once. -/
structure Journal.Sound (j : Journal P R) : Prop where
  numbered : ∀ {id : String} {row : Task R}, j.tasks.find? id = some row →
    (j.log id).map DeepEvent.seq = List.range row.nextSeq
  owned : ∀ {id : String}, j.tasks.find? id = none → j.log id = []
  ended : ∀ {id : String} {row : Task R}, j.tasks.find? id = some row →
    (j.log id).countP (fun e => e.kind.terminal) = if row.status.terminal then 1 else 0

/-- Logs only grow, and what a task ended with stays. -/
structure Journal.Later (j j' : Journal P R) : Prop where
  logs : ∀ id, j.log id <+: j'.log id
  kept : ∀ {id : String} {row : Task R}, j.tasks.find? id = some row →
    row.status.terminal = true → ∃ row', j'.tasks.find? id = some row' ∧
      row'.status = row.status ∧ row'.result = row.result ∧
      row'.failureReason = row.failureReason

section Runs

variable {j j' j'' : Journal P R} {id : String} {e : DeepEvent P}
  {pushed : Option (DeepEvent P)}

theorem Journal.Later.refl (j : Journal P R) : j.Later j :=
  ⟨fun _ => List.prefix_rfl, fun h _ => ⟨_, h, rfl, rfl, rfl⟩⟩

theorem Journal.Later.trans (h : j.Later j') (h' : j'.Later j'') : j.Later j'' := by
  refine ⟨fun id => (h.logs id).trans (h'.logs id), fun hrow hend => ?_⟩
  obtain ⟨row', hrow', hstatus, hresult, hreason⟩ := h.kept hrow hend
  obtain ⟨row'', hrow'', hstatus', hresult', hreason'⟩ := h'.kept hrow' (by rw [hstatus, hend])
  exact ⟨row'', hrow'', hstatus'.trans hstatus, hresult'.trans hresult, hreason'.trans hreason⟩

theorem log_snoc (h : j'.events = j.events ++ [e]) :
    j'.log id = if e.taskId = id then j.log id ++ [e] else j.log id := by
  simp only [Journal.log, h, List.filter_append, List.filter_cons, List.filter_nil, decide_eq_true_eq]
  split
  · rfl
  · exact List.append_nil _

theorem log_same (h : j'.events = j.events) : j'.log id = j.log id := by
  rw [Journal.log, h, Journal.log]

theorem empty_sound : (Journal.empty : Journal P R).Sound :=
  ⟨fun h => (by cases h), fun _ => rfl, fun h => (by cases h)⟩

/-- A row on the far side of a quiet step comes of one that differs in the
handle alone. -/
theorem same_back (rows : ∀ id, Option.Rel Task.Same (j.tasks.find? id) (j'.tasks.find? id))
    {row' : Task R} (h : j'.tasks.find? id = some row') :
    ∃ row, j.tasks.find? id = some row ∧ row.Same row' := by
  have hrel := rows id
  rw [h] at hrel
  cases hold : j.tasks.find? id with
  | none =>
    rw [hold] at hrel
    cases hrel
  | some row =>
    rw [hold] at hrel
    cases hrel with
    | some hsame => exact ⟨row, rfl, hsame⟩

theorem same_forth (rows : ∀ id, Option.Rel Task.Same (j.tasks.find? id) (j'.tasks.find? id))
    {row : Task R} (h : j.tasks.find? id = some row) :
    ∃ row', j'.tasks.find? id = some row' ∧ row.Same row' := by
  have hrel := rows id
  rw [h] at hrel
  cases hnew : j'.tasks.find? id with
  | none =>
    rw [hnew] at hrel
    cases hrel
  | some row' =>
    rw [hnew] at hrel
    cases hrel with
    | some hsame => exact ⟨row', rfl, hsame⟩

theorem sound_quiet (events : j'.events = j.events)
    (rows : ∀ id, Option.Rel Task.Same (j.tasks.find? id) (j'.tasks.find? id)) (h : j.Sound) :
    j'.Sound := by
  refine ⟨fun hrow => ?_, fun hnone => ?_, fun hrow => ?_⟩
  · obtain ⟨row, hold, hsame⟩ := same_back rows hrow
    rw [log_same events, h.numbered hold, hsame.nextSeq]
  · rw [log_same events]
    refine h.owned ?_
    cases hold : j.tasks.find? _ with
    | none => rfl
    | some row =>
      obtain ⟨row', hnew, -⟩ := same_forth rows hold
      rw [hnone] at hnew
      cases hnew
  · obtain ⟨row, hold, hsame⟩ := same_back rows hrow
    rw [log_same events, h.ended hold, hsame.status]

/-- One event more, for a task whose row then counts it. -/
theorem sound_snoc {row' : Task R} (events : j'.events = j.events ++ [e])
    (rows : ∀ id, j'.tasks.find? id = if id = e.taskId then some row' else j.tasks.find? id)
    (numbered : (j.log e.taskId).map DeepEvent.seq = List.range e.seq)
    (next : row'.nextSeq = e.seq + 1)
    (ended : (j.log e.taskId).countP (fun e => e.kind.terminal) +
      (if e.kind.terminal then 1 else 0) = if row'.status.terminal then 1 else 0) (h : j.Sound) :
    j'.Sound := by
  refine ⟨fun {id row} hrow => ?_, fun {id} hnone => ?_, fun {id row} hrow => ?_⟩
  · rw [rows] at hrow
    rw [log_snoc events]
    split at hrow
    · rename_i heq
      subst heq
      cases hrow
      rw [if_pos rfl, List.map_append, numbered, next, List.range_succ, List.map_singleton]
    · rename_i hne
      rw [if_neg (Ne.symm hne), h.numbered hrow]
  · rw [rows] at hnone
    rw [log_snoc events]
    split at hnone
    · cases hnone
    · rename_i hne
      rw [if_neg (Ne.symm hne), h.owned hnone]
  · rw [rows] at hrow
    rw [log_snoc events]
    split at hrow
    · rename_i heq
      subst heq
      cases hrow
      rw [if_pos rfl, List.countP_append, ← ended, List.countP_singleton]
    · rename_i hne
      rw [if_neg (Ne.symm hne), h.ended hrow]

theorem effect_sound (heffect : Effect j j' pushed) (h : j.Sound) : j'.Sound := by
  cases heffect with
  | quiet events rows => exact sound_quiet events rows h
  | created new events rows first next =>
    refine sound_snoc events rows ?_ ?_ ?_ h
    · rw [h.owned new, first.1]
      rfl
    · rw [next.1, first.1]
    · rw [h.owned new, first.2, next.2]
      rfl
  | @appended _ row _ _ old events rows next running finished =>
    refine sound_snoc events rows ?_ ?_ ?_ h
    · rw [h.numbered old, next.1]
    · rw [next.1, next.2]
    · rw [h.ended old]
      cases hdone : row.status.terminal with
      | true =>
        obtain ⟨hkind, hstatus, -⟩ := finished hdone
        simp [hkind, hstatus, hdone]
      | false =>
        rw [(running hdone).1]
        simp

theorem effect_later (heffect : Effect j j' pushed) : j.Later j' := by
  cases heffect with
  | quiet events rows =>
    refine ⟨fun id => by rw [log_same events], fun hrow _ => ?_⟩
    obtain ⟨row', hnew, hsame⟩ := same_forth rows hrow
    exact ⟨row', hnew, hsame.status, hsame.result, hsame.failureReason⟩
  | created new events rows first next =>
    refine ⟨fun id => ?_, fun {id row} hrow _ => ?_⟩
    · rw [log_snoc events]
      split
      · exact List.prefix_append _ _
      · exact List.prefix_rfl
    · refine ⟨row, ?_, rfl, rfl, rfl⟩
      rw [rows, if_neg, hrow]
      rintro rfl
      rw [new] at hrow
      cases hrow
  | @appended e row row' _ old events rows next running finished =>
    refine ⟨fun id => ?_, fun {id row₁} hrow hend => ?_⟩
    · rw [log_snoc events]
      split
      · exact List.prefix_append _ _
      · exact List.prefix_rfl
    · by_cases hid : id = e.taskId
      · subst hid
        rw [old] at hrow
        cases hrow
        obtain ⟨-, hstatus, hresult, hreason, -⟩ := finished hend
        exact ⟨row', by rw [rows, if_pos rfl], hstatus, hresult, hreason⟩
      · exact ⟨row₁, by rw [rows, if_neg hid, hrow], rfl, rfl, rfl⟩

end Runs

/-- The one worker of the pool: calls in some order. -/
def Journal.machine (P R : Type) : Machine (Journal P R) where
  Call := Journal.Call P R
  Reply _ := Journal.Answer P
  step c j := j.step c
  init := .empty

section sample

/-- A task is cancelled, and its executor still reports a success. -/
def lateCalls : List (Journal.Call String Unit) := [
  .create "t" "research" "wind", .record "t" .running "run", .cancel "t",
  .record "t" .succeeded "done", .finish "t" .failed none "late" none]

def lateJournal : Journal String Unit := (Journal.machine String Unit).after .empty lateCalls

theorem late_run : (Journal.machine String Unit).Run (fun _ c => Journal.Call.Proper c)
    ((Journal.machine String Unit).history [] .empty lateCalls) lateJournal := by
  refine Machine.Run.history .start (fun (c : Journal.Call String Unit) hc _ => ?_)
  have hc : c ∈ lateCalls := hc
  simp only [lateCalls, List.mem_cons, List.not_mem_nil, or_false] at hc
  rcases hc with rfl | rfl | rfl | rfl | rfl
  · trivial
  · trivial
  · trivial
  · trivial
  · exact ⟨rfl, fun s hs => (by cases hs)⟩

end sample

/-! ### Replaying -/

/-- A log that is numbered from `k` on, after a number. -/
theorem filter_numbered {l : List (DeepEvent P)} {k n : Nat}
    (h : l.map DeepEvent.seq = List.range' k n) (a : Int) :
    l.filter (fun e => a < e.seq) = l.drop (a + 1 - k).toNat := by
  induction l generalizing k n with
  | nil => simp
  | cons e l ih =>
    cases n with
    | zero => cases h
    | succ n =>
      rw [List.map_cons, List.range'_succ, List.cons.injEq] at h
      obtain ⟨hseq, hrest⟩ := h
      have ih := ih hrest
      by_cases hlt : a < e.seq
      · rw [List.filter_cons_of_pos (by simpa using hlt), ih]
        have hzero : (a + 1 - (k : Int)).toNat = 0 := by omega
        have hzero' : (a + 1 - ((k + 1 : Nat) : Int)).toNat = 0 := by omega
        rw [hzero, hzero']
        rfl
      · rw [List.filter_cons_of_neg (by simpa using hlt), ih]
        have hsucc : (a + 1 - (k : Int)).toNat = (a + 1 - ((k + 1 : Nat) : Int)).toNat + 1 := by
          omega
        rw [hsucc]
        rfl

theorem log_numbered {j : Journal P R} (h : j.Sound) (id : String) :
    ∃ n, (j.log id).map DeepEvent.seq = List.range n := by
  cases hrow : j.tasks.find? id with
  | none => exact ⟨0, by rw [h.owned hrow]; rfl⟩
  | some row => exact ⟨row.nextSeq, h.numbered hrow⟩

theorem log_sorted {j : Journal P R} (h : j.Sound) (id : String) :
    (j.log id).Pairwise (fun e e' => e.seq < e'.seq) := by
  obtain ⟨n, hn⟩ := log_numbered h id
  have hlt : ((j.log id).map DeepEvent.seq).Pairwise (· < ·) := by
    rw [hn]
    exact List.pairwise_lt_range
  exact List.pairwise_map.mp hlt

/-- What is replayed is the rest of the log. -/
theorem replay_eq {j : Journal P R} (h : j.Sound) (id : String) (afterSeq : Int) :
    j.replay id afterSeq = (j.log id).drop (afterSeq + 1).toNat := by
  obtain ⟨n, hn⟩ := log_numbered h id
  rw [List.range_eq_range'] at hn
  have hrest := filter_numbered hn afterSeq
  rw [Int.natCast_zero, Int.sub_zero] at hrest
  rw [Journal.replay, ← hrest]
  refine List.Pairwise.insertionSort_eq ?_
  exact ((log_sorted h id).filter _).imp Nat.le_of_lt

end Solvio.Deep
