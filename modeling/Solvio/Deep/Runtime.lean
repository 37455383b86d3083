import Solvio.Deep.Journal
import Solvio.Lib.Triples

namespace Solvio.Deep
open Solvio.Lib

variable {P R : Type}

/-! ### The executor and its events -/

/-- What a call of the client raises: a `HermesError`, or something else. -/
inductive Fault where
  | hermes (reason : String)
  | other

/-- An event of a run: its kind, the fields that are read, and what the journal
keeps of it. -/
structure Raw (P : Type) where
  event : String
  delta : String
  output : String
  error : String
  payload : P

/-- `_EVENT_MAP`. What is not in it is an observation. -/
def eventMap (kind : String) : EventKind :=
  if kind = "run.started" then .running
  else if kind = "run.stopping" then .cancelling
  else if kind = "tool.started" then .toolRequested
  else if kind = "approval.request" then .waitingForApproval
  else if kind = "approval.responded" then .resumed
  else .observation

/-- The run says that it is over. -/
def Raw.ends (raw : Raw P) : Bool :=
  raw.event = "run.completed" ∨ raw.event = "run.failed" ∨ raw.event = "run.cancelled"

/-- `MAX_SCHEMA_RETRIES`. -/
def maxSchemaRetries : Nat := 1

/-! ### What the pump shares -/

/-- A call of `cancel_task`, by what it does next. -/
inductive Cancel where
  | cancels
  | asksRun
  | stops (run : String)
  | done
deriving DecidableEq

/-- The state around the pump of one task. `attached` and `closed` are for the
proofs: the runs whose handle was ever stored, and those whose stream has told
their end or run dry. -/
structure Shared (P R : Type) where
  journal : Journal P R
  leaseOpen : Bool
  attached : List String
  closed : List String
  stopped : List String
  cancels : List Cancel

namespace Shared

variable (s : Shared P R)

def call (c : Journal.Call P R) : Journal.Answer P × Shared P R :=
  ((s.journal.step c).1, { s with journal := (s.journal.step c).2 })

/-- `_run_id`. -/
def runId (id : String) : String := ((s.journal.tasks.find? id).map Task.executorRunId).getD ""

/-- `_attach_run`. -/
def attachRun (id run : String) : Bool × Shared P R :=
  let (answer, s) := s.call (.attachRun id run)
  (match answer with
    | .flag wanted => wanted
    | _ => false, { s with attached := run :: s.attached })

end Shared

/-- A move of someone else: a call for another task, or what `cancel_task` does
for this one. -/
inductive Other (id : String) (s : Shared P R) : Shared P R → Prop where
  | call (c : Journal.Call P R) (h : c.taskId? ≠ some id) : Other id s (s.call c).2
  | starts : Other id s { s with cancels := s.cancels ++ [.cancels] }
  | cancels {i : Nat} (h : s.cancels[i]? = some .cancels) :
    Other id s { (s.call (.cancel id)).2 with cancels := s.cancels.set i .asksRun }
  | asksRun {i : Nat} (h : s.cancels[i]? = some .asksRun) : Other id s { s with
      cancels := s.cancels.set i (if s.runId id = "" then .done else .stops (s.runId id)) }
  | stops {i : Nat} {run : String} (h : s.cancels[i]? = some (.stops run)) : Other id s { s with
      cancels := s.cancels.set i .done, stopped := run :: s.stopped }

def Others (id : String) : Shared P R → Shared P R → Prop := Relation.ReflTransGen (Other id)

/-! ### The pump -/

/-- What the pump waits for. -/
inductive Awaited where
  | turn
  | submit (instruction : String)
  | stop (run : String)
  | answer (run : String)
  | events (run : String)

/-- A stream is what it will still yield and how it ends. -/
abbrev Awaited.Reply (P : Type) : Awaited → Type
  | .turn => Unit
  | .submit _ => Except Fault String
  | .stop _ | .answer _ => Except Fault Bool
  | .events _ => List (Raw P) × Except Fault Unit

/-- Inside of `wait_for` the deadline may come instead of an answer. -/
inductive Query where
  | plain (a : Awaited)
  | timed (a : Awaited)

abbrev Query.Answer (P : Type) : Query → Type
  | .plain a => a.Reply P
  | .timed a => Option (a.Reply P)

inductive Exn where
  | timeout
  | fault (f : Fault)
  | paused
  | integrity

abbrev effects (P R : Type) : Async (Shared P R) where
  Query := Query
  Answer := Query.Answer P
  Exn := Exn
  Input := Unit
  enter _ s := s

abbrev Code (P R : Type) (α : Type) : Type := Coro (effects P R) α

def raise {α : Type} (e : Exn) : Code P R α := Coro.raise e

def ask (a : Awaited) : Bool → Code P R (a.Reply P)
  | true => do
    match ← Coro.query (ℓ := effects P R) (Query.timed a) with
    | none => raise .timeout
    | some reply => return reply
  | false => Coro.query (ℓ := effects P R) (Query.plain a)

/-- A call of the journal: the worker does it, and later the loop hears of it. -/
def job {α : Type} (timed : Bool) (f : Shared P R → α × Shared P R) : Code P R α := do
  ask .turn timed
  let s ← Coro.state
  Coro.modify (fun s => (f s).2)
  ask .turn timed
  return (f s).1

def submit (instruction : String) : Code P R String := do
  match ← ask (.submit instruction) true with
  | .error f => raise (.fault f)
  | .ok run => if run = "" then raise (.fault (.hermes "executor_failure")) else return run

/-- A `HermesError` is no drama here. -/
def heeded (reply : Except Fault Bool) : Code P R Unit :=
  match reply with
  | .error .other => raise (.fault .other)
  | _ => return

def stop (timed : Bool) (run : String) : Code P R Unit := do
  Coro.modify (fun s => { s with stopped := run :: s.stopped })
  heeded (← ask (.stop run) timed)

def isOver (run : String) : Code P R Unit :=
  Coro.modify (fun s => { s with closed := run :: s.closed })

/-- Some events say that the run is closed. -/
def hear (run : String) (raw : Raw P) : Code P R Unit := if raw.ends then isOver run else return

def closeLease : Code P R Unit := Coro.modify (fun s => { s with leaseOpen := false })

/-- A task of its driver, and what the driver makes of the executor's words. -/
structure Drive (P R : Type) where
  taskId : String
  taskType : String
  instruction : String
  /-- whether the broker opens a lease -/
  leased : Bool
  starting : P
  denied : P
  retried : String → P
  /-- the problem with the form of an answer, if there is one -/
  problem : String → Option String
  result : String → R
  classify : String → String
  reworded : String → String

namespace Drive

variable (D : Drive P R)

def record (kind : EventKind) (payload : P) : Code P R (Option (DeepEvent P)) := do
  match ← job true (fun s => s.call (.record D.taskId kind payload)) with
  | .event e => return e
  | _ => return none

def finish (timed : Bool) (kind : EventKind) (result : Option R) (reason : String)
    (status : Option Status) : Code P R Unit := do
  let _ ← job timed (fun s => s.call (.finish D.taskId kind result reason status))

/-- `_fail`. -/
def fail (timed : Bool) (reason : String) (status : Option Status) : Code P R Unit := do
  let row ← job timed (fun s => (s.journal.tasks.find? D.taskId, s))
  if row.any (fun t => t.status.terminal) then return
  D.finish timed .failed none reason status

/-- `_succeed`. -/
def succeed (output : String) : Code P R Unit :=
  D.finish true .succeeded (some (D.result output)) "" none

/-- `_decide_approval`. -/
def decideApproval (run : String) : Code P R Unit := do
  heeded (← ask (.answer run) true)
  let _ ← D.record .resumed D.denied

/-- The loop of `_one_run`. -/
def follow (run : String) (ending : Except Fault Unit) :
    List (Raw P) → String → Code P R (Option String)
  | [], text => do
    ask .turn true
    match ending with
    | .error f => raise (.fault f)
    | .ok () => do
      isOver run
      return some text
  | raw :: raws, text => do
    ask .turn true
    if raw.event = "message.delta" then follow run ending raws (text ++ raw.delta)
    else do
      hear run raw
      match ← D.record (eventMap raw.event) raw.payload with
      | none => return none
      | some _ =>
        if raw.event = "approval.request" then do
          D.decideApproval run
          follow run ending raws text
        else if raw.event = "run.completed" then
          return some (if raw.output = "" then text else raw.output)
        else if raw.event = "run.failed" then do
          D.fail true (D.classify raw.error) none
          return none
        else if raw.event = "run.cancelled" then do
          D.finish true .cancelled none "cancelled_by_executor" none
          return none
        else follow run ending raws text

/-- `_one_run`. -/
def oneRun (instruction : String) : Code P R (Option String) := do
  let _ ← D.record .executorStarting D.starting
  let run ← submit instruction
  let stillWanted ← job true (fun s => s.attachRun D.taskId run)
  if stillWanted then
    let stream ← ask (.events run) true
    D.follow run stream.2 stream.1 ""
  else do
    stop true run
    return none

/-- One pass of the loop in `_attempt`; `unmet` follows an answer of another form. -/
def pass (instruction : String) (unmet : String → Code P R Unit) : Code P R Unit := do
  match ← D.oneRun instruction with
  | none => return
  | some output =>
    match D.problem output with
    | none => D.succeed output
    | some problem => unmet problem

/-- `_attempt`, with this many corrections left. -/
def attempt : Nat → String → Code P R Unit
  | 0, instruction => D.pass instruction
    (fun problem => D.fail true ("schema_invalid:" ++ problem) none)
  | left + 1, instruction => D.pass instruction (fun problem => do
    let _ ← D.record .observation (D.retried problem)
    attempt left (D.reworded problem))

/-- The `except` clauses of `_drive`. -/
def ended : Exn → Code P R Unit
  | .timeout => do
    let run ← job false (fun s => (s.runId D.taskId, s))
    if run ≠ "" then stop false run
    D.fail false "timeout" (some .timedOut)
  | .fault (.hermes reason) => D.fail false reason none
  | .fault .other => D.fail false "executor_failure" none
  | e => raise e

/-- `_drive`. -/
def drive : Code P R Unit := do
  (((D.attempt maxSchemaRetries D.instruction).handle D.ended) : Code P R Unit).handle
    (fun e => do
      closeLease
      raise e)
  closeLease

/-- `run_task`, and the pump that it starts. -/
def runTask : Code P R Unit := do
  if ← job false (fun s => (s.journal.paused, s)) then raise .paused
  match ← job false (fun s => s.call (.create D.taskId D.taskType D.instruction)) with
  | .integrityError => raise .integrity
  | _ => do
    Coro.modify (fun s => { s with leaseOpen := D.leased })
    ask .turn false
    D.drive

end Drive

/-! ### What the others leave alone -/

/-- A stop was sent to a run, or a call of `cancel_task` is about to send one. -/
def Promised (id : String) (s : Shared P R) (run : String) : Prop :=
  run ≠ "" ∧ (run ∈ s.stopped ∨ .stops run ∈ s.cancels ∨ .asksRun ∈ s.cancels ∧ s.runId id = run)

/-- A status goes on, and stays where it is at the end. -/
def Status.Goes (status status' : Status) : Prop :=
  status'.terminal = status.terminal ∧ (status.terminal = true → status' = status)

/-- What a row may become by the doings of the others: only `cancel_task` ends
a task, and then it stops the run whose handle it finds. -/
structure Kept (id : String) (s s' : Shared P R) : Prop where
  row : ∀ t, s.journal.tasks.find? id = some t → ∃ t', s'.journal.tasks.find? id = some t' ∧
    t'.executorRunId = t.executorRunId ∧ (t.status.Goes t'.status ∨
      t.status.terminal = false ∧ t'.status = .cancelled ∧
        (t.executorRunId ≠ "" → Promised id s' t.executorRunId))
  attached : s'.attached = s.attached
  closed : s'.closed = s.closed
  leaseOpen : s'.leaseOpen = s.leaseOpen
  promised : ∀ run t, s.journal.tasks.find? id = some t → Promised id s run → Promised id s' run

section Kept

variable {id : String} {s s' s'' : Shared P R} {t : Task R}

theorem run_id_some (h : s.journal.tasks.find? id = some t) : s.runId id = t.executorRunId := by
  simp only [Shared.runId, h, Option.map_some, Option.getD_some]

theorem Status.Goes.refl (status : Status) : status.Goes status := ⟨rfl, fun _ => rfl⟩

theorem Status.Goes.trans {a b c : Status} (h : a.Goes b) (h' : b.Goes c) : a.Goes c :=
  ⟨h'.1.trans h.1, fun hend => (h'.2 (h.1.trans hend)).trans (h.2 hend)⟩

theorem Kept.refl (id : String) (s : Shared P R) : Kept id s s :=
  ⟨fun t h => ⟨t, h, rfl, Or.inl (.refl t.status)⟩, rfl, rfl, rfl, fun _ _ _ h => h⟩

theorem Kept.trans (h : Kept id s s') (h' : Kept id s' s'') : Kept id s s'' := by
  refine ⟨fun t ht => ?_, h'.attached.trans h.attached, h'.closed.trans h.closed,
    h'.leaseOpen.trans h.leaseOpen, fun run t ht hp => ?_⟩
  · obtain ⟨t', ht', hrun, hstatus⟩ := h.row t ht
    obtain ⟨t'', ht'', hrun', hstatus'⟩ := h'.row t' ht'
    refine ⟨t'', ht'', hrun'.trans hrun, ?_⟩
    rcases hstatus with hgoes | ⟨hopen, hcancelled, hpromised⟩
    · rcases hstatus' with hgoes' | ⟨hopen', hcancelled', hpromised'⟩
      · exact Or.inl (hgoes.trans hgoes')
      · rw [hgoes.1] at hopen'
        rw [hrun] at hpromised'
        exact Or.inr ⟨hopen', hcancelled', hpromised'⟩
    · rcases hstatus' with hgoes' | ⟨hopen', -, -⟩
      · have hend : t'.status.terminal = true := by
          rw [hcancelled]
          rfl
        exact Or.inr ⟨hopen, (hgoes'.2 hend).trans hcancelled,
          fun hne => h'.promised _ t' ht' (hpromised hne)⟩
      · rw [hcancelled] at hopen'
        cases hopen'
  · obtain ⟨t', ht', -⟩ := h.row t ht
    exact h'.promised run t' ht' (h.promised run t ht hp)

theorem cancelled_run (t : Task R) : t.cancelled.executorRunId = t.executorRunId := by
  unfold Task.cancelled
  split <;> rfl

theorem mem_set {α : Type} {l : List α} {i : Nat} {c x : α} (hi : l[i]? = some c) (hx : x ∈ l)
    (c' : α) : x = c ∨ x ∈ l.set i c' := by
  obtain ⟨k, hk⟩ := List.mem_iff_getElem?.mp hx
  by_cases hik : i = k
  · rw [hik, hk] at hi
    exact Or.inl (Option.some.inj hi)
  · exact Or.inr (List.mem_of_getElem? ((List.getElem?_set_ne hik).trans hk))

/-- A canceller goes on: what the others have promised stays so. -/
theorem promised_moved {i : Nat} {c c' : Cancel} {run : String} (hp : Promised id s run)
    (hi : s.cancels[i]? = some c) (hc : s'.cancels = s.cancels.set i c')
    (hs : ∀ r ∈ s.stopped, r ∈ s'.stopped) (hrun : s'.runId id = s.runId id)
    (hmoved : c = .stops run ∨ c = .asksRun ∧ s.runId id = run →
      run ∈ s'.stopped ∨ .stops run ∈ s'.cancels) : Promised id s' run := by
  refine ⟨hp.1, ?_⟩
  rcases hp.2 with hstopped | hstops | ⟨hasks, hfinds⟩
  · exact Or.inl (hs run hstopped)
  · rcases mem_set hi hstops c' with heq | hmem
    · rcases hmoved (Or.inl heq.symm) with h | h
      · exact Or.inl h
      · exact Or.inr (Or.inl h)
    · exact Or.inr (Or.inl (hc ▸ hmem))
  · rcases mem_set hi hasks c' with heq | hmem
    · rcases hmoved (Or.inr ⟨heq.symm, hfinds⟩) with h | h
      · exact Or.inl h
      · exact Or.inr (Or.inl h)
    · exact Or.inr (Or.inr ⟨hc ▸ hmem, hrun.trans hfinds⟩)

theorem Promised.mono {run : String} (hp : Promised id s run)
    (hs : ∀ r ∈ s.stopped, r ∈ s'.stopped) (hc : ∀ c ∈ s.cancels, c ∈ s'.cancels)
    (hrun : s'.runId id = s.runId id) : Promised id s' run := by
  refine ⟨hp.1, ?_⟩
  rcases hp.2 with hstopped | hstops | ⟨hasks, hfinds⟩
  · exact Or.inl (hs run hstopped)
  · exact Or.inr (Or.inl (hc _ hstops))
  · exact Or.inr (Or.inr ⟨hc _ hasks, hrun.trans hfinds⟩)

/-- The others leave the row alone. -/
theorem kept_row (hfind : s'.journal.tasks.find? id = s.journal.tasks.find? id)
    (ha : s'.attached = s.attached) (ho : s'.closed = s.closed) (hl : s'.leaseOpen = s.leaseOpen)
    (hp : ∀ run, Promised id s run → Promised id s' run) : Kept id s s' :=
  ⟨fun t ht => ⟨t, by rw [hfind, ht], rfl, Or.inl (.refl t.status)⟩, ha, ho, hl,
    fun run _ _ => hp run⟩

theorem run_id_find (hfind : s'.journal.tasks.find? id = s.journal.tasks.find? id) :
    s'.runId id = s.runId id := by
  simp only [Shared.runId, hfind]

theorem cancels_kept {i : Nat} (hi : s.cancels[i]? = some .cancels) :
    Kept id s { (s.call (.cancel id)).2 with cancels := s.cancels.set i .asksRun } := by
  have hasks : Cancel.asksRun ∈ s.cancels.set i .asksRun :=
    List.mem_iff_getElem?.mpr ⟨i, by rw [List.getElem?_set_self', hi]; rfl⟩
  have hrow (t : Task R) (ht : s.journal.tasks.find? id = some t) :
      (s.journal.cancel id).2.tasks.find? id = some t.cancelled := by
    obtain rfl : t.taskId = id := Table.key_of_find ht
    rw [find_cancel ht, if_pos rfl]
  refine ⟨fun t ht => ?_, rfl, rfl, rfl, fun run t ht hp => ?_⟩
  · refine ⟨t.cancelled, hrow t ht, cancelled_run t, ?_⟩
    cases hdone : t.status.terminal with
    | true =>
      simp only [Task.cancelled, hdone, if_true]
      exact Or.inl (.refl t.status)
    | false =>
      refine Or.inr ⟨rfl, by simp only [Task.cancelled, hdone, Bool.false_eq_true, if_false],
        fun hne => ⟨hne, Or.inr (Or.inr ⟨hasks, ?_⟩)⟩⟩
      rw [run_id_some (hrow t ht), cancelled_run]
  · refine promised_moved hp hi rfl (fun _ hr => hr) ?_ (fun hmoved => ?_)
    · rw [run_id_some (hrow t ht), cancelled_run, run_id_some ht]
    · rcases hmoved with heq | ⟨heq, -⟩ <;> cases heq

theorem other_kept (h : Other id s s') : Kept id s s' := by
  cases h with
  | call c hc =>
    have hfind : (s.call c).2.journal.tasks.find? id = s.journal.tasks.find? id :=
      step_foreign s.journal hc
    exact kept_row hfind rfl rfl rfl (fun run hp =>
      hp.mono (fun _ hr => hr) (fun _ hc => hc) (run_id_find hfind))
  | starts =>
    exact kept_row rfl rfl rfl rfl (fun run hp =>
      hp.mono (fun _ hr => hr) (fun _ hc => List.mem_append_left _ hc) rfl)
  | cancels hi => exact cancels_kept hi
  | @asksRun i hi =>
    refine kept_row rfl rfl rfl rfl (fun run hp =>
      promised_moved hp hi rfl (fun _ hr => hr) rfl (fun hmoved => Or.inr ?_))
    rcases hmoved with heq | ⟨-, hfinds⟩
    · cases heq
    · refine List.mem_iff_getElem?.mpr ⟨i, ?_⟩
      rw [List.getElem?_set_self', hi, hfinds, if_neg hp.1]
      rfl
  | stops hi =>
    refine kept_row rfl rfl rfl rfl (fun run hp =>
      promised_moved hp hi rfl (fun _ hr => List.mem_cons_of_mem _ hr) rfl (fun hmoved => ?_))
    rcases hmoved with heq | ⟨heq, -⟩
    · cases heq
      exact Or.inl List.mem_cons_self
    · cases heq

theorem others_kept (h : Others id s s') : Kept id s s' := by
  induction h with
  | refl => exact .refl id s
  | tail _ hstep ih => exact ih.trans (other_kept hstep)

/-- An event that ends nothing. -/
theorem record_kept {kind : EventKind} (hkind : kind.terminal = false) (payload : P) :
    Kept id s (s.call (.record id kind payload)).2 := by
  have hrow (t : Task R) (ht : s.journal.tasks.find? id = some t) :
      (s.journal.record id kind payload).2.tasks.find? id = some (t.recorded kind) := by
    obtain rfl : t.taskId = id := Table.key_of_find ht
    rw [find_record ht, if_pos rfl]
  refine ⟨fun t ht => ⟨_, hrow t ht, rfl, Or.inl ?_⟩, rfl, rfl, rfl, fun run t ht hp => ?_⟩
  · cases hdone : t.status.terminal with
    | true =>
      simp only [Task.recorded, hdone, if_true]
      exact .refl t.status
    | false =>
      simp only [Task.recorded, hdone, Bool.false_eq_true, if_false]
      refine ⟨?_, fun hend => by rw [hdone] at hend; cases hend⟩
      cases hstatus : kind.status? with
      | none => rfl
      | some status => rw [Option.getD_some, status_kind hstatus, hkind, hdone]
  · refine hp.mono (fun _ hr => hr) (fun _ hc => hc) ?_
    rw [run_id_some (hrow t ht), run_id_some ht]
    rfl

/-- No event comes back of a task that has ended, and only of one. -/
theorem record_answer (h : s.journal.tasks.find? id = some t) (kind : EventKind) (payload : P) :
    ∃ e, (s.journal.record id kind payload).1 = .event e ∧
      (e = none → t.status.terminal = true) := by
  cases hdone : t.status.terminal with
  | true => exact ⟨none, by simp only [Journal.record, h, hdone, if_true], fun _ => rfl⟩
  | false =>
    refine ⟨some ⟨t.taskId, t.nextSeq, kind, .given payload⟩, ?_, fun hnone => by cases hnone⟩
    simp only [Journal.record, h, hdone, Bool.false_and, Bool.false_eq_true, if_false]
    rfl

end Kept

/-! ### What holds while the pump waits -/

/-- Every run that the task was given is over. -/
structure Idle (id : String) (s : Shared P R) : Prop where
  row : ∃ t, s.journal.tasks.find? id = some t
  closed : ∀ run ∈ s.attached, run ∈ s.closed

/-- One run may be under way; who has ended the task will stop it. -/
structure Busy (id run : String) (s : Shared P R) : Prop where
  row : ∃ t, s.journal.tasks.find? id = some t ∧ t.executorRunId = run ∧
    (t.status.terminal = true → Promised id s run)
  named : run ≠ ""
  closed : ∀ r ∈ s.attached, r = run ∨ r ∈ s.closed

/-- The deadline finds the handle of the run that may be under way. -/
def Held (id : String) (s : Shared P R) : Prop :=
  ∃ t, s.journal.tasks.find? id = some t ∧
    ∀ run ∈ s.attached, run ∈ s.closed ∨ run ≠ "" ∧ t.executorRunId = run

/-- The task may be ended in this status, if it has not ended yet. -/
def Ending (id : String) (status : Option Status) (s : Shared P R) : Prop :=
  ∃ t, s.journal.tasks.find? id = some t ∧ ∀ run ∈ s.attached, run ∈ s.closed ∨ Promised id s run ∨
    status = none ∧ t.executorRunId = run ∧ run ≠ "" ∧
      (t.status.terminal = true → Promised id s run)

/-- The task has ended, and its runs with it, unless it has failed. -/
def Settled (id : String) (s : Shared P R) : Prop :=
  ∃ t, s.journal.tasks.find? id = some t ∧ t.status.terminal = true ∧
    ∀ run ∈ s.attached, run ∈ s.closed ∨ Promised id s run ∨ t.status = .failed

def Ended (id : String) (s : Shared P R) : Prop :=
  ∃ t, s.journal.tasks.find? id = some t ∧ t.status.terminal = true

/-- What is so stays so, whatever the others do. -/
def Lasting (id : String) (A : Shared P R → Prop) : Prop := ∀ s s', A s → Kept id s s' → A s'

section Lasting

variable {id run : String} {s : Shared P R} {status : Option Status} {A B : Shared P R → Prop}

theorem Lasting.stable (h : Lasting id A) : Coro.Stable (Others id) A :=
  fun s s' hs hR => h s s' hs (others_kept hR)

theorem Lasting.and (h : Lasting id A) (h' : Lasting id B) :
    Lasting id (fun s => A s ∧ B s) :=
  fun s s' hs hk => ⟨h s s' hs.1 hk, h' s s' hs.2 hk⟩

theorem idle_lasting (id : String) : Lasting id (Idle (P := P) (R := R) id) := by
  intro s s' h hk
  obtain ⟨⟨t, ht⟩, hover⟩ := h
  obtain ⟨t', ht', -⟩ := hk.row t ht
  refine ⟨⟨t', ht'⟩, fun run hrun => ?_⟩
  rw [hk.attached] at hrun
  rw [hk.closed]
  exact hover run hrun

theorem busy_lasting (id run : String) : Lasting id (Busy (P := P) (R := R) id run) := by
  intro s s' h hk
  obtain ⟨⟨t, ht, hrun, hend⟩, hnamed, hover⟩ := h
  obtain ⟨t', ht', hrun', hstatus⟩ := hk.row t ht
  refine ⟨⟨t', ht', hrun'.trans hrun, fun hdone => ?_⟩, hnamed, fun r hr => ?_⟩
  · rcases hstatus with hgoes | ⟨-, -, hpromised⟩
    · exact hk.promised run t ht (hend (hgoes.1 ▸ hdone))
    · rw [hrun] at hpromised
      exact hpromised hnamed
  · rw [hk.attached] at hr
    rw [hk.closed]
    exact hover r hr

theorem held_lasting (id : String) : Lasting id (Held (P := P) (R := R) id) := by
  intro s s' h hk
  obtain ⟨t, ht, hall⟩ := h
  obtain ⟨t', ht', hrun', -⟩ := hk.row t ht
  refine ⟨t', ht', fun run hrun => ?_⟩
  rw [hk.attached] at hrun
  rw [hk.closed, hrun']
  exact hall run hrun

theorem ending_lasting (id : String) (status : Option Status) :
    Lasting id (Ending (P := P) (R := R) id status) := by
  intro s s' h hk
  obtain ⟨t, ht, hall⟩ := h
  obtain ⟨t', ht', hrun', hstatus⟩ := hk.row t ht
  refine ⟨t', ht', fun run hrun => ?_⟩
  rw [hk.attached] at hrun
  rw [hk.closed]
  rcases hall run hrun with hover | hp | ⟨hnone, hmine, hnamed, hend⟩
  · exact Or.inl hover
  · exact Or.inr (Or.inl (hk.promised run t ht hp))
  · refine Or.inr (Or.inr ⟨hnone, hrun'.trans hmine, hnamed, fun hdone => ?_⟩)
    rcases hstatus with hgoes | ⟨-, -, hpromised⟩
    · exact hk.promised run t ht (hend (hgoes.1 ▸ hdone))
    · rw [hmine] at hpromised
      exact hpromised hnamed

theorem settled_lasting (id : String) : Lasting id (Settled (P := P) (R := R) id) := by
  intro s s' h hk
  obtain ⟨t, ht, hend, hall⟩ := h
  obtain ⟨t', ht', -, hstatus⟩ := hk.row t ht
  have hsame : t'.status = t.status := by
    rcases hstatus with hgoes | ⟨hopen, -, -⟩
    · exact hgoes.2 hend
    · rw [hend] at hopen
      cases hopen
  refine ⟨t', ht', by rw [hsame, hend], fun run hrun => ?_⟩
  rw [hk.attached] at hrun
  rw [hk.closed, hsame]
  exact (hall run hrun).imp_right (Or.imp_left (hk.promised run t ht))

theorem ended_lasting (id : String) : Lasting id (Ended (P := P) (R := R) id) := by
  intro s s' h hk
  obtain ⟨t, ht, hend⟩ := h
  obtain ⟨t', ht', -, hstatus⟩ := hk.row t ht
  refine ⟨t', ht', ?_⟩
  rcases hstatus with hgoes | ⟨-, hcancelled, -⟩
  · exact hgoes.1.trans hend
  · rw [hcancelled]
    rfl

theorem lease_lasting (id : String) (b : Bool) :
    Lasting id (fun s : Shared P R => s.leaseOpen = b) :=
  fun _ _ h hk => hk.leaseOpen.trans h

theorem Idle.held (h : Idle id s) : Held id s := by
  obtain ⟨⟨t, ht⟩, hover⟩ := h
  exact ⟨t, ht, fun run hrun => Or.inl (hover run hrun)⟩

theorem Idle.ending (h : Idle id s) : Ending id status s := by
  obtain ⟨⟨t, ht⟩, hover⟩ := h
  exact ⟨t, ht, fun run hrun => Or.inl (hover run hrun)⟩

theorem Busy.held (h : Busy id run s) : Held id s := by
  obtain ⟨⟨t, ht, hmine, -⟩, hnamed, hover⟩ := h
  refine ⟨t, ht, fun r hr => (hover r hr).symm.imp_right (fun heq => ?_)⟩
  rw [heq]
  exact ⟨hnamed, hmine⟩

theorem Busy.ending (h : Busy id run s) : Ending id none s := by
  obtain ⟨⟨t, ht, hmine, hend⟩, hnamed, hover⟩ := h
  refine ⟨t, ht, fun r hr => (hover r hr).symm.imp_right (fun heq => Or.inr ?_)⟩
  rw [heq]
  exact ⟨rfl, hmine, hnamed, hend⟩

/-- The pump of a task that has ended under it has nothing left to do. -/
theorem Busy.settled (h : Busy id run s) (hend : Ended id s) : Settled id s := by
  obtain ⟨⟨t, ht, -, hpromised⟩, -, hover⟩ := h
  obtain ⟨t', ht', hdone⟩ := hend
  rw [ht] at ht'
  cases ht'
  refine ⟨t, ht, hdone, fun r hr => (hover r hr).symm.imp_right (fun heq => Or.inl ?_)⟩
  rw [heq]
  exact hpromised hdone

theorem Busy.idle (h : Busy id run s) (hover : run ∈ s.closed) : Idle id s := by
  obtain ⟨⟨t, ht, -⟩, -, hall⟩ := h
  refine ⟨⟨t, ht⟩, fun r hr => (hall r hr).elim (fun heq => ?_) (fun hr => hr)⟩
  rw [heq]
  exact hover

theorem Busy.overs (h : Busy id run s) : Idle id { s with closed := run :: s.closed } := by
  obtain ⟨⟨t, ht, -⟩, -, hall⟩ := h
  refine ⟨⟨t, ht⟩, fun r hr => (hall r hr).elim (fun heq => ?_) (List.mem_cons_of_mem run)⟩
  rw [heq]
  exact List.mem_cons_self

theorem Busy.overed (h : Busy id run s) : Busy id run { s with closed := run :: s.closed } :=
  ⟨h.row, h.named, fun r hr => (h.closed r hr).imp_right (List.mem_cons_of_mem run)⟩

theorem Idle.settled (h : Idle id s) (hend : Ended id s) : Settled id s := by
  obtain ⟨t, ht, hdone⟩ := hend
  exact ⟨t, ht, hdone, fun run hrun => Or.inl (h.closed run hrun)⟩

theorem Ending.settled (h : Ending id status s) (hend : Ended id s) : Settled id s := by
  obtain ⟨t, ht, hall⟩ := h
  obtain ⟨t', ht', hdone⟩ := hend
  rw [ht] at ht'
  cases ht'
  refine ⟨t, ht, hdone, fun run hrun => (hall run hrun).imp_right (fun h => Or.inl ?_)⟩
  rcases h with hp | ⟨-, -, -, hp⟩
  · exact hp
  · exact hp hdone

end Lasting

/-! ### What the pump's own calls do -/

/-- A run that was given to a task that had ended: nobody else will stop it. -/
structure Late (id run : String) (s : Shared P R) : Prop where
  row : ∃ t, s.journal.tasks.find? id = some t ∧ t.executorRunId = run ∧ t.status.terminal = true
  named : run ≠ ""
  closed : ∀ r ∈ s.attached, r = run ∨ r ∈ s.closed

section Own

variable {id run : String} {s : Shared P R} {t : Task R} {status : Option Status}

theorem late_lasting (id run : String) : Lasting id (Late (P := P) (R := R) id run) := by
  intro s s' h hk
  obtain ⟨⟨t, ht, hrun, hend⟩, hnamed, hover⟩ := h
  obtain ⟨t', ht', hrun', hstatus⟩ := hk.row t ht
  refine ⟨⟨t', ht', hrun'.trans hrun, ?_⟩, hnamed, fun r hr => ?_⟩
  · rcases hstatus with hgoes | ⟨-, hcancelled, -⟩
    · exact hgoes.1.trans hend
    · rw [hcancelled]
      rfl
  · rw [hk.attached] at hr
    rw [hk.closed]
    exact hover r hr

theorem Late.held (h : Late id run s) : Held id s := by
  obtain ⟨⟨t, ht, hmine, -⟩, hnamed, hover⟩ := h
  refine ⟨t, ht, fun r hr => (hover r hr).symm.imp_right (fun heq => ?_)⟩
  rw [heq]
  exact ⟨hnamed, hmine⟩

/-- Once the stop is sent, the run counts as any other of a task that has ended. -/
theorem Late.stopped (h : Late id run s) :
    Busy id run { s with stopped := run :: s.stopped } ∧
      Ended id { s with stopped := run :: s.stopped } := by
  obtain ⟨⟨t, ht, hmine, hend⟩, hnamed, hover⟩ := h
  refine ⟨⟨⟨t, ht, hmine, fun _ => ⟨hnamed, Or.inl List.mem_cons_self⟩⟩, hnamed, hover⟩, t, ht, hend⟩

theorem attach_shared (h : Idle id s) (hnamed : run ≠ "") :
    ((s.attachRun id run).1 = true → Busy id run (s.attachRun id run).2) ∧
    ((s.attachRun id run).1 = false → Late id run (s.attachRun id run).2) := by
  obtain ⟨⟨t, ht⟩, hover⟩ := h
  obtain rfl : t.taskId = id := Table.key_of_find ht
  have hrow : (s.attachRun t.taskId run).2.journal.tasks.find? t.taskId =
      some { t with executorRunId := run } := by
    change (s.journal.attachRun t.taskId run).2.tasks.find? t.taskId = _
    rw [find_attach ht, if_pos rfl]
  have hanswer : (s.attachRun t.taskId run).1 = !t.status.terminal := by
    simp only [Shared.attachRun, Shared.call, Journal.step, Journal.attachRun, ht]
  have hall : ∀ r ∈ (s.attachRun t.taskId run).2.attached, r = run ∨ r ∈ s.closed := by
    intro r hr
    rcases List.mem_cons.mp hr with heq | hr
    · exact Or.inl heq
    · exact Or.inr (hover r hr)
  refine ⟨fun hwanted => ⟨⟨_, hrow, rfl, fun hend => ?_⟩, hnamed, hall⟩,
    fun hlate => ⟨⟨_, hrow, rfl, ?_⟩, hnamed, hall⟩⟩
  · rw [hanswer] at hwanted
    have hend : t.status.terminal = true := hend
    rw [hend] at hwanted
    cases hwanted
  · rw [hanswer] at hlate
    simpa using hlate

theorem finished_run (t : Task R) (result : Option R) (reason : String) (status : Option Status) :
    (t.finished result reason status).executorRunId = t.executorRunId := by
  unfold Task.finished
  split
  · rfl
  · split <;> rfl

theorem find_finished (ht : s.journal.tasks.find? id = some t) (kind : EventKind)
    (result : Option R) (reason : String) (status : Option Status) :
    (s.call (.finish id kind result reason status)).2.journal.tasks.find? id =
      some (t.finished result reason (endStatus kind status)) := by
  obtain rfl : t.taskId = id := Table.key_of_find ht
  exact (find_finish ht kind result reason status t.taskId).trans (if_pos rfl)

theorem finish_ended (h : ∃ t, s.journal.tasks.find? id = some t) (kind : EventKind)
    (hproper : kind.terminal = true ∧ ∀ s ∈ status, s.terminal = true) (result : Option R)
    (reason : String) : Ended id (s.call (.finish id kind result reason status)).2 := by
  obtain ⟨t, ht⟩ := h
  obtain ⟨final, hfinal, hend⟩ := end_status hproper
  refine ⟨_, find_finished ht kind result reason status, ?_⟩
  rw [hfinal, Task.finished]
  split
  · assumption
  · exact hend

theorem finish_idle (h : Idle id s) (kind : EventKind) (result : Option R) (reason : String)
    (status : Option Status) : Idle id (s.call (.finish id kind result reason status)).2 := by
  obtain ⟨⟨t, ht⟩, hover⟩ := h
  exact ⟨⟨_, find_finished ht kind result reason status⟩, hover⟩

/-- A failure, under its name or another. -/
theorem finish_settled (h : Ending id status s) (hstatus : ∀ s ∈ status, s.terminal = true)
    (reason : String) : Settled id (s.call (.finish id .failed none reason status)).2 := by
  obtain ⟨t, ht, hall⟩ := h
  have hrow := find_finished ht .failed none reason status
  obtain ⟨t', ht', hend⟩ := finish_ended ⟨t, ht⟩ .failed ⟨rfl, hstatus⟩ none reason
  have heq : t' = t.finished none reason (endStatus .failed status) :=
    Option.some.inj (ht'.symm.trans hrow)
  have hmono (run : String) (hp : Promised id s run) :
      Promised id (s.call (.finish id .failed none reason status)).2 run := by
    refine hp.mono (fun _ hr => hr) (fun _ hc => hc) ?_
    rw [run_id_some hrow, finished_run, run_id_some ht]
  refine ⟨t', ht', hend, fun run hrun => (hall run hrun).imp_right (fun h => ?_)⟩
  rcases h with hp | ⟨hnone, -, -, hp⟩
  · exact Or.inl (hmono run hp)
  · cases hdone : t.status.terminal with
    | true => exact Or.inl (hmono run (hp hdone))
    | false =>
      subst hnone
      refine Or.inr ?_
      rw [heq]
      simp only [endStatus, EventKind.status?, Option.none_or, Task.finished, hdone,
        Bool.false_eq_true, if_false]

end Own

/-! ### The pump, piece by piece -/

/-- What is left when a piece of `_attempt` raises. -/
def Broken (id : String) : Exn → Shared P R → Prop
  | .timeout => Held id
  | .fault _ => Ending id none
  | _ => fun _ => False

section Pieces

variable {id : String} {A : Shared P R → Prop} {X : Exn → Shared P R → Prop}

theorem ask_triple {a : Awaited} {timed : Bool} (hA : Lasting id A)
    (ht : timed = true → ∀ s, A s → X .timeout s) :
    Coro.Triple (Others id) (ask a timed : Code P R (a.Reply P)) A (fun _ => A) X := by
  cases timed with
  | false => exact Coro.Triple.query hA.stable (fun _ _ hs _ => hs)
  | true =>
    refine Coro.Triple.bind (Coro.Triple.query hA.stable (fun _ _ hs _ => hs)) (fun reply => ?_)
    cases reply with
    | none => exact Coro.Triple.raise (ht rfl)
    | some reply => exact Coro.Triple.pure (fun _ hs => hs)

theorem job_triple {α : Type} {f : Shared P R → α × Shared P R} {B : α → Shared P R → Prop}
    {timed : Bool} (hA : Lasting id A) (hB : ∀ a, Lasting id (B a))
    (hf : ∀ s, A s → B (f s).1 (f s).2) (ht : timed = true → ∀ s, A s → X .timeout s)
    (ht' : timed = true → ∀ a s, B a s → X .timeout s) :
    Coro.Triple (Others id) (job timed f) A B X := by
  refine Coro.Triple.bind (ask_triple hA ht) (fun _ => ?_)
  refine Coro.Triple.bind (B := fun s s' => s = s' ∧ A s) (Coro.Triple.state (fun s hs => ⟨rfl, hs⟩))
    (fun s => ?_)
  refine Coro.Triple.bind (B := fun _ => B (f s).1) (Coro.Triple.modify ?_) (fun _ => ?_)
  · rintro _ ⟨rfl, hs⟩
    exact hf s hs
  · refine Coro.Triple.bind (ask_triple (hB (f s).1) (fun hd => ht' hd (f s).1)) (fun _ => ?_)
    exact Coro.Triple.pure (fun _ hs => hs)

variable (D : Drive P R)

/-- An event that ends nothing; no answer means that the task has ended. -/
theorem record_triple {kind : EventKind} {payload : P} (hkind : kind.terminal = false)
    (hA : Lasting D.taskId A) (hrow : ∀ s, A s → ∃ t, s.journal.tasks.find? D.taskId = some t)
    (ht : ∀ s, A s → X .timeout s) :
    Coro.Triple (Others D.taskId) (D.record kind payload) A
      (fun e s => A s ∧ (e = none → Ended D.taskId s)) X := by
  have hB (answer : Journal.Answer P) : Lasting D.taskId (fun s : Shared P R => A s ∧
      ∃ e, answer = .event e ∧ (e = none → Ended D.taskId s)) := by
    intro s s' hs hk
    obtain ⟨hs, e, he, hend⟩ := hs
    exact ⟨hA s s' hs hk, e, he, fun hnone => ended_lasting D.taskId s s' (hend hnone) hk⟩
  refine Coro.Triple.bind (job_triple hA hB (fun s hs => ?_) (fun _ => ht)
    (fun _ _ s hs => ht s hs.1)) (fun answer => ?_)
  · have hkept : Kept D.taskId s (s.call (.record D.taskId kind payload)).2 := record_kept hkind payload
    obtain ⟨t, hfind⟩ := hrow s hs
    obtain ⟨e, he, hend⟩ := record_answer hfind kind payload
    refine ⟨hA s _ hs hkept, e, he, fun hnone => ?_⟩
    exact ended_lasting D.taskId s _ ⟨t, hfind, hend hnone⟩ hkept
  · cases answer with
    | event e =>
      refine Coro.Triple.pure (fun s hs => ?_)
      obtain ⟨hs, e', he, hend⟩ := hs
      cases he
      exact ⟨hs, hend⟩
    | _ =>
      refine Coro.Triple.pure (fun s hs => ?_)
      obtain ⟨-, e, he, -⟩ := hs
      cases he

theorem finish_triple {timed : Bool} {kind : EventKind} {result : Option R} {reason : String}
    {status : Option Status} {B : Shared P R → Prop} (hA : Lasting D.taskId A)
    (hB : Lasting D.taskId B)
    (hf : ∀ s, A s → B (s.call (.finish D.taskId kind result reason status)).2)
    (ht : timed = true → ∀ s, A s ∨ B s → X .timeout s) :
    Coro.Triple (Others D.taskId) (D.finish timed kind result reason status) A (fun _ => B) X := by
  refine Coro.Triple.bind (job_triple hA (fun _ => hB) hf (fun hd s hs => ht hd s (Or.inl hs))
    (fun hd _ s hs => ht hd s (Or.inr hs))) (fun _ => ?_)
  exact Coro.Triple.pure (fun _ hs => hs)

/-- `_fail`, of a task whose runs are looked after. -/
theorem fail_triple {timed : Bool} {reason : String} {status : Option Status}
    {I : Shared P R → Prop} (hstatus : ∀ s ∈ status, s.terminal = true) (hI : Lasting D.taskId I)
    (hkeep : ∀ s, I s → I (s.call (.finish D.taskId .failed none reason status)).2)
    (ht : timed = true → ∀ s, I s → X .timeout s) :
    Coro.Triple (Others D.taskId) (D.fail timed reason status)
      (fun s => Ending D.taskId status s ∧ I s) (fun _ s => Settled D.taskId s ∧ I s) X := by
  have hA := (ending_lasting D.taskId status).and hI
  have hB (row : Option (Task R)) : Lasting D.taskId (fun s : Shared P R =>
      (Ending D.taskId status s ∧ I s) ∧
        (row.any (fun t => t.status.terminal) = true → Ended D.taskId s)) := by
    intro s s' hs hk
    exact ⟨hA s s' hs.1 hk, fun hany => ended_lasting D.taskId s s' (hs.2 hany) hk⟩
  refine Coro.Triple.bind (job_triple hA hB (fun s hs => ⟨hs, fun hany => ?_⟩)
    (fun hd s hs => ht hd s hs.2) (fun hd _ s hs => ht hd s hs.1.2)) (fun row => ?_)
  · cases hfind : s.journal.tasks.find? D.taskId with
    | none =>
      simp only [hfind] at hany
      cases hany
    | some t =>
      simp only [hfind] at hany
      exact ⟨t, hfind, hany⟩
  · cases hany : row.any (fun t => t.status.terminal) with
    | true =>
      simp only [if_true]
      exact Coro.Triple.pure (fun s hs => ⟨hs.1.1.settled (hs.2 trivial), hs.1.2⟩)
    | false =>
      simp only [Bool.false_eq_true, if_false]
      refine (finish_triple D hA ((settled_lasting D.taskId).and hI) (fun s hs => ?_)
        (fun hd s hs => ht hd s (hs.elim And.right And.right))).mono (fun s hs => hs.1)
        (fun _ s hs => hs) (fun _ _ hs => hs)
      exact ⟨finish_settled hs.1 hstatus reason, hkeep s hs.2⟩

/-- `_fail` inside of `wait_for`. -/
theorem fail_timed (reason : String) : Coro.Triple (Others D.taskId) (D.fail true reason none)
    (Idle D.taskId) (fun _ => Settled D.taskId) (Broken D.taskId) := by
  refine (fail_triple D (fun s hs => by cases hs) (idle_lasting D.taskId)
    (fun s hs => finish_idle hs .failed none reason none) (fun _ s hs => hs.held)).mono
    (fun s hs => ⟨hs.ending, hs⟩) (fun _ s hs => hs.1) (fun _ _ h => h)

/-- An end inside of `wait_for`. -/
theorem end_triple (kind : EventKind) {result : Option R} {reason : String}
    (hkind : kind.terminal = true) : Coro.Triple (Others D.taskId)
      (D.finish true kind result reason none) (Idle D.taskId) (fun _ => Settled D.taskId)
      (Broken D.taskId) := by
  have hidle := idle_lasting (P := P) (R := R) D.taskId
  refine (finish_triple D hidle ((settled_lasting D.taskId).and hidle) (fun s hs => ?_)
    (fun _ s hs => ?_)).mono (fun s hs => hs) (fun _ s hs => hs.1) (fun _ _ h => h)
  · have hkept := finish_idle hs kind result reason none
    exact ⟨hkept.settled (finish_ended hs.row kind ⟨hkind, fun s hs => by cases hs⟩ result reason),
      hkept⟩
  · rcases hs with hs | hs
    · exact hs.held
    · exact hs.2.held

theorem heeded_triple {reply : Except Fault Bool} (hf : ∀ s, A s → X (.fault .other) s) :
    Coro.Triple (Others id) (heeded reply : Code P R Unit) A (fun _ => A) X := by
  unfold heeded
  split
  · exact Coro.Triple.raise hf
  · exact Coro.Triple.pure (fun _ hs => hs)

theorem stop_triple {run : String} {timed : Bool} {B : Shared P R → Prop} (hB : Lasting id B)
    (hs : ∀ s, A s → B { s with stopped := run :: s.stopped })
    (ht : timed = true → ∀ s, B s → X .timeout s) (hf : ∀ s, B s → X (.fault .other) s) :
    Coro.Triple (Others id) (stop timed run : Code P R Unit) A (fun _ => B) X := by
  refine Coro.Triple.bind (B := fun _ => B) (Coro.Triple.modify hs) (fun _ => ?_)
  exact Coro.Triple.bind (ask_triple hB ht) (fun _ => heeded_triple hf)

theorem decide_triple (run : String) : Coro.Triple (Others D.taskId) (D.decideApproval run)
    (Busy D.taskId run) (fun _ => Busy D.taskId run) (Broken D.taskId) := by
  have hbusy := busy_lasting (P := P) (R := R) D.taskId run
  refine Coro.Triple.bind (ask_triple hbusy (fun _ s hs => hs.held)) (fun _ => ?_)
  refine Coro.Triple.bind (heeded_triple (fun s hs => hs.ending)) (fun _ => ?_)
  refine Coro.Triple.bind (record_triple D rfl hbusy (fun s hs => ?_) (fun s hs => hs.held))
    (fun _ => Coro.Triple.pure (fun s hs => hs.1))
  obtain ⟨⟨t, ht, -⟩, -, -⟩ := hs
  exact ⟨t, ht⟩

theorem event_kind (kind : String) : (eventMap kind).terminal = false := by
  unfold eventMap
  repeat' split
  all_goals rfl

theorem hear_triple (id run : String) (raw : Raw P) :
    Coro.Triple (Others id) (hear run raw : Code P R Unit) (Busy id run)
      (fun _ s => Busy id run s ∧ (raw.ends = true → run ∈ s.closed)) X := by
  unfold hear
  split
  · exact Coro.Triple.modify (fun s hs => ⟨hs.overed, fun _ => List.mem_cons_self⟩)
  · rename_i hne
    exact Coro.Triple.pure (fun s hs => ⟨hs, fun hends => absurd hends hne⟩)

/-- The pump follows a run to its end, unless the task ends first. -/
theorem follow_triple (run : String) (ending : Except Fault Unit) (raws : List (Raw P))
    (text : String) : Coro.Triple (Others D.taskId) (D.follow run ending raws text)
      (Busy D.taskId run)
      (fun out s => (out = none → Settled D.taskId s) ∧ (out ≠ none → Idle D.taskId s))
      (Broken D.taskId) := by
  have hbusy := busy_lasting (P := P) (R := R) D.taskId run
  induction raws generalizing text with
  | nil =>
    refine Coro.Triple.bind (ask_triple hbusy (fun _ s hs => hs.held)) (fun _ => ?_)
    cases ending with
    | error f => exact Coro.Triple.raise (fun s hs => hs.ending)
    | ok =>
      refine Coro.Triple.bind (B := fun _ => Idle D.taskId) (Coro.Triple.modify (fun s hs => ?_))
        (fun _ => Coro.Triple.pure (fun s hs => ⟨fun hnone => (by cases hnone), fun _ => hs⟩))
      exact hs.overs
  | cons raw raws ih =>
    refine Coro.Triple.bind (ask_triple hbusy (fun _ s hs => hs.held)) (fun _ => ?_)
    split
    · exact ih (text ++ raw.delta)
    · have hheard : Lasting D.taskId (fun s : Shared P R =>
          Busy D.taskId run s ∧ (raw.ends = true → run ∈ s.closed)) := by
        intro s s' hs hk
        refine ⟨hbusy s s' hs.1 hk, fun hends => ?_⟩
        rw [hk.closed]
        exact hs.2 hends
      refine Coro.Triple.bind (hear_triple D.taskId run raw) (fun _ => ?_)
      refine Coro.Triple.bind (record_triple D (event_kind raw.event) hheard (fun s hs => ?_)
        (fun s hs => hs.1.held)) (fun e => ?_)
      · obtain ⟨⟨t, ht, -⟩, -, -⟩ := hs.1
        exact ⟨t, ht⟩
      · cases e with
        | none =>
          refine Coro.Triple.pure (fun s hs => ⟨fun _ => ?_, fun hne => absurd rfl hne⟩)
          exact hs.1.1.settled (hs.2 rfl)
        | some e =>
          have hover (kind : String) (hk : kind = "run.completed" ∨ kind = "run.failed" ∨
              kind = "run.cancelled") (heq : raw.event = kind) (s : Shared P R)
              (hs : Busy D.taskId run s ∧ (raw.ends = true → run ∈ s.closed)) : Idle D.taskId s :=
            hs.1.idle (hs.2 (decide_eq_true (heq ▸ hk)))
          dsimp only
          split
          · exact Coro.Triple.bind ((decide_triple D run).pre (fun s hs => hs.1.1)) (fun _ => ih text)
          · split
            · rename_i heq
              refine Coro.Triple.pure (fun s hs => ⟨fun hnone => (by cases hnone), fun _ => ?_⟩)
              exact hover _ (Or.inl rfl) heq s hs.1
            · split
              · rename_i heq
                refine Coro.Triple.bind ((fail_timed D _).pre
                  (fun s hs => hover _ (Or.inr (Or.inl rfl)) heq s hs.1)) (fun _ => ?_)
                exact Coro.Triple.pure (fun s hs => ⟨fun _ => hs, fun hne => absurd rfl hne⟩)
              · split
                · rename_i heq
                  refine Coro.Triple.bind ((end_triple D .cancelled rfl).pre
                    (fun s hs => hover _ (Or.inr (Or.inr rfl)) heq s hs.1)) (fun _ => ?_)
                  exact Coro.Triple.pure (fun s hs => ⟨fun _ => hs, fun hne => absurd rfl hne⟩)
                · exact (ih text).pre (fun s hs => hs.1.1)

/-- `_one_run`. -/
theorem one_run_triple (instruction : String) :
    Coro.Triple (Others D.taskId) (D.oneRun instruction) (Idle D.taskId)
      (fun out s => (out = none → Settled D.taskId s) ∧ (out ≠ none → Idle D.taskId s))
      (Broken D.taskId) := by
  have hidle := idle_lasting (P := P) (R := R) D.taskId
  refine Coro.Triple.bind (record_triple D rfl hidle (fun s hs => hs.row) (fun s hs => hs.held))
    (fun _ => ?_)
  refine Coro.Triple.bind (B := fun run s => run ≠ "" ∧ Idle D.taskId s) ?_ (fun run => ?_)
  · refine Coro.Triple.bind (B := fun _ => Idle D.taskId)
      ((ask_triple hidle (fun _ s hs => hs.held)).pre (fun s hs => hs.1)) (fun reply => ?_)
    cases reply with
    | error f => exact Coro.Triple.raise (fun s hs => hs.ending)
    | ok run =>
      simp only
      split
      · exact Coro.Triple.raise (fun s hs => hs.ending)
      · rename_i hne
        exact Coro.Triple.pure (fun s hs => ⟨hne, hs⟩)
  · have hA : Lasting D.taskId (fun s : Shared P R => run ≠ "" ∧ Idle D.taskId s) :=
      fun s s' hs hk => ⟨hs.1, hidle s s' hs.2 hk⟩
    have hB (wanted : Bool) : Lasting D.taskId (fun s : Shared P R =>
        (wanted = true → Busy D.taskId run s) ∧ (wanted = false → Late D.taskId run s)) :=
      fun s s' hs hk => ⟨fun hw => busy_lasting D.taskId run s s' (hs.1 hw) hk,
        fun hw => late_lasting D.taskId run s s' (hs.2 hw) hk⟩
    refine Coro.Triple.bind (job_triple hA hB (fun s hs => attach_shared hs.2 hs.1)
      (fun _ s hs => hs.2.held) (fun _ wanted s hs => ?_)) (fun wanted => ?_)
    · cases wanted with
      | true => exact (hs.1 rfl).held
      | false => exact (hs.2 rfl).held
    · cases wanted with
      | true =>
        simp only [if_true]
        refine Coro.Triple.bind ((ask_triple (busy_lasting D.taskId run)
          (fun _ s hs => hs.held)).pre (fun s hs => hs.1 trivial)) (fun stream => ?_)
        exact follow_triple D run stream.2 stream.1 ""
      | false =>
        simp only [Bool.false_eq_true, if_false]
        have hstopped := (busy_lasting (P := P) (R := R) D.taskId run).and (ended_lasting D.taskId)
        refine Coro.Triple.bind ((stop_triple hstopped (fun s hs => hs.stopped)
          (fun _ s hs => hs.1.held) (fun s hs => hs.1.ending)).pre (fun s hs => hs.2 trivial))
          (fun _ => ?_)
        exact Coro.Triple.pure (fun s hs => ⟨fun _ => hs.1.settled hs.2, fun hne => absurd rfl hne⟩)

theorem pass_triple (instruction : String) {unmet : String → Code P R Unit}
    (h : ∀ problem, Coro.Triple (Others D.taskId) (unmet problem) (Idle D.taskId)
      (fun _ => Settled D.taskId) (Broken D.taskId)) :
    Coro.Triple (Others D.taskId) (D.pass instruction unmet) (Idle D.taskId)
      (fun _ => Settled D.taskId) (Broken D.taskId) := by
  refine Coro.Triple.bind (one_run_triple D instruction) (fun out => ?_)
  cases out with
  | none => exact Coro.Triple.pure (fun s hs => hs.1 rfl)
  | some output =>
    dsimp only
    cases D.problem output with
    | none => exact (end_triple D .succeeded rfl).pre (fun s hs => hs.2 (by simp))
    | some problem => exact (h problem).pre (fun s hs => hs.2 (by simp))

/-- `_attempt`. -/
theorem attempt_triple (left : Nat) (instruction : String) :
    Coro.Triple (Others D.taskId) (D.attempt left instruction) (Idle D.taskId)
      (fun _ => Settled D.taskId) (Broken D.taskId) := by
  have hidle := idle_lasting (P := P) (R := R) D.taskId
  induction left generalizing instruction with
  | zero => exact pass_triple D instruction (fun problem => fail_timed D _)
  | succ left ih =>
    refine pass_triple D instruction (fun problem => ?_)
    refine Coro.Triple.bind (record_triple D rfl hidle (fun s hs => hs.row) (fun s hs => hs.held))
      (fun _ => ?_)
    exact (ih (D.reworded problem)).pre (fun s hs => hs.1)

/-- What is known where `_drive` raises itself: the stop behind the deadline has
brought back something that is not understood. -/
def Unread (id : String) : Exn → Shared P R → Prop
  | .fault .other => Ending id (some .timedOut)
  | _ => fun _ => False

theorem unread_lease {e : Exn} {s : Shared P R} {b : Bool} (h : Unread id e s) :
    Unread id e { s with leaseOpen := b } := by
  cases e with
  | fault f =>
    cases f with
    | other =>
      obtain ⟨t, ht, hall⟩ := h
      exact ⟨t, ht, hall⟩
    | hermes reason => exact h
  | _ => exact h

/-- `_fail` outside of `wait_for`. -/
theorem fail_plain {status : Option Status} (hstatus : ∀ s ∈ status, s.terminal = true)
    (reason : String) : Coro.Triple (Others D.taskId) (D.fail false reason status)
      (Ending D.taskId status) (fun _ => Settled D.taskId) X := by
  refine (fail_triple D (I := fun _ => True) hstatus (fun _ _ _ _ => trivial) (fun _ _ => trivial)
    (fun hd => by cases hd)).mono (fun s hs => ⟨hs, trivial⟩) (fun _ s hs => hs.1) (fun _ _ h => h)

theorem ended_triple (e : Exn) : Coro.Triple (Others D.taskId) (D.ended e) (Broken D.taskId e)
    (fun _ => Settled D.taskId) (Unread D.taskId) := by
  have htimed : ∀ s ∈ some Status.timedOut, s.terminal = true := by
    intro s hs
    cases hs
    rfl
  cases e with
  | timeout =>
    have hheld := held_lasting (P := P) (R := R) D.taskId
    have hfound (run : String) : Lasting D.taskId (fun s : Shared P R =>
        ∃ t, s.journal.tasks.find? D.taskId = some t ∧ t.executorRunId = run ∧
          ∀ r ∈ s.attached, r ∈ s.closed ∨ r ≠ "" ∧ run = r) := by
      intro s s' hs hk
      obtain ⟨t, ht, hrun, hall⟩ := hs
      obtain ⟨t', ht', hrun', -⟩ := hk.row t ht
      refine ⟨t', ht', hrun'.trans hrun, fun r hr => ?_⟩
      rw [hk.attached] at hr
      rw [hk.closed]
      exact hall r hr
    refine Coro.Triple.bind (job_triple hheld hfound (fun s hs => ?_) (fun hd => by cases hd)
      (fun hd => by cases hd)) (fun run => ?_)
    · obtain ⟨t, ht, hall⟩ := hs
      rw [run_id_some ht]
      exact ⟨t, ht, rfl, hall⟩
    · dsimp only
      split
      · rename_i hne
        refine Coro.Triple.bind (stop_triple (ending_lasting D.taskId (some .timedOut))
          (fun s hs => ?_) (fun hd => by cases hd) (fun s hs => hs)) (fun _ => ?_)
        · obtain ⟨t, ht, -, hall⟩ := hs
          refine ⟨t, ht, fun r hr => (hall r hr).imp_right (fun h => Or.inl ⟨h.1, Or.inl ?_⟩)⟩
          rw [h.2]
          exact List.mem_cons_self
        · exact fail_plain D htimed "timeout"
      · rename_i hnone
        refine (fail_plain D htimed "timeout").pre (fun s hs => ?_)
        obtain ⟨t, ht, -, hall⟩ := hs
        refine ⟨t, ht, fun r hr => Or.inl ((hall r hr).resolve_right (fun h => ?_))⟩
        exact h.1 (h.2 ▸ not_not.mp hnone)
  | fault f =>
    cases f with
    | hermes reason => exact fail_plain D (fun s hs => by cases hs) reason
    | other => exact fail_plain D (fun s hs => by cases hs) "executor_failure"
  | paused => exact Coro.Triple.raise (fun s hs => False.elim hs)
  | integrity => exact Coro.Triple.raise (fun s hs => False.elim hs)

/-- `_drive`: the task has ended, and the lease is closed in any case. -/
theorem drive_triple : Coro.Triple (Others D.taskId) D.drive (Idle D.taskId)
    (fun _ s => Settled D.taskId s ∧ s.leaseOpen = false)
    (fun e s => Unread D.taskId e s ∧ s.leaseOpen = false) := by
  have hattempt := attempt_triple D maxSchemaRetries D.instruction
  have hbody := Coro.Triple.handle hattempt (ended_triple D)
  have hguarded := Coro.Triple.handle (X := fun e s => Unread D.taskId e s ∧ s.leaseOpen = false)
    (h := fun e => (do closeLease; raise e : Code P R Unit)) hbody (fun e => ?_)
  · refine Coro.Triple.bind hguarded (fun _ => Coro.Triple.modify (fun s hs => ⟨?_, rfl⟩))
    obtain ⟨t, ht, hend, hall⟩ := hs
    exact ⟨t, ht, hend, hall⟩
  · refine Coro.Triple.bind (B := fun _ s => Unread D.taskId e s ∧ s.leaseOpen = false)
      (Coro.Triple.modify (fun s hs => ⟨?_, rfl⟩)) (fun _ => Coro.Triple.raise (fun s hs => hs))
    exact unread_lease hs


/-- `run_task` refuses, or its pump goes the way of `_drive`. -/
theorem run_task_triple : Coro.Triple (Others D.taskId) D.runTask (fun s => s.attached = [])
    (fun _ s => Settled D.taskId s ∧ s.leaseOpen = false)
    (fun e s => e = .paused ∨ e = .integrity ∨ Unread D.taskId e s ∧ s.leaseOpen = false) := by
  have hA : Lasting D.taskId (fun s : Shared P R => s.attached = []) :=
    fun s s' hs hk => hk.attached.trans hs
  have hB (answer : Journal.Answer P) : Lasting D.taskId (fun s : Shared P R =>
      answer = .integrityError ∨ Idle D.taskId s) :=
    fun s s' hs hk => hs.imp_right (fun hidle => idle_lasting D.taskId s s' hidle hk)
  refine Coro.Triple.bind (job_triple hA (fun _ => hA) (fun s hs => hs) (fun hd => by cases hd)
    (fun hd => by cases hd)) (fun paused => ?_)
  cases paused with
  | true => exact Coro.Triple.raise (fun s hs => Or.inl rfl)
  | false =>
    dsimp only
    rw [if_neg Bool.false_ne_true]
    refine Coro.Triple.bind (job_triple hA hB (fun s hs => ?_) (fun hd => by cases hd)
      (fun hd => by cases hd)) (fun answer => ?_)
    · rcases create_cases s.journal D.taskId D.taskType D.instruction with hsame | ⟨-, -, -, hrows⟩
      · refine Or.inl ?_
        simp only [Shared.call, Journal.step, hsame]
      · refine Or.inr ⟨⟨_, (hrows D.taskId).trans (if_pos rfl)⟩, fun run hrun => ?_⟩
        have hrun : run ∈ s.attached := hrun
        rw [hs] at hrun
        cases hrun
    · have hdrive : Coro.Triple (Others D.taskId) (do
          Coro.modify (fun s => { s with leaseOpen := D.leased })
          let _ ← ask .turn false
          D.drive : Code P R Unit) (fun s => Idle D.taskId s)
          (fun _ s => Settled D.taskId s ∧ s.leaseOpen = false)
          (fun e s => e = .paused ∨ e = .integrity ∨ Unread D.taskId e s ∧ s.leaseOpen = false) := by
        refine Coro.Triple.bind (B := fun _ => Idle D.taskId)
          (Coro.Triple.modify (fun s hs => ⟨hs.row, hs.closed⟩)) (fun _ => ?_)
        refine Coro.Triple.bind (ask_triple (idle_lasting D.taskId) (fun hd => by cases hd))
          (fun _ => ?_)
        exact (drive_triple D).mono (fun s hs => hs) (fun _ s hs => hs)
          (fun e s hs => Or.inr (Or.inr hs))
      cases answer with
      | integrityError => exact Coro.Triple.raise (fun s hs => Or.inr (Or.inl rfl))
      | _ => exact hdrive.pre (fun s hs => hs.resolve_left (fun heq => by cases heq))

end Pieces

/-! ### Whole runs -/

theorem promised_done {id run : String} {s : Shared P R} (hp : Promised id s run)
    (hdone : ∀ c ∈ s.cancels, c = .done) : run ∈ s.stopped := by
  rcases hp.2 with hstopped | hstops | ⟨hasks, -⟩
  · exact hstopped
  · cases hdone _ hstops
  · cases hdone _ hasks

/-- Whatever the executor and the others do, and whenever the deadline comes:
once the pump of a task is through and every canceller has finished, the task
has ended, its lease is closed, and unless it failed, each of its runs is over or
was asked to stop. The pump itself breaks off only behind the deadline, when
the answer to its stop is not understood; then the runs are looked after, but
the task has no end. -/
theorem run_task_settles (D : Drive P R) {s s' s'' : Shared P R} {r : Except Exn Unit}
    (hnew : s.attached = []) (hends : Coro.Ends (Others D.taskId) D.runTask s r s')
    (hlater : Others D.taskId s' s'') (hdone : ∀ c ∈ s''.cancels, c = .done) :
    (r = .ok () → ∃ t, s''.journal.tasks.find? D.taskId = some t ∧ t.status.terminal = true ∧
      s''.leaseOpen = false ∧
      (t.status ≠ .failed → ∀ run ∈ s''.attached, run ∈ s''.closed ∨ run ∈ s''.stopped)) ∧
    (∀ e, r = .error e → e = .paused ∨ e = .integrity ∨ e = .fault .other ∧
      s''.leaseOpen = false ∧ ∀ run ∈ s''.attached, run ∈ s''.closed ∨ run ∈ s''.stopped) := by
  have hkept := others_kept hlater
  obtain ⟨hok, herror⟩ := (run_task_triple D).ends hnew hends
  refine ⟨fun hr => ?_, fun e he => (herror e he).imp_right (Or.imp_right (fun h => ?_))⟩
  · obtain ⟨hsettled, hlease⟩ := hok () hr
    obtain ⟨t, ht, hend, hall⟩ := settled_lasting D.taskId s' s'' hsettled hkept
    refine ⟨t, ht, hend, lease_lasting D.taskId false s' s'' hlease hkept, fun hne run hrun => ?_⟩
    rcases hall run hrun with hover | hp | hfailed
    · exact Or.inl hover
    · exact Or.inr (promised_done hp hdone)
    · exact absurd hfailed hne
  · obtain ⟨hunread, hlease⟩ := h
    cases e with
    | fault f =>
      cases f with
      | hermes reason => exact False.elim hunread
      | other =>
        obtain ⟨t, -, hall⟩ := ending_lasting D.taskId _ s' s'' hunread hkept
        refine ⟨rfl, lease_lasting D.taskId false s' s'' hlease hkept, fun run hrun => ?_⟩
        rcases hall run hrun with hover | hp | ⟨hnone, -⟩
        · exact Or.inl hover
        · exact Or.inr (promised_done hp hdone)
        · cases hnone
    | _ => exact False.elim hunread

section sample

def sampleDrive : Drive String Unit where
  taskId := "dt-1"
  taskType := "research"
  instruction := "wind"
  leased := true
  starting := "hermes"
  denied := "denied"
  retried problem := problem
  problem _ := none
  result _ := ()
  classify _ := "executor_failure"
  reworded problem := problem

/-- An executor that takes the task and answers it. -/
def sampleReply : (a : Awaited) → a.Reply String
  | .turn => ()
  | .submit _ => .ok "run-1"
  | .stop _ | .answer _ => .ok true
  | .events _ => ([⟨"run.started", "", "", "", "start"⟩, ⟨"message.delta", "ca", "", "", ""⟩,
      ⟨"run.completed", "", "calm", "", "end"⟩], .ok ())

def sampleAnswer : (q : Query) → q.Answer String
  | .plain a => sampleReply a
  | .timed a => some (sampleReply a)

def sampleStart : Shared String Unit := ⟨.empty, false, [], [], [], []⟩

def sampleEnd : Except Exn Unit × Shared String Unit :=
  sampleDrive.runTask.play sampleAnswer () sampleStart

theorem sample_settles : ∃ t, sampleEnd.2.journal.tasks.find? "dt-1" = some t ∧
    t.status = .succeeded ∧ ∀ run ∈ sampleEnd.2.attached,
      run ∈ sampleEnd.2.closed ∨ run ∈ sampleEnd.2.stopped := by
  have hends : Coro.Ends (Others "dt-1") sampleDrive.runTask sampleStart sampleEnd.1 sampleEnd.2 :=
    Coro.play_ends (fun _ => .refl) sampleAnswer () sampleDrive.runTask sampleStart
  have hdone : ∀ c ∈ sampleEnd.2.cancels, c = Cancel.done := fun c hc => by cases hc
  obtain ⟨t, ht, -, -, hall⟩ :=
    (run_task_settles sampleDrive rfl hends .refl hdone).1 rfl
  have hstatus : (sampleEnd.2.journal.tasks.find? "dt-1").map Task.status = some .succeeded := by
    decide +kernel
  have ht : sampleEnd.2.journal.tasks.find? "dt-1" = some t := ht
  rw [ht] at hstatus
  have hstatus : t.status = .succeeded := Option.some.inj hstatus
  exact ⟨t, ht, hstatus, hall (by rw [hstatus]; decide)⟩

end sample

end Solvio.Deep
