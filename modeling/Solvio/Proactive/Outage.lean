import Mathlib.Algebra.Order.Field.Rat
import Mathlib.Data.NNRat.Defs
import Mathlib.Tactic.Linarith
import Solvio.Proactive.Scheduler

namespace Solvio.Proactive.Outage
open Solvio.Lib

/-! ### The occurrences of an outage -/

section
variable (Z : Zone) (s : Schedule)

/-- The occurrences from one on, each the next one behind the last. -/
def occurrenceFrom (moment : Rat) : Nat → Option Rat
  | 0 => some moment
  | k + 1 => (s.nextAfter Z moment).bind (fun following => occurrenceFrom following k)

/-- The latest occurrence that is not after an instant, and how many are in
front of it. -/
structure Latest (missed now : Rat) (k : Nat) (last : Rat) : Prop where
  occurrence : occurrenceFrom Z s missed k = some last
  past : last ≤ now
  latest : ∀ u, s.nextAfter Z last = some u → now < u

variable {Z s}

theorem occurrence_later {k : Nat} {moment last : Rat}
    (h : occurrenceFrom Z s moment k = some last) : moment ≤ last := by
  induction k generalizing moment with
  | zero =>
    cases h
    exact le_rfl
  | succ k ih =>
    obtain ⟨u, hu, hrest⟩ := Option.bind_eq_some_iff.mp h
    exact (Schedule.next_after_later Z hu).le.trans (ih hrest)

/-- The count gets to the latest occurrence if it is let count that far. -/
theorem last_due {fuel k skipped : Nat} {missed now last : Rat}
    (h : Latest Z s missed now k last) (hk : k ≤ fuel) :
    s.lastDue Z now fuel missed skipped = (last, skipped + k) := by
  induction k generalizing fuel missed skipped with
  | zero =>
    obtain ⟨hfirst, -, hlatest⟩ := h
    cases hfirst
    cases fuel with
    | zero => rfl
    | succ fuel =>
      rw [Schedule.lastDue]
      cases hnext : s.nextAfter Z last with
      | none => rfl
      | some u =>
        dsimp only
        rw [if_neg (not_le.mpr (hlatest u hnext))]
        rfl
  | succ k ih =>
    obtain ⟨hfirst, hpast, hlatest⟩ := h
    obtain ⟨u, hu, hrest⟩ := Option.bind_eq_some_iff.mp hfirst
    obtain ⟨fuel, rfl⟩ : ∃ n, fuel = n + 1 := ⟨fuel - 1, by omega⟩
    rw [Schedule.lastDue, hu]
    dsimp only
    rw [if_pos ((occurrence_later hrest).trans hpast),
      ih ⟨hrest, hpast, hlatest⟩ (by omega)]
    congr 1
    omega

theorem last_due_bound (fuel skipped : Nat) (missed now : Rat) :
    ∃ j ≤ fuel, ∃ last, s.lastDue Z now fuel missed skipped = (last, skipped + j) := by
  induction fuel generalizing missed skipped with
  | zero => exact ⟨0, le_rfl, missed, rfl⟩
  | succ fuel ih =>
    rw [Schedule.lastDue]
    split
    · split
      · obtain ⟨j, hj, last, h⟩ := ih (skipped + 1) _
        exact ⟨j + 1, by omega, last, by rw [h]; congr 1; omega⟩
      · exact ⟨0, Nat.zero_le _, missed, rfl⟩
    · exact ⟨0, Nat.zero_le _, missed, rfl⟩

/-- What is to be made up for: the latest occurrence if it still matters, and
the number of the others. -/
def expected (s : Schedule) (now last : Rat) (k : Nat) : Option Rat × Nat :=
  if now - last ≤ s.graceSeconds then (some last, k) else (none, k + 1)

theorem catch_up_latest {missed now last : Rat} {k : Nat} (hmissed : 0 < missed)
    (h : Latest Z s missed now k last) (hk : k ≤ 1000) :
    s.catchUp Z missed now = expected s now last k := by
  have hle : missed ≤ now := (occurrence_later h.occurrence).trans h.past
  rw [Schedule.catchUp, if_neg (by simp [hmissed, hle]), last_due h hk, Nat.add_comm 1 k]
  rfl

theorem catch_up_bound {missed now last : Rat} {k : Nat}
    (h : s.catchUp Z missed now = expected s now last k) : 0 < missed ∧ k ≤ 1000 := by
  unfold Schedule.catchUp expected at h
  split at h
  · split at h
    · cases h
    · cases h
  · rename_i hguard
    obtain ⟨j, hj, l, hl⟩ := last_due_bound (Z := Z) (s := s) 1000 1 missed now
    rw [hl] at h
    refine ⟨not_le.mp fun hle => hguard (.inl hle), ?_⟩
    dsimp only at h
    split at h
    · split at h
      · have hcount := congrArg Prod.snd h
        dsimp only at hcount
        omega
      · cases h
    · split at h
      · cases h
      · have hcount := congrArg Prod.snd h
        dsimp only at hcount
        omega

end

/-! ### Recovering -/

variable (E : Deployment)

/-- `recover`, for one task: its row, and what is added to `coalesced`. -/
def recover (now : Rat) (task : TaskRow) : TaskRow × Nat :=
  match task.nextRunAt with
  | none => (task, 0)
  | some missed =>
    if task.running = false ∨ now < missed then (task, 0)
    else match task.schedule.catchUp E.zone missed now with
      | (some _, skipped) => (task, skipped)
      | (none, skipped) => match task.schedule.nextAfter E.zone now with
        | some following => ({ task with nextRunAt := some following }, skipped)
        | none =>
          ({ task with
            nextRunAt := none
            state := .expired
            lastError := "Gelegenheit verstrichen" }, skipped)

/-! ### Polling -/

inductive Phase where
  | waiting | executing | refused
deriving DecidableEq

/-- One `_guarded` under way, with the task as it was read. -/
structure Flight where
  task : TaskRow
  occurrence : Rat
  phase : Phase := .waiting

/-- What a run that broke off has made of the task in memory. -/
inductive Memory where
  | untouched
  | moved (wait : NNRat) (outcome : Option RunOutcome)
  | counted (wait : NNRat) (outcome detail : String)

def Memory.wait : Memory → NNRat
  | untouched => 0
  | moved wait _ => wait
  | counted wait _ _ => wait

def Memory.task (m : Memory) (occurrence time : Rat) (task : TaskRow) : TaskRow :=
  match m with
  | untouched => task
  | moved wait none => advance E occurrence (time + wait) task
  | moved wait (some outcome) => advance E occurrence (time + wait)
    (settled outcome { task with lastRunAt := some (time + wait) })
  | counted wait outcome detail =>
    afterFailure (time + wait) outcome detail { task with lastRunAt := some (time + wait) }

/-- What may happen next. A clock is read some time after the last reading. -/
inductive Event where
  | poll (wait : NNRat)
  | claim
  | finish (wait : NNRat) (answer : Answer) (items : List Item) (kind : String)
  | skip (wait : NNRat)
  | broken (memory : Memory) (wait : NNRat) (outcome detail : String)
  | lost (memory : Memory)

/-- The row of the task, what is in `task_runs`, and the run under way.
`started` are the occurrences whose run has begun, newest first. -/
structure Core where
  row : TaskRow
  claimed : List Rat
  runIds : List String
  flight : Option Flight := none
  started : List Rat := []
  time : Rat

/-- What `due_tasks` selects. -/
def dueAt (task : TaskRow) (now : Rat) : Option Rat :=
  task.nextRunAt.filter (fun u => task.running ∧ u ≤ now ∧ task.retryAfter.all (· ≤ now))

/-- `float(task.next_run_at or now)`. -/
def occurrenceAt (u now : Rat) : Rat := if u = 0 then now else u

def step : Event → Core → Core
  | .poll wait, c =>
    let now := c.time + wait
    match c.flight, dueAt c.row now with
    | none, some u => { c with time := now, flight := some ⟨c.row, occurrenceAt u now, .waiting⟩ }
    | _, _ => { c with time := now }
  | .claim, c => match c.flight with
    | some ⟨task, occurrence, .waiting⟩ =>
      let runId := runIdFor task.taskId occurrence
      if occurrence ∈ c.claimed ∨ runId ∈ c.runIds then
        { c with flight := some ⟨task, occurrence, .refused⟩ }
      else
        { c with
          claimed := occurrence :: c.claimed
          runIds := runId :: c.runIds
          started := occurrence :: c.started
          flight := some ⟨task, occurrence, .executing⟩ }
    | _ => c
  | .finish wait answer items kind, c => match c.flight with
    | some ⟨task, occurrence, .executing⟩ =>
      { c with
        time := c.time + wait
        row := (runOnce E ⟨occurrence, answer, c.time + wait, kind⟩ ⟨task, items⟩).task
        flight := none }
    | _ => c
  | .skip wait, c => match c.flight with
    | some ⟨task, occurrence, .refused⟩ =>
      { c with
        time := c.time + wait
        row := advance E occurrence (c.time + wait) task
        flight := none }
    | _ => c
  | .broken memory wait outcome detail, c => match c.flight with
    | some f =>
      let now := c.time + memory.wait + wait
      { c with
        time := now
        row := afterFailure now outcome detail (memory.task E f.occurrence c.time f.task)
        flight := none }
    | none => c
  | .lost memory, c => match c.flight with
    | some f =>
      { c with
        time := c.time + memory.wait
        row := memory.task E f.occurrence c.time f.task
        flight := none }
    | none => c

/-- Polling after a restart, with what was claimed before it. -/
def polling (now : Rat) (task : TaskRow) (claimed : List Rat) (runIds : List String) :
    Machine Core where
  Call := Event
  Reply _ := Unit
  step e c := ((), step E e c)
  init := { row := (recover E now task).1, claimed := claimed, runIds := runIds, time := now }

/-! ### How a row is moved on -/

variable {E}

theorem advance_next (occurrence now : Rat) (task : TaskRow) :
    (advance E occurrence now task).schedule = task.schedule ∧
    (advance E occurrence now task).nextRunAt =
      task.schedule.nextAfter E.zone (max occurrence now) := by
  unfold advance
  split
  · rename_i h
    exact ⟨rfl, h.symm⟩
  · rename_i h
    exact ⟨rfl, h.symm⟩

theorem failure_next (now : Rat) (outcome detail : String) (task : TaskRow) :
    (afterFailure now outcome detail task).schedule = task.schedule ∧
    (afterFailure now outcome detail task).nextRunAt = task.nextRunAt := by
  unfold afterFailure
  dsimp only
  split
  · exact ⟨rfl, rfl⟩
  · exact ⟨rfl, rfl⟩

/-- A row behind another one of the same task: its next occasion is the same,
or the next one after a reading of the clock. -/
structure MovesOn (E : Deployment) (before after : Rat) (task task' : TaskRow) : Prop where
  schedule : task'.schedule = task.schedule
  next : task'.nextRunAt = task.nextRunAt ∨ ∃ r, before ≤ r ∧ r ≤ after ∧
    task'.nextRunAt = task.schedule.nextAfter E.zone r

namespace MovesOn

variable {task task' task'' : TaskRow} {before between after : Rat}

theorem refl (task : TaskRow) : MovesOn E before after task task := ⟨rfl, .inl rfl⟩

theorem trans (h : MovesOn E before between task task') (h' : MovesOn E between after task' task'')
    (hle : before ≤ between) (hle' : between ≤ after) : MovesOn E before after task task'' := by
  refine ⟨h'.schedule.trans h.schedule, ?_⟩
  rcases h'.next with hsame | ⟨r, hlow, hhigh, hnext⟩
  · rcases h.next with hsame' | ⟨r, hlow, hhigh, hnext⟩
    · exact .inl (hsame.trans hsame')
    · exact .inr ⟨r, hlow, hhigh.trans hle', hsame.trans hnext⟩
  · exact .inr ⟨r, hle.trans hlow, hhigh, h.schedule ▸ hnext⟩

theorem failure (now : Rat) (outcome detail : String) (h : MovesOn E before after task task') :
    MovesOn E before after task (afterFailure now outcome detail task') := by
  obtain ⟨hschedule, hnext⟩ := failure_next now outcome detail task'
  exact ⟨hschedule.trans h.schedule, by rw [hnext]; exact h.next⟩

/-- The occurrence of a run is not after the clock at its end. -/
theorem advance {occurrence now : Rat} (hsame : task'.schedule = task.schedule)
    (hpast : occurrence ≤ now) (hlow : before ≤ now) (hhigh : now ≤ after) :
    MovesOn E before after task (advance E occurrence now task') := by
  obtain ⟨hschedule, hnext⟩ := advance_next (E := E) occurrence now task'
  rw [max_eq_right hpast, hsame] at hnext
  exact ⟨hschedule.trans hsame, .inr ⟨now, hlow, hhigh, hnext⟩⟩

end MovesOn

theorem run_moves {c : Ran} {w : Watch} {before : Rat} (hpast : c.occurrence ≤ c.now)
    (hlow : before ≤ c.now) : MovesOn E before c.now w.task (runOnce E c w).task := by
  unfold runOnce
  split
  · exact (MovesOn.refl _).failure ..
  · split
    · exact (MovesOn.refl _).failure ..
    · dsimp only
      split
      · exact MovesOn.failure _ _ _ ⟨rfl, .inl rfl⟩
      · exact .advance rfl hpast hlow le_rfl

theorem memory_moves (m : Memory) {occurrence time : Rat} (task : TaskRow)
    (hpast : occurrence ≤ time) :
    MovesOn E time (time + m.wait) task (m.task E occurrence time task) := by
  have hwait : ∀ wait : NNRat, time ≤ time + (wait : Rat) :=
    fun wait => le_add_of_nonneg_right wait.coe_nonneg
  cases m with
  | untouched => exact .refl _
  | moved wait outcome =>
    cases outcome with
    | none => exact .advance rfl (hpast.trans (hwait wait)) (hwait wait) le_rfl
    | some outcome => exact .advance rfl (hpast.trans (hwait wait)) (hwait wait) le_rfl
  | counted wait outcome detail => exact MovesOn.failure _ _ _ ⟨rfl, .inl rfl⟩

/-! ### What polling keeps -/

/-- The occasions of a task behind an outage: the missed one if it `stays`,
and the next one after a reading of the clock. -/
def Planned (E : Deployment) (s : Schedule) (stays : Prop) (missed now time : Rat)
    (next : Option Rat) : Prop :=
  (stays ∧ next = some missed) ∨ ∃ r, now ≤ r ∧ r ≤ time ∧ next = s.nextAfter E.zone r

variable {s : Schedule} {stays : Prop} {missed now : Rat}

theorem Planned.later {time time' : Rat} {next : Option Rat}
    (h : Planned E s stays missed now time next) (hle : time ≤ time') :
    Planned E s stays missed now time' next := by
  rcases h with h | ⟨r, hlow, hhigh, hnext⟩
  · exact .inl h
  · exact .inr ⟨r, hlow, hhigh.trans hle, hnext⟩

structure Kept (E : Deployment) (s : Schedule) (stays : Prop) (missed now : Rat) (c : Core) :
    Prop where
  time : now ≤ c.time
  schedule : c.row.schedule = s
  next : Planned E s stays missed now c.time c.row.nextRunAt
  flight : ∀ f, c.flight = some f → f.task = c.row ∧ f.occurrence ≤ c.time ∧
    c.row.nextRunAt = some f.occurrence
  begun : ∀ u ∈ c.started, u ∈ c.claimed ∧ Planned E s stays missed now c.time (some u)
  once : c.started.Nodup

/-- The end of a run. -/
theorem Kept.ended {c : Core} {time : Rat} {row : TaskRow}
    (h : Kept E s stays missed now c) (hle : c.time ≤ time)
    (hmoves : MovesOn E c.time time c.row row) :
    Kept E s stays missed now { c with time := time, row := row, flight := none } where
  time := h.time.trans hle
  schedule := hmoves.schedule.trans h.schedule
  next := by
    rcases hmoves.next with hsame | ⟨r, hlow, hhigh, hnext⟩
    · rw [hsame]
      exact h.next.later hle
    · exact .inr ⟨r, h.time.trans hlow, hhigh, h.schedule ▸ hnext⟩
  flight f hf := by cases hf
  begun u hu := ⟨(h.begun u hu).1, (h.begun u hu).2.later hle⟩
  once := h.once

/-- One step keeps it, and moves the row on if at all. -/
structure Stepped (E : Deployment) (s : Schedule) (stays : Prop) (missed now : Rat) (c c' : Core) :
    Prop where
  time : c.time ≤ c'.time
  kept : Kept E s stays missed now c'
  moves : MovesOn E c.time c'.time c.row c'.row

theorem Kept.same {c : Core} (h : Kept E s stays missed now c) :
    Stepped E s stays missed now c c := ⟨le_rfl, h, .refl _⟩

theorem wait_nonneg (time : Rat) (wait : NNRat) : time ≤ time + wait :=
  le_add_of_nonneg_right wait.coe_nonneg

theorem Kept.waited {c : Core} (h : Kept E s stays missed now c) (wait : NNRat) :
    Stepped E s stays missed now c { c with time := c.time + wait } := by
  have hle := wait_nonneg c.time wait
  refine ⟨hle, ⟨h.time.trans hle, h.schedule, h.next.later hle, fun f hf => ?_, fun u hu => ?_,
    h.once⟩, .refl _⟩
  · obtain ⟨htask, hpast, hnext⟩ := h.flight f hf
    exact ⟨htask, hpast.trans hle, hnext⟩
  · exact ⟨(h.begun u hu).1, (h.begun u hu).2.later hle⟩

theorem Kept.leaves {c : Core} {time : Rat} {row : TaskRow}
    (h : Kept E s stays missed now c) (hle : c.time ≤ time)
    (hmoves : MovesOn E c.time time c.row row) :
    Stepped E s stays missed now c { c with time := time, row := row, flight := none } :=
  ⟨hle, h.ended hle hmoves, hmoves⟩

/-- An occasion is no zero, and so is the occurrence of its run. -/
theorem planned_pos {time u : Rat} (hmissed : 0 < missed) (hle : missed ≤ now)
    (h : Planned E s stays missed now time (some u)) : 0 < u := by
  rcases h with ⟨-, hu⟩ | ⟨r, hlow, -, hnext⟩
  · cases hu
    exact hmissed
  · have hlater := Schedule.next_after_later E.zone hnext.symm
    linarith

theorem poll_kept {c : Core} (hmissed : 0 < missed) (hle : missed ≤ now)
    (h : Kept E s stays missed now c) (wait : NNRat) :
    Stepped E s stays missed now c (step E (.poll wait) c) := by
  have hwaited := h.waited wait
  simp only [step]
  split
  · rename_i u hflight hdue
    obtain ⟨hnext, hselect⟩ := Option.filter_eq_some_iff.mp hdue
    have hselect := of_decide_eq_true hselect
    have hpos := planned_pos hmissed hle (hnext ▸ h.next)
    refine ⟨hwaited.time, ⟨hwaited.kept.time, h.schedule, hwaited.kept.next, fun f hf => ?_,
      hwaited.kept.begun, h.once⟩, .refl _⟩
    cases hf
    rw [occurrenceAt, if_neg hpos.ne']
    exact ⟨rfl, hselect.2.1, hnext⟩
  · exact hwaited

theorem claim_kept {c : Core} (h : Kept E s stays missed now c) :
    Stepped E s stays missed now c (step E .claim c) := by
  simp only [step]
  split
  · rename_i task occurrence hflight
    obtain ⟨htask, hpast, hnext⟩ := h.flight _ hflight
    split
    · refine ⟨le_rfl, ⟨h.time, h.schedule, h.next, fun f hf => ?_, h.begun, h.once⟩, .refl _⟩
      cases hf
      exact ⟨htask, hpast, hnext⟩
    · rename_i hfresh
      refine ⟨le_rfl, ⟨h.time, h.schedule, h.next, fun f hf => ?_, fun u hu => ?_, ?_⟩, .refl _⟩
      · cases hf
        exact ⟨htask, hpast, hnext⟩
      · rcases List.mem_cons.mp hu with rfl | hu
        · exact ⟨List.mem_cons_self .., hnext ▸ h.next⟩
        · exact ⟨List.mem_cons_of_mem _ (h.begun u hu).1, (h.begun u hu).2⟩
      · exact List.nodup_cons.mpr ⟨fun hmem => hfresh (.inl (h.begun _ hmem).1), h.once⟩
  · exact h.same

theorem step_kept {c : Core} (hmissed : 0 < missed) (hle : missed ≤ now)
    (h : Kept E s stays missed now c) (e : Event) :
    Stepped E s stays missed now c (step E e c) := by
  cases e with
  | poll wait => exact poll_kept hmissed hle h wait
  | claim => exact claim_kept h
  | finish wait answer items kind =>
    simp only [step]
    split
    · rename_i task occurrence hflight
      obtain ⟨htask, hpast, -⟩ := h.flight _ hflight
      have hwait := wait_nonneg c.time wait
      apply h.leaves hwait
      rw [← htask]
      exact run_moves (E := E) (c := ⟨occurrence, answer, c.time + wait, kind⟩)
        (w := ⟨task, items⟩) (hpast.trans hwait) hwait
    · exact h.same
  | skip wait =>
    simp only [step]
    split
    · rename_i task occurrence hflight
      obtain ⟨htask, hpast, -⟩ := h.flight _ hflight
      have hwait := wait_nonneg c.time wait
      apply h.leaves hwait
      rw [← htask]
      exact .advance rfl (hpast.trans hwait) hwait le_rfl
    · exact h.same
  | broken memory wait outcome detail =>
    simp only [step]
    split
    · rename_i f hflight
      obtain ⟨htask, hpast, -⟩ := h.flight _ hflight
      have hmemory := wait_nonneg c.time memory.wait
      have hwait := wait_nonneg (c.time + memory.wait) wait
      apply h.leaves (hmemory.trans hwait)
      rw [← htask]
      exact (memory_moves memory f.task hpast).trans ((MovesOn.refl _).failure ..) hmemory hwait
    · exact h.same
  | lost memory =>
    simp only [step]
    split
    · rename_i f hflight
      obtain ⟨htask, hpast, -⟩ := h.flight _ hflight
      apply h.leaves (wait_nonneg c.time memory.wait)
      rw [← htask]
      exact memory_moves memory f.task hpast
    · exact h.same

/-! ### After an outage -/

/-- What polling makes of an outage: at most one run for the missed time, none
where nothing is to be made up for, and the next occurrence behind the clock
wherever the row is moved on. -/
structure Continues (E : Deployment) (now : Rat) (task : TaskRow) (missed : Rat) : Prop where
  idle : (task.schedule.catchUp E.zone missed now).1 = none →
    (recover E now task).1.nextRunAt = task.schedule.nextAfter E.zone now
  due : (task.schedule.catchUp E.zone missed now).1 ≠ none →
    (recover E now task).1.nextRunAt = some missed
  started : ∀ claimed runIds h c,
    (polling E now task claimed runIds).Run (fun _ _ => True) h c →
    (∀ u ∈ c.started, u ≤ now → u = missed ∧
      (task.schedule.catchUp E.zone missed now).1 ≠ none) ∧
    (c.started.filter (fun u => u ≤ now)).length ≤ 1
  moved : ∀ claimed runIds h c,
    (polling E now task claimed runIds).Run (fun _ _ => True) h c →
    ∀ e ∈ h, e.post.row.nextRunAt = e.pre.row.nextRunAt ∨
      ∃ r, e.pre.time ≤ r ∧ r ≤ e.post.time ∧
        e.post.row.nextRunAt = task.schedule.nextAfter E.zone r

/-- The row of a recurring task after an outage. -/
structure Missed (s : Schedule) (missed : Rat) (task : TaskRow) : Prop where
  schedule : task.schedule = s
  running : task.running = true
  next : task.nextRunAt = some missed

/-- At most one run after an outage, and that one if it still matters. -/
structure CaughtUp (E : Deployment) (s : Schedule) (missed now : Rat) : Prop where
  latest : ∃ k last, Latest E.zone s missed now k last ∧
    s.catchUp E.zone missed now = expected s now last k
  continues : ∀ task, Missed s missed task → Continues E now task missed

theorem recover_missed {task : TaskRow} (h : Missed s missed task) (hle : missed ≤ now) :
    (recover E now task).1.schedule = s ∧
    ((s.catchUp E.zone missed now).1 ≠ none → (recover E now task).1 = task) ∧
    ((s.catchUp E.zone missed now).1 = none →
      (recover E now task).1.nextRunAt = s.nextAfter E.zone now) := by
  obtain ⟨rfl, hrunning, hnext⟩ := h
  unfold recover
  rw [hnext]
  dsimp only
  rw [if_neg (by simp [hrunning, hle])]
  rcases hcatch : task.schedule.catchUp E.zone missed now with ⟨_ | last, skipped⟩
  · dsimp only
    split
    · rename_i u hu
      exact ⟨rfl, fun hne => absurd rfl hne, fun _ => hu.symm⟩
    · rename_i hu
      exact ⟨rfl, fun hne => absurd rfl hne, fun _ => hu.symm⟩
  · exact ⟨rfl, fun _ => rfl, fun hnone => by cases hnone⟩

theorem start_kept {task : TaskRow} (h : Missed s missed task) (hle : missed ≤ now)
    (claimed : List Rat) (runIds : List String) :
    Kept E s ((s.catchUp E.zone missed now).1 ≠ none) missed now
      (polling E now task claimed runIds).init := by
  obtain ⟨hschedule, hdue, hidle⟩ := recover_missed (E := E) h hle
  have hnext : Planned E s ((s.catchUp E.zone missed now).1 ≠ none) missed now now
      (recover E now task).1.nextRunAt := by
    by_cases hnone : (s.catchUp E.zone missed now).1 = none
    · exact .inr ⟨now, le_rfl, le_rfl, hidle hnone⟩
    · refine .inl ⟨hnone, ?_⟩
      rw [hdue hnone]
      exact h.next
  refine ⟨le_rfl, hschedule, hnext, fun f hf => ?_, fun u hu => ?_, List.nodup_nil⟩
  · cases hf
  · cases hu

theorem run_kept {task : TaskRow} {claimed : List Rat} {runIds : List String}
    {h : List (polling E now task claimed runIds).Entry} {c : Core}
    (hmissed : 0 < missed) (hle : missed ≤ now) (htask : Missed s missed task)
    (hrun : (polling E now task claimed runIds).Run (fun _ _ => True) h c) :
    Kept E s ((s.catchUp E.zone missed now).1 ≠ none) missed now c :=
  hrun.invariant _ (start_kept htask hle claimed runIds)
    (fun _ _ e _ hkept => (step_kept hmissed hle hkept e).kept)

theorem continues (hmissed : 0 < missed) (hle : missed ≤ now) {task : TaskRow}
    (htask : Missed s missed task) : Continues E now task missed := by
  obtain ⟨-, hdue, hidle⟩ := recover_missed (E := E) htask hle
  have hschedule := htask.schedule
  subst hschedule
  refine ⟨hidle, fun hne => ?_, fun claimed runIds h c hrun => ?_,
    fun claimed runIds h c hrun e he => ?_⟩
  · rw [hdue hne]
    exact htask.next
  · have hkept := run_kept hmissed hle htask hrun
    have honly : ∀ u ∈ c.started, u ≤ now → u = missed ∧
        (task.schedule.catchUp E.zone missed now).1 ≠ none := by
      intro u hu hpast
      rcases (hkept.begun u hu).2 with ⟨hne, hsame⟩ | ⟨r, hlow, -, hnext⟩
      · exact ⟨Option.some.inj hsame, hne⟩
      · have hlater := Schedule.next_after_later E.zone hnext.symm
        linarith
    refine ⟨honly, ?_⟩
    have hnodup : (c.started.filter (fun u => u ≤ now)).Nodup := hkept.once.filter _
    have hall : ∀ u ∈ c.started.filter (fun u => u ≤ now), u = missed := by
      intro u hu
      obtain ⟨hmem, hpast⟩ := List.mem_filter.mp hu
      exact (honly u hmem (of_decide_eq_true hpast)).1
    rw [List.eq_replicate_of_mem hall] at hnodup
    exact List.nodup_replicate.mp hnodup
  · obtain ⟨newer, older, -, hbefore, -⟩ := hrun.of_mem he
    have hkept := run_kept hmissed hle htask hbefore
    rcases (step_kept hmissed hle hkept e.call).moves.next with hsame | ⟨r, hlow, hhigh, hnext⟩
    · exact .inl hsame
    · exact .inr ⟨r, hlow, hhigh, hkept.schedule ▸ hnext⟩

theorem latest_bound {k : Nat} {last : Rat} (h : Latest E.zone s missed now k last)
    (hcatch : s.catchUp E.zone missed now = expected s now last k) :
    0 < missed ∧ ∃ k ≤ 1000, ∃ last, Latest E.zone s missed now k last := by
  obtain ⟨hmissed, hk⟩ := catch_up_bound hcatch
  exact ⟨hmissed, k, hk, last, h⟩

theorem caught_up (E : Deployment) (s : Schedule) {missed now : Rat} (hle : missed ≤ now) :
    CaughtUp E s missed now ↔
      0 < missed ∧ ∃ k ≤ 1000, ∃ last, Latest E.zone s missed now k last := by
  constructor
  · rintro ⟨⟨k, last, hlatest, hcatch⟩, -⟩
    exact latest_bound hlatest hcatch
  · rintro ⟨hmissed, k, hk, last, hlatest⟩
    exact ⟨⟨k, last, hlatest, catch_up_latest hmissed hlatest hk⟩,
      fun task htask => continues hmissed hle htask⟩

/-- A watch that looks every five minutes. -/
def fiveMinutes : Schedule := ⟨every 300, by decide⟩

def plain : Deployment where
  letters := ⟨fun s => String.ofList (s.toList.map Char.toLower), Char.isAlphanum⟩
  zone := ⟨fun t => ⌊t / 60⌋, fun m => 60 * m⟩
  credential _ := false
  repr := Data.dumps

/-- A quarter of an hour. -/
theorem caught_up_soon : CaughtUp plain fiveMinutes 1785000000 1785001000 := by
  apply (caught_up plain fiveMinutes (by norm_num)).mpr
  refine ⟨by norm_num, 3, by norm_num, 1785000900, by decide +kernel, by norm_num, fun u hu => ?_⟩
  cases hu
  norm_num [fiveMinutes, every]

theorem interval_occurrence (Z : Zone) {s : Schedule} (hs : s.kind = .interval) (k : Nat)
    (moment : Rat) : occurrenceFrom Z s moment k = some (moment + k * s.everySeconds) := by
  induction k generalizing moment with
  | zero => simp [occurrenceFrom]
  | succ k ih =>
    have hnext : s.nextAfter Z moment = some (moment + s.everySeconds) := by
      simp [Schedule.nextAfter, hs]
    rw [occurrenceFrom, hnext, Option.bind_some, ih]
    push_cast
    congr 1
    ring

/-- Two weeks, in the last second of which the watch was due. -/
theorem two_weeks : ¬ CaughtUp plain fiveMinutes 1785000000 1786209600 := by
  rintro ⟨⟨k, last, hlatest, hcatch⟩, -⟩
  obtain ⟨-, k, hk, last, hlatest⟩ := latest_bound hlatest hcatch
  have hlast := hlatest.occurrence
  rw [interval_occurrence plain.zone rfl] at hlast
  cases hlast
  have hlater := hlatest.latest _ rfl
  have hk : (k : Rat) ≤ 1000 := by exact_mod_cast hk
  simp only [fiveMinutes, every] at hlater
  norm_num at hlater
  linarith

end Solvio.Proactive.Outage
