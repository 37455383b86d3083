import Solvio.AgentRuntime.Ledger
import Solvio.Lib.Programs

namespace Solvio.AgentRuntime
open Solvio.Lib

/-! ### The statements of a transition -/

/-- The one `UPDATE` of a transition. It asks for nothing but the run. -/
structure Update where
  runId : String
  state : RunState
  startedAt : Option Time
  finishedAt : Option Time
  outcome : String
  failureCategory : String
  resultSummary : String
  updatedAt : Time

def Update.set (u : Update) (r : Run) : Run :=
  { r with
    state := u.state
    startedAt := u.startedAt
    finishedAt := u.finishedAt
    outcome := u.outcome
    failureCategory := u.failureCategory
    resultSummary := u.resultSummary
    updatedAt := u.updatedAt }

theorem Update.set_key (u : Update) (r : Run) : Keyed.key (u.set r) = Keyed.key r := rfl

def Ledger.updateRun (L : Ledger) (u : Update) : Ledger :=
  { L with runs := L.runs.modify u.runId u.set u.set_key }

@[simp] theorem Ledger.run_updateRun (L : Ledger) (u : Update) (id : String) :
    (L.updateRun u).run id = if id = u.runId then (L.run u.runId).map u.set else L.run id :=
  Table.find_modify L.runs u.runId id u.set u.set_key

/-- The oldest events of a run go first. -/
def dropOldest (id : String) : Nat → List Event → List Event
  | 0, es => es
  | _, [] => []
  | n + 1, e :: es =>
    if e.runId = id then dropOldest id n es else e :: dropOldest id (n + 1) es

inductive Stmt where
  | selectRun (runId : String)
  | updateRun (u : Update)
  | insertEvent (e : Event)
  | countEvents (runId : String)
  | deleteOldest (runId : String) (n : Nat)

namespace Stmt

abbrev Reply : Stmt → Type
  | selectRun _ => Option Run
  | insertEvent _ => Bool
  | countEvents _ => Nat
  | updateRun _ | deleteOldest _ _ => Unit

/-- An event needs its run; `false` is the violated reference. -/
def step : (s : Stmt) → Unit → Ledger → s.Reply × Ledger
  | selectRun id, _, L => (L.run id, L)
  | updateRun u, _, L => ((), L.updateRun u)
  | insertEvent e, _, L =>
    if (L.run e.runId).isSome then (true, { L with events := L.events ++ [e] }) else (false, L)
  | countEvents id, _, L => ((L.eventsOf id).length, L)
  | deleteOldest id n, _, L => ((), { L with events := dropOldest id n L.events })

def reads : Stmt → Bool
  | selectRun _ | countEvents _ => true
  | _ => false

end Stmt

/-- The connections of the ledger: every statement is committed by itself. -/
abbrev book (L₀ : Ledger) : Shared Ledger where
  Op := Stmt
  Input := Unit
  Reply := Stmt.Reply
  step := Stmt.step
  init := L₀

abbrev Script (α : Type) : Type := Prog Stmt Stmt.Reply α

/-- A statement, on a connection of its own. -/
def execute (s : Stmt) : Script s.Reply := .request s

/-! ### The calls -/

/-- What `transition` is called with, and the clock as it reads it. -/
structure Call where
  runId : String
  wanted : String
  summary : String := ""
  failureCategory : String := ""
  resultSummary : String := ""
  outcome : String := ""
  now : Time := 0
  notedAt : Time := 0

/-- The outcome of a run that ends without one. -/
def RunState.outcome : RunState → String
  | .succeeded => "succeeded"
  | .failed => "failed"
  | .cancelled => "cancelled"
  | _ => ""

namespace Call

def update (c : Call) (row : Run) (wanted : RunState) (result : String) : Update :=
  let given := if c.outcome = "" then row.outcome else c.outcome
  { runId := c.runId
    state := wanted
    startedAt := if row.startedAt = none ∧ (wanted = .planning ∨ wanted = .running) then some c.now
      else row.startedAt
    finishedAt := if wanted.terminal then some c.now else row.finishedAt
    outcome := if wanted.terminal ∧ given = "" then wanted.outcome else given
    failureCategory := if c.failureCategory = "" then row.failureCategory else c.failureCategory
    resultSummary := result
    updatedAt := c.now }

/-- The result's text, which is refused before anything is written. -/
def result (F : Firewall) (c : Call) (row : Run) : Option String :=
  if c.resultSummary = "" then some row.resultSummary
  else F.safeText c.resultSummary maxResultSummary

def note (c : Call) (current wanted : RunState) : String :=
  if c.summary = "" then current.name ++ " → " ++ wanted.name else c.summary

end Call

/-- What `_cap_events` does with the number of events it has counted. -/
def dropExcess (runId : String) (total : Nat) : Script Unit :=
  if total ≤ maxEventsPerRun then pure ()
  else execute (.deleteOldest runId (total - maxEventsPerRun))

/-- `record_event`, with the cap on the events of a run. -/
def recordEvent (F : Firewall) (runId kind summary : String) (at_ : Time) : Script Unit :=
  match F.safeText summary maxEventSummary with
  | none => .fail
  | some text => do
    let inserted : Bool ← execute (.insertEvent { at_, runId, kind, summary := text })
    if inserted = false then .fail
    else do
      let total : Nat ← execute (.countEvents runId)
      dropExcess runId total

/-- `AgentRunLedger.transition`. -/
def transition (F : Firewall) (c : Call) : Script Unit :=
  match RunState.ofName? c.wanted with
  | none => .fail
  | some wanted =>
    if c.failureCategory ≠ "" ∧ c.failureCategory ∉ failureCategories then .fail
    else do
      let row? : Option Run ← execute (.selectRun c.runId)
      match row? with
      | none => .fail
      | some row =>
        if wanted ∉ row.state.transitions then .fail
        else match c.result F row with
          | none => .fail
          | some result => do
            execute (.updateRun (c.update row wanted result))
            recordEvent F c.runId "state_changed" (c.note row.state wanted) c.notedAt
            let _ ← execute (.selectRun c.runId)
            pure ()

/-! ### What a statement changes -/

theorem Stmt.reads_same {s : Stmt} (h : s.reads = true) (L : Ledger) : (s.step () L).2 = L := by
  cases s with
  | selectRun | countEvents => rfl
  | _ => cases h

/-- Only the update of a run changes its state. -/
theorem Stmt.step_state (s : Stmt) (L : Ledger) (id : String) :
    (s.step () L).2.state id = L.state id ∨ ∃ u row, s = .updateRun u ∧ u.runId = id ∧
      L.run id = some row ∧ (s.step () L).2.state id = some u.state := by
  cases s with
  | updateRun u =>
    simp only [Stmt.step, Ledger.state, Ledger.run_updateRun]
    by_cases hu : id = u.runId
    · subst hu
      cases hr : L.run u.runId with
      | none => exact Or.inl (by simp)
      | some row => exact Or.inr ⟨u, row, rfl, rfl, rfl, by simp [Update.set]⟩
    · exact Or.inl (by rw [if_neg hu])
  | insertEvent e =>
    simp only [Stmt.step]
    split <;> exact Or.inl rfl
  | selectRun | countEvents | deleteOldest => exact Or.inl rfl

theorem Stmt.step_known {s : Stmt} {L : Ledger} {id : String} (h : (L.run id).isSome) :
    ((s.step () L).2.run id).isSome := by
  have hs := s.step_state L id
  simp only [Ledger.state] at hs
  rcases hs with hs | ⟨u, row, -, -, -, hs⟩
  · have hmap := congrArg Option.isSome hs
    simpa [h] using hmap
  · have hmap := congrArg Option.isSome hs
    simpa using hmap

/-! ### What a call leaves in the log -/

section log
variable {L₀ : Ledger} {F : Firewall}

abbrev Entry (L₀ : Ledger) : Type := (book L₀).Event

/-- The row that a call has read last. -/
def readOf : List (Entry L₀) → Option Run
  | [] => none
  | e :: mine =>
    match e.call.op with
    | .selectRun id => e.pre.run id
    | _ => readOf mine

def lastRead (task : Nat) (L : List (Entry L₀)) : Option Run := readOf (Shared.own task L)

def Entry.update? (e : Entry L₀) : Option Update :=
  match e.call.op with
  | .updateRun u => some u
  | _ => none

def Entry.event? (e : Entry L₀) : Option Event :=
  match e.call.op with
  | .insertEvent n => some n
  | _ => none

/-- An update writes what the table allows from the state that the call read. -/
def Checked (L₀ : Ledger) : (book L₀).Discipline := fun L a =>
  ∀ u, a.op = .updateRun u → ∃ row, lastRead a.task L = some row ∧ row.runId = u.runId ∧
    u.state ∈ row.state.transitions

/-- The event of a change: its text is the call's, or names the edge. -/
structure Matches (F : Firewall) (id : String) (s s' : RunState) (n : Event) : Prop where
  runId : n.runId = id
  kind : n.kind = "state_changed"
  summary : ∃ c : Call, F.safeText (c.note s s') maxEventSummary = some n.summary

/-- An event that was inserted is the newest of the ledger. -/
def Stores (mine : List (Entry L₀)) : Prop :=
  ∀ d ∈ mine, ∀ n, d.event? = some n → d.post.events = d.pre.events ++ [n]

/-- A call that returned has changed one run once, and noted it once. -/
structure Noted (F : Firewall) (mine : List (Entry L₀)) : Prop where
  change : ∃ newer e older u row n, mine = newer ++ e :: older ∧ e.update? = some u ∧
    readOf older = some row ∧ (∀ d ∈ newer, d.update? = none) ∧ (∀ d ∈ older, d.update? = none) ∧
    mine.filterMap Entry.event? = [n] ∧ Matches F u.runId row.state u.state n
  stores : Stores mine

/-- A call that raised has only read. -/
def OnlyRead (mine : List (Entry L₀)) : Prop := ∀ e ∈ mine, e.call.op.reads = true

/-- No run is taken away. -/
def StillKnown (mine : List (Entry L₀)) (L : Ledger) : Prop :=
  ∀ e ∈ mine, ∀ id, (e.pre.run id).isSome → (L.run id).isSome

/-- The text that the call brings, if any, is none that the filter refuses. -/
def Call.Quiet (F : Firewall) (c : Call) : Prop :=
  c.summary ≠ "" → F.isCredential c.summary = false

theorem note_passes {c : Call} (h : c.Quiet F) (s s' : RunState) :
    ∃ text, F.safeText (c.note s s') maxEventSummary = some text := by
  unfold Firewall.safeText
  refine ⟨_, if_neg ?_⟩
  rintro ⟨-, hbad⟩
  unfold Call.note at hbad
  split at hbad
  · rw [F.edge_passes] at hbad
    cases hbad
  · rename_i hs
    rw [h hs] at hbad
    cases hbad

/-- What a recorded event adds to the log of its task. -/
structure Adds (n : Event) (before mine : List (Entry L₀)) : Prop where
  newer : ∃ newer, mine = newer ++ before ∧ (∀ d ∈ newer, d.update? = none) ∧
    newer.filterMap Entry.event? = [n] ∧ Stores newer

theorem dropExcess_ends (id : String) (total : Nat) (task : Nat) (mine : List (Entry L₀))
    (X : List (Entry L₀) → Prop) : Shared.Ends (w := book L₀) StillKnown task (dropExcess id total)
      mine (fun _ mine' => ∃ newer : List (Entry L₀), mine' = newer ++ mine ∧
        (∀ d ∈ newer, d.update? = none ∧ d.event? = none)) X := by
  unfold dropExcess
  split
  · exact ⟨[], rfl, by simp⟩
  · intro s _ _
    exact ⟨[_], rfl, List.forall_mem_singleton.mpr ⟨rfl, rfl⟩⟩

theorem recordEvent_ends {id kind summary text : String} {at_ : Time} {task : Nat}
    {mine : List (Entry L₀)} {X : List (Entry L₀) → Prop}
    (htext : F.safeText summary maxEventSummary = some text)
    (hknown : ∀ L, StillKnown mine L → (L.run id).isSome) :
    Shared.Ends (w := book L₀) StillKnown task (recordEvent F id kind summary at_) mine
      (fun _ => Adds { at_, runId := id, kind, summary := text } mine) X := by
  unfold recordEvent
  rw [htext]
  intro s _ hs
  simp only [Stmt.step, hknown s hs, ↓reduceIte]
  intro s' _ _
  refine (dropExcess_ends id (s'.eventsOf id).length task _ X).conseq (fun _ mine' h => ?_)
  obtain ⟨newer, rfl, hnewer⟩ := h
  refine ⟨newer ++ [_, _], (List.append_assoc newer [_, _] mine).symm, fun d hd => ?_, ?_,
    fun d hd n hn => ?_⟩
  · rcases List.mem_append.mp hd with hd | hd
    · exact (hnewer d hd).1
    · simp only [List.mem_cons, List.not_mem_nil, or_false] at hd
      rcases hd with rfl | rfl <;> rfl
  · rw [List.filterMap_append, List.filterMap_eq_nil_iff.mpr (fun d hd => (hnewer d hd).2)]
    rfl
  · rcases List.mem_append.mp hd with hd | hd
    · rw [(hnewer d hd).2] at hn
      cases hn
    · simp only [List.mem_cons, List.not_mem_nil, or_false] at hd
      rcases hd with rfl | rfl
      · cases hn
      · cases hn
        change (Stmt.step (.insertEvent _) () s).2.events = s.events ++ [_]
        simp only [Stmt.step, hknown s hs, ↓reduceIte]

/-- Whatever runs in between, a call that returns has noted its change, and a
call that raises has changed nothing. -/
theorem transition_ends (c : Call) (h : c.Quiet F) (task : Nat) :
    Shared.Ends (w := book L₀) StillKnown task (transition F c) [] (fun _ => Noted F) OnlyRead := by
  unfold transition
  split
  · intro e he
    cases he
  · rename_i wanted hw
    split
    · intro e he
      cases he
    · simp only [execute, Prog.bind_request]
      intro s _ _
      -- the log of the call is now its SELECT
      have hread : OnlyRead [(⟨s, ⟨task, Stmt.selectRun c.runId, ()⟩⟩ : Entry L₀)] := by
        intro e he
        cases List.mem_singleton.mp he
        rfl
      simp only [Stmt.step]
      cases hrow : s.run c.runId with
      | none => exact hread
      | some row =>
        simp only
        split
        · exact hread
        · split
          · exact hread
          · rename_i result hresult
            intro s' _ _
            obtain ⟨text, htext⟩ := note_passes h row.state wanted
            refine (recordEvent_ends htext (fun L hL => ?_)).bind (fun _ mine hadds => ?_)
            · have hmem : (⟨s, ⟨task, Stmt.selectRun c.runId, ()⟩⟩ : Entry L₀) ∈
                  [⟨s', ⟨task, Stmt.updateRun (c.update row wanted result), ()⟩⟩,
                    ⟨s, ⟨task, Stmt.selectRun c.runId, ()⟩⟩] := by simp
              exact hL _ hmem c.runId (by simp [hrow])
            · intro s'' _ _
              obtain ⟨newer, rfl, hnewer, hevents, hstores⟩ := hadds
              have hmatch : Matches F c.runId row.state wanted
                  { at_ := c.notedAt, runId := c.runId, kind := "state_changed", summary := text } :=
                ⟨rfl, rfl, c, htext⟩
              refine ⟨⟨_ :: newer, _, _, _, row, _, rfl, rfl, hrow, ?_, ?_, ?_, hmatch⟩,
                fun d hd n hn => ?_⟩
              · exact List.forall_mem_cons.mpr ⟨rfl, hnewer⟩
              · exact List.forall_mem_singleton.mpr rfl
              · rw [List.filterMap_cons_none rfl, List.filterMap_append, hevents]
                rfl
              · rcases List.mem_cons.mp hd with rfl | hd
                · cases hn
                · rcases List.mem_append.mp hd with hd | hd
                  · exact hstores d hd n hn
                  · simp only [List.mem_cons, List.not_mem_nil, or_false] at hd
                    rcases hd with rfl | rfl <;> cases hn

theorem dropExcess_safe (id : String) (total : Nat) (task : Nat) (L : List (Entry L₀)) :
    Shared.Safe (w := book L₀) (Checked L₀) task (dropExcess id total) L (fun _ _ => True) := by
  unfold dropExcess
  split
  · trivial
  · intro L' s _ _ _
    exact ⟨fun u hu => (by cases hu), trivial⟩

theorem recordEvent_safe (id kind summary : String) (at_ : Time) (task : Nat)
    (L : List (Entry L₀)) : Shared.Safe (w := book L₀) (Checked L₀) task
      (recordEvent F id kind summary at_) L (fun _ _ => True) := by
  unfold recordEvent
  split
  · trivial
  · intro L' s _ _ _
    refine ⟨fun u hu => (by cases hu), ?_⟩
    simp only [Stmt.step]
    by_cases hknown : (s.run id).isSome
    · simp only [hknown, ↓reduceIte]
      intro L'' s' _ _ _
      exact ⟨fun u hu => (by cases hu), dropExcess_safe id (s'.eventsOf id).length task _⟩
    · simp only [hknown]
      trivial

/-- Every update of a call is an edge from what the call has read. -/
theorem transition_checked (c : Call) :
    Shared.Launchable (w := book L₀) (Checked L₀) (transition F c) := by
  intro task
  unfold transition
  split
  · trivial
  · rename_i wanted hw
    split
    · trivial
    · simp only [execute, Prog.bind_request]
      intro L s _ _ _
      refine ⟨fun u hu => (by cases hu), ?_⟩
      simp only [Stmt.step]
      cases hrow : s.run c.runId with
      | none => trivial
      | some row =>
        simp only
        split
        · trivial
        · rename_i hedge
          split
          · trivial
          · intro L' s' _ hlater _
            refine ⟨fun u hu => ?_, (recordEvent_safe ..).bind (fun L'' _ _ => ?_)⟩
            · cases hu
              have hread : lastRead task L' = some row := by
                rw [lastRead, hlater.own_eq]
                have hown : Shared.own task ((⟨s, ⟨task, .selectRun c.runId, ()⟩⟩ : Entry L₀) :: L) =
                    ⟨s, ⟨task, .selectRun c.runId, ()⟩⟩ :: Shared.own task L :=
                  Shared.own_cons_self rfl L
                exact (congrArg readOf hown).trans hrow
              exact ⟨row, hread, Table.key_of_find hrow, Decidable.not_not.mp hedge⟩
            · intro L₃ s₃ _ _ _
              exact ⟨fun u hu => (by cases hu), trivial⟩

end log

/-! ### Calls side by side -/

section world
variable {L₀ : Ledger} {F : Firewall} {W : (book L₀).World}

/-- Calls of `transition`, from any connection and for any run. -/
def Calls (F : Firewall) (good : Call → Prop) (p : Script Unit) : Prop :=
  ∃ c, good c ∧ p = transition F c

/-- No call's update meets a state other than the one that the call has read. -/
def Undisturbed (log : List (Entry L₀)) : Prop :=
  ∀ newer e older u row, log = newer ++ e :: older → e.update? = some u →
    lastRead e.call.task older = some row → e.pre.state u.runId = some row.state

/-- The stored states are a path, every stored change has its one event, and a
call that raised has changed nothing. -/
structure Atomic (F : Firewall) (W : (book L₀).World) : Prop where
  path : ∀ e ∈ W.log, ∀ id s s', e.pre.state id = some s → e.post.state id = some s' →
    s' = s ∨ s' ∈ s.transitions
  noted : ∀ e ∈ W.log, ∀ id s s', e.pre.state id = some s → e.post.state id = some s' → s' ≠ s →
    W.tasks e.call.task = some (.ret ()) → ∃ n, Matches F id s s' n ∧
      (Shared.own e.call.task W.log).filterMap Entry.event? = [n] ∧
      ∃ d ∈ W.log, d.call.task = e.call.task ∧ d.post.events = d.pre.events ++ [n]
  refused : ∀ task, W.tasks task = some .fail → ∀ e ∈ W.log, e.call.task = task → e.post = e.pre

theorem entry_changes {e : Entry L₀} {id : String} {s s' : RunState} (h : e.pre.state id = some s)
    (h' : e.post.state id = some s') (hne : s' ≠ s) :
    ∃ u, e.update? = some u ∧ u.runId = id ∧ u.state = s' := by
  rcases e.call.op.step_state e.pre id with hsame | ⟨u, row, hu, hid, -, hset⟩
  · have heq := (h'.symm.trans hsame).trans h
    exact absurd (Option.some.inj heq) hne
  · refine ⟨u, by simp only [Entry.update?, hu], hid, ?_⟩
    exact Option.some.inj (hset.symm.trans h')

theorem mem_own {task : Nat} {L : List (Entry L₀)} {e : Entry L₀} :
    e ∈ Shared.own task L ↔ e ∈ L ∧ e.call.task = task := by
  simp [Shared.own]

/-- A run that was known to a step is known to the end. -/
theorem known_later {good : Call → Prop} (hr : Shared.World.Reach (Calls F good) W) (task : Nat) :
    StillKnown (Shared.own task W.log) W.state := by
  have hsafe : ∀ p, Calls F good p → Shared.Launchable (Checked L₀) p :=
    fun p ⟨c, _, hp⟩ => hp ▸ transition_checked c
  have hrun := (hr.disciplined hsafe).run
  intro e he id hknown
  obtain ⟨newer, older, hsplit⟩ := List.append_of_mem (Iff.mp mem_own he).1
  rw [hsplit] at hrun
  exact (hrun.forward (fun L => (L.run id).isSome) hknown
    (fun _ L a _ h => Stmt.step_known h)).2.1

theorem only_update {e d : Entry L₀} {newer older N O : List (Entry L₀)} {u : Update}
    (h : N ++ e :: O = newer ++ d :: older) (he : e.update? = some u)
    (hnewer : ∀ k ∈ newer, k.update? = none) (holder : ∀ k ∈ older, k.update? = none) :
    e = d ∧ O = older := by
  rcases List.append_eq_append_iff.mp h with ⟨M, hM, hM'⟩ | ⟨M, hM, hM'⟩
  · cases M with
    | nil =>
      simp only [List.nil_append, List.cons.injEq] at hM'
      exact hM'
    | cons m M =>
      simp only [List.cons_append, List.cons.injEq] at hM'
      have hin : e ∈ newer := by
        rw [hM, hM'.1]
        simp
      rw [hnewer e hin] at he
      cases he
  · cases M with
    | nil =>
      simp only [List.nil_append, List.cons.injEq] at hM'
      exact ⟨hM'.1.symm, hM'.2.symm⟩
    | cons m M =>
      simp only [List.cons_append, List.cons.injEq] at hM'
      have hin : e ∈ older := by
        rw [hM'.2]
        simp
      rw [holder e hin] at he
      cases he

/-- An update that meets what the call has read is an edge. -/
theorem update_edge (hrun : (book L₀).machine.Run (Checked L₀) W.log W.state)
    (hu : Undisturbed W.log) {newer older : List (Entry L₀)} {e : Entry L₀} {u : Update}
    (hsplit : W.log = newer ++ e :: older) (he : e.update? = some u) :
    ∃ row, lastRead e.call.task older = some row ∧ e.pre.state u.runId = some row.state ∧
      u.state ∈ row.state.transitions := by
  have hop : e.call.op = .updateRun u := by
    unfold Entry.update? at he
    split at he
    · rename_i v hv
      cases he
      exact hv
    · cases he
  rw [hsplit] at hrun
  obtain ⟨row, hread, hid, hedge⟩ := hrun.split.2 u hop
  exact ⟨row, hread, hu newer e older u row hsplit he hread, hedge⟩

/-- Calls whose updates meet what they read, and whose notes the filter lets
through, are atomic in every order of their statements. -/
theorem transitions_atomic (hr : Shared.World.Reach (Calls F (Call.Quiet F)) W)
    (hu : Undisturbed W.log) : Atomic F W := by
  have hsafe : ∀ p, Calls F (Call.Quiet F) p → Shared.Launchable (Checked L₀) p :=
    fun p ⟨c, _, hp⟩ => hp ▸ transition_checked c
  have hrun := (hr.disciplined hsafe).run
  have hends := hr.ending (A := StillKnown) (R := fun _ => Noted F) (X := fun _ => OnlyRead)
    (fun W' hr' => known_later hr') (fun p ⟨c, hc, hp⟩ task => hp ▸ transition_ends c hc task)
  refine ⟨?_, ?_, ?_⟩
  · intro e he id s s' hs hs'
    by_cases hne : s' = s
    · exact Or.inl hne
    · obtain ⟨u, hup, rfl, rfl⟩ := entry_changes hs hs' hne
      obtain ⟨newer, older, hsplit⟩ := List.append_of_mem he
      obtain ⟨row, -, hpre, hedge⟩ := update_edge hrun hu hsplit hup
      rw [hs] at hpre
      cases hpre
      exact Or.inr hedge
  · intro e he id s s' hs hs' hne hret
    obtain ⟨u, hup, rfl, rfl⟩ := entry_changes hs hs' hne
    obtain ⟨newer, older, hsplit⟩ := List.append_of_mem he
    obtain ⟨row, hread, hpre, -⟩ := update_edge hrun hu hsplit hup
    rw [hs] at hpre
    cases hpre
    obtain ⟨⟨N, d, O, v, row', n, hmine, hd, hrow', hN, hO, hone, hmatch⟩, hstores⟩ :
      Noted F (Shared.own e.call.task W.log) := hends.ends e.call.task _ hret
    -- the update that changed the state is the one of its call
    have hcut : Shared.own e.call.task W.log =
        Shared.own e.call.task newer ++ e :: Shared.own e.call.task older := by
      rw [hsplit, Shared.own, List.filter_append, List.filter_cons_of_pos (by simp)]
      rfl
    obtain ⟨rfl, rfl⟩ := only_update (hcut.symm.trans hmine) hup hN hO
    rw [hup] at hd
    cases hd
    have hrow : row = row' := Option.some.inj (hread.symm.trans hrow')
    subst hrow
    refine ⟨n, hmatch, hone, ?_⟩
    have hin : n ∈ (Shared.own e.call.task W.log).filterMap Entry.event? := by
      rw [hone]
      exact List.mem_singleton.mpr rfl
    obtain ⟨k, hk, hkn⟩ := List.mem_filterMap.mp hin
    exact ⟨k, (mem_own.mp hk).1, (mem_own.mp hk).2, hstores k hk n hkn⟩
  · intro task hfail e he ht
    have hread : OnlyRead (Shared.own task W.log) := hends.ends task .fail hfail
    exact Stmt.reads_same (hread e (mem_own.mpr ⟨he, ht⟩)) e.pre

theorem undisturbed_cons {e : Entry L₀} {log : List (Entry L₀)} (hlog : Undisturbed log)
    (he : ∀ u row, e.update? = some u → lastRead e.call.task log = some row →
      e.pre.state u.runId = some row.state) : Undisturbed (e :: log) := by
  intro newer d older u row hsplit hd hread
  cases newer with
  | nil =>
    simp only [List.nil_append, List.cons.injEq] at hsplit
    obtain ⟨rfl, rfl⟩ := hsplit
    exact he u row hd hread
  | cons n newer =>
    simp only [List.cons_append, List.cons.injEq] at hsplit
    exact hlog newer d older u row hsplit.2 hd hread

/-- The check of one entry and those before it. -/
def meetsReads : List (Entry L₀) → Bool
  | [] => true
  | e :: log =>
    (match e.update?, lastRead e.call.task log with
      | some u, some row => decide (e.pre.state u.runId = some row.state)
      | _, _ => true) && meetsReads log

theorem undisturbed_of_meets {log : List (Entry L₀)} (h : meetsReads log = true) :
    Undisturbed log := by
  induction log with
  | nil =>
    intro newer e older u row hsplit
    simp at hsplit
  | cons e log ih =>
    simp only [meetsReads, Bool.and_eq_true] at h
    refine undisturbed_cons (ih h.2) (fun u row hu hread => ?_)
    have he := h.1
    rw [hu, hread] at he
    exact of_decide_eq_true he

end world

/-! ### Two calls that read the same row -/

/-- A firewall for texts without credentials. -/
def openFirewall : Firewall := ⟨fun _ => false, id, fun _ _ => rfl⟩

def sampleRun : Run :=
  { runId := "r", taskId := "t", state := .running, createdAt := 0, updatedAt := 0 }

def sampleLedger : Ledger := { Ledger.empty with runs := ⟨[sampleRun], by simp⟩ }

def sampleCall (wanted : String) : Call := { runId := "r", wanted }

def sampleWorld (ms : List (book sampleLedger).Move) : (book sampleLedger).World :=
  (Shared.World.start (book sampleLedger)).moves ms

def startCall (wanted : String) : (book sampleLedger).Move :=
  .spawn (transition openFirewall (sampleCall wanted))

theorem sample_reach {good : Call → Prop} {ms : List (book sampleLedger).Move}
    (h : ∀ p, Shared.Move.spawn p ∈ ms → Calls openFirewall good p) :
    Shared.World.Reach (Calls openFirewall good) (sampleWorld ms) :=
  Shared.World.Reach.moves .start h

/-- The moves of one call: two reads, an update, an event and its count. -/
def alone : List (book sampleLedger).Move :=
  [startCall "SUCCEEDED", .act 0 (), .act 0 (), .act 0 (), .act 0 (), .act 0 ()]

/-- Both calls read RUNNING, then both write. -/
def crossed : List (book sampleLedger).Move :=
  [startCall "SUCCEEDED", startCall "FAILED", .act 0 (), .act 1 (), .act 0 (), .act 1 ()]

theorem transitions_atomic_sample : Atomic openFirewall (sampleWorld alone) ∧
    (sampleWorld alone).state.state "r" = some .succeeded := by
  refine ⟨transitions_atomic (sample_reach (fun p hp => ?_)) ?_, by decide⟩
  · simp only [alone, startCall, List.mem_cons, Shared.Move.spawn.injEq, reduceCtorEq, or_false,
      List.not_mem_nil] at hp
    exact ⟨sampleCall "SUCCEEDED", fun h => absurd rfl h, hp⟩
  · exact undisturbed_of_meets (by decide)

/-- A run that has succeeded becomes a failed one. -/
theorem final_state_left : ¬ ∀ F L₀ W, Shared.World.Reach (w := book L₀) (Calls F (fun _ => True)) W →
    Atomic F W := by
  intro hall
  have hreach : Shared.World.Reach (Calls openFirewall (fun _ => True)) (sampleWorld crossed) :=
    sample_reach (fun p hp => by
      simp only [crossed, startCall, List.mem_cons, Shared.Move.spawn.injEq, reduceCtorEq, or_false,
        List.not_mem_nil] at hp
      rcases hp with rfl | rfl
      · exact ⟨sampleCall "SUCCEEDED", trivial, rfl⟩
      · exact ⟨sampleCall "FAILED", trivial, rfl⟩)
  have hlast : (sampleWorld crossed).log.head?.map
      (fun e => (e.pre.state "r", Machine.Entry.post e |>.state "r")) =
      some (some .succeeded, some .failed) := by decide
  obtain ⟨e, he, hstates⟩ := Option.map_eq_some_iff.mp hlast
  have hpath := (hall _ _ _ hreach).path e (List.mem_of_mem_head? he) "r" .succeeded .failed
    (congrArg Prod.fst hstates) (congrArg Prod.snd hstates)
  rcases hpath with hsame | hedge
  · cases hsame
  · rw [RunState.transitions_final rfl] at hedge
    cases hedge

end Solvio.AgentRuntime
