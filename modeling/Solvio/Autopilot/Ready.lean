import Solvio.Autopilot.Transitions

namespace Solvio.Autopilot
open Solvio.Lib

namespace Ledger

/-- A green test report under this id. -/
def Green (L : Ledger) (evidenceId : String) (e : Evidence) : Prop :=
  L.evidence? evidenceId = some e ∧ e.ok = true ∧ e.kind = "test_report"

/-- There are criteria, and each of them is proven. -/
def Accepted (L : Ledger) (id : String) : Prop :=
  L.criteriaOf id ≠ [] ∧ ∀ c ∈ L.criteriaOf id, c.state = .proven

/-- No blocker and no major finding is open. -/
def Clear (L : Ledger) (id : String) : Prop :=
  ∀ f ∈ L.findings.rows, f.milestoneId = id → f.isOpen = true → f.severity.blocking = false

/-- The newest decision of the technical lead. -/
def lastVerdict (L : Ledger) (id : String) : Option String :=
  ((L.decisions.rows.filter (fun d => d.milestoneId = id && d.role = "technical_lead")).foldl
    (fun newest d => match newest with
      | none => some d
      | some n => if n.decidedAt < d.decidedAt ∨
          (n.decidedAt = d.decidedAt ∧ n.decisionId ≤ d.decisionId) then some d else some n)
    none).map Decision.verdict

theorem readyCheck_ok {L : Ledger} {id evidenceId verdict : String} :
    (L.readyCheck id evidenceId verdict).ok = true ↔
      (evidenceId ≠ "" ∧ ∃ e, L.Green evidenceId e) ∧ L.Accepted id ∧ L.Clear id ∧
        verdict = "READY" := by
  have hgreen : (L.readyCheck id evidenceId verdict).gateGreen = true ↔
      evidenceId ≠ "" ∧ ∃ e, L.Green evidenceId e := by
    simp only [readyCheck, Green]
    split
    · rename_i h
      simp [h]
    · rename_i h
      simp [h, Option.any_eq_true]
  have hcount : (0 < (L.acceptanceCounts id).2 ∧
      (L.acceptanceCounts id).1 = (L.acceptanceCounts id).2) ↔ L.Accepted id := by
    simp only [acceptanceCounts, Accepted, List.countP_eq_length, List.length_pos_iff,
      decide_eq_true_eq]
  have hclear : ((L.blockingFindings id).map Finding.findingId).isEmpty = true ↔ L.Clear id := by
    simp only [List.isEmpty_iff, List.map_eq_nil_iff, blockingFindings, List.filter_eq_nil_iff,
      Clear, Bool.and_eq_true, decide_eq_true_eq, not_and, Bool.not_eq_true, and_imp]
  rw [← hgreen, ← hcount, ← hclear, ReadyCheck.ok]
  simp only [Bool.and_eq_true, decide_eq_true_eq]
  constructor
  · rintro ⟨⟨⟨⟨hg, h0⟩, ha⟩, hb⟩, hv⟩
    exact ⟨hg, ⟨h0, ha⟩, hb, hv⟩
  · rintro ⟨hg, ⟨h0, ha⟩, hb, hv⟩
    exact ⟨⟨⟨⟨hg, h0⟩, ha⟩, hb⟩, hv⟩

end Ledger

/-- What a turn to READY is to rest on: evidence of this very milestone and its
last commit, and the lead's latest verdict. -/
def Measured (L : Ledger) (id : String) : Prop :=
  (∃ m evidenceId e, L.milestone id = some m ∧ L.Green evidenceId e ∧ e.milestoneId = id ∧
    e.commit = m.lastCommit) ∧ L.Accepted id ∧ L.Clear id ∧ L.lastVerdict id = some "READY"

/-- A call that makes a milestone READY. -/
def Entry.readies (e : Entry) (id : String) : Prop :=
  e.pre.state id ≠ some .ready ∧ e.post.state id = some .ready

/-- Every turn to READY rests on measurements, and both ends are final. -/
def ReadyMeasured (h : List Entry) : Prop :=
  (∀ e ∈ h, ∀ id, Entry.readies e id → Measured e.pre id) ∧
  ∀ e ∈ h, ∀ id s, e.pre.state id = some s → s.terminal = true → e.post.state id = some s

/-- READY comes from REVIEWING, by a transition that presents a green test
report and the verdict, over proven criteria and no blocking finding. -/
def Checked (e : Entry) (id : String) : Prop :=
  ∃ a, e.call.op = .transition id "READY" a ∧ e.pre.state id = some .reviewing ∧
    (∃ ev, e.pre.Green a.gateEvidenceId ev) ∧ e.pre.Accepted id ∧ e.pre.Clear id ∧
    a.leadVerdict = "READY"

/-- A transition to READY has met all conditions. -/
theorem transition_ready {L : Ledger} {id : String} {a : Args} {ws : List Write}
    (h : L.transition id "READY" a = .ok ws) : L.state id = some .reviewing ∧
      (∃ e, L.Green a.gateEvidenceId e) ∧ L.Accepted id ∧ L.Clear id ∧ a.leadVerdict = "READY" := by
  obtain ⟨m, t, hm, hlive, ht, hedge, hcond, -⟩ := Ledger.transition_ok h
  obtain rfl : t = .ready := by
    cases t with
    | ready => rfl
    | _ => exact absurd ht (by decide)
  have hid : m.milestoneId = id := Table.key_of_find hm
  have hok := Ledger.conditions_ready hcond rfl
  rw [hid] at hok
  obtain ⟨⟨-, hgreen⟩, haccepted, hclear, hverdict⟩ := Ledger.readyCheck_ok.mp hok
  refine ⟨?_, hgreen, haccepted, hclear, hverdict⟩
  have hstate : m.state = .reviewing := by
    cases hp : m.state.parked with
    | true =>
      rcases Ledger.parked_ok hedge hp with hstop | ⟨-, hun, -⟩
      · cases hstop
      · exact absurd hun (by decide)
    | false =>
      have hmem := Ledger.edge_ok hedge hp
      cases hs : m.state with
      | reviewing => rfl
      | _ =>
        rw [hs] at hmem
        exact absurd hmem (by decide)
  rw [Ledger.state, hm, Option.map_some, hstate]

theorem readies_checked {e : Entry} {id : String} (h : Entry.readies e id) : Checked e id := by
  obtain ⟨hpre, hpost⟩ := h
  have hnew : ∀ m, .insertMilestone m ∈ e.call.writes e.pre → m.state ≠ .ready := by
    intro m hm hs
    rw [(op_inserts (mem_writes hm)).1] at hs
    cases hs
  rcases Ledger.exec_reached hpost hnew with hs | hs
  · exact absurd hs hpre
  · rcases op_sets (mem_writes hs) with ⟨k, target, a, hop, hset⟩ | ⟨L', k, target, -, hset⟩
    · obtain ⟨rfl, hname, ws, hws⟩ := transition_sets hset
      subst hname
      exact ⟨a, hop, transition_ready hws⟩
    · -- the composed calls present no verdict
      obtain ⟨rfl, hname, ws, hws⟩ := transition_sets hset
      subst hname
      exact absurd (transition_ready hws).2.2.2.2 (by decide)

/-- No call sets a state where the milestone is at its end. -/
theorem final_stays {L : Ledger} {c : Call} {id : String} {s : State} (hs : L.state id = some s)
    (hfinal : s.terminal = true) : (autopilot.step c L).2.state id = some s := by
  refine Ledger.exec_state hs (fun t ht => ?_)
  have hlive : ∀ (L : Ledger) (target : String) (a : Args), L.state id = some s →
      .setState id t ∉ committed (L.transition id target a) := by
    intro L target a hL hset
    obtain ⟨-, -, ws, hws⟩ := transition_sets hset
    obtain ⟨m, -, hm, hlive, -⟩ := Ledger.transition_ok hws
    rw [Ledger.state, hm] at hL
    cases hL
    rw [hfinal] at hlive
    cases hlive
  rcases op_sets (mem_writes ht) with ⟨k, target, a, -, hset⟩ | ⟨L', k, target, hsame, hset⟩
  · obtain ⟨rfl, -⟩ := transition_sets hset
    exact hlive _ _ _ hs hset
  · obtain ⟨rfl, -⟩ := transition_sets hset
    obtain ⟨m, hm, rfl⟩ := Option.map_eq_some_iff.mp hs
    exact hlive L' _ _ (by rw [Ledger.state, hsame _ m hm, Option.map_some]) hset

/-- A READY milestone was made READY, by a call of the run. -/
theorem ready_made {permits : List Entry → Call → Prop} {h : List Entry} {L : Ledger}
    (hrun : autopilot.Run permits h L) {id : String} (hr : L.state id = some .ready) :
    ∃ e ∈ h, Entry.readies e id := by
  induction hrun with
  | start => cases hr
  | @step h L c hrun hc ih =>
    by_cases hpre : L.state id = some .ready
    · obtain ⟨e, he, hready⟩ := ih hpre
      exact ⟨e, List.mem_cons_of_mem _ he, hready⟩
    · exact ⟨⟨L, c⟩, List.mem_cons_self .., hpre, hr⟩

/-- In every run, also one that stops between two statements: READY is checked,
and READY and STOPPED are never left. -/
theorem ready_checked {permits : List Entry → Call → Prop} {h : List Entry} {L : Ledger}
    (hrun : autopilot.Run permits h L) :
    (∀ e ∈ h, ∀ id, Entry.readies e id → Checked e id) ∧
    (∀ id, L.state id = some .ready → ∃ e ∈ h, Entry.readies e id) ∧
    (∀ newer e older, h = newer ++ e :: older → ∀ id s, e.pre.state id = some s →
      s.terminal = true → L.state id = some s ∧ ∀ n ∈ newer, n.pre.state id = some s) := by
  refine ⟨fun e _ id he => readies_checked he, fun id hr => ready_made hrun hr, ?_⟩
  intro newer e older hh id s hs hfinal
  subst hh
  exact (hrun.forward (fun L => L.state id = some s) hs
    (fun _ _ _ _ hi => final_stays hi hfinal)).2

theorem any_calls (calls : List Call) : autopilot.Run (fun _ _ => True)
    (autopilot.history [] autopilot.init calls) (autopilot.after autopilot.init calls) :=
  Machine.Run.start.history (fun _ _ _ => trivial)

/-- The gate is green, the criterion proven, no finding open, and the lead says
FIX without naming one. -/
def sampleRound : List Call :=
  [⟨.createMilestone "m" "v1" "h" "" [("gate", "DETERMINISTIC")], none⟩,
    ⟨.transition "m" "BUILDING" {}, none⟩,
    ⟨.setFields "m" [.lastCommit "c1"], none⟩,
    ⟨.transition "m" "TESTING" {}, none⟩,
    ⟨.recordEvidence ⟨"ev-1", "m", "test_report", "c1", true⟩, none⟩,
    ⟨.transition "m" "REVIEWING" { gateEvidenceId := "ev-1" }, none⟩,
    ⟨.setCriterion "m" "gate" .proven "ev-1", none⟩,
    ⟨.recordDecision ⟨"d-1", "m", "technical_lead", "FIX", 1⟩, none⟩]

/-- What the driver calls then. -/
def sampleReady : Call :=
  ⟨.transition "m" "READY" { gateEvidenceId := "ev-1", leadVerdict := "READY" }, none⟩

theorem ready_checked_sample : ∃ e ∈ autopilot.history [] autopilot.init (sampleRound ++ [sampleReady]),
    Entry.readies e "m" := by
  exact (ready_checked (any_calls (sampleRound ++ [sampleReady]))).2.1 "m" (by decide)

/-- The lead's latest verdict is FIX, and the driver takes the milestone to READY. -/
theorem ready_against_the_lead : ¬ ∀ h L, autopilot.Run (fun _ _ => True) h L → ReadyMeasured h := by
  intro hall
  have hm := (hall _ _ (any_calls (sampleRound ++ [sampleReady]))).1
  rw [Machine.history_concat] at hm
  have hready : Entry.readies ⟨autopilot.after autopilot.init sampleRound, sampleReady⟩ "m" :=
    ⟨by decide, by decide⟩
  have hverdict := (hm _ (List.mem_cons_self ..) "m" hready).2.2.2
  exact absurd hverdict (by decide)

end Solvio.Autopilot
