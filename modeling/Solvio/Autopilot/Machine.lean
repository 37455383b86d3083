import Solvio.Autopilot.Ledger
import Solvio.Lib.Runs

namespace Solvio.Autopilot
open Solvio.Lib

/-- `_EDGES`. -/
def State.edges : State → List State
  | planning => [building, humanRequired, blocked, stopped]
  | building => [testing, humanRequired, blocked, stopped]
  | testing => [reviewing, blocked, stopped]
  | reviewing => [ready, fixing, building, humanRequired, blocked, stopped]
  | fixing => [testing, humanRequired, blocked, stopped]
  | blocked => [planning, building, fixing, stopped]
  | humanRequired => [planning, building, testing, reviewing, fixing, stopped]
  | ready => []
  | stopped => []

def allowed (current target : State) : Bool := current.edges.contains target

/-- `_UNPARK`, as the words that a row remembers. -/
def unpark : List String :=
  [State.planning, .building, .testing, .reviewing, .fixing].map State.name

def noHumanFrom : List State := [.testing]

/-- Why READY is possible or not, condition by condition. -/
structure ReadyCheck where
  gateGreen : Bool
  gateEvidence : String
  acceptanceProven : Nat
  acceptanceTotal : Nat
  blockingFindings : List String
  leadVerdict : String

namespace ReadyCheck

def ok (c : ReadyCheck) : Bool :=
  c.gateGreen && decide (0 < c.acceptanceTotal) && decide (c.acceptanceProven = c.acceptanceTotal) &&
    c.blockingFindings.isEmpty && decide (c.leadVerdict = "READY")

/-- The first condition that is not met: evidence first, the verdict last. -/
def reason (c : ReadyCheck) : String :=
  if ¬ c.gateGreen then "gate_not_green"
  else if c.acceptanceTotal = 0 then "no_acceptance_criteria"
  else if c.acceptanceProven ≠ c.acceptanceTotal then
    "acceptance_incomplete:" ++ toString c.acceptanceProven ++ "/" ++ toString c.acceptanceTotal
  else if ¬ c.blockingFindings.isEmpty then
    "blocking_findings:" ++ toString c.blockingFindings.length
  else if c.leadVerdict ≠ "READY" then
    "no_ready_verdict:" ++ (if c.leadVerdict = "" then "none" else c.leadVerdict)
  else ""

/-- The reason names what fails, and nothing where nothing does. -/
theorem reason_ok (c : ReadyCheck) : c.reason = "" ↔ c.ok = true := by
  unfold reason ok
  cases hg : c.gateGreen with
  | false => simp
  | true =>
    by_cases h0 : c.acceptanceTotal = 0
    · simp [h0]
    · by_cases ha : c.acceptanceProven = c.acceptanceTotal
      · cases hb : c.blockingFindings with
        | nil =>
          by_cases hv : c.leadVerdict = "READY"
          · simp [h0, ha, hv, Nat.pos_of_ne_zero h0]
          · simp [h0, ha, hv]
        | cons f fs => simp [h0, ha]
      · simp [h0, ha]

end ReadyCheck

/-- What `transition` is called with besides the target. -/
structure Args where
  gateEvidenceId : String := ""
  leadVerdict : String := ""
  blockReason : String := ""
  resumeAt : Time := 0

namespace Ledger

/-- The four conditions, measured in the ledger. -/
def readyCheck (L : Ledger) (id gateEvidenceId leadVerdict : String) : ReadyCheck :=
  let beleg := if gateEvidenceId = "" then none else L.evidence? gateEvidenceId
  let green := beleg.any (fun e => e.ok && decide (e.kind = "test_report"))
  { gateGreen := green
    gateEvidence := if green then gateEvidenceId else ""
    acceptanceProven := (L.acceptanceCounts id).1
    acceptanceTotal := (L.acceptanceCounts id).2
    blockingFindings := (L.blockingFindings id).map Finding.findingId
    leadVerdict := leadVerdict }

/-- The way out of a parked state leads to the remembered one; every other way
is an edge of the table. -/
def checkEdge (L : Ledger) (m : Milestone) (t : State) : Except Refused Unit :=
  if m.state.parked ∧ t ≠ .stopped then
    if (L.openBoundaries m.milestoneId) ≠ [] ∧ m.state = .humanRequired then
      .error ⟨"boundary_still_open", m.milestoneId⟩
    else if t.name ≠ m.stateBeforePark then
      .error ⟨"unpark_target_mismatch", t.name ++ " != " ++
        (if m.stateBeforePark = "" then "unbekannt" else m.stateBeforePark)⟩
    else if m.stateBeforePark ∉ unpark then
      .error ⟨"bad_parked_origin", if m.stateBeforePark = "" then "leer" else m.stateBeforePark⟩
    else .ok ()
  else if ¬ allowed m.state t then
    .error ⟨"edge_not_allowed", m.state.name ++ "->" ++ t.name⟩
  else .ok ()

def short (commit : String) : String := if commit = "" then "leer" else cap commit 12

/-- What has to hold today for an edge that exists. -/
def checkConditions (L : Ledger) (m : Milestone) (t : State) (a : Args) : Except Refused Unit := do
  let id := m.milestoneId
  if t = .humanRequired ∧ m.state ∈ noHumanFrom then
    throw ⟨"no_human_boundary_from", m.state.name⟩
  if t = .ready ∧ ¬ (L.readyCheck id a.gateEvidenceId a.leadVerdict).ok then
    throw ⟨"ready_preconditions", (L.readyCheck id a.gateEvidenceId a.leadVerdict).reason⟩
  if t = .reviewing ∧ m.state = .testing then
    match (if a.gateEvidenceId = "" then none else L.evidence? a.gateEvidenceId) with
    | none => throw ⟨"no_test_evidence", id⟩
    | some e =>
      if e.kind ≠ "test_report" then throw ⟨"no_test_evidence", id⟩
      else if e.commit ≠ m.lastCommit ∨ e.commit = "" then
        throw ⟨"stale_test_evidence", short e.commit ++ " != " ++ short m.lastCommit⟩
  if t = .blocked ∧ a.blockReason ∉ blockReasons then
    throw ⟨"unknown_block_reason", if a.blockReason = "" then "leer" else a.blockReason⟩
  if t = .humanRequired ∧ L.openBoundaries id = [] then
    throw ⟨"no_open_boundary", id⟩

/-- What a transition writes besides the state. -/
def parkFields (m : Milestone) (t : State) (a : Args) : List Field :=
  (if t.parked then [.stateBeforePark m.state.name]
    else if m.state.parked then [.stateBeforePark ""] else []) ++
  (if t = .blocked then [.blockReason a.blockReason, .resumeAt a.resumeAt]
    else if m.state = .blocked then [.blockReason "", .resumeAt 0] else [])

/-- `transition`: every check reads before the first statement is committed. -/
def transition (L : Ledger) (id target : String) (a : Args) : Except Refused (List Write) :=
  match L.milestone id with
  | none => .error ⟨"unknown_milestone", id⟩
  | some m =>
    if m.state.terminal then .error ⟨"terminal_state", m.state.name⟩
    else match State.ofName? target with
      | none => .error ⟨"unknown_state", target⟩
      | some t => do
        L.checkEdge m t
        L.checkConditions m t a
        return setFields id (parkFields m t a) ++ setState id t

end Ledger

/-- The statements that a call commits; a call that raises before the first
statement commits none. -/
def committed (r : Except Refused (List Write)) : List Write :=
  match r with
  | .ok ws => ws
  | .error _ => []

namespace Ledger

/-- `park`: first the boundary, then the state. -/
def park (L : Ledger) (b : Boundary) : List Write :=
  let ws := openBoundary b
  ws ++ committed ((commits.exec ws L).transition b.milestoneId State.humanRequired.name {})

/-- `cmd_answer`: the last answer leads back to where the milestone came from. -/
def answer (L : Ledger) (boundaryId text : String) : List Write :=
  match L.resolveBoundary boundaryId text with
  | .error _ => []
  | .ok (id, ws) =>
    let L' := commits.exec ws L
    match L'.milestone id with
    | none => ws
    | some m =>
      if m.state = .humanRequired ∧ L'.openBoundaries id = [] then
        ws ++ committed (L'.transition id m.stateBeforePark {})
      else ws

/-- `_unblock`. -/
def unblock (L : Ledger) (id : String) : List Write :=
  match L.milestone id with
  | none => []
  | some m => committed (L.transition id
      (if m.stateBeforePark = "" then State.building.name else m.stateBeforePark) {})

/-- Whether `run` takes the way back from a parked state now. -/
def resumes (L : Ledger) (id : String) (now : Time) : Bool :=
  match L.milestone id with
  | some m => decide (m.state = .blocked ∧ m.resumeAt ≠ 0 ∧ m.resumeAt ≤ now)
  | none => false

end Ledger

/-- The calls that write: the ledger's own, and those of the machine, the
driver and the command line. -/
inductive Op where
  | createMilestone (id version hash repository : String) (criteria : List (String × String))
  | setFields (id : String) (fs : List Field)
  | setCriterion (id key : String) (s : CritState) (ref : String)
  | recordEvidence (e : Evidence)
  | openFinding (f : Finding) (origin : String)
  | closeFinding (findingId : String)
  | recordDecision (d : Decision)
  | recordEvent (e : Event)
  | openBoundary (b : Boundary)
  | resolveBoundary (boundaryId text : String)
  | transition (id target : String) (a : Args)
  | park (b : Boundary)
  | answer (boundaryId text : String)
  | unblock (id : String)

def Op.writes (L : Ledger) : Op → List Write
  | createMilestone id version hash repository criteria =>
    Ledger.createMilestone id version hash repository criteria
  | setFields id fs => Ledger.setFields id fs
  | setCriterion id key s ref => committed (L.setCriterion id key s ref)
  | recordEvidence e => Ledger.recordEvidence e
  | openFinding f origin => Ledger.openFinding f origin
  | closeFinding id => committed (L.closeFinding id)
  | recordDecision d => Ledger.recordDecision d
  | recordEvent e => [.insertEvent e]
  | openBoundary b => Ledger.openBoundary b
  | resolveBoundary id text => committed ((L.resolveBoundary id text).map Prod.snd)
  | transition id target a => committed (L.transition id target a)
  | park b => L.park b
  | answer id text => L.answer id text
  | unblock id => L.unblock id

/-- A call, and the statement after which the process stops if it does. -/
structure Call where
  op : Op
  stops : Option Nat := none

def Call.writes (L : Ledger) (c : Call) : List Write :=
  match c.stops with
  | none => c.op.writes L
  | some n => (c.op.writes L).take n

/-- The durable states that the autopilot leaves, call by call. -/
abbrev autopilot : Machine Ledger where
  Call := Call
  Reply _ := Unit
  step c L := ((), commits.exec (c.writes L) L)
  init := .empty

abbrev Entry : Type := autopilot.Entry

end Solvio.Autopilot
