import Solvio.Lib.Commits
import Solvio.Lib.PyString
import Solvio.Lib.Table

namespace Solvio.Autopilot
open Solvio.Lib

abbrev Time : Type := Int

inductive State where
  | planning
  | building
  | testing
  | reviewing
  | fixing
  | ready
  | humanRequired
  | blocked
  | stopped
deriving DecidableEq

namespace State

def all : List State :=
  [planning, building, testing, reviewing, fixing, ready, humanRequired, blocked, stopped]

def name : State → String
  | planning => "PLANNING"
  | building => "BUILDING"
  | testing => "TESTING"
  | reviewing => "REVIEWING"
  | fixing => "FIXING"
  | ready => "READY"
  | humanRequired => "HUMAN_REQUIRED"
  | blocked => "BLOCKED"
  | stopped => "STOPPED"

/-- A word that is one of `ALL_STATES`. -/
def ofName? (s : String) : Option State := all.find? (fun t => t.name = s)

def terminal : State → Bool
  | ready | stopped => true
  | _ => false

/-- `PARKED_STATES`. -/
def parked : State → Bool
  | humanRequired | blocked => true
  | _ => false

theorem ofName_name (s : State) : ofName? s.name = some s := by cases s <;> decide

theorem name_injective {s t : State} (h : s.name = t.name) : s = t := by
  have hs := ofName_name s
  rw [h, ofName_name] at hs
  exact (Option.some.inj hs).symm

theorem name_of_ofName {w : String} {s : State} (h : ofName? w = some s) : s.name = w := by
  simpa using List.find?_some h

end State

def blockReasons : List String := ["capacity", "contract_change_required", "builder_unavailable_all"]

structure Milestone where
  milestoneId : String
  state : State
  contractVersion : String
  contractHash : String
  repository : String := ""
  blockReason : String := ""
  resumeAt : Time := 0
  builder : String := ""
  model : String := ""
  currentTask : String := ""
  baseCommit : String := ""
  lastCommit : String := ""
  stateBeforePark : String := ""
deriving DecidableEq

instance : Keyed Milestone String := ⟨Milestone.milestoneId⟩

/-- What `set_fields` may assign. -/
inductive Field where
  | builder (v : String)
  | model (v : String)
  | currentTask (v : String)
  | baseCommit (v : String)
  | lastCommit (v : String)
  | blockReason (v : String)
  | resumeAt (v : Time)
  | stateBeforePark (v : String)
  | repository (v : String)
deriving DecidableEq

def Field.set : Field → Milestone → Milestone
  | builder v, m => { m with builder := v }
  | model v, m => { m with model := v }
  | currentTask v, m => { m with currentTask := v }
  | baseCommit v, m => { m with baseCommit := v }
  | lastCommit v, m => { m with lastCommit := v }
  | blockReason v, m => { m with blockReason := v }
  | resumeAt v, m => { m with resumeAt := v }
  | stateBeforePark v, m => { m with stateBeforePark := v }
  | repository v, m => { m with repository := v }

def Milestone.setAll (m : Milestone) (fs : List Field) : Milestone := fs.foldl (fun m f => f.set m) m

@[simp] theorem Field.set_state (f : Field) (m : Milestone) : (f.set m).state = m.state := by
  cases f <;> rfl

@[simp] theorem Field.set_id (f : Field) (m : Milestone) :
    (f.set m).milestoneId = m.milestoneId := by
  cases f <;> rfl

@[simp] theorem Milestone.setAll_state (m : Milestone) (fs : List Field) :
    (m.setAll fs).state = m.state := by
  induction fs generalizing m with
  | nil => rfl
  | cons f fs ih => exact (ih (f.set m)).trans (f.set_state m)

@[simp] theorem Milestone.setAll_id (m : Milestone) (fs : List Field) :
    (m.setAll fs).milestoneId = m.milestoneId := by
  induction fs generalizing m with
  | nil => rfl
  | cons f fs ih => exact (ih (f.set m)).trans (f.set_id m)

inductive CritState where
  | crit_open
  | proven
  | refuted
deriving DecidableEq

structure Criterion where
  milestoneId : String
  key : String
  evidenceType : String
  state : CritState := .crit_open
  evidenceRef : String := ""
deriving DecidableEq

instance : Keyed Criterion (String × String) := ⟨fun c => (c.milestoneId, c.key)⟩

structure Evidence where
  evidenceId : String
  milestoneId : String
  kind : String
  commit : String
  ok : Bool
deriving DecidableEq

instance : Keyed Evidence String := ⟨Evidence.evidenceId⟩

inductive Severity where
  | blocker
  | major
  | minor
  | info
deriving DecidableEq

/-- `BLOCKING_SEVERITIES`. -/
def Severity.blocking : Severity → Bool
  | blocker | major => true
  | _ => false

structure Finding where
  findingId : String
  milestoneId : String
  severity : Severity
  isOpen : Bool := true
deriving DecidableEq

instance : Keyed Finding String := ⟨Finding.findingId⟩

structure Decision where
  decisionId : String
  milestoneId : String
  role : String
  verdict : String
  decidedAt : Time
deriving DecidableEq

instance : Keyed Decision String := ⟨Decision.decisionId⟩

structure Boundary where
  boundaryId : String
  milestoneId : String
  category : String
  kind : String
  question : String
  isOpen : Bool := true
  answer : String := ""
deriving DecidableEq

instance : Keyed Boundary String := ⟨Boundary.boundaryId⟩

structure Event where
  milestoneId : String
  kind : String
  ref : String
deriving DecidableEq

/-- `AutopilotLedger`. -/
structure Ledger where
  milestones : Table Milestone
  criteria : Table Criterion
  evidence : Table Evidence
  findings : Table Finding
  decisions : Table Decision
  boundaries : Table Boundary
  events : List Event

/-- One statement of the ledger, committed by itself. -/
inductive Write where
  | insertMilestone (m : Milestone)
  | insertCriterion (c : Criterion)
  | setFields (id : String) (fs : List Field)
  | setState (id : String) (s : State)
  | setCriterion (id key : String) (s : CritState) (ref : String)
  | insertEvidence (e : Evidence)
  | insertFinding (f : Finding)
  | closeFinding (findingId : String)
  | insertDecision (d : Decision)
  | insertBoundary (b : Boundary)
  | resolveBoundary (boundaryId answer : String)
  | insertEvent (e : Event)

namespace Ledger

def empty : Ledger := ⟨.empty, .empty, .empty, .empty, .empty, .empty, []⟩

def milestone (L : Ledger) (id : String) : Option Milestone := L.milestones.find? id

def state (L : Ledger) (id : String) : Option State := (L.milestone id).map Milestone.state

def evidence? (L : Ledger) (id : String) : Option Evidence := L.evidence.find? id

def criteriaOf (L : Ledger) (id : String) : List Criterion :=
  L.criteria.rows.filter (fun c => c.milestoneId = id)

/-- `(proven, total)`. -/
def acceptanceCounts (L : Ledger) (id : String) : Nat × Nat :=
  ((L.criteriaOf id).countP (fun c => c.state = .proven), (L.criteriaOf id).length)

def blockingFindings (L : Ledger) (id : String) : List Finding :=
  L.findings.rows.filter (fun f => f.milestoneId = id && f.isOpen && f.severity.blocking)

def openBoundaries (L : Ledger) (id : String) : List Boundary :=
  L.boundaries.rows.filter (fun b => b.milestoneId = id && b.isOpen)

/-- Rows that refer to a milestone need one. -/
def known (L : Ledger) (id : String) : Bool := (L.milestone id).isSome

def apply : Write → Ledger → Option Ledger
  | .insertMilestone m, L => (L.milestones.insert? m).map (fun t => { L with milestones := t })
  | .insertCriterion c, L => if L.known c.milestoneId then
      (L.criteria.insert? c).map (fun t => { L with criteria := t }) else none
  | .setFields id fs, L => some { L with
      milestones := L.milestones.modify id (·.setAll fs) (fun m => m.setAll_id fs) }
  | .setState id s, L => some { L with
      milestones := L.milestones.modify id (fun m => { m with state := s }) (fun _ => rfl) }
  | .setCriterion id key s ref, L => some { L with
      criteria := L.criteria.modify (id, key)
        (fun c => { c with state := s, evidenceRef := ref }) (fun _ => rfl) }
  | .insertEvidence e, L => if L.known e.milestoneId then
      (L.evidence.insert? e).map (fun t => { L with evidence := t }) else none
  | .insertFinding f, L => if L.known f.milestoneId then
      (L.findings.insert? f).map (fun t => { L with findings := t }) else none
  | .closeFinding id, L => some { L with
      findings := L.findings.modify id (fun f => { f with isOpen := false }) (fun _ => rfl) }
  | .insertDecision d, L => if L.known d.milestoneId then
      (L.decisions.insert? d).map (fun t => { L with decisions := t }) else none
  | .insertBoundary b, L => if L.known b.milestoneId then
      (L.boundaries.insert? b).map (fun t => { L with boundaries := t }) else none
  | .resolveBoundary id answer, L => some { L with
      boundaries := L.boundaries.modify id
        (fun b => { b with isOpen := false, answer := answer }) (fun _ => rfl) }
  | .insertEvent e, L => some { L with events := e :: L.events }

end Ledger

abbrev commits : Commits Ledger := ⟨Write, Ledger.apply⟩

/-! ### The operations of the ledger -/

/-- `_cap`. -/
def cap (s : String) (limit : Nat) : String := String.ofList (s.toList.take limit)

def maxDetail : Nat := 2000
def maxRef : Nat := 200

/-- A refusal with its reason. -/
structure Refused where
  reason : String
  detail : String := ""
deriving DecidableEq

namespace Ledger

def newMilestone (id version hash repository : String) : Milestone :=
  { milestoneId := id, state := .planning, contractVersion := version, contractHash := hash,
    repository := repository }

def createMilestone (id version hash repository : String) (criteria : List (String × String)) :
    List Write :=
  let pinned (c : String × String) : Write := .insertCriterion ⟨id, c.1, c.2, .crit_open, ""⟩
  .insertMilestone (newMilestone id version hash repository) :: criteria.map pinned ++
    [.insertEvent ⟨id, "contract_pinned", hash⟩]

def setFields (id : String) (fs : List Field) : List Write :=
  if fs = [] then [] else [.setFields id fs]

/-- Only `transition` calls this. -/
def setState (id : String) (s : State) : List Write :=
  [.setState id s, .insertEvent ⟨id, "state_changed", s.name⟩]

/-- Without a reference to evidence nothing is proven. -/
def setCriterion (L : Ledger) (id key : String) (s : CritState) (ref : String) :
    Except Refused (List Write) :=
  if s = .proven ∧ stripped ref = "" then .error ⟨"proven_without_evidence", key⟩
  else if (L.criteria.find? (id, key)).isNone then .error ⟨"unknown_criterion", key⟩
  else .ok [.setCriterion id key s (cap ref maxRef)]

def recordEvidence (e : Evidence) : List Write :=
  [.insertEvidence e, .insertEvent ⟨e.milestoneId, "evidence_recorded", e.evidenceId⟩]

def openFinding (f : Finding) (origin : String) : List Write :=
  [.insertFinding { f with isOpen := true }, .insertEvent ⟨f.milestoneId,
    if origin = "security" then "security_finding" else "finding_opened", f.findingId⟩]

def closeFinding (L : Ledger) (id : String) : Except Refused (List Write) :=
  match L.findings.find? id with
  | none => .error ⟨"unknown_finding", id⟩
  | some f => .ok [.closeFinding id, .insertEvent ⟨f.milestoneId, "finding_closed", id⟩]

def recordDecision (d : Decision) : List Write :=
  [.insertDecision d, .insertEvent ⟨d.milestoneId, "decision_recorded", d.decisionId⟩]

def openBoundary (b : Boundary) : List Write :=
  [.insertBoundary { b with question := cap b.question maxDetail, isOpen := true, answer := "" },
    .insertEvent ⟨b.milestoneId, "boundary_opened", b.boundaryId⟩]

def resolveBoundary (L : Ledger) (id answer : String) : Except Refused (String × List Write) :=
  match L.boundaries.find? id with
  | none => .error ⟨"unknown_boundary", id⟩
  | some b =>
    if b.isOpen then .ok (b.milestoneId, [.resolveBoundary id (cap answer maxDetail),
      .insertEvent ⟨b.milestoneId, "boundary_resolved", id⟩])
    else .error ⟨"boundary_not_open", id⟩

end Ledger

end Solvio.Autopilot
