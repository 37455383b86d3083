import Solvio.AgentRuntime.Core

namespace Solvio.AgentRuntime.Orchestrator
open Solvio.Lib

/-! ### The end of a run, and its boundaries -/

section ends
variable (D : Deployment)

/-- The state of a task whose run has ended. -/
def taskStateOf : RunState → TaskState
  | .succeeded => .completed
  | .failed => .failed
  | .cancelled => .cancelled
  | _ => .active

def popContext (id : String) : Code Unit := setContext id (fun c => { c with registered := false })

/-- A run that cannot end is left alone from now on. -/
def keepOpen (id : String) : Code Unit := do
  Coro.modify (fun s => { s with unfinishable := id :: s.unfinishable })
  (recordEvent D id "state_changed"
    "Der Lauf kann nicht enden — er wird nicht weiter versucht." "").handle (fun _ => pure ())

/-- The transition of `_finish`, and whether it was allowed. -/
def endWith (id : String) (state : RunState) (category : String) (message : Words) : Code Bool :=
  (do
    transition D id state category message ""
    return true).handle (fun e =>
      match e with
      | .transition _ _ => do
        keepOpen D id
        return false
      | e => raise e)

/-- `_finish`. A run that has ended does not end again. -/
def finish (id : String) (state : RunState) (category : String) (message : Words) : Code Unit := do
  let run? ← getRun id
  match run? with
  | none => pure ()
  | some run =>
    if run.state.terminal then pure ()
    else do
      release id
      let ended ← endWith D id state category message
      if ended then do
        setTaskState run.taskId (taskStateOf state)
        ask (.notice id state.name message.text)
        recordEvent D id "notice_sent" "Ergebnis gemeldet." ""
        popContext id
      else pure ()

def quoted (s : String) : String := String.ofList (Json.quote (Text.ofString (cap s 400)))

/-- The JSON of a boundary, as it is stored. -/
def boundaryText (b : UserBoundary) : String :=
  "\x7b\"art\": " ++ quoted b.kind ++ ", \"handlung\": " ++ quoted b.action ++
    ", \"grund\": " ++ quoted b.reason ++ ", \"danach\": " ++ quoted b.resumeHint ++ "\x7d"

/-- `_open_boundary`. -/
def openBoundary (id : String) (b : UserBoundary) : Code Unit := do
  setRunFields id { boundary := some (cap (D.firewall.redact (boundaryText b)) maxBoundaryJson) }
  moveTo D id .waitingUser
  recordEvent D id "boundary_opened" (cap b.action 300) ""
  ask (.notice id "boundary" b.message)

end ends

/-! ### Contexts -/

section contexts
variable (D : Deployment)

/-- `_rebuild_context`: what a new process knows of a run is what the ledger says. -/
def rebuildContext (run : Run) : Code Unit := do
  let task? ← getTask run.taskId
  let steps ← stepsFor run.runId
  let t ← now
  let limits := (task?.map Task.budget).getD (Budget.default .research)
  let ledger : BudgetLedger :=
    { budget := limits
      startedAt := run.startedAt.getD t
      steps := steps.length
      specialistInvocations := (steps.filter (fun s => s.kind = .specialist)).length
      planRevisions := run.planRevision }
  setContext run.runId (fun _ =>
    { registered := true, taskId := run.taskId, scope := (task?.map Task.scope).getD .research,
      ledger, cursor := steps.length })

/-- The context that `_contexts` holds, or else a rebuilt one. -/
def ensureContext (run : Run) : Code Unit := do
  let c ← context run.runId
  if c.registered then pure () else rebuildContext run

/-- `_prepare_workspace`. -/
def prepareWorkspace (run : Run) : Code Unit := do
  let c ← context run.runId
  if c.scope ≠ .build ∨ D.hasWorkspaces = false then pure ()
  else if run.workspacePath ≠ "" then pure ()
  else do
    let task? ← getTask run.taskId
    let s ← Coro.state
    match s.outside.clone run.runId ((task?.map Task.targetRepo).getD "") with
    | .error _ => raise (.planInvalid "workspace_unavailable")
    | .ok path => do
      setRunFields run.runId { workspacePath := some path }
      setContext run.runId (fun c => { c with workspace := some path })
      recordEvent D run.runId "state_changed"
        "Arbeitskopie angelegt — der Produktivbaum bleibt unberuehrt." ""

/-- What `_note_predecessor` has to say, if anything. -/
def predecessorNote (L : Ledger) (task : Task) : Option String :=
  if task.predecessorRef = "" then none
  else match L.task task.predecessorRef with
    | none => none
    | some before =>
      if before.conversationRef ≠ task.conversationRef then none
      else
        let summary := ((L.runsFor task.predecessorRef).getLast?.map Run.resultSummary).getD ""
        if summary = "" then none
        else some ("[vorgaenger " ++ task.predecessorRef ++ "] " ++ cap summary 900)

def notePredecessor (id : String) (task : Task) : Code Unit := do
  let s ← Coro.state
  let note? := predecessorNote s.ledger task
  setContext id (fun c =>
    { c with contextNotes := c.contextNotes ++ note?.toList.filter (· ∉ c.contextNotes) })

end contexts

/-! ### Plans -/

section plans
variable (D : Deployment)

/-- `_allowed_profiles`. -/
def allowedProfiles (task : Task) : List String :=
  (usableProfiles.filter (fun p =>
    !(p.mode = .builder && task.scope ≠ .build) &&
    !(p.needsWorkspace && task.scope ≠ .build) &&
    !(p.provider = .hermes && !D.hasResearcher))).map Profile.key

/-- `_known_capabilities`. -/
def knownCapabilities : List String :=
  if D.hasRouter then D.names.filter (fun n => D.isBlocked n = "") else []

/-- `Planner.plan`: one question, and one more if the answer is no valid plan. -/
def planEvent (run : Run) (task : Task) (text : List String) :
    Nat → String → Code (Plan × Nat)
  | 0, reason => raise (.planInvalid (if reason = "" then "unusable" else reason))
  | left + 1, _ => do
    checkBudget run.runId BudgetLedger.checkPlanner
    let answer ← ask (.planner run.runId task.objective text run.planRevision (2 - left))
    match answer with
    | .error kind => raise (.foreign kind)
    | .ok call => do
      setBudget run.runId BudgetLedger.notePlannerCall
      if call.ok = false then raise (.planInvalid "planner_unavailable")
      else
        let allowed := allowedProfiles D task
        match D.readPlan call.text task.scope allowed (knownCapabilities D) task.objective with
        | .ok plan => pure (plan, call.tokens)
        | .error reason => planEvent run task text left reason

/-- `_do_plan`. -/
def doPlan (run : Run) : Code Unit := do
  let task? ← getTask run.taskId
  match task? with
  | none => finish D run.runId .failed "plan_invalid" (.own "Aufgabe fort.")
  | some task =>
    if D.hasPlanner = false then
      finish D run.runId .failed "specialist_unavailable" (.own "Der Planer ist nicht verfuegbar.")
    else do
      notePredecessor run.runId task
      let c ← context run.runId
      let answer ← planEvent D run task (c.contextNotes.drop (c.contextNotes.length - 5)) 2 ""
      mark run.runId (.planned answer.1)
      setContext run.runId (fun c => { c with plan := some answer.1, cursor := 0 })
      setRunFields run.runId { tokensPlanner := some answer.2 }
      recordEvent D run.runId "state_changed"
        ("Plan mit " ++ toString answer.1.steps.length ++ " Schritten.") ""
      let row? ← getRun run.runId
      match row? with
      | none => raise (.foreign "AttributeError")
      | some row => if row.state = .planning then moveTo D run.runId .running else pure ()

/-- `_replan`. -/
def replan (run : Run) (why : String) : Code Unit := do
  let c ← context run.runId
  if c.ledger.checkRevision.isSome then
    finish D run.runId .failed "budget_exhausted" (.own "Ich komme so nicht weiter.")
  else do
    setBudget run.runId BudgetLedger.noteRevision
    noteContext run.runId ("[core] " ++ why)
    setRunFields run.runId { planRevision := some (run.planRevision + 1) }
    recordEvent D run.runId "state_changed" ("Neuer Plan noetig: " ++ why ++ ".") ""
    let row? ← getRun run.runId
    match row? with
    | none => raise (.foreign "AttributeError")
    | some row => doPlan D row

def nextStep (id : String) : Code Unit := setContext id (fun c => { c with cursor := c.cursor + 1 })

/-- `guard_attempt`, which counts the attempt that it allows. -/
def guardAttempt (id digest : String) : Code Unit := do
  checkBudget id (·.guardAttempt digest)
  setBudget id (·.noteAttempt digest)

end plans

/-! ### Specialists -/

section specialists
variable (D : Deployment)

/-- `_maybe_complete`: the plan ends with the step that has met the goal. -/
def maybeComplete (run : Run) (result : SpecialistResult) (seq : Nat) : Code Unit := do
  let c ← context run.runId
  match c.plan with
  | none => pure ()
  | some plan =>
    if c.goalMet ≠ "" then pure ()
    else do
      let task? ← getTask run.taskId
      let verdict :=
        evaluate (D.requirements ((task?.map Task.objective).getD "")) result c.scope
      if verdict.satisfied then do
        mark run.runId (.shortened seq)
        setContext run.runId (fun c =>
          { c with goalMet := verdict.reason, plan := some (plan.upTo seq) })
        recordEvent D run.runId "state_changed"
          ("Das Ziel ist mit Schritt " ++ toString seq ++ " erfuellt — " ++
            toString (plan.steps.length - seq) ++ " geplante Schritte entfallen.") ""
      else pure ()

/-- What follows a specialist's answer. -/
def settleSpecialist (run : Run) (planned : PlannedStep) (spec : Profile) (key : StepKey)
    (digest : String) (outcome : SpecialistRun) : Code Unit := do
  let id := run.runId
  let result := outcome.result
  setBudget id BudgetLedger.noteSpecialist
  updateStep D key
    { state := some (if result.ok then .succeeded else .failed)
      summary := .foreign (cap outcome.note 600)
      child := some (outcome.pgid, outcome.startedAt, outcome.executable)
      finished := true
      outcomeReason := if result.ok then "ok" else "failed:" ++ result.reason }
  setRunFields id
    { specialistCount := some (run.specialistCount + 1)
      specialistSeconds := some (run.specialistSeconds + result.elapsed) }
  moveTo D id .running
  if result.ok = false then
    if outcome.quota then
      finish D id .failed "quota" (.own "Das Kontingent des Spezialisten ist erschoepft.")
    else do
      setBudget id (·.noteLowValue digest)
      if planned.optional then nextStep id
      else replan D run ("Schritt " ++ toString key.seq ++ " scheiterte")
  else do
    setBudget id (fun b => if result.usable then b else b.noteLowValue digest)
    noteContext id ("[" ++ spec.key ++ "] " ++ "; ".intercalate (result.findings.take 3))
    maybeComplete D run result key.seq
    nextStep id

/-- `_run_specialist_step`. -/
def runSpecialistStep (run : Run) (planned : PlannedStep) (seq attempt : Nat) : Code Unit := do
  let id := run.runId
  checkBudget id BudgetLedger.checkSpecialist
  let digest := D.digest "specialist" planned.profile [planned.instruction]
  guardAttempt id digest
  match profile? planned.profile with
  | none => raise (.foreign "LauncherError")
  | some spec => do
    let c ← context id
    if spec.mode = .builder ∧ c.scope ≠ .build then raise (.planInvalid "builder_in_research_scope")
    else do
      let key : StepKey := ⟨id, seq, attempt⟩
      createStep { key, kind := .specialist, specialistProfile := spec.key,
                   specialistRole := spec.role }
      updateStep D key { state := some .running, started := true }
      moveTo D id .waitingSpecialist
      recordEvent D id "step_started" ("Spezialist " ++ spec.key ++ " beauftragt.") ""
      let workdir := if spec.needsWorkspace then run.workspacePath else ""
      if spec.needsWorkspace = true ∧ workdir = "" then
        raise (.planInvalid "profile_needs_workspace")
      else do
        let row? ← getRun id
        mark id (.starts (row?.map Run.state))
        let answer ← ask (.specialist id spec.key planned.instruction workdir
          (c.contextNotes.drop (c.contextNotes.length - 3)))
        match answer with
        | .error kind => raise (.foreign kind)
        | .ok outcome => settleSpecialist D run planned spec key digest outcome

end specialists

/-! ### Capabilities -/

section capabilities
variable (D : Deployment)

/-- `_structural_flaw`: the first argument that the contract requires and the step lacks. -/
def structuralFlaw (planned : PlannedStep) : Option String :=
  ((D.required planned.capability).find? (fun k => k ∉ planned.arguments.map Prod.fst)).map
    ("missing_argument:" ++ ·)

/-- `_refuse_invalid_step`. -/
def refuseInvalidStep (run : Run) (planned : PlannedStep) (key : StepKey) (flaw : String) :
    Code Unit := do
  let id := run.runId
  let c ← context id
  let repeated : Bool := (planned.capability, flaw) ∈ c.invalidSignatures
  setContext id (fun c =>
    { c with invalidSignatures := (planned.capability, flaw) :: c.invalidSignatures })
  updateStep D key
    { state := some .failed, finished := true, outcomeReason := "planner_invalid_step:" ++ flaw
      summary := .own ("Der geplante Schritt war unvollstaendig (" ++ flaw ++
        ") — er wurde nicht ausgefuehrt.") }
  noteContext id ("[core] " ++ planned.capability ++ " fehlte eine Pflichtangabe (" ++ flaw ++
    "); so nicht noch einmal")
  if repeated then
    finish D id .failed "planner_invalid_step" (.own ("Ich habe denselben unvollstaendigen " ++
      "Schritt zweimal geplant und hoere damit auf, statt es ein drittes Mal zu versuchen."))
  else if planned.optional then nextStep id
  else replan D run "Ein geplanter Schritt war unvollstaendig"

/-- `execute_capability`: the block list, and one call of the router. -/
def executeCapability (key : StepKey) (name : String) (arguments : List (String × Json))
    (untrusted : Bool) (approval : Option String) : Code StepOutcome := do
  let reason := D.isBlocked name
  if reason ≠ "" then return .blocked reason
  else if D.hasRouter = false then raise (.foreign "AttributeError")
  else do
    let row? ← getRun key.runId
    mark key.runId (.executes key.seq key.attempt (row?.map Run.state))
    let answer ← ask (.execute key name arguments untrusted approval)
    match answer with
    | .error kind => raise (.foreign kind)
    | .ok result => do
      mark key.runId (.returned key.seq key.attempt result.stepOutcome.state)
      return result.stepOutcome

/-- `_settle_capability`. -/
def settleCapability (run : Run) (key : StepKey) (outcome : StepOutcome) (planned : PlannedStep) :
    Code Unit := do
  let id := run.runId
  match outcome.state with
  | .succeeded => do
    updateStep D key
      { state := some .succeeded, finished := true
        summary := .foreign (cap outcome.humanMessage 600) }
    nextStep id
  | .denied => do
    updateStep D key
      { state := some .denied, finished := true, summary := .own "Die Freigabe wurde abgelehnt." }
    if planned.optional then nextStep id
    else
      finish D id .failed "approval_denied"
        (.own "Du hast das abgelehnt — ich suche keinen anderen Weg.")
  | .unknown => do
    updateStep D key
      { state := some .unknown, finished := true, summary := .own "Der Ausgang ist ungewiss." }
    finish D id .failed "recovery_required"
      (.own "Ich weiss nicht sicher, ob das durchging — bitte pruef es.")
  | .failed | .waiting => do
    updateStep D key
      { state := some .failed, finished := true
        summary := .foreign (cap outcome.humanMessage 600) }
    if outcome.failureCategory = "policy_denied" then
      openBoundary D id (.policyRefusal planned.capability key)
    else if planned.optional then nextStep id
    else replan D run "Eine Faehigkeit scheiterte"

/-- What follows the router's answer to a step's first call. -/
def bookCapability (run : Run) (planned : PlannedStep) (key : StepKey) (outcome : StepOutcome) :
    Code Unit := do
  let id := run.runId
  updateStep D key
    { callId := outcome.callId, approvalId := outcome.approvalId
      outcomeReason := outcome.outcomeReason }
  if outcome.state = .waiting then do
    setContext id (fun c =>
      { c with pendingStep := some key, approvalAttempts := c.approvalAttempts + 1 })
    updateStep D key { state := some .waiting }
    moveTo D id .waitingApproval
    recordEvent D id "approval_requested" "Eine Freigabe wurde angefragt." outcome.approvalId
  else do
    release id
    settleCapability D run key outcome planned

/-- `_run_capability_step`. -/
def runCapabilityStep (run : Run) (planned : PlannedStep) (seq attempt : Nat) : Code Unit := do
  let id := run.runId
  if D.hasRouter = false then raise (.planInvalid "router_unavailable")
  else do
    guardAttempt id (D.digest "capability" planned.capability
      ((planned.arguments.map Prod.fst).insertionSort (· ≤ ·)))
    let key : StepKey := ⟨id, seq, attempt⟩
    createStep { key, kind := .capability, capability := planned.capability }
    updateStep D key { state := some .running, started := true }
    match structuralFlaw D planned with
    | some flaw => refuseInvalidStep D run planned key flaw
    | none => do
      let free ← acquire id
      if free then do
        let c ← context id
        let outcome ← executeCapability D key planned.capability planned.arguments
          (!c.contextNotes.isEmpty) none
        bookCapability D run planned key outcome
      else do
        updateStep D key { state := some .waiting }
        mark id .slotTaken
        let s ← Coro.state
        recordEvent D id "budget_event"
          ("Wartet auf den Freigabeplatz von " ++ cap s.holder 12 ++ ".") ""

end capabilities

/-! ### Approvals that are polled -/

section polling
variable (D : Deployment)

/-- The step that a parked run waits with. -/
def waitingStep (id : String) : Code (Option Step) := do
  let c ← context id
  let s ← Coro.state
  match c.pendingStep.bind s.ledger.step with
  | some step => return some step
  | none => return ((s.ledger.stepsFor id).filter (fun step => step.state = .waiting)).getLast?

/-- `read_approval_state`. A failed read is no refusal. -/
def readApprovalState (step : Step) : Code String := do
  if D.hasControlPlane = false ∨ step.approvalId = "" then return "EXPIRED"
  else do
    let answer ← ask (.readApproval step.key step.approvalId)
    match answer with
    | .error _ => return "PENDING"
    | .ok row => return classifyApproval row (← now)

/-- `_planned_for`. -/
def plannedFor (c : Context) (step : Step) : Option PlannedStep :=
  c.plan.bind (fun plan => plan.steps[step.key.seq - 1]?)

/-- The text of an outcome that the ledger would refuse to book. -/
def StepOutcome.refused (D : Deployment) (o : StepOutcome) : Bool :=
  (o.state = .succeeded || o.state = .failed || o.state = .waiting) &&
    !D.firewall.passes (.foreign (cap o.humanMessage 600))

/-- What follows an approval that was given. -/
def pollApproved (run : Run) (step : Step) : Code Unit := do
  let id := run.runId
  let c ← context id
  let planned := plannedFor c step
  let outcome ← executeCapability D step.key step.capability
    ((planned.map PlannedStep.arguments).getD []) false (some step.approvalId)
  release id
  recordEvent D id "approval_resolved" "Die Freigabe wurde erteilt." step.approvalId
  moveTo D id .running
  if StepOutcome.refused D outcome then mark id .unbooked else pure ()
  settleCapability D run step.key outcome (planned.getD { kind := .capability })

def pollDenied (run : Run) (step : Step) : Code Unit := do
  let id := run.runId
  release id
  recordEvent D id "approval_resolved" "Die Freigabe wurde abgelehnt." step.approvalId
  updateStep D step.key { state := some .denied, finished := true }
  moveTo D id .running
  finish D id .failed "approval_denied"
    (.own "Du hast das abgelehnt — ich suche keinen anderen Weg.")

/-- An approval that has lapsed is to be asked for again, a few times. -/
def pollLapsed (run : Run) (step : Step) : Code Unit := do
  let id := run.runId
  release id
  moveTo D id .running
  let c ← context id
  if c.approvalAttempts ≥ maxApprovalRequests then
    openBoundary D id (.unseenApproval step.capability step.key)
  else do
    mark id .lapsed
    recordEvent D id "approval_resolved" "Die Freigabe ist verfallen — ich frage neu." ""

/-- `_poll_approval`. -/
def pollApproval (run : Run) : Code Unit := do
  ensureContext run
  let step? ← waitingStep run.runId
  match step? with
  | none => moveTo D run.runId .running
  | some step => do
    let state ← readApprovalState D step
    if state = "PENDING" then pure ()
    else if state = "APPROVED" then pollApproved D run step
    else if state = "DENIED" then pollDenied D run step
    else pollLapsed D run step

end polling

/-! ### The other steps -/

section steps
variable (D : Deployment)

/-- `_run_proposal_step`. -/
def runProposalStep (run : Run) (seq attempt : Nat) : Code Unit := do
  let key : StepKey := ⟨run.runId, seq, attempt⟩
  createStep { key, kind := .knowledgeProposal }
  let s ← Coro.state
  if s.outside.storesFile run.runId then do
    updateStep D key
      { state := some .succeeded, finished := true
        summary := .own "Wissensvorschlag abgelegt (nicht uebernommen)." }
    nextStep run.runId
  else raise (.foreign "OSError")

/-- A step that the orchestrator does itself at the end. -/
def skipStep (run : Run) (kind : StepKind) (seq attempt : Nat) : Code Unit := do
  let key : StepKey := ⟨run.runId, seq, attempt⟩
  createStep { key, kind }
  updateStep D key { state := some .skipped, summary := .own "Vom Orchestrator selbst erledigt." }
  nextStep run.runId

def runStep (run : Run) (planned : PlannedStep) (seq attempt : Nat) : Code Unit :=
  match planned.kind with
  | .specialist => runSpecialistStep D run planned seq attempt
  | .capability => runCapabilityStep D run planned seq attempt
  | .knowledgeProposal => runProposalStep D run seq attempt
  | .verify | .harvest => skipStep D run planned.kind seq attempt

/-- `_do_next_step`. -/
def doNextStep (run : Run) : Code Unit := do
  let id := run.runId
  if run.state = .interrupted then moveTo D id .running else pure ()
  let c ← context id
  match c.plan.bind (fun plan => plan.steps[c.cursor]?) with
  | none => moveTo D id .verifying
  | some planned => do
    let t ← now
    checkBudget id (·.checkStep t)
    runStep D run planned (c.cursor + 1) (c.ledger.planRevisions + 1)
    setBudget id BudgetLedger.noteStep

/-- `SETTLED_OK`. -/
def settledOk (s : StepState) : Bool := s = .succeeded || s = .skipped

/-- `_harvest`: the branch, and why there is none. -/
def harvest (run : Run) : Code (String × String) := do
  let id := run.runId
  let c ← context id
  if c.scope ≠ .build ∨ D.hasWorkspaces = false then return ("", "")
  else match c.workspace with
    | none => return ("", "no_workspace")
    | some workspace => do
      let steps ← stepsFor id
      let key : StepKey := ⟨id, steps.length + 1, 1⟩
      createStep { key, kind := .harvest }
      let s ← Coro.state
      match s.outside.harvest workspace with
      | .error reason => do
        updateStep D key
          { state := some .failed, finished := true
            summary := .own ("Ernte verweigert: " ++ reason) }
        return ("", reason)
      | .ok ref => do
        setRunFields id { branchRef := some ref }
        updateStep D key
          { state := some .succeeded, finished := true
            summary := .foreign ("Als " ++ ref ++ " bereitgestellt.") }
        return (ref, "")

/-- `_HARVEST_WORDS`. -/
def harvestWords (why : String) : String :=
  if why = "no_change" then "Der Auftrag hat am Projekt nichts geaendert — es gibt kein " ++
    "Arbeitsergebnis, das ich dir bereitlegen koennte."
  else if why = "credential_shaped_content" then "Ich habe das Arbeitsergebnis " ++
    "zurueckgehalten: darin stand etwas, das wie ein Zugang aussieht."
  else if why = "no_workspace" then "Der Arbeitsbereich fehlte — es gibt kein Ergebnis."
  else "Der Lauf hat kein Arbeitsergebnis hinterlassen."

/-- `_summarise`. -/
def summarise (c : Context) : String :=
  if c.contextNotes = [] then "Der Lauf ist durch."
  else cap (D.redactOutput (" ".intercalate c.contextNotes)) 900

/-- The end of a run all of whose steps are settled. -/
def succeed (run : Run) : Code Unit := do
  let id := run.runId
  let harvested ← harvest D run
  let c ← context id
  if harvested.1 ≠ "" then
    finish D id .succeeded "" (.foreign (summarise D c ++ " Das Ergebnis liegt als " ++
      harvested.1 ++ " bereit — uebernehmen ist deine Entscheidung."))
  else if harvested.2 ≠ "" then
    finish D id .failed "no_result" (.own (harvestWords harvested.2))
  else finish D id .succeeded "" (.foreign (summarise D c))

/-- `_do_verify`. -/
def doVerify (run : Run) : Code Unit := do
  let id := run.runId
  let steps ← stepsFor id
  let unsettled := steps.filter (fun s => !settledOk s.state)
  let uncertain := unsettled.filter (fun s => s.state = .unknown)
  let key : StepKey := ⟨id, steps.length + 1, 1⟩
  createStep { key, kind := .verify }
  if uncertain.length ≠ 0 then do
    updateStep D key
      { state := some .unknown, finished := true
        summary := .own (toString uncertain.length ++ " Schritte mit ungewissem Ausgang.") }
    finish D id .failed "recovery_required" (.own ("Ich weiss bei einem Schritt nicht sicher, " ++
      "ob er durchging — bitte sieh nach, bevor wir etwas wiederholen."))
  else if unsettled.length ≠ 0 then do
    updateStep D key
      { state := some .failed, finished := true
        summary := .own (toString unsettled.length ++ " Schritte ohne Ergebnis.") }
    finish D id .failed "specialist_failed"
      (.own "Der Lauf ist ohne belastbares Ergebnis geendet.")
  else do
    updateStep D key
      { state := some .succeeded, finished := true
        summary := .own "Alle Schritte haben ein Ergebnis." }
    succeed D run

end steps

/-! ### The tick -/

section tick
variable (D : Deployment)

/-- What the state of a run asks for. -/
def advanceState (run : Run) : Code Unit :=
  match run.state with
  | .created => do
    prepareWorkspace D run
    moveTo D run.runId .planning
  | .planning => doPlan D run
  | .running | .interrupted => doNextStep D run
  | .verifying => doVerify D run
  | _ => pure ()

/-- How a run ends whose step has raised. -/
def failRun (run : Run) (e : Exn) : Code Unit :=
  match e with
  | .budgetExhausted category => finish D run.runId .failed category
      (.own ("Der Lauf ist an einer Grenze geendet: " ++ category ++ "."))
  | .planInvalid reason =>
    if reason = "workspace_unavailable" then
      finish D run.runId .failed "workspace_conflict"
        (.own "Die Arbeitskopie liess sich nicht anlegen.")
    else finish D run.runId .failed "plan_invalid"
      (.own "Ich konnte keinen brauchbaren Plan bilden.")
  | e => finish D run.runId .failed "capability_failed"
      (.own ("Der Lauf ist unerwartet gescheitert (" ++ e.kind ++ ")."))

/-- `_advance`. -/
def advance (run : Run) : Code Unit := do
  ensureContext run
  let c ← context run.runId
  if c.cancel then
    finish D run.runId .cancelled "cancelled_by_user" (.own "Der Lauf wurde abgebrochen.")
  else (advanceState D run).handle (failRun D run)

/-- The tick's visit to a run that is to go on. -/
def admitRun (run : Run) : Code Unit := do
  let s ← Coro.state
  if run.state = .created then mark run.runId (.meets s.ledger.openRuns) else pure ()
  if s.ledger.activeRuns.length > D.maxConcurrent ∧ run.state = .created then pure ()
  else advance D run

def tickRun (run : Run) : Code Unit := do
  let s ← Coro.state
  if run.runId ∈ s.unfinishable then pure ()
  else if run.state = .waitingApproval then pollApproval D run
  else if run.state = .waitingUser then pure ()
  else admitRun D run

def tickRuns : List Run → Code Unit
  | [] => pure ()
  | run :: runs => do
    tickRun D run
    tickRuns runs

/-- `tick`: the starts that wait for an approval, then every open run once. -/
def tick : Code Unit := do
  if D.hasControlPlane then ask .pendingStarts else pure ()
  let s ← Coro.state
  tickRuns D s.ledger.openRuns

end tick

/-! ### The calls from outside -/

section calls
variable (D : Deployment)

/-- `cancel`. -/
def cancel (id : String) : Code Unit := do
  let run? ← getRun id
  match run? with
  | none => pure ()
  | some run =>
    if run.state.terminal then pure ()
    else do
      setContext id (fun c => if c.registered then { c with cancel := true } else c)
      finish D id .cancelled "cancelled_by_user" (.own "Der Lauf wurde abgebrochen.")

/-- `resume`. -/
def resume (id : String) : Code Unit := do
  let run? ← getRun id
  match run? with
  | none => pure ()
  | some run =>
    if run.state ≠ .waitingUser then pure ()
    else do
      setRunFields id { boundary := some "" }
      moveTo D id .running
      mark id .resumed
      recordEvent D id "boundary_resumed" "Der Nutzer hat die Grenze erledigt." ""
      ensureContext run
      setContext id (fun c => { c with approvalAttempts := 0 })

/-- What `create_task` is called with. -/
structure Order where
  objective : String
  scope : Scope
  origin : String
  targetRepo : String := ""
  conversationRef : String := ""
  predecessorRef : String := ""

/-- `CREATION_ORIGINS`. -/
def creationOrigins : List String := ["trusted_interactive_app", "room_voice", "local_owner"]

def maxObjective : Nat := 4000

/-- The ledger's `create_task`. -/
def insertTask (o : Order) : Code String := do
  let s ← Coro.state
  match D.firewall.safe (.foreign o.objective) maxObjective with
  | none => raise .credential
  | some objective =>
    let task : Task :=
      { taskId := s.outside.newTaskId, objective, scope := o.scope, targetRepo := o.targetRepo,
        conversationRef := o.conversationRef, predecessorRef := cap o.predecessorRef maxRef,
        budget := Budget.default o.scope }
    match s.ledger.tasks.insert? task with
    | none => raise .integrity
    | some tasks => do
      Coro.modify (fun s => s.withLedger { s.ledger with tasks })
      return task.taskId

/-- The ledger's `create_run`. -/
def insertRun (taskId : String) : Code String := do
  let s ← Coro.state
  let run : Run :=
    { runId := s.outside.newRunId, taskId, createdAt := s.outside.now, updatedAt := s.outside.now }
  match s.ledger.runs.insert? run with
  | none => raise .integrity
  | some runs => do
    Coro.modify (fun s => s.withLedger { s.ledger with runs })
    recordEvent D run.runId "state_changed" "Lauf angelegt (CREATED)." ""
    return run.runId

/-- `create_task`. -/
def createTask (o : Order) : Code Unit := do
  if String.ofList (asciiLower (stripped o.origin).toList) ∉ creationOrigins then
    raise (.creationRefused ("origin:" ++ o.origin))
  else if o.scope = .build ∧ D.buildAvailable = false then
    raise (.creationRefused "no_builder_available")
  else do
    let taskId ← insertTask D o
    let id ← insertRun D taskId
    let t ← now
    setContext id (fun _ =>
      { registered := true, taskId, scope := o.scope
        ledger := { budget := Budget.default o.scope, startedAt := t } })

end calls

/-! ### The start of a process -/

section reconcile
variable (D : Deployment)

/-- `_reconcile_step`: an orphaned child is stopped if it can be told for certain. -/
def reconcileStep (step : Step) : Code Unit := do
  if step.state ≠ .running ∨ step.childPgid = 0 then pure ()
  else do
    let s ← Coro.state
    if s.outside.groupMatches step then
      updateStep D step.key { state := some .failed, finished := true
                              summary := .own "Verwaister Kindprozess beendet." }
    else updateStep D step.key { state := some .unknown, finished := true
                                 summary := .own "Kindprozess nicht eindeutig — gemeldet." }

def reconcileSteps : List Step → Code Unit
  | [] => pure ()
  | step :: steps => do
    reconcileStep D step
    reconcileSteps steps

def interrupt (id : String) : Code Unit :=
  (transition D id .interrupted "" (.own "") "Der Core endete waehrend des Laufs.").handle
    (fun e =>
      match e with
      | .transition _ _ => pure ()
      | e => raise e)

def reconcileRun (run : Run) : Code Unit := do
  if run.state = .waitingUser then pure ()
  else do
    if run.state = .interrupted then pure () else interrupt D run.runId
    recordEvent D run.runId "recovered" "Neustart erkannt — Abgleich laeuft." ""
    let steps ← stepsFor run.runId
    reconcileSteps D steps

def reconcileRuns : List Run → Code Unit
  | [] => pure ()
  | run :: runs => do
    reconcileRun D run
    reconcileRuns runs

/-- `reconcile`. -/
def reconcile : Code Unit := do
  let s ← Coro.state
  reconcileRuns D s.ledger.openRuns

end reconcile

/-! ### The loop -/

inductive Job where
  | tick
  | cancel (id : String)
  | resume (id : String)
  | createTask (o : Order)

/-- The orchestrator of a process, one after another: one tick at a time, and
the calls from outside beside it. -/
abbrev loop (D : Deployment) : Loop Core where
  toAsync := effects
  Task := Job
  exclusive
    | .tick => true
    | _ => false
  code
    | .tick => tick D
    | .cancel id => cancel D id
    | .resume id => resume D id
    | .createTask o => createTask D o
  restart s := ((reconcile D).run s.newProcess).2
  init := Core.empty

end Solvio.AgentRuntime.Orchestrator
