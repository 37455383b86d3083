import Solvio.Lib.JsonText
import Solvio.Lib.Programs
import Solvio.Lib.PyData
import Solvio.Lib.Sha256
import Solvio.Lib.Table

namespace Solvio.BackgroundJobs
open Solvio.Lib

/-! ### The local ledger -/

inductive LocalJobStatus where
  | localPendingSubmit | queued | running | succeeded | failed | cancelRequested | cancelled
  | remoteUnknown | resultExpired
deriving DecidableEq

/-- `LOCAL_TERMINAL`. -/
def LocalJobStatus.terminal : LocalJobStatus → Bool
  | succeeded | failed | cancelled | resultExpired => true
  | _ => false

/-- `NODE_TO_LOCAL.get`. -/
def nodeToLocal : String → Option LocalJobStatus
  | "QUEUED" => some .queued
  | "RUNNING" => some .running
  | "SUCCEEDED" => some .succeeded
  | "FAILED" => some .failed
  | "CANCEL_REQUESTED" => some .cancelRequested
  | "CANCELLED" => some .cancelled
  | "RESULT_EXPIRED" => some .resultExpired
  | _ => none

/-- What a job is submitted with. -/
structure Submission where
  capabilityId : String
  payload : Data
  privacyClass : String
  idempotencyKey : String
  maxAttempts : Int

/-- A row of `local_jobs`. -/
structure Job where
  localJobId : String
  nodeId : String
  submission : Submission
  remoteJobId : Option String := none
  status : LocalJobStatus := .localPendingSubmit
  attemptCount : Int := 0
  resultAvailable : Bool := false
  resultDigest : Option String := none
  errorDetail : Option String := none

instance : Keyed Job String := ⟨Job.localJobId⟩

abbrev Ledger : Type := Table Job

/-- `_mark_submitted`. -/
def Job.submitted (remote : String) (status : LocalJobStatus) (j : Job) : Job :=
  { j with remoteJobId := some remote, status := status }

/-- `_update_status`. What is not given stays. -/
def Job.updated (status : LocalJobStatus) (attempts : Option Int) (error : Option String) (j : Job) :
    Job :=
  { j with
    status := status
    attemptCount := attempts.getD j.attemptCount
    errorDetail := error.or j.errorDetail }

/-- `_set_result_meta`. -/
def Job.described (available : Bool) (digest : Option String) (j : Job) : Job :=
  { j with resultAvailable := available, resultDigest := digest }

theorem Job.submitted_key (remote : String) (status : LocalJobStatus) (j : Job) :
    Keyed.key (j.submitted remote status) = Keyed.key j := rfl

theorem Job.updated_key (status : LocalJobStatus) (attempts : Option Int) (error : Option String)
    (j : Job) : Keyed.key (j.updated status attempts error) = Keyed.key j := rfl

theorem Job.described_key (available : Bool) (digest : Option String) (j : Job) :
    Keyed.key (j.described available digest) = Keyed.key j := rfl

/-! ### The node -/

/-- What is raised. Everything that is neither an outage nor the answer of a
capability counts as `other`. -/
inductive Raised where
  | unavailable
  | capability (errorCode : String)
  | jobNotFound
  | resultNotReady (status : String)
  | resultDigestMismatch
  | other
deriving DecidableEq

/-- What a node says of a job. -/
structure JobMeta where
  status : Option String := none
  attemptCount : Option Int := none
  errorCode : Option String := none
  resultAvailable : Bool := false
  resultDigest : Option String := none

structure NodeResult where
  available : Bool
  status : String := "unknown"
  result : Data := .scalar .none
  resultDigest : Option String := none

/-- The answers of the node, and failures to get one. -/
structure Outside where
  submitted : Except Raised String := .error .unavailable
  jobMeta : Except Raised JobMeta := .error .unavailable
  cancelled : Except Raised (Option String) := .error .unavailable
  result : Except Raised NodeResult := .error .unavailable

/-! ### Requests to the store and to the node -/

inductive Op where
  | createPending (job : Job)
  | markSubmitted (id remote : String) (status : LocalJobStatus)
  | updateStatus (id : String) (status : LocalJobStatus) (attempts : Option Int)
    (error : Option String)
  | setResultMeta (id : String) (available : Bool) (digest : Option String)
  | get (id : String)
  | resendInfo (id : String)
  | listNonTerminal
  | submitJob (id nodeId : String) (s : Submission)
  | getJob (id nodeId remote : String)
  | getJobResult (id nodeId remote : String)
  | cancelJob (id nodeId remote : String)

abbrev Reply : Op → Type
  | .createPending _ => Bool
  | .get _ => Option Job
  | .resendInfo _ => Option Submission
  | .listNonTerminal => List Job
  | .submitJob _ _ _ => Except Raised String
  | .getJob _ _ _ => Except Raised JobMeta
  | .getJobResult _ _ _ => Except Raised NodeResult
  | .cancelJob _ _ _ => Except Raised (Option String)
  | _ => Unit

def step : (op : Op) → Outside → Ledger → Reply op × Ledger
  | .createPending job, _, t =>
    match t.insert? job with
    | none => (false, t)
    | some t' => (true, t')
  | .markSubmitted id remote status, _, t =>
    ((), t.modify id (Job.submitted remote status) (Job.submitted_key remote status))
  | .updateStatus id status attempts error, _, t =>
    ((), t.modify id (Job.updated status attempts error) (Job.updated_key status attempts error))
  | .setResultMeta id available digest, _, t =>
    ((), t.modify id (Job.described available digest) (Job.described_key available digest))
  | .get id, _, t => (t.find? id, t)
  | .resendInfo id, _, t => ((t.find? id).map Job.submission, t)
  | .listNonTerminal, _, t => (t.rows.filter (fun j => !j.status.terminal), t)
  | .submitJob _ _ _, o, t => (o.submitted, t)
  | .getJob _ _ _, o, t => (o.jobMeta, t)
  | .getJobResult _ _ _, o, t => (o.result, t)
  | .cancelJob _ _ _, o, t => (o.cancelled, t)

abbrev shared : Shared Ledger where
  Op := Op
  Input := Outside
  Reply := Reply
  step := step
  init := Table.empty

abbrev Proc (α : Type) : Type := Prog Op Reply α

def ask (op : Op) : Proc (Reply op) := Prog.request op

/-! ### `BackgroundManager` -/

def pendingJob (localJobId nodeId : String) (s : Submission) : Job where
  localJobId := localJobId
  nodeId := nodeId
  submission := s

/-- `submit`, after a node has been selected and two ids have been drawn. -/
def submit (localJobId nodeId : String) (s : Submission) : Proc (Except Raised String) := do
  if ← ask (.createPending (pendingJob localJobId nodeId s)) then
    match ← ask (.submitJob localJobId nodeId s) with
    | .error .unavailable => return .ok localJobId
    | .error e => return .error e
    | .ok remote =>
      ask (.markSubmitted localJobId remote .queued)
      return .ok localJobId
  else return .error .other

/-- `NODE_TO_LOCAL.get(status, otherwise)`. -/
def localStatus (status : Option String) (otherwise : LocalJobStatus) : LocalJobStatus :=
  (status.bind nodeToLocal).getD otherwise

/-- What `refresh` writes of an answer. -/
def noteMeta (id : String) (spec : Job) (m : JobMeta) : Proc (Option Job) := do
  ask (.updateStatus id (localStatus m.status spec.status) m.attemptCount m.errorCode)
  ask (.setResultMeta id m.resultAvailable m.resultDigest)
  ask (.get id)

def noteUnknown (id : String) : Proc (Option Job) := do
  ask (.updateStatus id .remoteUnknown none none)
  ask (.get id)

def refresh (id : String) : Proc (Except Raised (Option Job)) := do
  match ← ask (.get id) with
  | none => return .error .jobNotFound
  | some spec =>
    match spec.remoteJobId with
    | none => return .ok (some spec)
    | some remote =>
      if spec.status.terminal then return .ok (some spec)
      else
        match ← ask (.getJob id spec.nodeId remote) with
        | .error e =>
          if e = .capability "NOT_FOUND" then
            let updated ← noteUnknown id
            return .ok updated
          else return .error e
        | .ok m =>
          let updated ← noteMeta id spec m
          return .ok updated

/-- `node_result_trust`. -/
def nodeResultTrust (capabilityId : String) : String :=
  let startsWith (s : String) : Bool := s.toList.isPrefixOf capabilityId.toList
  if capabilityId = "system.health" ∨ capabilityId = "compute.sha256" then "external_tool_result"
  else if startsWith "research." ∨ startsWith "web." then "untrusted_web"
  else if startsWith "agent." then "agent_generated"
  else if startsWith "embedding." ∨ startsWith "compute." then "external_tool_result"
  else "agent_generated"

structure Retrieved where
  result : Data
  digest : String
  digestOk : Bool
  trustLevel : String
  capabilityId : String
  nodeId : String

def resultDigest (payload : Data) : String :=
  toHex (sha256 (encodeUtf8 (String.ofList payload.json.render)))

def retrieved (spec : Job) (r : NodeResult) : Except Raised Retrieved :=
  if r.available = false then .error (.resultNotReady r.status)
  else
    let digest := resultDigest r.result
    if r.resultDigest.any (fun claimed => claimed ≠ "" && claimed ≠ digest) then
      .error .resultDigestMismatch
    else .ok {
      result := r.result
      digest := digest
      digestOk := r.resultDigest = some digest
      trustLevel := nodeResultTrust spec.submission.capabilityId
      capabilityId := spec.submission.capabilityId
      nodeId := spec.nodeId }

def result (id : String) : Proc (Except Raised Retrieved) := do
  match ← ask (.get id) with
  | none => return .error .jobNotFound
  | some spec =>
    match spec.remoteJobId with
    | none => return .error (.resultNotReady "not submitted")
    | some remote =>
      match ← ask (.getJobResult id spec.nodeId remote) with
      | .error e => return .error e
      | .ok r => return retrieved spec r

/-- `cancel`. It does not look at the status. -/
def cancel (id : String) : Proc (Except Raised LocalJobStatus) := do
  match ← ask (.get id) with
  | none => return .error .jobNotFound
  | some spec =>
    match spec.remoteJobId with
    | none =>
      ask (.updateStatus id .cancelled none none)
      return .ok .cancelled
    | some remote =>
      match ← ask (.cancelJob id spec.nodeId remote) with
      | .error e => return .error e
      | .ok status =>
        ask (.updateStatus id (localStatus status .cancelRequested) none none)
        return .ok (localStatus status .cancelRequested)

structure Counts where
  resent : Nat := 0
  refreshed : Nat := 0
  remoteUnknown : Nat := 0
  unreachable : Nat := 0

/-- A job that has not been submitted for certain is sent again. -/
def resend (out : Counts) (spec : Job) : Proc Counts := do
  match ← ask (.resendInfo spec.localJobId) with
  | none => Prog.fail
  | some s =>
    match ← ask (.submitJob spec.localJobId spec.nodeId s) with
    | .error .unavailable => return { out with unreachable := out.unreachable + 1 }
    | .error _ => Prog.fail
    | .ok remote =>
      ask (.markSubmitted spec.localJobId remote .queued)
      return { out with resent := out.resent + 1 }

def refreshOne (out : Counts) (spec : Job) : Proc Counts := do
  match ← refresh spec.localJobId with
  | .error .unavailable => return { out with unreachable := out.unreachable + 1 }
  | .error _ => Prog.fail
  | .ok none => Prog.fail
  | .ok (some updated) =>
    if updated.status = .remoteUnknown ∧ spec.status ≠ .remoteUnknown then
      return { out with remoteUnknown := out.remoteUnknown + 1 }
    else return { out with refreshed := out.refreshed + 1 }

/-- The body of the loop of `reconcile`, which catches only outages. -/
def reconcileOne (out : Counts) (spec : Job) : Proc Counts :=
  if spec.status = .localPendingSubmit then resend out spec else refreshOne out spec

def reconcile : Proc Counts := do
  let jobs ← ask .listNonTerminal
  jobs.foldlM reconcileOne {}

/-- What is launched. Whoever calls gets what is raised. -/
inductive Launch : Proc Unit → Prop
  | submit (localJobId nodeId : String) (s : Submission) :
    Launch (submit localJobId nodeId s >>= fun _ => pure ())
  | refresh (id : String) : Launch (refresh id >>= fun _ => pure ())
  | result (id : String) : Launch (result id >>= fun _ => pure ())
  | cancel (id : String) : Launch (cancel id >>= fun _ => pure ())
  | reconcile : Launch (reconcile >>= fun _ => pure ())

end Solvio.BackgroundJobs
