import Solvio.Proactive.Fingerprint
import Solvio.Proactive.Store

namespace Solvio.Proactive
open Solvio.Lib

/-- What the process runs on: the tables of letters, the zone, the patterns of
the credential firewall, and how Python writes a list or a dictionary. -/
structure Deployment where
  letters : Letters
  zone : Zone
  credential : String → Bool
  repr : Data → String

def maxFailures : Nat := 8

/-- `int` of a float. -/
def truncated (t : Rat) : Int := t.num.tdiv t.den

/-- `run_id_for`. -/
def runIdFor (taskId : String) (occurrence : Rat) : String :=
  "br-" ++ prefixOf (toHex (sha256 (encodeUtf8 (taskId ++ "|" ++
    String.ofList (Json.renderInt (truncated occurrence)))))) 20

/-- `backoff_after`. -/
def backoffAfter (failures : Nat) : Rat := min (300 * 2 ^ (failures - 1)) (6 * 3600)

structure RunOutcome where
  state : RunState
  outcome : String := ""
  detail : String := ""
  item : Option Item := none
  fingerprint : String := ""
  approvalRequest : String := ""

variable (E : Deployment)

/-! ### `_condition_met` -/

/-- Whether the condition holds, and why. A condition on what has no length raises. -/
def conditionMet (condition : Condition) (data : Data) : Option (Bool × String) :=
  match condition with
  | .contains needle =>
    let needle := E.letters.lower needle
    let found := within needle (E.letters.lower data.dumps)
    some (found, "'" ++ needle ++ "' " ++ if found then "gefunden" else "nicht gefunden")
  | .nonEmpty key =>
    let full := ((data.get? key).map Data.truthy).getD false
    some (full, key ++ " " ++ if full then "hat Inhalt" else "ist leer")
  | .atLeast key count =>
    let value := ((data.get? key).filter Data.truthy).getD (.list [])
    value.length?.map (fun n => (decide (count ≤ n), key ++ ": " ++ toString n ++ " von " ++
      toString count))
  | .other => some (true, "keine Bedingung")

/-! ### What a notification says -/

/-- An f-string. -/
def written (d : Data) : String :=
  match d with
  | .scalar v => v.text
  | d => E.repr d

def members : Data → List (String × Data)
  | .dict kvs => kvs
  | _ => []

/-- The first text that says something. -/
def spokenText (data : Data) : Option String :=
  ["zusammenfassung", "summary", "text", "antwort"].findSome? (fun key =>
    match data.get? key with
    | some (.scalar (.str s)) => if stripped s = "" then none else some (stripped s)
    | _ => none)

/-- `isinstance(count, int) and count == 0`, for which `False` is an `int`. -/
def countsNothing (data : Data) : Bool :=
  match data.get? "count" with
  | some (.scalar (.int n)) => n = 0
  | some (.scalar (.bool b)) => !b
  | _ => false

/-- `_summarize`. -/
def summarize (task : TaskRow) (data : Data) : String :=
  match spokenText data with
  | some text => prefixOf text 800
  | none =>
    let counts := ((members data).filterMap (fun p => match p.2 with
      | .list (x :: xs) => some (toString (x :: xs).length ++ " " ++ p.1)
      | _ => none)).take 3
    let empty := (members data).filterMap (fun p => match p.2 with
      | .list [] => some p.1
      | _ => none)
    if counts ≠ [] then task.title ++ ": " ++ String.intercalate ", " counts
    else if countsNothing data then task.title ++ ": nichts gefunden"
    else match empty with
      | key :: _ => task.title ++ ": keine " ++ key
      | [] => task.title

/-- The first of these entries that is not empty. -/
def firstTrue (entry : Data) (keys : List String) : Data :=
  (keys.findSome? (fun key => (entry.get? key).filter Data.truthy)).getD (.string "")

/-- The line of one entry of a list. -/
def findingLine : Data → Option String
  | .scalar (.str s) => some (prefixOf s 200)
  | .dict kvs =>
    let label := firstTrue (.dict kvs) ["titel", "title", "betreff", "subject", "name"]
    let moment := firstTrue (.dict kvs) ["start", "datum"]
    let line := stripped (written E label ++ " " ++ written E moment)
    if line = "" then none else some (prefixOf line 200)
  | _ => none

/-- `_findings`. -/
def findings (data : Data) : List String :=
  ((members data).flatMap (fun (key, value) =>
    if key = "content_trust" ∨ key = "fingerprint" then []
    else match value with
      | .list xs => (xs.take 5).filterMap (findingLine E)
      | .scalar (.str s) => if 0 < s.length ∧ s.length ≤ 200 then [key ++ ": " ++ s] else []
      | _ => [])).take 10

/-! ### `_judge` -/

def notificationId (runId fingerprint : String) : String :=
  "pn-" ++ prefixOf (toHex (sha256 (encodeUtf8 (runId ++ "|" ++ fingerprint)))) 20

/-- What the runner has to go on, beside the result. -/
structure Occasion where
  runId : String
  source : String
  trustTag : String := ""
  now : Rat

def itemOf (task : TaskRow) (data : Data) (current : String) (o : Occasion) : Item where
  notificationId := notificationId o.runId current
  taskId := task.taskId
  runId := o.runId
  createdAt := o.now
  priority := task.action.priority
  summary := summarize task data
  findings := findings E data
  source := o.source
  contentTrust := if o.trustTag ≠ "" then o.trustTag
    else ((data.get? "content_trust").map (written E)).getD ""
  fingerprint := current
  expiresAt := task.action.expiresAt

/-- The fingerprint of the run before. -/
def TaskRow.previous (task : TaskRow) : String := (task.lastResult.map LastResult.fingerprint).getD ""

def unchanged (current : String) : RunOutcome :=
  { state := .noChange, detail := "unveraendert", fingerprint := current }

/-- `_judge`, of which `none` is that it raises. -/
def judge (task : TaskRow) (data : Data) (o : Occasion) : Option RunOutcome := do
  let current ← Fingerprint.of E.letters data
  let report : RunOutcome :=
    { state := .done, item := some (itemOf E task data current o), fingerprint := current }
  match task.action.condition with
  | some condition =>
    let (met, why) ← conditionMet E condition data
    if !met then some { state := .noChange, detail := why, fingerprint := current }
    else if task.action.notify = .onCondition && !Fingerprint.changed task.previous current then
      some (unchanged current)
    else some report
  | none =>
    if task.action.notify = .onChange && !Fingerprint.changed task.previous current then
      some (unchanged current)
    else some report

end Solvio.Proactive
