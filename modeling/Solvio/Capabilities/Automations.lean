import Solvio.Capabilities.Phrases
import Solvio.Proactive.Store

namespace Solvio.Capabilities.Background
open Solvio.Lib Solvio.Proactive

/-- What the process runs on: the tables for texts, the zone, the patterns of the
credential firewall, and how Python writes a float. -/
structure Deployment where
  script : Script
  zone : Zone
  credential : String → Bool
  writes : Rat → String

def allowedActions : List String :=
  ["calendar_list_events", "calendar_search_events", "calendar_get_event",
    "calendar_find_availability", "gmail_list_recent", "gmail_search", "gmail_read_message",
    "ha_get_state", "ha_list_devices", "ha_turn_on", "ha_turn_off", "ha_set_brightness"]

def researchNames : List String := ["recherche", "research", "deep_research"]

def maxTitle : Nat := 120

def maxTopic : Nat := 780

def maxTasks : Nat := 40

/-- Arguments of `background_create` that pass the schema. What is left out reads
as if it were empty. -/
structure Arguments where
  titel : String
  wann : String
  aktion : String
  argumente : List (String × Data) := []
  thema : String := ""
  bedingung : String := ""
  melden : String := ""

def Arguments.action (a : Arguments) : String := stripped a.aktion

variable (E : Deployment)

/-! ### `describe_create` -/

/-- What the device shows and signs. -/
structure Description where
  titel : String
  wann : String
  art : String
  aktion : String
  uhrzeit : Option String := none
  wochentage : Option (List Nat) := none
  abstandS : Option Int := none
  hinweis : Option String := none
deriving DecidableEq

def described (a : Arguments) (plan : Schedule) (note : String) : Description where
  titel := prefixOf a.titel maxTitle
  wann := prefixOf a.wann 80
  art := plan.kind.value
  aktion := a.action
  uhrzeit := if plan.kind = .daily ∨ plan.kind = .weekly then
    some (twoDigits plan.hour ++ ":" ++ twoDigits plan.minute) else none
  wochentage := if plan.kind = .weekly then some plan.weekdays else none
  abstandS := if plan.kind = .interval then some plan.everySeconds else none
  hinweis := if note = "" then none else some note

def describeCreate (a : Arguments) (now : Rat) : Except Raised Description := do
  let (plan, note) ← parseWhen E.script a.wann now
  match plan with
  | none => .error (.declined "schedule_not_understood")
  | some plan =>
    if a.action ∉ allowedActions ∧ a.action ∉ researchNames then
      .error (.declined "action_not_allowed")
    else .ok (described a plan note)

/-! ### `create` -/

def deedOf (a : Arguments) : Except Raised Deed :=
  if a.action ∈ researchNames then
    let topic := prefixOf (stripped a.thema) maxTopic
    if topic.length < 8 then .error (.declined "topic_missing") else .ok (.research topic)
  else if a.action ∈ allowedActions then .ok (.capability a.action (.dict a.argumente))
  else .error (.declined "action_not_allowed")

def conditionOf (a : Arguments) : Option Condition :=
  if stripped a.bedingung = "" then none else some (.contains (prefixOf (stripped a.bedingung) 120))

def notifyOf (a : Arguments) : Notify :=
  let said := stripped a.melden
  if said = "immer" then .always else if said = "bei_aenderung" then .onChange
  else if said = "wenn_zutrifft" then .onCondition
  else if stripped a.bedingung ≠ "" then .onCondition else .onChange

/-- What the arguments are made into before the store is asked. -/
structure Prepared where
  title : String
  plan : Schedule
  note : String
  action : Action

def prepare (a : Arguments) (now : Rat) : Except Raised Prepared := do
  let title := prefixOf (stripped a.titel) maxTitle
  if title = "" then .error (.declined "title_missing")
  else
    let (plan, note) ← parseWhen E.script (stripped a.wann) now
    match plan with
    | none => .error (.declined "schedule_not_understood")
    | some plan =>
      let deed ← deedOf a
      .ok {
        title := title
        plan := plan
        note := note
        action := { deed := deed, condition := conditionOf a, notify := notifyOf a } }

/-- `action`, as it is written. -/
def Notify.text : Notify → String
  | .always => "immer"
  | .onChange => "bei_aenderung"
  | .onCondition => "wenn_zutrifft"

def writtenCondition : Condition → Data
  | .contains needle => .dict [("enthaelt", .string needle)]
  | .nonEmpty key => .dict [("nicht_leer", .string key)]
  | .atLeast key count => .dict [("mindestens", .list [.string key, .scalar (.int count)])]
  | .other => .dict []

def writtenDeed : Deed → List (String × Data)
  | .research topic => [("kind", .string "research"), ("topic", .string topic)]
  | .capability name arguments =>
    [("kind", .string "capability"), ("capability", .string name), ("arguments", arguments)]

def writtenAction (x : Action) : Data :=
  .dict (writtenDeed x.deed ++ (x.condition.toList.map (fun c => ("condition", writtenCondition c)) ++
    [("notify", .string (Notify.text x.notify))]))

/-- `bt-` and the first half of a hash. -/
def taskIdFor (owner title : String) (now : Rat) : String :=
  "bt-" ++ prefixOf (toHex (sha256 (encodeUtf8 (owner ++ "|" ++ title ++ "|" ++ E.writes now)))) 16

/-- The row of a new task. The next occasion is a float. -/
def newTask (p : Prepared) (owner spoken : String) (now : Rat) : Except Raised TaskRow :=
  if p.plan.kind = .interval ∧ (floatLimit : Int) ≤ p.plan.everySeconds then .error .overflowError
  else .ok {
    taskId := taskIdFor E owner p.title now
    owner := owner
    title := p.title
    createdAt := now
    createdFrom := if spoken = "" then p.title else spoken
    schedule := p.plan
    action := p.action
    nextRunAt := p.plan.nextAfter E.zone now }

/-- `_refuse_credentials` of a task. -/
def refuses (row : TaskRow) : Bool :=
  [row.title, row.createdFrom, (writtenAction row.action).dumps].any
    (fun text => text ≠ "" && E.credential text)

/-- `create` up to the stored row. The owner and the words come with the call, and
the store has this many tasks of the owner. -/
def create (a : Arguments) (owner spoken : String) (existing : Nat) (now : Rat) :
    Except Raised TaskRow := do
  let p ← prepare E a now
  if maxTasks ≤ existing then .error (.declined "too_many_tasks")
  else
    let row ← newTask E p owner spoken now
    if refuses E row then .error .credentialRefused else .ok row

end Solvio.Capabilities.Background
