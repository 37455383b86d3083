import Solvio.Lib.BestMatch
import Solvio.Lib.PyData
import Solvio.Lib.PyString
import Solvio.Lib.Table

namespace Solvio.Capabilities
open Solvio.Lib

/-! ### The policy's classes -/

inductive ActionClass where
  | readOnly | haNormal | haSecurity | normalWrite | critical | veryCritical | unclassified
deriving DecidableEq

structure Classification where
  actionClass : ActionClass
  targets : List String := []
  reason : String := ""
deriving DecidableEq

namespace HomeAssistant

/-! ### Exposed devices -/

def executableDomains : List String := ["light", "switch", "input_boolean"]

def securitySensitiveDomains : List String :=
  ["lock", "alarm_control_panel", "cover", "valve", "siren"]

def securitySensitiveDeviceClasses : List String :=
  ["garage", "gate", "door", "lock", "shutter", "awning"]

def accessDomains : List String := ["lock", "alarm_control_panel", "siren", "valve"]

def accessDeviceClasses : List String := ["garage", "gate", "door", "lock"]

def comfortDomains : List String :=
  ["light", "switch", "input_boolean", "cover", "media_player", "climate", "fan", "humidifier"]

/-- A device that the owner has shown to the assistant. -/
structure ExposedEntity where
  entityId : String
  name : String
  area : String := ""
  deviceClass : String := ""
deriving DecidableEq

instance : Keyed ExposedEntity String := ⟨ExposedEntity.entityId⟩

/-- The part of the id before the first dot. -/
def ExposedEntity.domain (e : ExposedEntity) : String :=
  if '.' ∈ e.entityId.toList then String.ofList (e.entityId.toList.takeWhile (· ≠ '.')) else ""

/-- `action_class`, with the devices that the owner calls relevant to security. -/
def ExposedEntity.actionClass (overrides : List String) (e : ExposedEntity) : ActionClass :=
  if e.entityId ∈ overrides then .haSecurity
  else if e.domain ∈ accessDomains then .haSecurity
  else if e.deviceClass ∈ accessDeviceClasses then .haSecurity
  else if e.domain ∈ comfortDomains then .haNormal
  else .unclassified

def ExposedEntity.executable (e : ExposedEntity) : Bool :=
  if e.domain ∈ securitySensitiveDomains then false
  else if e.deviceClass ∈ securitySensitiveDeviceClasses then false
  else e.domain ∈ executableDomains

/-- `boundary`: the devices by their id. -/
abbrev Boundary : Type := Table ExposedEntity

/-- The table behind `str.lower`. -/
abbrev Lower : Type := String → String

variable (lower : Lower)

/-- `_norm`. -/
def norm (text : String) : String :=
  String.ofList ((lower text).toList.filter (fun c => !isSpace c))

/-- The words of a text. -/
def wordsOf (text : String) : List String :=
  (((lower text).toList.splitBy (fun a b => isSpace a = isSpace b)).filter
    (fun w => !w.any isSpace)).map String.ofList

/-! ### `resolve` -/

/-- The devices of these domains and this area. -/
def poolOf (B : Boundary) (area : String) (domains : Option (List String)) :
    List ExposedEntity :=
  let pool := B.rows.filter (fun e => domains.all (e.domain ∈ ·))
  if area = "" then pool
  else
    let wanted := norm lower area
    let inArea := pool.filter (fun e => norm lower e.area = wanted)
    if inArea = [] then pool.filter (fun e => wanted ≠ "" && within wanted (norm lower e.area))
    else inArea

def exactId (name : String) (e : ExposedEntity) : Bool := lower e.entityId = lower (stripped name)

def exactName (name : String) (e : ExposedEntity) : Bool := norm lower e.name = norm lower name

def partialName (name : String) (e : ExposedEntity) : Bool :=
  within (norm lower name) (norm lower e.name)

def allWords (name : String) (e : ExposedEntity) : Bool :=
  (wordsOf lower name).all (fun w => within w (lower e.name))

def resolve (B : Boundary) (name area : String) (domains : Option (List String)) :
    List ExposedEntity :=
  let pool := poolOf lower B area domains
  if norm lower name = "" then if area ≠ "" then pool else []
  else if pool.filter (exactId lower name) ≠ [] then pool.filter (exactId lower name)
  else if pool.filter (exactName lower name) ≠ [] then pool.filter (exactName lower name)
  else if pool.filter (partialName lower name) ≠ [] then pool.filter (partialName lower name)
  else if wordsOf lower name ≠ [] then pool.filter (allWords lower name)
  else []

/-! ### The capabilities -/

/-- What a capability answers instead of acting. -/
inductive Refusal where
  | notFound (name : String)
  | ambiguous (options : List ExposedEntity)
  | notExecutable (e : ExposedEntity)
  | unavailable
deriving DecidableEq

/-- Arguments that pass the schema. -/
structure Arguments where
  name : String
  area : String := ""
  brightnessPct : Int := 100

/-- `_one`, with the boundary as it is loaded there, or not. -/
def one (B : Option Boundary) (args : Arguments) (domains : Option (List String)) :
    Except Refusal ExposedEntity :=
  match B with
  | none => .error .unavailable
  | some B =>
    match resolve lower B args.name args.area domains with
    | [] => .error (.notFound args.name)
    | [e] => .ok e
    | es => .error (.ambiguous es)

/-- `classify`. -/
def classify (overrides : List String) (B : Option Boundary) (args : Arguments) :
    Except Refusal Classification := do
  let e ← one lower B args none
  if e.actionClass overrides = .haNormal then
    .ok {
      actionClass := .haNormal
      targets := [e.entityId]
      reason := "ha:" ++ e.domain ++ ":" ++ (if e.deviceClass = "" then "-" else e.deviceClass) }
  else .error (.notExecutable e)

/-- A `call_service`. -/
structure ServiceCall where
  domain : String
  service : String
  entityId : String
  brightnessPct : Option Int := none
deriving DecidableEq

inductive Capability where
  | turnOn | turnOff | setBrightness
deriving DecidableEq

/-- Where the handler looks for the device. -/
def Capability.domains : Capability → Option (List String)
  | setBrightness => some ["light"]
  | _ => none

def Capability.serviceCall (c : Capability) (args : Arguments) (e : ExposedEntity) : ServiceCall :=
  match c with
  | turnOn => { domain := e.domain, service := "turn_on", entityId := e.entityId }
  | turnOff => { domain := e.domain, service := "turn_off", entityId := e.entityId }
  | setBrightness => {
      domain := "light"
      service := "turn_on"
      entityId := e.entityId
      brightnessPct := some (max 0 (min 100 args.brightnessPct)) }

/-- The handler, `_switch` or `set_brightness`: it resolves the device, and looks
once more whether it is exposed. -/
def handle (c : Capability) (found last : Option Boundary) (args : Arguments) :
    Except Refusal ServiceCall := do
  let e ← one lower found args c.domains
  if !e.executable then .error (.notExecutable e)
  else match last with
    | none => .error .unavailable
    | some B =>
      if (B.find? e.entityId).isSome then .ok (c.serviceCall args e)
      else .error (.notFound e.name)

/-- What the boundary is at the three times it is asked for, each of them with
or without a refresh before it. -/
structure Exposures where
  classified : Option Boundary
  found : Option Boundary
  last : Option Boundary

/-- The path of the router: it classifies, decides and asks, and then executes.
The result is what was decided on, and the call that was made. -/
def execute (overrides : List String) (c : Capability) (args : Arguments) (x : Exposures)
    (proceeds : Classification → Bool) : Except Refusal (Classification × Option ServiceCall) := do
  let classification ← classify lower overrides x.classified args
  if proceeds classification then
    let call ← handle lower c x.found x.last args
    .ok (classification, some call)
  else .ok (classification, none)

end HomeAssistant

end Solvio.Capabilities
