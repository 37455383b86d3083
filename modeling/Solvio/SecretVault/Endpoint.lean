import Solvio.AgentRuntime.Plan
import Solvio.Lib.EventLoop
import Solvio.Lib.JsonText
import Solvio.SecretVault.Capabilities
import Solvio.SecretVault.Staging

namespace Solvio.SecretVault
open Solvio.Lib
open Solvio.AgentRuntime (CapabilityOutcome)

def Capability.name : Capability → String
  | secretAdd => "secret_add"
  | secretReplace => "secret_replace"
  | secretDisable => "secret_disable"
  | secretEnable => "secret_enable"
  | secretDelete => "secret_delete"
  | secretRescope => "secret_rescope"

/-- `ALLOWED_CAPABILITIES`. -/
def Capability.ofName? (name : String) : Option Capability :=
  [secretAdd, secretReplace, secretDisable, secretEnable, secretDelete, secretRescope].find?
    (fun c => decide (c.name = name))

/-- `NEEDS_VALUE`. -/
def Capability.needsValue : Capability → Bool
  | secretAdd | secretReplace => true
  | _ => false

/-! ### What a device signs -/

/-- A flat dictionary of texts, by its entries in the order of their keys. -/
structure Arguments where
  entries : List (String × String)
  sorted : (entries.map Prod.fst).Pairwise (· < ·)
deriving DecidableEq

namespace Arguments

def get (a : Arguments) (key : String) : Option String := a.entries.lookup key

def json (a : Arguments) : Json := .obj (a.entries.map (fun e => Json.field e.1 (Json.string e.2)))

end Arguments

structure Payload where
  capability : String
  arguments : Arguments
  secretSha256 : String
deriving DecidableEq

namespace Payload

def json (p : Payload) : Json := .obj
  [Json.field "arguments" p.arguments.json,
   Json.field "capability" (Json.string p.capability),
   Json.field "secret_sha256" (Json.string p.secretSha256)]

/-- The bytes that `payload_sha256` hashes. -/
def canonicalBytes (p : Payload) : Bytes := encodeUtf8 (String.ofList p.json.render)

/-- `payload_sha256`. -/
def sha256 (p : Payload) : String := toHex (Lib.sha256 p.canonicalBytes)

end Payload

/-- What `build_binding` binds. -/
structure Binding where
  coreInstanceId : String
  deviceId : String
  nonce : String
  payload : Payload
deriving DecidableEq

namespace Binding

def json (b : Binding) : Json := .obj
  [Json.field "core_instance_id" (Json.string b.coreInstanceId),
   Json.field "device_id" (Json.string b.deviceId),
   Json.field "nonce" (Json.string b.nonce),
   Json.field "payload_sha256" (Json.string b.payload.sha256),
   Json.field "protocol_version" (.int 1),
   Json.field "type" (Json.string "vault_mutation_binding")]

/-- The bytes that `client_data_hash` hashes. -/
def clientData (b : Binding) : Bytes :=
  encodeUtf8 "SOLVIO_VAULT_MUTATION_V1" ++ 0 :: encodeUtf8 (String.ofList b.json.render)

def clientDataHash (b : Binding) : Bytes := Lib.sha256 b.clientData

end Binding

/-- What the key of a device signs: a binding of this endpoint, or anything else. -/
inductive ClientData where
  | mutation (b : Binding)
  | other (bytes : Bytes)
deriving DecidableEq

def ClientData.bytes : ClientData → Bytes
  | mutation b => b.clientData
  | other bytes => bytes

/-! ### Requests -/

/-- `MAX_BODY`. -/
def maxBody : Nat := 32 * 1024

/-- The body of a request. Arguments that are no flat dictionary are none. -/
structure Form where
  capability : String
  arguments : Option Arguments
  nonce : String
  assertionB64 : String
  secretSha256 : String := ""
  secretB64 : String := ""
  stagingId : String := ""

inductive Response where
  | err (status : Nat) (reason : String)
  | challenge (nonce coreInstanceId : String)
  | mutation (outcome : CapabilityOutcome) (stagingId : Option String)
deriving DecidableEq

/-- A request whose form is in order. -/
structure Mutation where
  deviceId : String
  capability : Capability
  arguments : Arguments
  nonce : String
  assertion : Bytes
  secretSha256 : String
  secretB64 : String
  stagingId : String
deriving DecidableEq

namespace Mutation

/-- The payload of a request, as it came. -/
def payload (m : Mutation) : Payload := ⟨m.capability.name, m.arguments, m.secretSha256⟩

def binding (m : Mutation) (coreInstanceId : String) : Binding :=
  ⟨coreInstanceId, m.deviceId, m.nonce, m.payload⟩

/-- The arguments the router gets, with the id of the staged value. -/
def routed (m : Mutation) (stagingId : String) : Args := fun key =>
  if m.capability.needsValue ∧ key = "staging_id" then some stagingId else m.arguments.get key

end Mutation

/-- The request of a form, or the answer to it. -/
def Form.mutation (form : Option Form) (deviceId : String) : Except Response Mutation := do
  match form with
  | none => throw (.err 400 "bad_request")
  | some f =>
    match f.arguments with
    | none => throw (.err 400 "bad_request")
    | some arguments =>
      match Capability.ofName? f.capability with
      | none => throw (.err 403 "capability_not_allowed")
      | some capability =>
        raiseIf (arguments.get "staging_id").isSome (.err 400 "bad_request")
        match b64decode f.assertionB64 with
        | none => throw (.err 401 "invalid_proof")
        | some assertion =>
          return { deviceId := deviceId, capability := capability, arguments := arguments
                   nonce := f.nonce, assertion := assertion, secretSha256 := f.secretSha256
                   secretB64 := f.secretB64, stagingId := f.stagingId }

structure DeviceRow where
  appAttestPublicKey : String
  appAttestCounter : Int
deriving DecidableEq

/-- `verify_assertion`, of an assertion, the hash of the client data, a key and
the counter before. -/
abbrev AttestVerifier := Bytes → Bytes → Bytes → Int → Bool

structure ControlPlane where
  coreInstanceId : String
  attestVerifier : Option AttestVerifier

/-- `verify_mutation_proof`, with the device it reads. -/
def ControlPlane.proves (c : ControlPlane) (m : Mutation) (device : Option DeviceRow) : Bool :=
  match device, c.attestVerifier with
  | some row, some verifies =>
    match fromHex row.appAttestPublicKey with
    | none | some [] => false
    | some key =>
      verifies m.assertion (m.binding c.coreInstanceId).clientDataHash key row.appAttestCounter
  | _, _ => false

/-! ### What is kept between requests -/

structure Holder where
  stagingId : String
  deviceId : String
deriving DecidableEq

instance : Keyed Holder String := ⟨Holder.stagingId⟩

/-- What a history of the endpoint has seen. -/
inductive Mark where
  | issued (nonce deviceId : String)
  | signed (deviceId : String) (data : ClientData)
  | consumed (m : Mutation)
  | opened (m : Mutation)
  | staged (m : Mutation) (stagingId : String) (plaintext : Bytes)
  | stored (m : Mutation) (stagingId : String) (plaintext : Bytes)
  | replied (r : Response)
deriving DecidableEq

structure Desk where
  nonces : SessionNonces
  staging : SecretStaging
  deviceForStaging : Table Holder
  vault : Vault
  trail : List Mark

def Desk.mark (s : Desk) (m : Mark) : Desk := { s with trail := m :: s.trail }

/-- Where a request waits. -/
inductive Frame where
  | challenge
  | auth (contentLength : Nat)
  | json (deviceId : String)
  | proof (m : Mutation)
  | router (m : Mutation) (stagingId : String)
deriving DecidableEq

inductive Request where
  | challenge
  | mutation (contentLength : Nat)
  | sign (deviceId : String) (data : ClientData)
  | admin (moment : Moment) (call : Call)

inductive Awaited where
  | authed (deviceId : Option String) (token : String)
  | json (form : Option Form)
  | device (row : Option DeviceRow) (draw : Draw)
  | runs (staged : Keychain) (moment : Moment)
  | returns (outcome : CapabilityOutcome)
  | cancelled

/-- The core the endpoint belongs to. -/
structure Core where
  site : Site
  controlPlane : Option ControlPlane
  router : Bool

section turns
variable (D : Core)

def respond (s : Desk) (r : Response) : Option Frame × Desk := (none, s.mark (.replied r))

/-- `h_challenge`, once the device is known. -/
def hChallenge (deviceId : Option String) (token : String) (now : Int) (s : Desk) :
    Option Frame × Desk :=
  match deviceId, D.controlPlane with
  | none, _ => respond s (.err 401 "unauthorized")
  | some _, none => respond s (.err 503 "approval_control_unavailable")
  | some d, some c =>
    if c.coreInstanceId = "" then respond s (.err 503 "approval_control_unavailable")
    else
      respond (Desk.mark { s with nonces := s.nonces.issue token d now } (.issued token d))
        (.challenge token c.coreInstanceId)

/-- `h_mutation` up to the proof. The nonce counts once, whatever follows. -/
def hMutation (deviceId : String) (form : Option Form) (now : Int) (s : Desk) :
    Option Frame × Desk :=
  match Form.mutation form deviceId, D.controlPlane with
  | .error r, _ => respond s r
  | .ok _, none => respond s (.err 401 "invalid_proof")
  | .ok m, some _ =>
    let consumed := s.nonces.consume m.nonce deviceId now
    if consumed.1 then
      (some (.proof m), Desk.mark { s with nonces := consumed.2 } (.consumed m))
    else respond { s with nonces := consumed.2 } (.err 401 "invalid_proof")

/-- A value that came with the request goes to its slot. -/
def stageValue (m : Mutation) (now : Int) (d : Draw) (s : Desk) : Except Response String × Desk :=
  match b64decode m.secretB64 with
  | none => (.error (.err 400 "bad_request"), s)
  | some raw =>
    if raw = [] ∨ toHex (sha256 raw) ≠ m.secretSha256 then (.error (.err 400 "bad_request"), s)
    else
      let staged := s.staging.stage D.site raw m.deviceId m.secretSha256 now d
      match staged.1 with
      | .error _ => (.error (.err 503 "vault_unavailable"), { s with staging := staged.2 })
      | .ok slot => (.ok slot.stagingId,
          Desk.mark { s with staging := staged.2
                             deviceForStaging := s.deviceForStaging.put ⟨slot.stagingId, m.deviceId⟩ }
            (.staged m slot.stagingId raw))

/-- The id of the value a request is about, if it needs one. -/
def valueOf (m : Mutation) (now : Int) (d : Draw) (s : Desk) : Except Response String × Desk :=
  if !m.capability.needsValue then
    if m.secretB64 ≠ "" ∨ m.stagingId ≠ "" ∨ m.secretSha256 ≠ "" then
      (.error (.err 400 "bad_request"), s)
    else (.ok "", s)
  else if m.secretB64 ≠ "" then stageValue D m now d s
  else if m.stagingId ≠ "" then
    match s.staging.peek m.stagingId m.deviceId now with
    | .error _ => (.error (.err 409 "staging_expired"), s)
    | .ok sha =>
      if sha ≠ m.secretSha256 then (.error (.err 400 "bad_request"), s) else (.ok m.stagingId, s)
  else (.error (.err 400 "bad_request"), s)

/-- `h_mutation` from the proof to the router. -/
def hProven (m : Mutation) (device : Option DeviceRow) (now : Int) (d : Draw) (s : Desk) :
    Option Frame × Desk :=
  if (D.controlPlane.map (·.proves m device)).getD false then
    let value := valueOf D m now d (s.mark (.opened m))
    match value.1 with
    | .error r => respond value.2 r
    | .ok stagingId =>
      if D.router then (some (.router m stagingId), value.2)
      else respond value.2 (.err 503 "capabilities_unavailable")
  else respond s (.err 401 "invalid_proof")

/-- `_take_staged`, of which `none` is a refusal. -/
def takeStaged (stagingId : String) (now : Int) (keychain : Keychain) (s : Desk) :
    Option Bytes × Desk :=
  match s.deviceForStaging.find? stagingId with
  | none => (none, s)
  | some holder =>
    if stagingId = "" ∨ holder.deviceId = "" then (none, s)
    else
      let taken := s.staging.take D.site stagingId holder.deviceId now keychain
      (taken.1.toOption,
        { s with staging := taken.2, deviceForStaging := s.deviceForStaging.delete stagingId })

/-- The handler of a capability, as the router runs it for a request. -/
def handler (m : Mutation) (stagingId : String) (now : Int) (staged : Keychain) (moment : Moment)
    (s : Desk) : Desk :=
  let taken := if m.capability.needsValue then takeStaged D stagingId now staged s else (none, s)
  let s' := taken.2
  match (Action.capability m.capability (m.routed stagingId) taken.1).effect D.site moment
      s'.vault with
  | .error _ => s'
  | .ok e =>
    let after := { s' with vault := e.apply moment.now s'.vault }
    match m.capability.needsValue, e with
    | true, .stored sealing => after.mark (.stored m stagingId sealing.plaintext)
    | _, _ => after

/-- `h_mutation` after the router. A value that waits for a human stays. -/
def hReturned (stagingId : String) (outcome : CapabilityOutcome) (s : Desk) :
    Option Frame × Desk :=
  match outcome with
  | .approvalRequired =>
    respond s (.mutation outcome (if stagingId = "" then none else some stagingId))
  | .success => respond s (.mutation outcome none)
  | _ =>
    if stagingId = "" then respond s (.mutation outcome none)
    else
      respond { s with staging := s.staging.delete stagingId
                       deviceForStaging := s.deviceForStaging.delete stagingId }
        (.mutation outcome none)

def start (r : Request) (_now : Int) (s : Desk) : Option Frame × Desk :=
  match r with
  | .challenge => (some .challenge, s)
  | .mutation contentLength => (some (.auth contentLength), s)
  | .sign deviceId data => (none, s.mark (.signed deviceId data))
  | .admin moment call =>
    match call.effect D.site moment s.vault s.vault with
    | .error _ => (none, s)
    | .ok e => (none, { s with vault := e.apply moment.now s.vault })

/-- An await that is answered, or dropped with its request. -/
def resume (f : Frame) (a : Awaited) (now : Int) (s : Desk) : Option Frame × Desk :=
  match f, a with
  | _, .cancelled => (none, s)
  | .challenge, .authed deviceId token => hChallenge D deviceId token now s
  | .auth _, .authed none _ => respond s (.err 401 "unauthorized")
  | .auth contentLength, .authed (some deviceId) _ =>
    if contentLength > maxBody then respond s (.err 413 "too_large") else (some (.json deviceId), s)
  | .json deviceId, .json form => hMutation D deviceId form now s
  | .proof m, .device row draw => hProven D m row now draw s
  | .router m stagingId, .runs staged moment =>
    (some (.router m stagingId), handler D m stagingId now staged moment s)
  | .router _ stagingId, .returns outcome => hReturned stagingId outcome s
  | f, _ => (some f, s)

/-- The endpoint of a core. -/
abbrev endpoint : EventLoop Desk where
  Frame := Frame
  Call := Request
  Answer := Awaited
  start := start D
  resume := resume D
  init := ⟨Table.empty, Table.empty, Table.empty, Table.empty, []⟩

end turns

end Solvio.SecretVault
