import Solvio.ProviderBroker.Session
import Solvio.ProviderBroker.Proxy
import Solvio.Lib.EventLoop

namespace Solvio.ProviderBroker
open Solvio.Lib

/-- `ANTHROPIC_PRINCIPALS`. -/
def anthropicPrincipals : List String :=
  ["autopilot-writer-claude", "autopilot-writer-claude-escalation"]

def anthropicPaths : List String := ["/v1/messages"]

def anthropicModels : List String := ["claude-sonnet-5", "claude-opus-5"]

def allowedDocumentMime : List String :=
  ["application/pdf", "image/png", "image/jpeg", "image/webp", "image/gif"]

/-- The caps that `register_principal` chooses. -/
def registeredCaps (name : String) : Caps :=
  if name = documentPrincipal then documentCaps else defaultCaps name

structure Request where
  authorization : String := ""
  apiKey : String := ""
  path : String := ""
  queryString : String := ""
  rawPath : String := ""

namespace Request

/-- The token, from either of the two headers. -/
def presented (r : Request) : Option String :=
  let header := r.authorization.toList
  if "bearer ".toList.isPrefixOf (asciiLower header) then
    some (stripped (String.ofList (header.drop 7)))
  else if stripped r.apiKey = "" then none
  else some (stripped r.apiKey)

/-- The raw path, taken literally; a query string is refused. -/
def canonicalPath (r : Request) : String :=
  if r.queryString ≠ "" then ""
  else
    let raw := if r.rawPath = "" then r.path else r.rawPath
    if '?' ∈ raw.toList then "" else raw

end Request

/-- A forwarding that the principal's rotation can abort. -/
structure Forward where
  id : Nat
  principal : String
  aborted : Bool := false

/-- `BrokerService`, as far as it is in memory. -/
structure Broker where
  registry : Registry
  buffered : Nat
  inflight : List Forward
  nextForward : Nat
  listening : Bool

namespace Broker

def init : Broker := ⟨.empty, 0, [], 0, true⟩

def authenticate (b : Broker) (req : Request) : Option Principal :=
  req.presented.bind b.registry.resolve

def releaseBuffer (b : Broker) (size : Nat) : Broker := { b with buffered := b.buffered - size }

def setPrincipal (b : Broker) (name : String) (f : Principal → Principal)
    (hf : ∀ p, (f p).name = p.name) : Broker :=
  { b with registry := b.registry.modify name f hf }

/-- `registry.admit`, of which only the rolled day stays. -/
def admission (b : Broker) (name : String) (now : Time) : Broker :=
  b.setPrincipal name (fun p => (p.admission now).2) (Principal.admission_name now)

def precharge (b : Broker) (name : String) (estimate : Nat) (now : Time) : Broker :=
  b.setPrincipal name (fun p => (p.precharge estimate now).2) (Principal.precharge_name estimate now)

def replaceEstimate (b : Broker) (name : String) (estimate reported : Nat) (now : Time) : Broker :=
  b.setPrincipal name (·.replaceEstimate estimate reported now)
    (Principal.replace_name estimate reported now)

def abortPrincipal (b : Broker) (name : String) : Broker :=
  { b with
    inflight := b.inflight.map (fun f => if f.principal = name then { f with aborted := true } else f) }

def aborted (b : Broker) (id : Nat) : Bool := b.inflight.any (fun f => f.id = id && f.aborted)

/-- The old token is void before anything else happens. -/
def rotate (b : Broker) (name token : String) : Broker :=
  abortPrincipal { b with registry := b.registry.register name none token } name

end Broker

/-! ### What a suspended request holds -/

/-- A request whose body is being read. -/
structure Reading where
  anthropic : Bool
  request : Request
  principal : String
  moment : Time
  maxBytes : Nat
  body : Bytes

/-- A request past its precharge. -/
structure Posted where
  request : Request
  principal : String
  moment : Time
  estimate : Nat
  requestBytes : Nat
  forward : Nat
  sent : Nat := 0
  sniffer : UsageSniffer := {}
  status : Nat := 502

/-- Where `_forward` waits. -/
inductive Phase where
  | posting
  | preparing
  | streaming
  | writing (chunk : Bytes)
  | ending
  | lastEof
  | closing

inductive Frame where
  | reading (r : Reading)
  | forwarding (p : Posted) (phase : Phase)

inductive Answer where
  /-- A chunk of the body, the empty one at its end; the vault's credential is
  borrowed right after that. -/
  | read (chunk : Bytes) (credential : Bool)
  | response (status : Nat)
  | chunk (b : Bytes)
  | done
  | failed
  | cancelled

inductive Call where
  | forward (req : Request)
  | anthropic (req : Request) (configured : Bool)
  | models (req : Request)
  /-- With the usage that the ledger holds for today. -/
  | registerPrincipal (name token : String) (requests tokens : Nat)
  | openLease (name ref : String) (deadline : Time) (leaseId : String)
  | closeLease (leaseId token : String)
  | rotateNow (name token : String)
  | stop

namespace Broker

/-- Gates two and three: a live lease, and the caps against what is booked. -/
def admitted (b : Broker) (p : Principal) (now : Time) : Bool × Broker :=
  let (live, registry) := b.registry.hasLiveLease p.name now
  if live then
    ((match ((p.expire now).admission now).1 with
      | .ok _ => true
      | .error _ => false), admission { b with registry } p.name now)
  else (false, { b with registry })

/-- `_handle_forward` up to the body. -/
def handleForward (b : Broker) (req : Request) (now : Time) : Option Frame × Broker :=
  match b.authenticate req with
  | none => (none, b)
  | some p =>
    let (ok, b) := b.admitted p now
    if ok ∧ req.canonicalPath ∈ forwardedPaths then
      (some (.reading
        { anthropic := false, request := req, principal := p.name, moment := now, body := [],
          maxBytes := if p.name = documentPrincipal then maxDocumentBodyBytes else maxBodyBytes }), b)
    else (none, b)

/-- `_handle_anthropic` up to the body. -/
def handleAnthropic (b : Broker) (req : Request) (configured : Bool) (now : Time) :
    Option Frame × Broker :=
  match b.authenticate req with
  | none => (none, b)
  | some p =>
    if p.name ∉ anthropicPrincipals then (none, b)
    else
      let (ok, b) := b.admitted p now
      if ok ∧ req.path ∈ anthropicPaths ∧ configured then
        (some (.reading
          { anthropic := true, request := req, principal := p.name, moment := now, body := [],
            maxBytes := maxBodyBytes }), b)
      else (none, b)

/-- `_handle_models`: gates one and three, then answered locally. -/
def handleModels (b : Broker) (req : Request) (now : Time) : Broker :=
  match b.authenticate req with
  | none => b
  | some p => b.admission p.name now

def start (c : Call) (now : Time) (b : Broker) : Option Frame × Broker :=
  match c with
  | .forward req => b.handleForward req now
  | .anthropic req configured => b.handleAnthropic req configured now
  | .models req => (none, b.handleModels req now)
  | .registerPrincipal name token requests tokens =>
    (none, setPrincipal { b with registry := b.registry.register name (some (registeredCaps name)) token }
      name (·.seedDay requests tokens now) (fun _ => rfl))
  | .openLease name ref deadline leaseId =>
    (none, { b with registry := (b.registry.openLease name ref deadline now leaseId).2 })
  | .closeLease leaseId token =>
    let (drained, registry) := b.registry.closeLease leaseId now
    match drained with
    | none => (none, { b with registry })
    | some name => (none, if name = "" then { b with registry }
        else rotate { b with registry } name token)
  | .rotateNow name token => (none, b.rotate name token)
  | .stop => (none, { b with
      listening := false
      inflight := b.inflight.map (fun f => { f with aborted := true }) })

/-- Gate five: what the body may ask for, by its principal's caps. -/
def checkBody (r : Reading) (caps : Caps) : Except BodyRejected (String × Json) :=
  if r.anthropic then
    parseModel r.body (caps.allowedModels.filter (· ∈ anthropicModels))
  else do
    let (model, body) ← parseModel r.body caps.allowedModels
    checkProviderTools body caps.allowedProviderTools
    if r.principal = documentPrincipal then checkInputShape body allowedDocumentMime
    return (model, body)

/-- The start of `_forward`: registered, counted, and then posted. A credential
that is not lent ends the request before the post. -/
def beginForward (b : Broker) (r : Reading) (estimate : Nat) (credential : Bool) :
    Option Frame × Broker :=
  let posted : Posted :=
    { request := r.request, principal := r.principal, moment := r.moment, estimate,
      requestBytes := r.body.length, forward := b.nextForward }
  (some (.forwarding posted (if r.anthropic ∧ ¬ credential then .closing else .posting)),
    setPrincipal { b with
      inflight := b.inflight ++ [⟨b.nextForward, r.principal, false⟩]
      nextForward := b.nextForward + 1 }
      r.principal (fun p => { p with inflight := p.inflight + 1 }) (fun _ => rfl))

/-- From the end of the body to the post, without an await. -/
def bodyRead (b : Broker) (r : Reading) (credential : Bool) : Option Frame × Broker :=
  let b := { b with buffered := b.buffered + r.body.length }
  match b.registry.principal? r.principal with
  | none => (none, b.releaseBuffer r.body.length)
  | some p =>
    match checkBody r p.caps with
    | .error _ => (none, b.releaseBuffer r.body.length)
    | .ok (model, body) =>
      let estimate := estimateTokens r.body body model
      let b' := b.precharge r.principal estimate r.moment
      match (p.precharge estimate r.moment).1 with
      | .error _ => (none, b'.releaseBuffer r.body.length)
      | .ok _ => b'.beginForward r estimate credential

def readBody (b : Broker) (r : Reading) (chunk : Bytes) (credential : Bool) :
    Option Frame × Broker :=
  if chunk = [] then b.bodyRead r credential
  else
    let total := r.body.length + chunk.length
    if r.maxBytes < total ∨ maxTotalBufferedBytes < b.buffered + total then
      (none, b.releaseBuffer r.body.length)
    else (some (.reading { r with body := r.body ++ chunk }), b)

end Broker

/-- What the caps are charged for in the end: `none` leaves the estimate. -/
def Posted.reported (p : Posted) (aborted : Bool) : Option Nat :=
  match settledCharge p.sniffer.seen p.sniffer.inputTokens p.sniffer.outputTokens p.estimate
      p.requestBytes p.sent aborted p.status with
  | (_, _, .estimated) => none
  | (input, output, _) => some (input + output)

namespace Broker

/-- The `finally` of `_forward`, after the session is closed. -/
def settle (b : Broker) (p : Posted) : Broker :=
  let aborted := b.aborted p.forward
  let b := setPrincipal { b with inflight := b.inflight.filter (fun f => f.id ≠ p.forward) }
    p.principal (fun q => { q with inflight := q.inflight - 1 }) (fun _ => rfl)
  let b := match p.reported aborted with
    | none => b
    | some reported => b.replaceEstimate p.principal p.estimate reported p.moment
  b.releaseBuffer p.requestBytes

/-- `_forward` from one await to the next. -/
def forwardStep (b : Broker) (p : Posted) : Phase → Answer → Option Frame × Broker
  | .posting, .response status =>
    let p := { p with status }
    (some (.forwarding p (if 300 ≤ status ∧ status < 400 then .closing else .preparing)), b)
  | .posting, _ => (some (.forwarding p .closing), b)
  | .preparing, .done => (some (.forwarding p .streaming), b)
  | .preparing, .cancelled => (some (.forwarding p .closing), b)
  | .preparing, _ => (some (.forwarding p .lastEof), b)
  | .streaming, .chunk c =>
    if b.aborted p.forward ∨ ¬ b.listening then
      (some (.forwarding { p with sniffer := p.sniffer.finish } .ending), b)
    else (some (.forwarding p (.writing c)), b)
  | .streaming, .cancelled => (some (.forwarding p .closing), b)
  | .streaming, _ => (some (.forwarding { p with sniffer := p.sniffer.finish } .ending), b)
  | .writing c, .done =>
    (some (.forwarding { p with sent := p.sent + c.length, sniffer := p.sniffer.feed c }
      .streaming), b)
  | .writing _, .cancelled => (some (.forwarding p .closing), b)
  | .writing _, _ => (some (.forwarding { p with sniffer := p.sniffer.finish } .ending), b)
  | .ending, .failed => (some (.forwarding p .lastEof), b)
  | .ending, _ => (some (.forwarding p .closing), b)
  | .lastEof, _ => (some (.forwarding p .closing), b)
  -- a cancelled close leaves the rest of the `finally` undone
  | .closing, .cancelled => (none, b.releaseBuffer p.requestBytes)
  | .closing, _ => (none, b.settle p)

def resume (f : Frame) (a : Answer) (_now : Time) (b : Broker) : Option Frame × Broker :=
  match f, a with
  | .reading r, .read chunk credential => b.readBody r chunk credential
  | .reading _, _ => (none, b)
  | .forwarding p phase, a => b.forwardStep p phase a

end Broker

def broker : EventLoop Broker where
  Frame := Frame
  Call := Call
  Answer := Answer
  start := Broker.start
  resume := Broker.resume
  init := .init

end Solvio.ProviderBroker
