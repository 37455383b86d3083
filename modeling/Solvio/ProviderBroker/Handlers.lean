import Solvio.ProviderBroker.Ledger

namespace Solvio.ProviderBroker
open Solvio.Lib

/-- A request as the server hands it over. -/
structure Wire where
  request : Request
  method : String
  /-- The path has bytes that are no UTF-8; they come as lone surrogates. -/
  lone : Bool := false

def isAscii (s : String) : Bool := s.toList.all (fun c => c.toNat < 128)

/-- `hmac.compare_digest` raises on a text that is not ASCII. -/
def compareDigest (token presented : String) : Except Raised Bool :=
  if isAscii token ∧ isAscii presented then .ok (token = presented) else .error .notAscii

/-- `resolve`, with the exception of the comparison. -/
def Registry.resolves (r : Registry) (presented : String) : Except Raised (Option Principal) :=
  if presented = "" then .ok none
  else r.byToken.foldlM (fun found e => do
    let same ← compareDigest e.1 presented
    pure (if same then r.principal? e.2 else found)) none

/-- Some live lease of the principal, for the row. -/
def Registry.leaseRef (r : Registry) (name : String) (now : Time) : String × String :=
  match r.principal? name with
  | none => ("", "")
  | some p => match p.leases.find? (fun l => !l.expired now) with
    | none => ("", "")
    | some l => (l.leaseId, l.ref)

def Broker.authenticates (b : Broker) (req : Request) : Except Raised (Option Principal) :=
  match req.presented with
  | none => .ok none
  | some token => b.registry.resolves token

/-- `AnthropicAuthError`, by its reason. -/
inductive AnthropicAuthError where
  | noCredential
  | credentialDenied
  | credentialMalformed
  | vaultUnavailable
deriving DecidableEq

def AnthropicAuthError.reason : AnthropicAuthError → String
  | noCredential => "no_credential"
  | credentialDenied => "credential_denied"
  | credentialMalformed => "credential_malformed"
  | vaultUnavailable => "vault_unavailable"

/-- What `_deny` is called with. -/
structure Denial where
  reason : String
  status : Nat
  path : String := ""
  model : String := ""
  requestBytes : Nat := 0
deriving DecidableEq

def CapExceeded.denial (x : CapExceeded) : Denial := ⟨x.reason, 429, "", "", 0⟩

def badToken : Denial := { reason := "bad_token", status := 401 }
def leaseAbsent : Denial := { reason := "lease_absent", status := 403 }
def pathNotAllowed : Denial := { reason := "path_not_allowed", status := 404 }
def principalNotAllowed (path : String) : Denial :=
  { reason := "principal_not_allowed", status := 403, path }
def noCredential (path : String) : Denial := { reason := "no_credential", status := 503, path }

/-- `BrokerService`: what is in memory, and the ledger. -/
structure Service where
  broker : Broker
  ledger : BrokerLedger

/-- A suspended request, with the row that its forwarding has written and its
`outcome` so far. -/
inductive Seat where
  | reading (w : Wire) (r : Reading)
  | forwarding (row : Nat) (outcome : Outcome) (p : Posted) (phase : Phase)

def Seat.frame : Seat → Frame
  | reading _ r => .reading r
  | forwarding _ _ p phase => .forwarding p phase

/-- How a turn of a handler ends. -/
inductive Served where
  | waits (s : Seat)
  /-- `_categorical`. -/
  | answers (status : Nat) (code : String)
  | lists (models : List String)
  | raised (x : Raised)
  /-- A forwarding has ended; its answer has begun before. -/
  | ended

def Served.seat : Served → Option Seat
  | waits s => some s
  | _ => none

def modelsPath : String := "/v1/models"

def orElse (a b : String) : String := if a = "" then b else a

namespace Service

def inBroker (d : Service) (f : Broker → Broker) : Service := { d with broker := f d.broker }

/-- The row of a denial. -/
def denialEntry (d : Service) (w : Wire) (p : Option Principal) (x : Denial) (moment : Time) :
    Entry :=
  let lease := match p with
    | none => ("", "")
    | some p => d.broker.registry.leaseRef p.name moment
  { principal := (p.map Principal.name).getD "unknown"
    generation := (p.map Principal.generation).getD 0
    method := w.method
    path := orElse (orElse x.path w.request.canonicalPath) w.request.path
    outcome := .denied
    leaseId := lease.1
    taskRef := lease.2
    model := x.model
    statusCode := x.status
    requestBytes := x.requestBytes
    deniedReason := x.reason
    lone := w.lone }

/-- `_deny`: the row, and then the categorical answer. -/
def deny (d : Service) (w : Wire) (p : Option Principal) (x : Denial) (moment : Time) :
    Served × Service :=
  match d.ledger.record (d.denialEntry w p x moment) moment with
  | .error e => (.raised e, d)
  | .ok (_, ledger) => (.answers x.status x.reason, { d with ledger })

/-- `_record`, of a request that is answered without the provider. -/
def recordLocal (d : Service) (w : Wire) (p : Principal) (moment : Time) : Except Raised Service :=
  let lease := d.broker.registry.leaseRef p.name moment
  (d.ledger.record
    { principal := p.name, generation := p.generation, method := w.method, path := modelsPath,
      outcome := .answeredLocally, leaseId := lease.1, taskRef := lease.2,
      statusCode := 200 } moment).map (fun r => { d with ledger := r.2 })

/-! ### The handlers, up to the body -/

def handleModels (d : Service) (w : Wire) (now : Time) : Served × Service :=
  match d.broker.authenticates w.request with
  | .error e => (.raised e, d)
  | .ok none => d.deny w none badToken now
  | .ok (some p) =>
    let d := d.inBroker (·.admission p.name now)
    match (p.admission now).1 with
    | .error x => d.deny w (some p) x.denial now
    | .ok _ =>
      match d.recordLocal w p now with
      | .error e => (.raised e, d)
      | .ok d => (.lists p.caps.allowedModels, d)

/-- `_handle_denied`: everything that is on no list. -/
def handleDenied (d : Service) (w : Wire) (now : Time) : Served × Service :=
  match d.broker.authenticates w.request with
  | .error e => (.raised e, d)
  | .ok none => d.deny w none badToken now
  | .ok (some p) => d.deny w (some p) pathNotAllowed now

/-- Gates two and three, and then the rest of the handler. -/
def admitted (d : Service) (w : Wire) (p : Principal) (now : Time)
    (next : Service → Served × Service) : Served × Service :=
  let (live, registry) := d.broker.registry.hasLiveLease p.name now
  let d := d.inBroker (fun b => { b with registry })
  if ¬ live then d.deny w (some p) leaseAbsent now
  else
    let d := d.inBroker (·.admission p.name now)
    match ((p.expire now).admission now).1 with
    | .error x => d.deny w (some p) x.denial now
    | .ok _ => next d

def handleForward (d : Service) (w : Wire) (now : Time) : Served × Service :=
  match d.broker.authenticates w.request with
  | .error e => (.raised e, d)
  | .ok none => d.deny w none badToken now
  | .ok (some p) => d.admitted w p now (fun d =>
      if w.lone ∨ w.request.canonicalPath ∉ forwardedPaths then
        d.deny w (some p) pathNotAllowed now
      else (.waits (.reading w
        { anthropic := false, request := w.request, principal := p.name, moment := now, body := [],
          maxBytes := if p.name = documentPrincipal then maxDocumentBodyBytes else maxBodyBytes }),
        d))

def handleAnthropic (d : Service) (w : Wire) (configured : Bool) (now : Time) : Served × Service :=
  match d.broker.authenticates w.request with
  | .error e => (.raised e, d)
  | .ok none => d.deny w none badToken now
  | .ok (some p) =>
    if p.name ∉ anthropicPrincipals then
      d.deny w (some p) (principalNotAllowed w.request.path) now
    else d.admitted w p now (fun d =>
      if w.lone ∨ w.request.path ∉ anthropicPaths then d.deny w (some p) pathNotAllowed now
      else if ¬ configured then d.deny w (some p) (noCredential w.request.path) now
      else (.waits (.reading w
        { anthropic := true, request := w.request, principal := p.name, moment := now, body := [],
          maxBytes := maxBodyBytes }), d))

end Service

/-! ### The body and the forwarding -/

/-- The path that the handler has checked. -/
def Reading.path (r : Reading) : String :=
  if r.anthropic then r.request.path else r.request.canonicalPath

/-- The models that the body may ask for. -/
def Reading.models (r : Reading) (caps : Caps) : List String :=
  if r.anthropic then caps.allowedModels.filter (· ∈ anthropicModels) else caps.allowedModels

/-- The rejection of a whole body; the model is in the row once it is known. -/
def Reading.denial (r : Reading) (caps : Caps) (x : BodyRejected) : Denial where
  reason := x.reason
  status := x.status
  path := r.path
  model := match parseModel r.body (r.models caps) with
    | .ok (model, _) => model
    | .error _ => ""
  requestBytes := r.body.length

def Reading.tooLarge (r : Reading) : Denial where
  reason := BodyRejected.bodyTooLarge.reason
  status := BodyRejected.bodyTooLarge.status
  path := r.path

def Reading.capped (r : Reading) (model : String) (x : CapExceeded) : Denial where
  reason := x.reason
  status := 429
  path := r.path
  model := model
  requestBytes := r.body.length

/-- An answer to an await, and why the vault lends nothing where it does not. -/
structure Heard where
  answer : Answer
  refusal : AnthropicAuthError := .noCredential

namespace Service

/-- The start of `_forward`. The exception of a credential that is not lent is
caught inside of it, before the handler sees it. -/
def beginForward (d : Service) (w : Wire) (r : Reading) (p : Principal) (model : String)
    (estimate : Nat) (credential : Bool) : Served × Service :=
  let lease := d.broker.registry.leaseRef r.principal r.moment
  match d.ledger.record
    { principal := r.principal, generation := p.generation, method := w.method, path := r.path,
      outcome := .forwarded, leaseId := lease.1, taskRef := lease.2, model,
      requestBytes := r.body.length, inputTokens := estimate,
      tokensSource := some .estimated } r.moment with
  | .error e => (.raised e, d)
  | .ok (row, ledger) =>
    let (next, broker) := d.broker.beginForward r estimate credential
    (match next with
      | some (.forwarding posted phase) => .waits (.forwarding row .upstreamError posted phase)
      | _ => .ended, ⟨broker, ledger⟩)

def bodyRead (d : Service) (w : Wire) (r : Reading) (credential : Bool) : Served × Service :=
  let d := d.inBroker (fun b => { b with buffered := b.buffered + r.body.length })
  match d.broker.registry.principal? r.principal with
  | none => (.ended, d.inBroker (·.releaseBuffer r.body.length))
  | some p =>
    match Broker.checkBody r p.caps with
    | .error x => (d.inBroker (·.releaseBuffer r.body.length)).deny w (some p)
        (r.denial p.caps x) r.moment
    | .ok (model, body) =>
      let estimate := estimateTokens r.body body model
      let d' := d.inBroker (·.precharge r.principal estimate r.moment)
      match (p.precharge estimate r.moment).1 with
      | .error x => (d'.inBroker (·.releaseBuffer r.body.length)).deny w (some p)
          (r.capped model x) r.moment
      | .ok _ => d'.beginForward w r p model estimate credential

def readBody (d : Service) (w : Wire) (r : Reading) (chunk : Bytes) (credential : Bool) :
    Served × Service :=
  if chunk = [] then d.bodyRead w r credential
  else
    let total := r.body.length + chunk.length
    if r.maxBytes < total ∨ maxTotalBufferedBytes < d.broker.buffered + total then
      (d.inBroker (·.releaseBuffer r.body.length)).deny w
        (d.broker.registry.principal? r.principal) r.tooLarge r.moment
    else (.waits (.reading w { r with body := r.body ++ chunk }), d)

end Service

/-- The `outcome` that an exception leaves. -/
def Broker.brokenOff (b : Broker) (p : Posted) : Outcome :=
  if b.aborted p.forward ∧ p.status < 400 then .clientAborted else .upstreamError

/-- `outcome` after an await of `_forward`. -/
def Broker.outcome (b : Broker) (p : Posted) (now : Outcome) : Phase → Answer → Outcome
  | .posting, .response _ => now
  | .posting, _ => b.brokenOff p
  | .preparing, .done => now
  | .preparing, _ => b.brokenOff p
  | .streaming, .cancelled => b.brokenOff p
  | .streaming, _ => now
  | .writing _, .cancelled => b.brokenOff p
  | .writing _, _ => now
  | .ending, .failed => b.brokenOff p
  | .ending, .cancelled => b.brokenOff p
  | .ending, _ =>
    if b.aborted p.forward ∧ p.status < 400 then .clientAborted
    else if p.status < 400 then .forwarded else .upstreamError
  | .lastEof, _ => now
  | .closing, _ => now

namespace Service

def settle (d : Service) (row : Nat) (outcome : Outcome) (p : Posted) : Service :=
  let (input, output, source) := settledCharge p.sniffer.seen p.sniffer.inputTokens
    p.sniffer.outputTokens p.estimate p.requestBytes p.sent (d.broker.aborted p.forward) p.status
  { broker := d.broker.settle p
    ledger := d.ledger.settle row input output p.sent p.status outcome source }

def forwardStep (d : Service) (row : Nat) (outcome : Outcome) (p : Posted) (phase : Phase)
    (a : Answer) : Served × Service :=
  let (next, broker) := d.broker.forwardStep p phase a
  match next with
  | some (.forwarding p' phase') =>
    (.waits (.forwarding row (d.broker.outcome p outcome phase a) p' phase'), ⟨broker, d.ledger⟩)
  | _ =>
    match a with
    -- a cancelled close leaves the row as it is
    | .cancelled => (.ended, ⟨broker, d.ledger⟩)
    | _ => (.ended, d.settle row outcome p)

def resume (d : Service) (s : Seat) (h : Heard) : Served × Service :=
  match s, h.answer with
  | .reading w r, .read chunk credential => d.readBody w r chunk credential
  | .reading _ _, _ => (.ended, d)
  | .forwarding row outcome p phase, a => d.forwardStep row outcome p phase a

end Service

end Solvio.ProviderBroker
