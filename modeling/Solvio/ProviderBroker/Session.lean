import Solvio.Lib.Table
import Mathlib.Tactic.SplitIfs

namespace Solvio.ProviderBroker
open Solvio.Lib

/-- Clock readings in milliseconds. -/
abbrev Time := Int

/-- `utc_day`, by the number of the day instead of its text. -/
def utcDay (now : Time) : Int := now / 86400000

def documentPrincipal : String := "document-ask"

structure Caps where
  maxLeases : Nat := 4
  maxInflight : Nat := 6
  requestsPerDay : Nat := 5000
  tokensPerDay : Nat := 5000000
  allowedModels : List String := ["gpt-5.4-mini"]
  allowedProviderTools : List String := []
deriving DecidableEq

def deepCaps : Caps := { maxLeases := 4, maxInflight := 6, tokensPerDay := 2000000 }
def botCaps : Caps := { maxLeases := 2, maxInflight := 6, tokensPerDay := 500000 }
def agentCaps : Caps :=
  { maxLeases := 2, maxInflight := 2, requestsPerDay := 300, tokensPerDay := 200000 }
def cognitionCaps : Caps :=
  { maxLeases := 2, maxInflight := 2, requestsPerDay := 500, tokensPerDay := 300000 }
def cognitionEscalationCaps : Caps :=
  { maxLeases := 2, maxInflight := 1, requestsPerDay := 40, tokensPerDay := 200000,
    allowedModels := ["gpt-5.4"] }
def agentEscalationCaps : Caps :=
  { maxLeases := 2, maxInflight := 1, requestsPerDay := 20, tokensPerDay := 150000,
    allowedModels := ["gpt-5.4"] }
def autopilotLeadCaps : Caps :=
  { maxLeases := 2, maxInflight := 2, requestsPerDay := 200, tokensPerDay := 400000 }
def autopilotLeadEscalationCaps : Caps :=
  { maxLeases := 1, maxInflight := 1, requestsPerDay := 15, tokensPerDay := 120000,
    allowedModels := ["gpt-5.4"] }
def autopilotWriterClaudeCaps : Caps :=
  { maxLeases := 2, maxInflight := 2, requestsPerDay := 2000, tokensPerDay := 8000000,
    allowedModels := ["claude-sonnet-5"] }
def autopilotWriterClaudeEscalationCaps : Caps :=
  { maxLeases := 1, maxInflight := 1, requestsPerDay := 400, tokensPerDay := 3000000,
    allowedModels := ["claude-opus-5"] }
def researchQuickCaps : Caps :=
  { maxLeases := 2, maxInflight := 2, requestsPerDay := 300, tokensPerDay := 1500000,
    allowedProviderTools := ["web_search"] }
def documentCaps : Caps :=
  { maxLeases := 2, maxInflight := 2, requestsPerDay := 200, tokensPerDay := 2000000 }
def adaptiveExtractorCaps : Caps :=
  { maxLeases := 1, maxInflight := 1, requestsPerDay := 400, tokensPerDay := 200000,
    allowedModels := ["gpt-4.1-mini"] }

/-- `_default_caps`: it does not know the document principal. -/
def defaultCaps (name : String) : Caps :=
  if "bot:".toList.isPrefixOf name.toList then botCaps
  else if name = "agent-runtime" then agentCaps
  else if name = "agent-runtime-escalation" then agentEscalationCaps
  else if name = "cognitive-router" then cognitionCaps
  else if name = "cognitive-router-escalation" then cognitionEscalationCaps
  else if name = "autopilot-lead" then autopilotLeadCaps
  else if name = "autopilot-lead-escalation" then autopilotLeadEscalationCaps
  else if name = "autopilot-writer-claude" then autopilotWriterClaudeCaps
  else if name = "autopilot-writer-claude-escalation" then autopilotWriterClaudeEscalationCaps
  else if name = "adaptive-extractor" then adaptiveExtractorCaps
  else if name = "research-quick" then researchQuickCaps
  else deepCaps

inductive CapExceeded where
  | leaseAbsent
  | rateCapped
  | tokenCapped
deriving DecidableEq

def CapExceeded.reason : CapExceeded → String
  | leaseAbsent => "lease_absent"
  | rateCapped => "rate_capped"
  | tokenCapped => "token_capped"

structure Lease where
  leaseId : String
  principal : String
  ref : String
  deadline : Time
deriving DecidableEq

def Lease.expired (l : Lease) (now : Time) : Bool := l.deadline ≤ now

structure Principal where
  name : String
  caps : Caps
  token : String := ""
  generation : Nat := 0
  leases : List Lease := []
  inflight : Nat := 0
  /-- The day that `requestsToday` and `tokensToday` are about. -/
  day : Option Int := none
  requestsToday : Nat := 0
  tokensToday : Nat := 0
deriving DecidableEq

instance : Keyed Principal String := ⟨Principal.name⟩

namespace Principal

def liveLeases (p : Principal) (now : Time) : Nat := p.leases.countP (fun l => !l.expired now)

def expire (p : Principal) (now : Time) : Principal :=
  { p with leases := p.leases.filter (fun l => !l.expired now) }

/-- The accounting of another day than the current one starts again at zero. -/
def rollDay (p : Principal) (now : Time) : Principal :=
  if p.day ≠ some (utcDay now) then
    { p with day := some (utcDay now), requestsToday := 0, tokensToday := 0 }
  else p

/-- `admit`, gate three. The day has rolled also where it refuses. -/
def admission (p : Principal) (now : Time) : Except CapExceeded Unit × Principal :=
  let p := p.rollDay now
  if p.caps.maxInflight ≤ p.inflight then (.error .rateCapped, p)
  else if p.caps.requestsPerDay ≤ p.requestsToday then (.error .rateCapped, p)
  else if p.caps.tokensPerDay ≤ p.tokensToday then (.error .tokenCapped, p)
  else (.ok (), p)

/-- Gate six: the estimate against the token cap, and then booked. -/
def precharge (p : Principal) (estimate : Nat) (now : Time) : Except CapExceeded Unit × Principal :=
  let p := p.rollDay now
  if p.caps.tokensPerDay < p.tokensToday + estimate then (.error .tokenCapped, p)
  else (.ok (), { p with
    tokensToday := p.tokensToday + estimate
    requestsToday := p.requestsToday + 1 })

/-- The reported usage takes the place of the estimate; never below zero. -/
def replaceEstimate (p : Principal) (estimate reported : Nat) (now : Time) : Principal :=
  let p := p.rollDay now
  { p with tokensToday := p.tokensToday + reported - estimate }

/-- What the ledger says of today, after a restart. -/
def seedDay (p : Principal) (requests tokens : Nat) (now : Time) : Principal :=
  { p with
    day := some (utcDay now)
    requestsToday := requests
    tokensToday := tokens }

/-- The leases are a dictionary: a lease id that is there keeps its place. -/
def putLease (p : Principal) (l : Lease) : Principal :=
  if p.leases.any (fun m => m.leaseId = l.leaseId) then
    { p with leases := p.leases.map (fun m => if m.leaseId = l.leaseId then l else m) }
  else { p with leases := p.leases ++ [l] }

def dropLease (p : Principal) (leaseId : String) : Principal :=
  { p with leases := p.leases.filter (fun m => m.leaseId ≠ leaseId) }

theorem roll_name (p : Principal) (now : Time) : (p.rollDay now).name = p.name := by
  unfold rollDay
  split <;> rfl

theorem admission_name (now : Time) (p : Principal) : (p.admission now).2.name = p.name := by
  rw [← roll_name p now]
  simp only [admission]
  split_ifs <;> rfl

theorem precharge_name (estimate : Nat) (now : Time) (p : Principal) :
    (p.precharge estimate now).2.name = p.name := by
  rw [← roll_name p now]
  simp only [precharge]
  split_ifs <;> rfl

theorem replace_name (estimate reported : Nat) (now : Time) (p : Principal) :
    (p.replaceEstimate estimate reported now).name = p.name := roll_name p now

theorem put_name (l : Lease) (p : Principal) : (p.putLease l).name = p.name := by
  unfold putLease
  split <;> rfl

end Principal

structure Registry where
  principals : Table Principal
  byToken : List (String × String)

namespace Registry

def empty : Registry := ⟨.empty, []⟩

def principal? (r : Registry) (name : String) : Option Principal := r.principals.find? name

def modify (r : Registry) (name : String) (f : Principal → Principal)
    (hf : ∀ p, (f p).name = p.name) : Registry :=
  { r with principals := r.principals.modify name f hf }

/-- A fresh token for this name. The old one is void from here on. -/
def register (r : Registry) (name : String) (caps : Option Caps) (token : String) : Registry :=
  let principals := match r.principals.insert? { name, caps := caps.getD (defaultCaps name) } with
    | some t => t
    | none => r.principals.modify name (fun p => { p with caps := caps.getD p.caps }) (fun _ => rfl)
  let old := ((r.principal? name).map Principal.token).getD ""
  let byToken := if old = "" then r.byToken else r.byToken.filter (fun e => e.1 ≠ old)
  { principals := principals.modify name
      (fun p => { p with token := token, generation := p.generation + 1 }) (fun _ => rfl)
    byToken := byToken.filter (fun e => e.1 ≠ token) ++ [(token, name)] }

/-- The presented token against every entry. -/
def resolve (r : Registry) (presented : String) : Option Principal :=
  if presented = "" then none
  else r.byToken.foldl
    (fun found e => if e.1 = presented then r.principal? e.2 else found) none

def openLease (r : Registry) (name ref : String) (deadline now : Time) (leaseId : String) :
    Except CapExceeded String × Registry :=
  match r.principal? name with
  | none => (.error .leaseAbsent, r)
  | some p =>
    let r := r.modify name (·.expire now) (fun _ => rfl)
    if p.caps.maxLeases ≤ (p.expire now).liveLeases now then (.error .rateCapped, r)
    else (.ok leaseId, r.modify name (·.putLease ⟨leaseId, name, ref, deadline⟩)
      (Principal.put_name _))

/-- The principal whose last live lease this was. -/
def closeLease (r : Registry) (leaseId : String) (now : Time) : Option String × Registry :=
  match r.principals.rows.find? (fun p => p.leases.any (fun l => l.leaseId = leaseId)) with
  | none => (none, r)
  | some p =>
    let q := (p.dropLease leaseId).expire now
    (if q.liveLeases now = 0 then some p.name else none,
      r.modify p.name (fun p => (p.dropLease leaseId).expire now) (fun _ => rfl))

def hasLiveLease (r : Registry) (name : String) (now : Time) : Bool × Registry :=
  match r.principal? name with
  | none => (false, r)
  | some p => (0 < (p.expire now).liveLeases now, r.modify name (·.expire now) (fun _ => rfl))

end Registry

end Solvio.ProviderBroker
