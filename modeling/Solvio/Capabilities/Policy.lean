import Solvio.Capabilities.HomeAssistant

namespace Solvio.Capabilities

/-! ### Where an order comes from, and what it means -/

inductive OriginClass where
  | trustedInteractiveApp | roomVoice | localOwner | backgroundAutomation | externalUntrusted
  | unspecified
deriving DecidableEq

def OriginClass.value : OriginClass → String
  | trustedInteractiveApp => "trusted_interactive_app"
  | roomVoice => "room_voice"
  | localOwner => "local_owner"
  | backgroundAutomation => "background_automation"
  | externalUntrusted => "external_untrusted"
  | unspecified => "unspecified"

def ActionClass.value : ActionClass → String
  | readOnly => "read_only"
  | haNormal => "ha_normal"
  | haSecurity => "ha_security"
  | normalWrite => "normal_write"
  | critical => "critical"
  | veryCritical => "very_critical"
  | unclassified => "unclassified"

inductive Decision where
  | executeDirectly | requireFaceId | deny | existingSpecialPolicy
deriving DecidableEq

/-- `_STRICTNESS`, of the decisions that are compared. -/
def Decision.strictness : Decision → Nat
  | executeDirectly => 0
  | requireFaceId => 1
  | deny => 2
  | existingSpecialPolicy => 0

def stricter (left right : Decision) : Decision :=
  if right.strictness ≤ left.strictness then left else right

/-- `MATRIX`. -/
def matrix : OriginClass → ActionClass → Decision
  | _, .readOnly => .executeDirectly
  | .trustedInteractiveApp, .veryCritical => .requireFaceId
  | .trustedInteractiveApp, .unclassified => .requireFaceId
  | .trustedInteractiveApp, _ => .executeDirectly
  | .roomVoice, .haNormal => .executeDirectly
  | .roomVoice, _ => .requireFaceId
  | .localOwner, .haNormal => .executeDirectly
  | .localOwner, _ => .requireFaceId
  | .backgroundAutomation, .veryCritical => .deny
  | .backgroundAutomation, _ => .requireFaceId
  | .externalUntrusted, _ => .deny
  | .unspecified, _ => .requireFaceId

/-- `SPECIAL_POLICY`. -/
def specialPolicy : List String := ["memory_remember", "system_heal"]

/-- `_CLASS_RANK`. -/
def ActionClass.rank : ActionClass → Nat
  | readOnly => 0
  | haNormal => 1
  | haSecurity => 2
  | normalWrite => 2
  | critical => 2
  | unclassified => 3
  | veryCritical => 4

/-- `apply_floor`, by the risk that a capability declares of itself. -/
def applyFloor (actionClass : ActionClass) (baseRisk : Nat) : ActionClass :=
  let raised (floor : ActionClass) :=
    if floor.rank ≤ actionClass.rank then actionClass else floor
  match baseRisk with
  | 2 => raised .normalWrite
  | 3 => raised .critical
  | _ => actionClass

structure PolicyOutcome where
  decision : Decision
  origin : OriginClass
  actionClass : ActionClass
  reasonCode : String
  preauthorizationId : String := ""
deriving DecidableEq

/-- The cell that an overlay makes stricter, and never direct. -/
def overlaid (origin : OriginClass) (actionClass : ActionClass) (reason : String) : PolicyOutcome :=
  let decision := stricter (matrix origin actionClass) (matrix origin .critical)
  { decision := if decision = .executeDirectly then .requireFaceId else decision
    origin := origin
    actionClass := actionClass
    reasonCode := reason }

/-- `decide`. -/
def policyDecide (origin : OriginClass) (actionClass : ActionClass) (capability : String)
    (untrustedArgument commanded : Bool) (preauthorizationId : String) : PolicyOutcome :=
  if capability ∈ specialPolicy then
    { decision := .existingSpecialPolicy
      origin := origin
      actionClass := actionClass
      reasonCode := "special_policy" }
  else if actionClass ≠ .readOnly ∧ commanded = false then
    overlaid origin actionClass "turn_not_a_command"
  else if actionClass ≠ .readOnly ∧ untrustedArgument = true then
    overlaid origin actionClass "untrusted_argument_overlay"
  else if preauthorizationId ≠ "" ∧ origin = .backgroundAutomation ∧ actionClass = .haNormal then
    { decision := .executeDirectly
      origin := origin
      actionClass := actionClass
      reasonCode := "bounded_preauthorization"
      preauthorizationId := preauthorizationId }
  else
    { decision := matrix origin actionClass
      origin := origin
      actionClass := actionClass
      reasonCode := if actionClass = .unclassified then "unclassified_action"
        else if origin = .unspecified then "origin_unspecified" else "matrix_cell" }

/-- Somebody is asked, or nothing happens. -/
def Decision.Guarded (d : Decision) : Prop := d = .requireFaceId ∨ d = .deny

theorem overlaid_guarded (origin : OriginClass) (actionClass : ActionClass) (reason : String) :
    (overlaid origin actionClass reason).decision.Guarded := by
  cases origin <;> cases actionClass <;> first | exact .inl rfl | exact .inr rfl

/-- A background run is direct only for what reads, for what has its own policy, and
for a device with a pre-authorisation. -/
theorem background_guarded {actionClass : ActionClass} {capability : String}
    {untrusted commanded : Bool} {preauth : String} (hspecial : capability ∉ specialPolicy)
    (hread : actionClass ≠ .readOnly) (hpre : ¬ (actionClass = .haNormal ∧ preauth ≠ "")) :
    (policyDecide .backgroundAutomation actionClass capability untrusted commanded
      preauth).decision.Guarded := by
  unfold policyDecide
  rw [if_neg hspecial]
  split
  · exact overlaid_guarded ..
  · split
    · exact overlaid_guarded ..
    · split
      · rename_i h
        exact absurd ⟨h.2.2, h.1⟩ hpre
      · cases actionClass <;> first | exact .inl rfl | exact .inr rfl | exact absurd rfl hread

end Solvio.Capabilities
