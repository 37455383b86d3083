import Solvio.Capabilities.Policy
import Solvio.Lib.JsonText
import Solvio.Lib.Sha256
import Solvio.Proactive.Schedule

namespace Solvio.Capabilities
open Solvio.Lib Solvio.Proactive

/-! ### What a pre-authorisation is bound to -/

/-- `schedule_binding`: the rule, without the moment of a single occasion. -/
structure ScheduleBinding where
  art : String
  zeitzone : String
  uhrzeit : Option String := none
  wochentage : Option (List Nat) := none
  abstandS : Option Int := none
deriving DecidableEq

def scheduleBinding (s : Schedule) : ScheduleBinding where
  art := s.kind.value
  zeitzone := s.timezone
  uhrzeit := if s.kind = .daily ∨ s.kind = .weekly then
    some (twoDigits s.hour ++ ":" ++ twoDigits s.minute) else none
  wochentage := if s.kind = .weekly then some (s.weekdays.insertionSort (· ≤ ·)) else none
  abstandS := if s.kind = .interval then some s.everySeconds else none

def ScheduleBinding.json (b : ScheduleBinding) : Json := .obj (
  (b.abstandS.toList.map (fun n => Json.field "abstand_s" (.int n))) ++
  [Json.field "art" (.string b.art)] ++
  (b.uhrzeit.toList.map (fun s => Json.field "uhrzeit" (.string s))) ++
  (b.wochentage.toList.map (fun ds => Json.field "wochentage" (.arr (ds.map (fun d : Nat => .int d))))) ++
  [Json.field "zeitzone" (.string b.zeitzone)])

/-- Everything that determines what a run does. -/
structure Effect where
  automationId : String
  capability : String
  actionClass : ActionClass
  targets : List String
  arguments : Data
  schedule : ScheduleBinding

namespace Effect

/-- The payload of `preauth_digest`, with its keys in order. -/
def json (e : Effect) : Json := .obj [
  Json.field "action_class" (.string e.actionClass.value),
  Json.field "arguments" e.arguments.json.sortKeys,
  Json.field "automation_id" (.string e.automationId),
  Json.field "capability" (.string e.capability),
  Json.field "schedule" e.schedule.json,
  Json.field "targets" (.arr ((e.targets.insertionSort (· ≤ ·)).map Json.string)),
  Json.field "v" (.int 1)]

/-- `_DOMAIN`, a zero byte, and the canonical text. -/
def bytes (e : Effect) : Bytes :=
  encodeUtf8 "SOLVIO_AUTOMATION_PREAUTH_V1" ++ 0 :: encodeUtf8 (String.ofList e.json.render)

/-- `preauth_digest`. -/
def digest (e : Effect) : String := toHex (sha256 e.bytes)

end Effect

/-! ### What a digest says -/

namespace ScheduleBinding

theorem get_abstand (b : ScheduleBinding) : b.json.get? "abstand_s" = b.abstandS.map Json.int := by
  obtain ⟨art, zone, _ | u, _ | w, _ | n⟩ := b <;> rfl

theorem get_art (b : ScheduleBinding) : b.json.get? "art" = some (.string b.art) := by
  obtain ⟨art, zone, _ | u, _ | w, _ | n⟩ := b <;> rfl

theorem get_uhrzeit (b : ScheduleBinding) : b.json.get? "uhrzeit" = b.uhrzeit.map Json.string := by
  obtain ⟨art, zone, _ | u, _ | w, _ | n⟩ := b <;> rfl

theorem get_wochentage (b : ScheduleBinding) : b.json.get? "wochentage" =
    b.wochentage.map (fun ds => .arr (ds.map (fun d : Nat => .int d))) := by
  obtain ⟨art, zone, _ | u, _ | w, _ | n⟩ := b <;> rfl

theorem get_zeitzone (b : ScheduleBinding) : b.json.get? "zeitzone" = some (.string b.zeitzone) := by
  obtain ⟨art, zone, _ | u, _ | w, _ | n⟩ := b <;> rfl

theorem json_injective {b c : ScheduleBinding} (h : b.json = c.json) : b = c := by
  have hart := (get_art b).symm.trans (h ▸ get_art c)
  have hzone := (get_zeitzone b).symm.trans (h ▸ get_zeitzone c)
  have hclock := (get_uhrzeit b).symm.trans (h ▸ get_uhrzeit c)
  have hdays := (get_wochentage b).symm.trans (h ▸ get_wochentage c)
  have hdistance := (get_abstand b).symm.trans (h ▸ get_abstand c)
  have hstring : Function.Injective Json.string := fun _ _ h => text_injective (Json.str.inj h)
  have hints : Function.Injective (fun ds : List Nat => Json.arr (ds.map (fun d : Nat => .int d))) := by
    intro ds es he
    refine List.map_injective_iff.mpr (fun d e hde => ?_) (Json.arr.inj he)
    exact Int.ofNat.inj (Json.int.inj hde)
  have hint : Function.Injective Json.int := fun _ _ h => Json.int.inj h
  obtain ⟨art, zone, u, w, n⟩ := b
  obtain ⟨art', zone', u', w', n'⟩ := c
  obtain rfl := hstring (Option.some.inj hart)
  obtain rfl := hstring (Option.some.inj hzone)
  obtain rfl := Option.map_injective hstring hclock
  obtain rfl := Option.map_injective hints hdays
  obtain rfl := Option.map_injective hint hdistance
  rfl

end ScheduleBinding

theorem class_value {c d : ActionClass} (h : c.value = d.value) : c = d := by
  cases c <;> cases d <;> first | rfl | exact absurd h (by decide)

namespace Effect

/-- The same automation does the same to the same at the same times. -/
structure Same (e e' : Effect) : Prop where
  automation : e.automationId = e'.automationId
  capability : e.capability = e'.capability
  actionClass : e.actionClass = e'.actionClass
  targets : e.targets.Perm e'.targets
  arguments : e.arguments.json.sortKeys = e'.arguments.json.sortKeys
  schedule : e.schedule = e'.schedule

theorem sorted_same {ts us : List String} :
    ts.insertionSort (· ≤ ·) = us.insertionSort (· ≤ ·) ↔ ts.Perm us := by
  constructor
  · intro h
    exact (List.perm_insertionSort (· ≤ ·) ts).symm.trans (h ▸ List.perm_insertionSort (· ≤ ·) us)
  · intro h
    refine List.Perm.eq_of_pairwise' (r := (· ≤ ·)) (List.pairwise_insertionSort ..)
      (List.pairwise_insertionSort ..) ?_
    exact (List.perm_insertionSort ..).trans (h.trans (List.perm_insertionSort ..).symm)

theorem json_same {e e' : Effect} : e.json = e'.json ↔ e.Same e' := by
  constructor
  · intro h
    simp only [json, Json.field, Json.obj.injEq, List.cons.injEq, Prod.mk.injEq, true_and,
      and_true, Json.arr.injEq] at h
    obtain ⟨hclass, hargs, hid, hcap, hschedule, htargets⟩ := h
    exact {
      automation := text_injective (Json.str.inj hid)
      capability := text_injective (Json.str.inj hcap)
      actionClass := class_value (text_injective (Json.str.inj hclass))
      targets := Iff.mp sorted_same (Json.strings_injective htargets)
      arguments := hargs
      schedule := ScheduleBinding.json_injective hschedule }
  · rintro ⟨hid, hcap, hclass, htargets, hargs, hschedule⟩
    simp only [json, hid, hcap, hclass, hargs, hschedule, Iff.mpr sorted_same htargets]

/-- The numbers of the arguments are written as JSON writes numbers. -/
def Proper (e : Effect) : Prop := e.arguments.json.Written

theorem numbers_written (ds : List Nat) : Json.WrittenElements (ds.map (fun d : Nat => .int d)) := by
  induction ds with
  | nil => trivial
  | cons d ds ih => exact ⟨trivial, ih⟩

theorem schedule_written (b : ScheduleBinding) : b.json.Written := by
  have hs := Json.spelled_of_string
  have hstring : ∀ s, (Json.string s).Written := hs
  refine Json.written_members.mpr (fun p hp => ?_)
  simp only [List.mem_append, List.mem_map, Option.mem_toList, List.mem_singleton] at hp
  rcases hp with (((⟨n, -, rfl⟩ | rfl) | ⟨u, -, rfl⟩) | ⟨ds, -, rfl⟩) | rfl
  · exact ⟨hs _, trivial⟩
  · exact ⟨hs _, hstring _⟩
  · exact ⟨hs _, hstring _⟩
  · exact ⟨hs _, numbers_written ds⟩
  · exact ⟨hs _, hstring _⟩

theorem json_written {e : Effect} (h : e.Proper) : e.json.Written :=
  ⟨Json.spelled_of_string _, Json.spelled_of_string _, Json.spelled_of_string _, h.sorted,
    Json.spelled_of_string _, Json.spelled_of_string _, Json.spelled_of_string _,
    Json.spelled_of_string _, Json.spelled_of_string _, schedule_written _,
    Json.spelled_of_string _, (Json.plain_strings _).written, Json.spelled_of_string _, trivial,
    trivial⟩

/-- Without a collision, effects have the same digest iff they are the same. -/
theorem digest_same {e e' : Effect} (he : e.Proper) (he' : e'.Proper)
    (hsha : sha256 e.bytes = sha256 e'.bytes → e.bytes = e'.bytes) :
    e.digest = e'.digest ↔ e.Same e' := by
  rw [← json_same]
  constructor
  · intro h
    have hbytes := hsha (to_hex_injective h)
    have htext := encode_utf8_injective (List.cons.inj (List.append_cancel_left hbytes)).2
    exact Json.written_injective (json_written he) (json_written he') (String.ofList_injective htext)
  · intro h
    rw [digest, bytes, h]
    rfl

end Effect

/-! ### Grants -/

/-- `Preauthorization`. -/
structure Preauthorization where
  preauthId : String
  automationId : String
  capability : String
  actionClass : String
  targets : List String
  digest : String
  revision : Nat
  createdAt : Rat
  createdOrigin : String
  createdPrincipal : String
  enabled : Bool := true
  revokedAt : Option Rat := none
  revokedReason : String := ""

instance : Keyed Preauthorization String := ⟨Preauthorization.automationId⟩

namespace Preauthorization

def active (g : Preauthorization) : Bool := g.enabled && g.revokedAt.isNone

/-- What `revoke_preauth` writes into a row that is not revoked. -/
def revoke (reason : String) (now : Rat) (g : Preauthorization) : Preauthorization :=
  if g.revokedAt = none then
    { g with enabled := false, revokedAt := some now, revokedReason := prefixOf reason 200 }
  else g

@[simp] theorem revoke_key (reason : String) (now : Rat) (g : Preauthorization) :
    (g.revoke reason now).automationId = g.automationId := by
  unfold revoke
  split <;> rfl

theorem revoke_inactive (reason : String) (now : Rat) (g : Preauthorization) :
    (g.revoke reason now).active = false := by
  unfold revoke active
  split
  · rfl
  · rename_i h
    cases hr : g.revokedAt with
    | none => exact absurd hr h
    | some t => simp

end Preauthorization

inductive PreauthError where
  | classNotEligible | incompleteBinding | noResolvedTarget | noPreauthorization
  | preauthorizationRevoked | automationMismatch | capabilityMismatch | effectReclassified
  | bindingMismatch
deriving DecidableEq

/-- `ELIGIBLE_CLASS`. -/
def eligibleClass : ActionClass := .haNormal

/-- Where a grant comes from. -/
structure Granter where
  origin : String
  principal : String
  revision : Nat
  now : Rat

/-- `mint`. -/
def mint (e : Effect) (by_ : Granter) : Except PreauthError Preauthorization :=
  if e.actionClass ≠ eligibleClass then .error .classNotEligible
  else if e.automationId = "" ∨ e.capability = "" then .error .incompleteBinding
  else
    let resolved := (e.targets.filter (fun t => stripped t ≠ "")).insertionSort (· ≤ ·)
    if resolved = [] then .error .noResolvedTarget
    else
      let digest := { e with targets := resolved }.digest
      .ok {
        preauthId := "pa-" ++ prefixOf (toHex (sha256 (encodeUtf8 (e.automationId ++ "|" ++
          toString by_.revision ++ "|" ++ digest)))) 20
        automationId := e.automationId
        capability := e.capability
        actionClass := e.actionClass.value
        targets := resolved
        digest := digest
        revision := by_.revision
        createdAt := by_.now
        createdOrigin := by_.origin
        createdPrincipal := by_.principal }

/-- `verify`. -/
def verify (stored : Option Preauthorization) (e : Effect) : Except PreauthError String :=
  match stored with
  | none => .error .noPreauthorization
  | some g =>
    if g.active = false then .error .preauthorizationRevoked
    else if g.automationId ≠ e.automationId then .error .automationMismatch
    else if g.capability ≠ e.capability then .error .capabilityMismatch
    else if g.actionClass ≠ eligibleClass.value then .error .classNotEligible
    else if e.actionClass ≠ eligibleClass then .error .effectReclassified
    else if e.digest ≠ g.digest then .error .bindingMismatch
    else .ok g.preauthId

theorem verify_ok {stored : Option Preauthorization} {e : Effect} {id : String}
    (h : verify stored e = .ok id) : ∃ g, stored = some g ∧ g.active = true ∧
      g.automationId = e.automationId ∧ g.capability = e.capability ∧
      e.actionClass = eligibleClass ∧ g.digest = e.digest ∧ id = g.preauthId := by
  unfold verify at h
  split at h
  · cases h
  · rename_i g
    split at h
    · cases h
    · rename_i hactive
      split at h
      · cases h
      · rename_i hid
        split at h
        · cases h
        · rename_i hcap
          split at h
          · cases h
          · split at h
            · cases h
            · rename_i hclass
              split at h
              · cases h
              · rename_i hdigest
                cases h
                exact ⟨g, rfl, by simpa using hactive, not_not.mp hid, not_not.mp hcap,
                  not_not.mp hclass, (not_not.mp hdigest).symm, rfl⟩

theorem mint_ok {e : Effect} {by_ : Granter} {g : Preauthorization} (h : mint e by_ = .ok g) :
    g.automationId = e.automationId ∧ g.capability = e.capability ∧ g.createdOrigin = by_.origin ∧
      e.actionClass = eligibleClass ∧ g.active = true ∧ g.targets ≠ [] ∧
      g.digest = { e with targets := g.targets }.digest := by
  unfold mint at h
  split at h
  · cases h
  · rename_i hclass
    split at h
    · cases h
    · dsimp only at h
      split at h
      · cases h
      · rename_i hresolved
        cases h
        exact ⟨rfl, rfl, rfl, not_not.mp hclass, rfl, hresolved, rfl⟩

end Solvio.Capabilities
