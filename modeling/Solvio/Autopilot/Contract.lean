import Solvio.Lib.JsonLoads
import Solvio.Lib.Raises
import Solvio.Lib.Texts

namespace Solvio.Autopilot
open Solvio.Lib

/-! ### The milestone contract -/

inductive EvidenceType where
  | deterministic
  | reviewSupported
deriving DecidableEq

namespace EvidenceType

def all : List EvidenceType := [deterministic, reviewSupported]

def value : EvidenceType → String
  | deterministic => "DETERMINISTIC"
  | reviewSupported => "REVIEW_SUPPORTED"

def ofValue? (s : Text) : Option EvidenceType := all.find? (fun t => Text.ofString t.value = s)

theorem of_value (t : EvidenceType) : ofValue? (Text.ofString t.value) = some t := by
  cases t <;> decide

end EvidenceType

/-- `RELEASE_AUTHORITIES`. -/
inductive ReleaseAuthority where
  | owner
deriving DecidableEq

namespace ReleaseAuthority

def value : ReleaseAuthority → String
  | owner => "owner"

def ofValue? (s : Text) : Option ReleaseAuthority :=
  if Text.ofString owner.value = s then some owner else none

end ReleaseAuthority

/-- `NEVER_PERMITTED`. -/
def neverPermitted : List Text :=
  ["merge_to_main", "push_remote", "deploy", "restart_service", "production_checkout",
    "migrate_database", "rotate_credential", "modify_contract", "grant_authority",
    "disable_gate"].map Text.ofString

def maxText : Nat := 4000
def maxItem : Nat := 400
def maxItems : Nat := 40
def maxCriteria : Nat := 30

/-- What Python reads out of tables: the code points that `\d` matches, and the
numbers that are zero. -/
structure ContractTables where
  digit : Nat → Bool
  zero : List Char → Bool

/-- A `$` also matches in front of a final line break. -/
def beforeLineEnd (s : Text) : Text := if s.getLast? = some 10 then s.dropLast else s

def isIdEdge (n : Nat) : Bool := (97 ≤ n && n ≤ 122) || (48 ≤ n && n ≤ 57)

/-- `_ID`. -/
def isId (s : Text) : Bool :=
  let id := beforeLineEnd s
  decide (3 ≤ id.length ∧ id.length ≤ 64) && id.head?.any isIdEdge &&
    id.all (fun n => isIdEdge n || n = 45)

/-- `_VERSION`. -/
def isVersion (T : ContractTables) (s : Text) : Bool :=
  match (beforeLineEnd s).splitOn 46 with
  | [a, b, c] => [a, b, c].all (fun ds => !ds.isEmpty && ds.all T.digit)
  | _ => false

structure ContractError where
  reason : String
  detail : Text := []
deriving DecidableEq

structure AcceptanceCriterion where
  key : Text
  text : Text
  evidenceType : EvidenceType
deriving DecidableEq

structure Contract where
  milestoneId : Text
  version : Text
  objective : Text
  acceptanceCriteria : List AcceptanceCriterion
  nonGoals : List Text
  architectureBoundaries : List Text
  securityBoundaries : List Text
  permittedActions : List Text
  forbiddenActions : List Text
  releaseAuthority : ReleaseAuthority
  humanBoundaries : List Text
  evidenceRequirements : List Text
  repository : Text
deriving DecidableEq

def AcceptanceCriterion.asDict (c : AcceptanceCriterion) : Json := .obj
  [Json.field "key" (.str c.key),
   Json.field "text" (.str c.text),
   Json.field "evidence_type" (Json.string c.evidenceType.value)]

namespace Contract

def texts (xs : List Text) : Json := .arr (xs.map .str)

/-- `as_dict`. -/
def asDict (c : Contract) : Json := .obj
  [Json.field "milestone_id" (.str c.milestoneId),
   Json.field "version" (.str c.version),
   Json.field "objective" (.str c.objective),
   Json.field "acceptance_criteria" (.arr (c.acceptanceCriteria.map AcceptanceCriterion.asDict)),
   Json.field "non_goals" (texts c.nonGoals),
   Json.field "architecture_boundaries" (texts c.architectureBoundaries),
   Json.field "security_boundaries" (texts c.securityBoundaries),
   Json.field "permitted_actions" (texts c.permittedActions),
   Json.field "forbidden_actions" (texts c.forbiddenActions),
   Json.field "release_authority" (Json.string c.releaseAuthority.value),
   Json.field "human_boundaries" (texts c.humanBoundaries),
   Json.field "evidence_requirements" (texts c.evidenceRequirements),
   Json.field "repository" (.str c.repository)]

/-- Every text of a contract. -/
def allTexts (c : Contract) : List Text :=
  [c.milestoneId, c.version, c.objective, c.repository] ++
    c.acceptanceCriteria.flatMap (fun k => [k.key, k.text]) ++ c.nonGoals ++
    c.architectureBoundaries ++ c.securityBoundaries ++ c.permittedActions ++ c.forbiddenActions ++
    c.humanBoundaries ++ c.evidenceRequirements

/-- No text of the contract has a lone surrogate. -/
def Encodable (c : Contract) : Prop := ∀ s ∈ c.allTexts, ∀ n ∈ s, n.isValidChar

instance (c : Contract) : Decidable c.Encodable :=
  inferInstanceAs (Decidable (∀ s ∈ c.allTexts, ∀ n ∈ s, n.isValidChar))

/-- `canonical_json`, if it has a UTF-8 encoding: a lone surrogate has none. -/
def canonicalJson (c : Contract) : Option String :=
  if c.Encodable then some (String.ofList (Json.render (Json.sortKeys c.asDict))) else none

/-- `digest`; `none` is the `UnicodeEncodeError`. -/
def digest (c : Contract) : Option String :=
  c.canonicalJson.map (fun s => "sha256:" ++ toHex (sha256 (encodeUtf8 s)))

/-! ### Reading -/

/-- `raw.get(key)`. -/
def get (raw : Json) (key : String) : Json := (raw.get? key).getD .null

def checkedText (wert : Text) (feld : String) (deckel : Nat) (pflicht : Bool) :
    Except ContractError Text :=
  if pflicht ∧ wert = [] then .error ⟨"field_empty", Text.ofString feld⟩
  else if wert.length > deckel then
    .error ⟨"field_too_long", Text.ofString s!"{feld} ({wert.length}>{deckel})"⟩
  else .ok wert

/-- `_text`. -/
def text (raw : Json) (feld : String) (deckel : Nat) (pflicht : Bool) :
    Except ContractError Text :=
  match raw with
  | .null => checkedText (Text.strip []) feld deckel pflicht
  | .str s => checkedText s.strip feld deckel pflicht
  | _ => .error ⟨"field_not_text", Text.ofString feld⟩

/-- `_liste`. -/
def liste (raw : Json) (feld : String) : Except ContractError (List Text) :=
  match raw with
  | .null => .ok []
  | .arr xs =>
    if xs.length > maxItems then
      .error ⟨"list_too_long", Text.ofString s!"{feld} ({xs.length}>{maxItems})"⟩
    else xs.mapM (fun item => text item (feld ++ "[]") maxItem true)
  | _ => .error ⟨"field_not_list", Text.ofString feld⟩

/-- One criterion, next to the keys that were seen. -/
def criterion (kvs : List (Text × Json)) (gesehen : List Text) :
    Except ContractError AcceptanceCriterion := do
  let key ← text (get (.obj kvs) "key") "criterion.key" maxItem true
  raiseIf (key ∈ gesehen) ⟨"duplicate_criterion_key", key⟩
  let art ← text (get (.obj kvs) "evidence_type") "criterion.evidence_type" maxItem true
  match EvidenceType.ofValue? art with
  | none => throw ⟨"unknown_evidence_type", art⟩
  | some evidenceType =>
    return ⟨key, ← text (get (.obj kvs) "text") "criterion.text" maxItem true, evidenceType⟩

/-- The criteria in their order. -/
def criteria : List Json → List Text → Except ContractError (List AcceptanceCriterion)
  | [], _ => .ok []
  | .obj kvs :: rest, gesehen => do
    let c ← criterion kvs gesehen
    return c :: (← criteria rest (c.key :: gesehen))
  | _ :: _, _ => .error ⟨"criterion_not_an_object", []⟩

def kriterien (raw : Json) : Except ContractError (List AcceptanceCriterion) :=
  match get raw "acceptance_criteria" with
  | .arr (x :: xs) => do
    raiseIf ((x :: xs).length > maxCriteria)
      ⟨"too_many_criteria", Text.ofString (toString (x :: xs).length)⟩
    criteria (x :: xs) []
  | _ => .error ⟨"no_acceptance_criteria", []⟩

/-- Whether Python takes a value for true. -/
def truthy (T : ContractTables) : Json → Bool
  | .null => false
  | .bool b => b
  | .int n => n ≠ 0
  | .float lexeme => !T.zero lexeme
  | .str s => !s.isEmpty
  | .arr xs => !xs.isEmpty
  | .obj kvs => !kvs.isEmpty

/-- `", ".join(sorted(set(..)))`. -/
def joined (xs : List Text) : Text :=
  (Text.ofString ", ").intercalate (xs.dedup.insertionSort (· ≤ ·))

def autoritaet (T : ContractTables) (raw : Json) : Except ContractError ReleaseAuthority := do
  let roh := get raw "release_authority"
  let wert ← text (if truthy T roh then roh else Json.string ReleaseAuthority.owner.value)
    "release_authority" maxItem true
  match ReleaseAuthority.ofValue? wert with
  | none => throw ⟨"bad_release_authority", wert⟩
  | some a => return a

/-- What is permitted and what is forbidden. -/
def handlungen (raw : Json) : Except ContractError (List Text × List Text) := do
  let erlaubt ← liste (get raw "permitted_actions") "permitted_actions"
  let verboten ← liste (get raw "forbidden_actions") "forbidden_actions"
  let verletzt := erlaubt.filter (· ∈ neverPermitted)
  raiseIf (verletzt ≠ []) ⟨"permits_forbidden_action", joined verletzt⟩
  let doppelt := erlaubt.filter (· ∈ verboten)
  raiseIf (doppelt ≠ []) ⟨"action_both_permitted_and_forbidden", joined doppelt⟩
  return (erlaubt, verboten)

/-- `parse`. -/
def parse (T : ContractTables) (raw : Json) : Except ContractError Contract :=
  match raw with
  | .obj _ => do
    let milestoneId ← text (get raw "milestone_id") "milestone_id" maxItem true
    raiseIf (isId milestoneId = false) ⟨"bad_milestone_id", milestoneId.take 40⟩
    let version ← text (get raw "version") "version" maxItem true
    raiseIf (isVersion T version = false) ⟨"bad_version", version.take 20⟩
    let acceptanceCriteria ← kriterien raw
    let releaseAuthority ← autoritaet T raw
    let (erlaubt, verboten) ← handlungen raw
    return { milestoneId := milestoneId, version := version
             acceptanceCriteria := acceptanceCriteria, releaseAuthority := releaseAuthority
             permittedActions := erlaubt, forbiddenActions := verboten
             objective := ← text (get raw "objective") "objective" maxText true
             nonGoals := ← liste (get raw "non_goals") "non_goals"
             architectureBoundaries :=
              ← liste (get raw "architecture_boundaries") "architecture_boundaries"
             securityBoundaries := ← liste (get raw "security_boundaries") "security_boundaries"
             humanBoundaries := ← liste (get raw "human_boundaries") "human_boundaries"
             evidenceRequirements :=
              ← liste (get raw "evidence_requirements") "evidence_requirements"
             repository := ← text (get raw "repository") "repository" maxItem false }
  | _ => .error ⟨"not_an_object", []⟩

/-- `differs`, of which the empty text is `same`; `none` is the `UnicodeEncodeError`. -/
def differs (T : ContractTables) (canonical : Contract) (proposal : Json) : Option String :=
  match parse T proposal with
  | .error e => some ("invalid_proposal:" ++ e.reason)
  | .ok andere => do
    let new ← andere.digest
    let old ← canonical.digest
    if new = old then return ""
    else if andere.milestoneId ≠ canonical.milestoneId then return "different_milestone"
    else if andere.version = canonical.version then return "same_version_different_content"
    else return "new_version_proposed"

/-! ### What a contract that was read is made of -/

/-- A text that is read as it stands. -/
structure Clean (deckel : Nat) (pflicht : Bool) (s : Text) : Prop where
  stripped : s.strip = s
  full : pflicht = true → s ≠ []
  short : s.length ≤ deckel

theorem checked_ok {wert s : Text} {feld : String} {deckel : Nat} {pflicht : Bool}
    (hw : wert.strip = wert) : checkedText wert feld deckel pflicht = .ok s ↔
      s = wert ∧ Clean deckel pflicht s := by
  unfold checkedText
  split
  · rename_i h
    simp only [reduceCtorEq, false_iff, not_and]
    rintro rfl hc
    exact hc.full h.1 h.2
  · rename_i hfull
    split
    · rename_i h
      simp only [reduceCtorEq, false_iff, not_and]
      rintro rfl hc
      exact absurd hc.short (Nat.not_le.mpr h)
    · rename_i h
      simp only [Except.ok.injEq]
      constructor
      · rintro rfl
        exact ⟨rfl, hw, fun hp he => hfull ⟨hp, he⟩, Nat.not_lt.mp h⟩
      · rintro ⟨rfl, -⟩
        rfl

theorem text_ok {raw : Json} {feld : String} {deckel : Nat} {pflicht : Bool} {s : Text}
    (h : text raw feld deckel pflicht = .ok s) : Clean deckel pflicht s := by
  unfold text at h
  split at h
  · exact ((checked_ok (Text.strip_idem _)).mp h).2
  · exact ((checked_ok (Text.strip_idem _)).mp h).2
  · cases h

theorem text_clean {feld : String} {deckel : Nat} {pflicht : Bool} {s : Text}
    (h : Clean deckel pflicht s) : text (.str s) feld deckel pflicht = .ok s := by
  rw [text, h.stripped, checked_ok h.stripped]
  exact ⟨rfl, h⟩

theorem liste_ok {raw : Json} {feld : String} {xs : List Text} (h : liste raw feld = .ok xs) :
    xs.length ≤ maxItems ∧ ∀ x ∈ xs, Clean maxItem true x := by
  unfold liste at h
  split at h
  · obtain rfl := Except.ok.inj h
    exact ⟨Nat.zero_le _, by simp⟩
  · split at h
    · cases h
    · rename_i items hlen
      have hall := map_m_ok.mp h
      refine ⟨hall.length_eq ▸ Nat.not_lt.mp hlen, fun x hx => ?_⟩
      obtain ⟨i, hi, rfl⟩ := List.getElem_of_mem hx
      exact text_ok (hall.get (by rw [hall.length_eq]; exact hi) hi)
  · cases h

theorem liste_clean {feld : String} {xs : List Text} (hlen : xs.length ≤ maxItems)
    (h : ∀ x ∈ xs, Clean maxItem true x) : liste (texts xs) feld = .ok xs := by
  rw [texts, liste, if_neg (by rw [List.length_map]; exact Nat.not_lt.mpr hlen), map_m_ok]
  clear hlen
  induction xs with
  | nil => exact .nil
  | cons x xs ih =>
    exact .cons (text_clean (h x (List.mem_cons_self ..)))
      (ih (fun y hy => h y (List.mem_cons_of_mem _ hy)))

/-- A criterion that is read as it stands. -/
def CleanCriterion (c : AcceptanceCriterion) : Prop :=
  Clean maxItem true c.key ∧ Clean maxItem true c.text

theorem criterion_ok {kvs : List (Text × Json)} {gesehen : List Text} {c : AcceptanceCriterion}
    (h : criterion kvs gesehen = .ok c) : CleanCriterion c ∧ c.key ∉ gesehen := by
  simp only [criterion, bind_ok, raise_if_ok] at h
  obtain ⟨key, hkey, _, hnew, art, -, h⟩ := h
  split at h
  · simp [throw_ok] at h
  · simp only [bind_ok, pure_ok] at h
    obtain ⟨wort, hwort, rfl⟩ := h
    exact ⟨⟨text_ok hkey, text_ok hwort⟩, hnew⟩

/-- A dictionary that says what a criterion says. -/
structure Tells (kvs : List (Text × Json)) (c : AcceptanceCriterion) : Prop where
  key : get (.obj kvs) "key" = .str c.key
  text : get (.obj kvs) "text" = .str c.text
  evidenceType : get (.obj kvs) "evidence_type" = Json.string c.evidenceType.value

theorem evidence_clean (t : EvidenceType) : Clean maxItem true (Text.ofString t.value) := by
  cases t <;> exact ⟨by decide, by decide, by decide⟩

theorem criterion_tells {kvs : List (Text × Json)} {gesehen : List Text} {c : AcceptanceCriterion}
    (h : Tells kvs c) (hc : CleanCriterion c) (hnew : c.key ∉ gesehen) :
    criterion kvs gesehen = .ok c := by
  simp only [criterion, h.key, h.text, h.evidenceType, text_clean hc.1, text_clean hc.2,
    Json.string, text_clean (evidence_clean c.evidenceType), EvidenceType.of_value, raiseIf,
    if_neg hnew, bind, Except.bind]
  rfl

theorem criteria_ok {es : List Json} {gesehen : List Text} {cs : List AcceptanceCriterion}
    (h : criteria es gesehen = .ok cs) : cs.length = es.length ∧ (∀ c ∈ cs, CleanCriterion c) ∧
      (cs.map (·.key)).Nodup ∧ ∀ c ∈ cs, c.key ∉ gesehen := by
  induction es generalizing gesehen cs with
  | nil =>
    obtain rfl := Except.ok.inj h
    simp
  | cons e es ih =>
    cases e with
    | obj kvs =>
      simp only [criteria, bind_ok, pure_ok] at h
      obtain ⟨c, hc, rest, hrest, rfl⟩ := h
      obtain ⟨hclean, hnew⟩ := criterion_ok hc
      obtain ⟨hlen, hall, hnodup, hfresh⟩ := ih hrest
      refine ⟨by simp [hlen], ?_, ?_, ?_⟩
      · intro d hd
        rcases List.mem_cons.mp hd with rfl | hd
        · exact hclean
        · exact hall d hd
      · rw [List.map_cons, List.nodup_cons]
        refine ⟨fun hm => ?_, hnodup⟩
        obtain ⟨d, hd, he⟩ := List.mem_map.mp hm
        exact hfresh d hd (he ▸ List.mem_cons_self ..)
      · intro d hd
        rcases List.mem_cons.mp hd with rfl | hd
        · exact hnew
        · exact fun hm => hfresh d hd (List.mem_cons_of_mem _ hm)
    | _ => cases h

theorem criteria_told {f : AcceptanceCriterion → List (Text × Json)} (hf : ∀ c, Tells (f c) c)
    {cs : List AcceptanceCriterion} (gesehen : List Text) (hclean : ∀ c ∈ cs, CleanCriterion c)
    (hnodup : (cs.map (·.key)).Nodup) (hfresh : ∀ c ∈ cs, c.key ∉ gesehen) :
    criteria (cs.map (fun c => .obj (f c))) gesehen = .ok cs := by
  induction cs generalizing gesehen with
  | nil => rfl
  | cons c cs ih =>
    rw [List.map_cons, List.nodup_cons] at hnodup
    have hc := criterion_tells (hf c) (hclean c (List.mem_cons_self ..))
      (hfresh c (List.mem_cons_self ..))
    have hrest := ih (c.key :: gesehen)
      (fun d hd => hclean d (List.mem_cons_of_mem _ hd)) hnodup.2 (fun d hd hm => ?_)
    · simp only [List.map_cons, criteria, hc, hrest, bind, Except.bind]
      rfl
    · rcases List.mem_cons.mp hm with he | hm
      · exact hnodup.1 (he ▸ List.mem_map_of_mem hd)
      · exact hfresh d (List.mem_cons_of_mem _ hd) hm

/-- A contract that `parse` has let through. -/
structure Sound (T : ContractTables) (c : Contract) : Prop where
  milestoneId : Clean maxItem true c.milestoneId
  idForm : isId c.milestoneId = true
  version : Clean maxItem true c.version
  versionForm : isVersion T c.version = true
  criteria : ∀ k ∈ c.acceptanceCriteria, CleanCriterion k
  someCriterion : c.acceptanceCriteria ≠ []
  fewCriteria : c.acceptanceCriteria.length ≤ maxCriteria
  criterionKeys : (c.acceptanceCriteria.map (·.key)).Nodup
  objective : Clean maxText true c.objective
  repository : Clean maxItem false c.repository
  lists : ∀ xs ∈ [c.nonGoals, c.architectureBoundaries, c.securityBoundaries, c.permittedActions,
    c.forbiddenActions, c.humanBoundaries, c.evidenceRequirements],
    xs.length ≤ maxItems ∧ ∀ x ∈ xs, Clean maxItem true x
  permitted : c.permittedActions.filter (· ∈ neverPermitted) = []
  disjoint : c.permittedActions.filter (· ∈ c.forbiddenActions) = []

theorem kriterien_ok {raw : Json} {cs : List AcceptanceCriterion} (h : kriterien raw = .ok cs) :
    cs ≠ [] ∧ cs.length ≤ maxCriteria ∧ (∀ c ∈ cs, CleanCriterion c) ∧
      (cs.map (·.key)).Nodup := by
  unfold kriterien at h
  split at h
  · rename_i x xs _
    simp only [bind_ok, raise_if_ok] at h
    obtain ⟨_, hfew, h⟩ := h
    obtain ⟨hlen, hall, hnodup, -⟩ := criteria_ok h
    refine ⟨?_, hlen ▸ Nat.not_lt.mp hfew, hall, hnodup⟩
    rintro rfl
    simp at hlen
  · cases h

theorem handlungen_ok {raw : Json} {erlaubt verboten : List Text}
    (h : handlungen raw = .ok (erlaubt, verboten)) :
    (∀ xs ∈ [erlaubt, verboten], xs.length ≤ maxItems ∧ ∀ x ∈ xs, Clean maxItem true x) ∧
      erlaubt.filter (· ∈ neverPermitted) = [] ∧ erlaubt.filter (· ∈ verboten) = [] := by
  simp only [handlungen, bind_ok, raise_if_ok, pure_ok, ne_eq, not_not, Prod.mk.injEq] at h
  obtain ⟨e, he, v, hv, _, hnever, _, hboth, rfl, rfl⟩ := h
  refine ⟨?_, hnever, hboth⟩
  simp only [List.mem_cons, List.not_mem_nil, or_false, forall_eq_or_imp, forall_eq]
  exact ⟨liste_ok he, liste_ok hv⟩

theorem parse_sound {T : ContractTables} {raw : Json} {c : Contract} (h : parse T raw = .ok c) :
    c.Sound T := by
  unfold parse at h
  split at h
  · simp only [bind_ok, raise_if_ok, pure_ok] at h
    obtain ⟨id, hid, _, hform, version, hversion, _, hvform, cs, hcs, authority, -, ⟨e, v⟩, hacts,
      objective, hobjective, ng, hng, ab, hab, sb, hsb, hb, hhb, er, her, repository, hrepo, rfl⟩ := h
    obtain ⟨hsome, hfew, hall, hnodup⟩ := kriterien_ok hcs
    obtain ⟨hlists, hnever, hboth⟩ := handlungen_ok hacts
    simp only [List.mem_cons, List.not_mem_nil, or_false, forall_eq_or_imp, forall_eq] at hlists
    refine ⟨text_ok hid, by simpa using hform, text_ok hversion, by simpa using hvform, hall, hsome,
      hfew, hnodup, text_ok hobjective, text_ok hrepo, ?_, hnever, hboth⟩
    simp only [List.mem_cons, List.not_mem_nil, or_false, forall_eq_or_imp, forall_eq]
    exact ⟨liste_ok hng, liste_ok hab, liste_ok hsb, hlists.1, hlists.2, liste_ok hhb, liste_ok her⟩
  · cases h

/-! ### What is read from the form of a contract -/

/-- A dictionary that says what a contract says, with the criteria as `f` writes them. -/
structure Says (f : AcceptanceCriterion → List (Text × Json)) (raw : Json) (c : Contract) :
    Prop where
  milestoneId : get raw "milestone_id" = .str c.milestoneId
  version : get raw "version" = .str c.version
  objective : get raw "objective" = .str c.objective
  acceptanceCriteria : get raw "acceptance_criteria" =
    .arr (c.acceptanceCriteria.map (fun k => .obj (f k)))
  nonGoals : get raw "non_goals" = texts c.nonGoals
  architectureBoundaries : get raw "architecture_boundaries" = texts c.architectureBoundaries
  securityBoundaries : get raw "security_boundaries" = texts c.securityBoundaries
  permittedActions : get raw "permitted_actions" = texts c.permittedActions
  forbiddenActions : get raw "forbidden_actions" = texts c.forbiddenActions
  releaseAuthority : get raw "release_authority" = Json.string c.releaseAuthority.value
  humanBoundaries : get raw "human_boundaries" = texts c.humanBoundaries
  evidenceRequirements : get raw "evidence_requirements" = texts c.evidenceRequirements
  repository : get raw "repository" = .str c.repository

section read
variable {T : ContractTables} {f : AcceptanceCriterion → List (Text × Json)} {raw : Json}
  {c : Contract}

theorem kriterien_told (hf : ∀ k, Tells (f k) k) (h : Says f raw c) (hc : c.Sound T) :
    kriterien raw = .ok c.acceptanceCriteria := by
  have hread := criteria_told hf [] hc.criteria hc.criterionKeys (by simp)
  have hfew := hc.fewCriteria
  obtain ⟨k, ks, hks⟩ := List.exists_cons_of_ne_nil hc.someCriterion
  simp only [kriterien, h.acceptanceCriteria]
  rw [hks] at hread hfew ⊢
  rw [List.map_cons] at hread ⊢
  have hlen : ¬ (Json.obj (f k) :: ks.map (fun k => Json.obj (f k))).length > maxCriteria := by
    rw [List.length_cons, List.length_map]
    exact Nat.not_lt.mpr hfew
  simp only [raiseIf, if_neg hlen, bind, Except.bind, hread]

theorem autoritaet_told (h : Says f raw c) : autoritaet T raw = .ok c.releaseAuthority := by
  simp only [autoritaet, h.releaseAuthority]
  cases c.releaseAuthority
  rfl

theorem handlungen_told (h : Says f raw c) (hc : c.Sound T) :
    handlungen raw = .ok (c.permittedActions, c.forbiddenActions) := by
  obtain ⟨hplen, hpclean⟩ := hc.lists c.permittedActions (by simp)
  obtain ⟨hflen, hfclean⟩ := hc.lists c.forbiddenActions (by simp)
  simp only [handlungen, h.permittedActions, h.forbiddenActions, liste_clean hplen hpclean,
    liste_clean hflen hfclean, raiseIf, hc.permitted, hc.disjoint, ne_eq, not_true_eq_false,
    if_false, bind, Except.bind]
  rfl

/-- What says the same as a sound contract is read as that contract. -/
theorem parse_told {kvs : List (Text × Json)} (hf : ∀ k, Tells (f k) k)
    (h : Says f (.obj kvs) c) (hc : c.Sound T) : parse T (.obj kvs) = .ok c := by
  have hlist : ∀ xs ∈ [c.nonGoals, c.architectureBoundaries, c.securityBoundaries,
      c.permittedActions, c.forbiddenActions, c.humanBoundaries, c.evidenceRequirements],
      ∀ feld, liste (texts xs) feld = .ok xs := fun xs hxs feld =>
    liste_clean (hc.lists xs hxs).1 (hc.lists xs hxs).2
  simp only [List.mem_cons, List.not_mem_nil, or_false, forall_eq_or_imp, forall_eq] at hlist
  obtain ⟨hng, hab, hsb, -, -, hhb, her⟩ := hlist
  simp only [parse, h.milestoneId, h.version, h.objective, h.nonGoals, h.architectureBoundaries,
    h.securityBoundaries, h.humanBoundaries, h.evidenceRequirements, h.repository,
    text_clean hc.milestoneId, text_clean hc.version, text_clean hc.objective,
    text_clean hc.repository, kriterien_told hf h hc, autoritaet_told h, handlungen_told h hc,
    hng, hab, hsb, hhb, her, raiseIf, hc.idForm, hc.versionForm, Bool.true_eq_false, if_false,
    bind, Except.bind]
  rfl

end read

def criterionFields (k : AcceptanceCriterion) : List (Text × Json) :=
  [Json.field "key" (.str k.key),
   Json.field "text" (.str k.text),
   Json.field "evidence_type" (Json.string k.evidenceType.value)]

/-- The pairs of a criterion by their keys. -/
def sortedCriterion (k : AcceptanceCriterion) : List (Text × Json) :=
  [Json.field "evidence_type" (Json.string k.evidenceType.value),
   Json.field "key" (.str k.key),
   Json.field "text" (.str k.text)]

/-- The pairs of a contract by their keys. -/
def sortedFields (c : Contract) : List (Text × Json) :=
  [Json.field "acceptance_criteria"
    (.arr (c.acceptanceCriteria.map (fun k => .obj (sortedCriterion k)))),
   Json.field "architecture_boundaries" (texts c.architectureBoundaries),
   Json.field "evidence_requirements" (texts c.evidenceRequirements),
   Json.field "forbidden_actions" (texts c.forbiddenActions),
   Json.field "human_boundaries" (texts c.humanBoundaries),
   Json.field "milestone_id" (.str c.milestoneId),
   Json.field "non_goals" (texts c.nonGoals),
   Json.field "objective" (.str c.objective),
   Json.field "permitted_actions" (texts c.permittedActions),
   Json.field "release_authority" (Json.string c.releaseAuthority.value),
   Json.field "repository" (.str c.repository),
   Json.field "security_boundaries" (texts c.securityBoundaries),
   Json.field "version" (.str c.version)]

theorem sort_texts (xs : List Text) : Json.sortKeys (texts xs) = texts xs := by
  have hall : ∀ xs : List Text, Json.sortElements (xs.map .str) = xs.map .str := by
    intro xs
    induction xs with
    | nil => rfl
    | cons x xs ih => simp [Json.sortElements, Json.sortKeys, ih]
  rw [texts, Json.sortKeys, hall]

theorem sort_criteria (ks : List AcceptanceCriterion) :
    Json.sortElements (ks.map AcceptanceCriterion.asDict) =
      ks.map (fun k => .obj (sortedCriterion k)) := by
  induction ks with
  | nil => rfl
  | cons k ks ih =>
    rw [List.map_cons, List.map_cons, Json.sortElements, ih]
    rfl

theorem sort_contract (c : Contract) : Json.sortKeys c.asDict = .obj c.sortedFields := by
  simp only [asDict, Json.sortKeys, Json.sortMembers, Json.field, sort_texts, sort_criteria,
    Json.string]
  rfl

theorem tells_fields (k : AcceptanceCriterion) : Tells (criterionFields k) k := ⟨rfl, rfl, rfl⟩

theorem tells_sorted (k : AcceptanceCriterion) : Tells (sortedCriterion k) k := ⟨rfl, rfl, rfl⟩

theorem says_dict (c : Contract) : Says criterionFields c.asDict c :=
  ⟨rfl, rfl, rfl, rfl, rfl, rfl, rfl, rfl, rfl, rfl, rfl, rfl, rfl⟩

theorem says_sorted (c : Contract) : Says sortedCriterion (.obj c.sortedFields) c :=
  ⟨rfl, rfl, rfl, rfl, rfl, rfl, rfl, rfl, rfl, rfl, rfl, rfl, rfl⟩

/-! ### One text, one digest -/

theorem readable_texts {xs : List Text} (h : ∀ x ∈ xs, Json.Spelled x) :
    Json.Readable (texts xs) := by
  rw [texts, Json.Readable]
  induction xs with
  | nil => trivial
  | cons x xs ih =>
    exact ⟨h x (List.mem_cons_self ..), ih (fun y hy => h y (List.mem_cons_of_mem _ hy))⟩

theorem readable_criteria {ks : List AcceptanceCriterion}
    (h : ∀ k ∈ ks, Json.Spelled k.key ∧ Json.Spelled k.text) :
    Json.Readable (.arr (ks.map (fun k => .obj (sortedCriterion k)))) := by
  rw [Json.Readable]
  induction ks with
  | nil => trivial
  | cons k ks ih =>
    obtain ⟨hkey, htext⟩ := h k (List.mem_cons_self ..)
    refine ⟨?_, ih (fun l hl => h l (List.mem_cons_of_mem _ hl))⟩
    exact ⟨Json.spelled_of_string _, Json.spelled_of_string _, Json.spelled_of_string _, hkey,
      Json.spelled_of_string _, htext, trivial⟩

theorem readable_contract {c : Contract} (h : c.Encodable) :
    Json.Readable (.obj c.sortedFields) := by
  have htext : ∀ s ∈ c.allTexts, Json.Spelled s := h
  have hlist : ∀ xs : List Text, xs ⊆ c.allTexts → Json.Readable (texts xs) := fun xs hxs =>
    readable_texts (fun x hx => htext x (hxs hx))
  have hcriteria : ∀ k ∈ c.acceptanceCriteria, Json.Spelled k.key ∧ Json.Spelled k.text := by
    intro k hk
    constructor
    · apply htext
      simp only [allTexts, List.mem_append, List.mem_flatMap]
      exact Or.inl (Or.inl (Or.inl (Or.inl (Or.inl (Or.inl (Or.inl (Or.inr ⟨k, hk, by simp⟩)))))))
    · apply htext
      simp only [allTexts, List.mem_append, List.mem_flatMap]
      exact Or.inl (Or.inl (Or.inl (Or.inl (Or.inl (Or.inl (Or.inl (Or.inr ⟨k, hk, by simp⟩)))))))
  simp only [Json.Readable, sortedFields, Json.ReadableMembers, Json.field,
    Json.spelled_of_string, Json.string, true_and, and_true]
  refine ⟨readable_criteria hcriteria, hlist _ ?_, hlist _ ?_, hlist _ ?_, hlist _ ?_,
    htext _ ?_, hlist _ ?_, htext _ ?_, hlist _ ?_, htext _ ?_, hlist _ ?_, htext _ ?_⟩ <;>
    simp +contextual [allTexts, List.subset_def]

/-- The canonical text of an encodable contract is read back as the contract. -/
theorem canonical_loads {T : ContractTables} {c : Contract} (hc : c.Sound T) (he : c.Encodable) :
    ∃ s, c.canonicalJson = some s ∧ Json.loads s.toList = some (.obj c.sortedFields) ∧
      parse T (.obj c.sortedFields) = .ok c := by
  refine ⟨_, if_pos he, ?_, parse_told tells_sorted (says_sorted c) hc⟩
  rw [String.toList_ofList, sort_contract]
  exact Json.loads_render (readable_contract he)

theorem digest_some {c : Contract} {x : String} (h : c.digest = some x) : c.Encodable := by
  obtain ⟨s, hs, -⟩ := Option.map_eq_some_iff.mp h
  by_contra he
  rw [canonicalJson, if_neg he] at hs
  cases hs

/-- The canonical texts of the contracts have no common hash, unless they are one text. -/
def CollisionFree (c d : Contract) : Prop := ∀ x y, c.canonicalJson = some x →
  d.canonicalJson = some y → sha256 (encodeUtf8 x) = sha256 (encodeUtf8 y) → x = y

theorem digest_injective {T : ContractTables} {c d : Contract} {x : String} (hc : c.Sound T)
    (hd : d.Sound T) (hfree : CollisionFree c d) (hx : c.digest = some x) (hy : d.digest = some x) :
    c = d := by
  obtain ⟨s, hs, hload, hparse⟩ := canonical_loads hc (digest_some hx)
  obtain ⟨t, ht, hload', hparse'⟩ := canonical_loads hd (digest_some hy)
  rw [digest, hs, Option.map_some] at hx
  rw [digest, ht, Option.map_some] at hy
  have hhex : "sha256:" ++ toHex (sha256 (encodeUtf8 s)) =
      "sha256:" ++ toHex (sha256 (encodeUtf8 t)) :=
    (Option.some.inj hx).trans (Option.some.inj hy).symm
  have hlist := congrArg String.toList hhex
  rw [String.toList_append, String.toList_append] at hlist
  have hhash := to_hex_injective (String.toList_injective (List.append_cancel_left hlist))
  obtain rfl := hfree s t hs ht hhash
  rw [Option.some.inj (hload.symm.trans hload')] at hparse
  exact Except.ok.inj (hparse.symm.trans hparse')

/-- The contract is read back from its own form, and its digest tells it from the
other contract. -/
structure Canonical (T : ContractTables) (c d : Contract) (q : Json) : Prop where
  dict : parse T c.asDict = .ok c
  text : ∃ s v, c.canonicalJson = some s ∧ Json.loads s.toList = some v ∧ parse T v = .ok c
  digests : ∃ x y, c.digest = some x ∧ d.digest = some y ∧ (x = y ↔ differs T c q = some "") ∧
    (x = y ↔ c = d)

theorem differs_empty {T : ContractTables} {c d : Contract} {q : Json} {x y : String}
    (hq : parse T q = .ok d) (hx : c.digest = some x) (hy : d.digest = some y) :
    differs T c q = some "" ↔ x = y := by
  simp only [differs, hq, hx, hy, Option.bind_eq_bind, Option.bind_some]
  split
  · rename_i he
    exact ⟨fun _ => he.symm, fun _ => rfl⟩
  · rename_i he
    refine ⟨fun hd => ?_, fun hxy => absurd hxy.symm he⟩
    split at hd
    · simp at hd
    · split at hd <;> simp at hd

/-- Contracts that were read have digests that tell them apart, if both can be encoded. -/
theorem canonical_iff {T : ContractTables} {p q : Json} {c d : Contract} (hp : parse T p = .ok c)
    (hq : parse T q = .ok d) (hfree : CollisionFree c d) :
    Canonical T c d q ↔ c.Encodable ∧ d.Encodable := by
  have hc := parse_sound hp
  have hd := parse_sound hq
  constructor
  · rintro ⟨-, -, x, y, hx, hy, -⟩
    exact ⟨digest_some hx, digest_some hy⟩
  · rintro ⟨hec, hed⟩
    obtain ⟨s, hs, hload, hparse⟩ := canonical_loads hc hec
    obtain ⟨t, ht, -⟩ := canonical_loads hd hed
    obtain ⟨x, hx⟩ : ∃ x, c.digest = some x := ⟨_, by rw [digest, hs, Option.map_some]⟩
    obtain ⟨y, hy⟩ : ∃ y, d.digest = some y := ⟨_, by rw [digest, ht, Option.map_some]⟩
    refine ⟨parse_told tells_fields (says_dict c) hc, ⟨s, _, hs, hload, hparse⟩, _, _, hx, hy,
      (differs_empty hq hx hy).symm, fun hxy => ?_, fun hcd => ?_⟩
    · exact digest_injective hc hd hfree hx (hxy ▸ hy)
    · subst hcd
      exact Option.some.inj (hx.symm.trans hy)

namespace Sample

/-- Tables that know the digits of ASCII. -/
def tables : ContractTables := ⟨fun n => 48 ≤ n ∧ n ≤ 57, fun cs => cs = "0.0".toList⟩

/-- A raw contract with an objective of its own. -/
def raw (objective : Text) : Json := .obj
  [Json.field "version" (.string "1.0.0"),
   Json.field "milestone_id" (.string " ms-1 "),
   Json.field "objective" (.str objective),
   Json.field "acceptance_criteria" (.arr [.obj
    [Json.field "text" (.string "it builds"),
     Json.field "key" (.string "build"),
     Json.field "evidence_type" (.string "DETERMINISTIC")]])]

def contract (objective : Text) : Contract :=
  ⟨Text.ofString "ms-1", Text.ofString "1.0.0", objective,
    [⟨Text.ofString "build", Text.ofString "it builds", .deterministic⟩], [], [], [], [], [], .owner,
    [], [], []⟩

theorem parsed : parse tables (raw (Text.ofString " ship it ")) =
    .ok (contract (Text.ofString "ship it")) := by
  rfl

/-- A lone surrogate is a text, but it has no encoding. -/
theorem surrogate_parsed : parse tables (raw [0xD800]) = .ok (contract [0xD800]) := by
  rfl

end Sample

theorem canonical_iff_sample : Canonical Sample.tables (Sample.contract (Text.ofString "ship it"))
    (Sample.contract (Text.ofString "ship it")) (Sample.raw (Text.ofString " ship it ")) := by
  have hfree : CollisionFree (Sample.contract (Text.ofString "ship it"))
      (Sample.contract (Text.ofString "ship it")) := fun x y hx hy _ =>
    Option.some.inj (hx.symm.trans hy)
  exact (canonical_iff Sample.parsed Sample.parsed hfree).mpr ⟨by decide, by decide⟩

/-- A contract with a lone surrogate is accepted and has no digest. -/
theorem surrogate_without_digest : ¬ ∀ (T : ContractTables) (p q : Json) (c d : Contract),
    parse T p = .ok c → parse T q = .ok d → CollisionFree c d → Canonical T c d q := by
  intro hall
  have hfree : CollisionFree (Sample.contract [0xD800]) (Sample.contract [0xD800]) :=
    fun x y hx hy _ => Option.some.inj (hx.symm.trans hy)
  obtain ⟨-, -, x, y, hx, -⟩ :=
    hall _ _ _ _ _ Sample.surrogate_parsed Sample.surrogate_parsed hfree
  exact absurd (digest_some hx) (by decide)

end Contract

end Solvio.Autopilot
