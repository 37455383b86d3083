import Solvio.Lib.JsonReaders
import Solvio.ProviderBroker.Service

namespace Solvio.ProviderBroker
open Solvio.Lib

def readsAs (raw : Bytes) (v : Json) : Prop :=
  ∃ text, decodeUtf8 raw = some text ∧ Json.loads text.toList = some v

/-- What a receiver of the document takes it to ask for. -/
def AsksAllowed (permitted : List String) (doc : Json) : Prop :=
  ∃ v, doc.get? "model" = some v ∧ (oneOf v permitted).isSome

def ToolsAllowed (allowed : List String) (doc : Json) : Prop :=
  ∀ entries, doc.get? "tools" = some (.arr entries) → ∀ entry ∈ entries,
    ∃ kind, entry.get? "type" = some kind ∧ (oneOf kind ("function" :: allowed)).isSome

/-- The gates hold for the document of every receiver. -/
def Judged (permitted allowed : List String) (body : Json) : Prop :=
  ∀ r : Reader, AsksAllowed permitted (body.read r []) ∧ ToolsAllowed allowed (body.read r [])

/-- The tools that one of the two readings of `tools` shows. -/
def shownTools (w : Wins) (top : List (Text × Json)) : List Json :=
  match w.lookup top (Text.ofString "tools") with
  | some (.arr entries) => entries
  | _ => []

/-- An object whose first and last `type` are both allowed. -/
def plainTool (allowed : List String) : Json → Bool
  | .obj kvs => [Wins.first, Wins.last].all (fun w =>
      ((w.lookup kvs (Text.ofString "type")).bind (oneOf · ("function" :: allowed))).isSome)
  | _ => false

/-- The first and the last `tools` hold plain tools only. -/
def plainTools (allowed : List String) : Json → Bool
  | .obj top => [Wins.first, Wins.last].all (fun w => (shownTools w top).all (plainTool allowed))
  | _ => true

theorem oneOf_str {v : Json} {names : List String} {name : String} (h : oneOf v names = some name) :
    name ∈ names ∧ v = Json.string name := by
  cases v with
  | str s =>
    simp only [oneOf] at h
    have hs := List.find?_some h
    exact ⟨List.mem_of_find?_eq_some h, by rw [Json.string, of_decide_eq_true hs]⟩
  | _ => cases h

theorem oneOf_mem {name : String} {names : List String} (h : name ∈ names) :
    (oneOf (Json.string name) names).isSome := by
  simp only [oneOf, Json.string, List.find?_isSome]
  exact ⟨name, h, by simp⟩

/-- A reader leaves a string as it is. -/
theorem oneOf_read (r : Reader) (path : List Nat) (v : Json) (names : List String) :
    oneOf (v.read r path) names = oneOf v names := by
  cases v <;> rfl

theorem plainTool_iff {allowed : List String} {entry : Json} :
    plainTool allowed entry = true ↔ ∃ kvs, entry = .obj kvs ∧ ∀ w : Wins, ∃ kind,
      w.lookup kvs (Text.ofString "type") = some kind ∧
        (oneOf kind ("function" :: allowed)).isSome := by
  cases entry with
  | obj kvs =>
    simp only [plainTool, List.all_cons, List.all_nil, Bool.and_true, Bool.and_eq_true,
      Option.isSome_bind, Option.any_eq_true]
    constructor
    · rintro ⟨hfirst, hlast⟩
      refine ⟨kvs, rfl, fun w => ?_⟩
      cases w with
      | first => exact hfirst
      | last => exact hlast
    · rintro ⟨kvs', he, h⟩
      cases he
      exact ⟨h .first, h .last⟩
  | _ => simp [plainTool]

theorem plainTools_iff {allowed : List String} {top : List (Text × Json)} :
    plainTools allowed (.obj top) = true ↔ ∀ w : Wins, ∀ entries,
      w.lookup top (Text.ofString "tools") = some (.arr entries) →
        ∀ entry ∈ entries, plainTool allowed entry = true := by
  have hshown : ∀ w : Wins, (shownTools w top).all (plainTool allowed) = true ↔ ∀ entries,
      w.lookup top (Text.ofString "tools") = some (.arr entries) →
        ∀ entry ∈ entries, plainTool allowed entry = true := by
    intro w
    rw [List.all_eq_true]
    constructor
    · intro h entries he entry hm
      exact h entry (by rw [shownTools, he]; exact hm)
    · intro h entry hm
      unfold shownTools at hm
      split at hm
      · rename_i entries he
        exact h entries he entry hm
      · cases hm
  simp only [plainTools, List.all_cons, List.all_nil, Bool.and_true, Bool.and_eq_true, hshown]
  constructor
  · rintro ⟨hfirst, hlast⟩ w
    cases w with
    | first => exact hfirst
    | last => exact hlast
  · intro h
    exact ⟨h .first, h .last⟩

/-- A plain tool is an allowed one for every reader. -/
theorem plain_read {allowed : List String} {entry : Json} (h : plainTool allowed entry = true)
    (r : Reader) (path : List Nat) : ∃ kind, (entry.read r path).get? "type" = some kind ∧
      (oneOf kind ("function" :: allowed)).isSome := by
  obtain ⟨kvs, rfl, htypes⟩ := Iff.mp plainTool_iff h
  obtain ⟨kind, hk, hone⟩ := htypes (r path)
  obtain ⟨j, hj⟩ := Json.get_read r path kvs "type"
  exact ⟨kind.read r (j :: path), by rw [hj, hk]; rfl, by rw [oneOf_read]; exact hone⟩

/-- It is one if it is allowed for a reader of either kind. -/
theorem read_plain {allowed : List String} {entry : Json}
    (h : ∀ w : Wins, ∃ (r : Reader) (path : List Nat), r path = w ∧ ∃ kind,
      (entry.read r path).get? "type" = some kind ∧ (oneOf kind ("function" :: allowed)).isSome) :
    plainTool allowed entry = true := by
  cases entry with
  | obj kvs =>
    refine Iff.mpr plainTool_iff ⟨kvs, rfl, fun w => ?_⟩
    obtain ⟨r, path, rfl, kind, hk, hone⟩ := h w
    obtain ⟨j, hj⟩ := Json.get_read r path kvs "type"
    rw [hj] at hk
    obtain ⟨raw, hraw, rfl⟩ := Option.map_eq_some_iff.mp hk
    exact ⟨raw, hraw, by rw [oneOf_read] at hone; exact hone⟩
  | _ =>
    obtain ⟨r, path, -, kind, hk, -⟩ := h .first
    cases hk

theorem tools_read {allowed : List String} {top : List (Text × Json)} :
    (∀ r : Reader, ToolsAllowed allowed ((Json.obj top).read r [])) ↔
      plainTools allowed (.obj top) = true := by
  rw [plainTools_iff]
  constructor
  · intro h w entries he entry hm
    -- one choice at the top level, another one at every object below it
    let reader (w' : Wins) : Reader := fun path => if path = [] then w else w'
    refine read_plain (fun w' => ?_)
    obtain ⟨j, hj⟩ := Json.get_read (reader w') [] top "tools"
    have htop : (reader w') [] = w := rfl
    rw [htop, he] at hj
    obtain ⟨i, hi⟩ := Json.elements_mem (reader w') [j] 0 hm
    exact ⟨reader w', [i, j], rfl, h (reader w') _ hj _ hi⟩
  · intro h r entries he entry hm
    obtain ⟨j, hj⟩ := Json.get_read r [] top "tools"
    rw [hj] at he
    obtain ⟨v, hv, hread⟩ := Option.map_eq_some_iff.mp he
    cases v with
    | arr raws =>
      cases hread
      obtain ⟨raw, hraw, i, rfl⟩ := Json.mem_elements hm
      exact plain_read (h (r []) raws hv raw hraw) r _
    | _ => cases hread

/-! ### The model -/

def modelKey : Text := Text.ofString "model"

theorem filter_model (top : List (Text × Json)) :
    top.filter (fun p => p.1 == Text.ofString "model") = top.filter (fun p => p.1 = modelKey) :=
  List.filter_congr (fun _ _ => beq_eq_decide ..)

theorem parseModel_cases {raw : Bytes} {permitted : List String} {model : String} {body : Json} :
    parseModel raw permitted = .ok (model, body) ↔ ∃ top chosen, body = .obj top ∧
      readsAs raw (.obj top) ∧ top.filter (fun p => p.1 = modelKey) = [(modelKey, chosen)] ∧
      oneOf chosen permitted = some model := by
  unfold parseModel readsAs
  simp only [filter_model]
  constructor
  · intro h
    split at h
    · cases h
    · rename_i text htext
      split at h
      · rename_i top htop
        split at h
        · rename_i key chosen hone
          split at h
          · rename_i m hm
            cases h
            have hmem : (key, chosen) ∈ top.filter (fun p => p.1 = modelKey) :=
              hone ▸ List.mem_singleton_self _
            have hkey : key = modelKey := of_decide_eq_true (List.mem_filter.mp hmem).2
            subst hkey
            exact ⟨top, chosen, rfl, ⟨text, htext, htop⟩, hone, hm⟩
          · cases h
        · cases h
      · cases h
  · rintro ⟨top, chosen, rfl, ⟨text, htext, htop⟩, hone, hm⟩
    simp only [htext, htop, hone, hm]

/-- The one model of an accepted body is every reader's. -/
theorem model_read {raw : Bytes} {permitted : List String} {model : String} {body : Json}
    (h : parseModel raw permitted = .ok (model, body)) (r : Reader) :
    AsksAllowed permitted (body.read r []) := by
  obtain ⟨top, chosen, rfl, -, hone, hm⟩ := Iff.mp parseModel_cases h
  obtain ⟨j, hj⟩ := Json.get_read r [] top "model"
  have hlook : (r []).lookup top (Text.ofString "model") = some chosen := (r []).lookup_single hone
  refine ⟨chosen.read r [j], by rw [hj, hlook]; rfl, ?_⟩
  rw [oneOf_read, hm]
  rfl

/-- An accepted body is a JSON object with one `model`, an allowed string. -/
theorem parseModel_accepts (raw : Bytes) (permitted : List String) :
    (∃ model body, parseModel raw permitted = .ok (model, body)) ↔
      ∃ top, readsAs raw (.obj top) ∧ top.countP (fun p => p.1 = modelKey) = 1 ∧
        ∃ model ∈ permitted, (modelKey, Json.string model) ∈ top := by
  constructor
  · rintro ⟨model, body, h⟩
    obtain ⟨top, chosen, -, hread, hone, hm⟩ := Iff.mp parseModel_cases h
    obtain ⟨hmem, rfl⟩ := oneOf_str hm
    refine ⟨top, hread, by rw [List.countP_eq_length_filter, hone]; rfl, model, hmem, ?_⟩
    exact List.mem_of_mem_filter (hone ▸ List.mem_singleton_self _)
  · rintro ⟨top, hread, hcount, model, hmem, hin⟩
    rw [List.countP_eq_length_filter] at hcount
    obtain ⟨p, hp⟩ := List.length_eq_one_iff.mp hcount
    have hfound : (modelKey, Json.string model) ∈ top.filter (fun p => p.1 = modelKey) :=
      List.mem_filter.mpr ⟨hin, by simp⟩
    rw [hp, List.mem_singleton] at hfound
    subst hfound
    obtain ⟨m, hm⟩ := Option.isSome_iff_exists.mp (oneOf_mem hmem)
    exact ⟨m, _, Iff.mpr parseModel_cases ⟨top, _, rfl, hread, hp, hm⟩⟩

/-! ### The gates -/

theorem judged_iff {raw : Bytes} {permitted allowed : List String} {model : String} {body : Json}
    (h : parseModel raw permitted = .ok (model, body)) :
    Judged permitted allowed body ↔ plainTools allowed body = true := by
  obtain ⟨top, -, rfl, -⟩ := Iff.mp parseModel_cases h
  rw [← tools_read]
  constructor
  · intro hj r
    exact (hj r).2
  · intro ht r
    exact ⟨model_read h r, ht r⟩

/-- What `_handle_forward` sends on has passed both gates, as it is. -/
theorem forwarded_checked {b : Broker} {r : Reading} {credential : Bool} {f : Frame}
    (h : (b.bodyRead r credential).1 = some f) (hr : r.anthropic = false) :
    ∃ p model body, b.registry.principal? r.principal = some p ∧
      parseModel r.body p.caps.allowedModels = .ok (model, body) ∧
      checkProviderTools body p.caps.allowedProviderTools = .ok () ∧
      (Judged p.caps.allowedModels p.caps.allowedProviderTools body ↔
        plainTools p.caps.allowedProviderTools body = true) := by
  unfold Broker.bodyRead at h
  simp only at h
  split at h
  · cases h
  · rename_i p hp
    split at h
    · cases h
    · rename_i model body hcheck
      unfold Broker.checkBody at hcheck
      rw [hr] at hcheck
      cases hparse : parseModel r.body p.caps.allowedModels with
      | error e =>
        rw [hparse] at hcheck
        cases hcheck
      | ok mb =>
        obtain ⟨m, doc⟩ := mb
        rw [hparse] at hcheck
        cases htools : checkProviderTools doc p.caps.allowedProviderTools with
        | error e =>
          simp only [Bool.false_eq_true, ↓reduceIte, bind, Except.bind, htools] at hcheck
          cases hcheck
        | ok u => exact ⟨p, m, doc, hp, hparse, htools, judged_iff hparse⟩

def sampleText (tools : String) : Bytes :=
  asciiBytes ("\x7b\"model\":\"gpt-5.4-mini\"," ++ tools ++ "\x7d")

def samplePlain : Bytes := sampleText "\"tools\":[\x7b\"type\":\"function\"\x7d]"

def sampleTwice : Bytes :=
  sampleText "\"tools\":[\x7b\"type\":\"web_search\"\x7d],\"tools\":[]"

/-- Both gates let the body pass, and its tools are plain or not. -/
def passes (raw : Bytes) (permitted allowed : List String) (plain : Bool) : Bool :=
  match parseModel raw permitted with
  | .ok (_, body) =>
    match checkProviderTools body allowed with
    | .ok _ => plainTools allowed body == plain
    | .error _ => false
  | .error _ => false

theorem passes_cases (raw : Bytes) (permitted allowed : List String) (plain : Bool)
    (h : passes raw permitted allowed plain = true) : ∃ model body,
      parseModel raw permitted = .ok (model, body) ∧ checkProviderTools body allowed = .ok () ∧
        plainTools allowed body = plain := by
  unfold passes at h
  split at h
  · rename_i model body hparse
    split at h
    · rename_i u hcheck
      exact ⟨model, body, hparse, hcheck, beq_iff_eq.mp h⟩
    · cases h
  · cases h

end Solvio.ProviderBroker
