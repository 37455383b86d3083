import Solvio.Capabilities.HomeAssistant

namespace Solvio.Capabilities.Switched
open Solvio.Lib HomeAssistant

variable (lower : Lower) (overrides : List String)

/-! ### The property -/

/-- The call goes to the device that was decided on, and that device is not
relevant to security as it is exposed last. -/
def Faithful (x : Exposures) (classification : Classification) (call : ServiceCall) : Prop :=
  classification.targets = [call.entityId] ∧ ∀ B, x.last = some B → ∀ e,
    B.find? call.entityId = some e → e.actionClass overrides ≠ .haSecurity

/-- What was classified is what is switched, whatever is decided. -/
def SwitchedAsClassified (c : Capability) (args : Arguments) (x : Exposures) : Prop :=
  ∀ proceeds classification call,
    execute lower overrides c args x proceeds = .ok (classification, some call) →
      Faithful overrides x classification call

/-! ### What the code goes by -/

/-- How a device fits a spoken name, the best way first. -/
def criteria (args : Arguments) : List (ExposedEntity → Bool) :=
  if norm lower args.name = "" then [fun _ => args.area ≠ ""]
  else [exactId lower args.name, exactName lower args.name, partialName lower args.name,
    fun e => wordsOf lower args.name ≠ [] && allWords lower args.name e]

/-- The device fits best among those of a boundary. -/
def Fits (args : Arguments) (domains : Option (List String)) (B : Boundary) (e : ExposedEntity) :
    Prop :=
  SoleBest (criteria lower args) (poolOf lower B args.area domains) e

/-- The device that is classified. -/
def Meant (args : Arguments) (x : Exposures) (e : ExposedEntity) : Prop :=
  ∃ B, x.classified = some B ∧ Fits lower args none B e ∧ e.actionClass overrides = .haNormal

/-- A device that the handler could take: it fits best among those it looks at,
can be switched and is still exposed. -/
def Takes (c : Capability) (args : Arguments) (x : Exposures) (e : ExposedEntity) : Prop :=
  (∃ B, x.found = some B ∧ Fits lower args c.domains B e) ∧ e.executable = true ∧
    ∃ B, x.last = some B ∧ (B.find? e.entityId).isSome

/-- The device is not relevant to security as it is exposed last. -/
def Harmless (x : Exposures) (entityId : String) : Prop :=
  ∀ B, x.last = some B → ∀ e, B.find? entityId = some e → e.actionClass overrides ≠ .haSecurity

/-- There is no rival for the handler, and the device itself is harmless still. -/
def Unmistaken (c : Capability) (args : Arguments) (x : Exposures) : Prop :=
  ∀ e, Meant lower overrides args x e → ∀ r, Takes lower c args x r →
    r.entityId = e.entityId ∧ Harmless overrides x e.entityId

/-! ### What is resolved -/

variable {lower overrides}

theorem pool_nodup (B : Boundary) (area : String) (domains : Option (List String)) :
    (poolOf lower B area domains).Nodup := by
  have hrows : B.rows.Nodup := B.distinct.of_map _
  unfold poolOf
  dsimp only
  split
  · exact hrows.filter _
  · split
    · exact (hrows.filter _).filter _
    · exact (hrows.filter _).filter _

theorem resolve_best (B : Boundary) (args : Arguments) (domains : Option (List String)) :
    resolve lower B args.name args.area domains =
      bestMatches (criteria lower args) (poolOf lower B args.area domains) := by
  unfold resolve criteria
  dsimp only
  by_cases hblank : norm lower args.name = ""
  · rw [if_pos hblank, if_pos hblank]
    by_cases harea : args.area = ""
    · simp [harea, bestMatches]
    · simp [harea, bestMatches]
  · rw [if_neg hblank, if_neg hblank]
    have hself : ∀ es : List ExposedEntity, (if es = [] then [] else es) = es := by
      intro es
      split
      · rename_i h
        exact h.symm
      · rfl
    simp only [bestMatches, ne_eq, ite_not, hself]
    by_cases hwords : wordsOf lower args.name = []
    · simp only [hwords, if_true, not_true_eq_false, decide_false, Bool.false_and,
        List.filter_false]
    · simp only [hwords, if_false, not_false_eq_true, decide_true, Bool.true_and]

theorem one_fits {B : Option Boundary} {args : Arguments} {domains : Option (List String)}
    {e : ExposedEntity} : one lower B args domains = .ok e ↔
      ∃ b, B = some b ∧ Fits lower args domains b e := by
  cases B with
  | none => simp [one]
  | some b =>
    have hsole : bestMatches (criteria lower args) (poolOf lower b args.area domains) = [e] ↔
        SoleBest (criteria lower args) (poolOf lower b args.area domains) e :=
      best_sole (pool_nodup b args.area domains)
    rw [← resolve_best] at hsole
    simp only [one, Option.some.injEq, exists_eq_left', Fits, ← hsole]
    split
    · rename_i h
      simp [h]
    · rename_i h
      simp [h]
    · rename_i hmany hone
      simp only [reduceCtorEq, false_iff]
      exact fun h => hone e h

theorem classify_meant {args : Arguments} {x : Exposures} {classification : Classification} :
    classify lower overrides x.classified args = .ok classification →
      ∃ e, Meant lower overrides args x e ∧ classification.targets = [e.entityId] := by
  unfold classify
  cases hone : one lower x.classified args none with
  | error r => simp [bind, Except.bind]
  | ok e =>
    obtain ⟨B, hB, hfits⟩ := Iff.mp one_fits hone
    simp only [bind, Except.bind]
    split
    · rename_i hnormal
      rintro h
      cases h
      exact ⟨e, ⟨B, hB, hfits, hnormal⟩, rfl⟩
    · simp

theorem meant_classified {args : Arguments} {x : Exposures} {e : ExposedEntity}
    (h : Meant lower overrides args x e) : ∃ classification,
      classify lower overrides x.classified args = .ok classification ∧
        classification.targets = [e.entityId] := by
  obtain ⟨B, hB, hfits, hnormal⟩ := h
  have hone := Iff.mpr one_fits ⟨B, hB, hfits⟩
  refine ⟨_, by simp [classify, hone, hnormal, bind, Except.bind]; rfl, rfl⟩

/-- The handler calls for a device iff it takes it. -/
theorem handle_takes {c : Capability} {args : Arguments} {x : Exposures} {call : ServiceCall} :
    handle lower c x.found x.last args = .ok call ↔
      ∃ e, Takes lower c args x e ∧ call = c.serviceCall args e := by
  unfold handle
  cases hone : one lower x.found args c.domains with
  | error r =>
    simp only [bind, Except.bind, reduceCtorEq, false_iff, not_exists]
    rintro e ⟨⟨hfound, -⟩, -⟩
    cases hone.symm.trans (Iff.mpr one_fits hfound)
  | ok e =>
    have hfound := Iff.mp one_fits hone
    have honly : ∀ r, Takes lower c args x r → r = e := by
      rintro r ⟨hr, -⟩
      exact Except.ok.inj ((Iff.mpr one_fits hr).symm.trans hone)
    simp only [bind, Except.bind]
    by_cases hexec : e.executable = true
    · simp only [hexec, Bool.not_true, Bool.false_eq_true, if_false]
      cases hlast : x.last with
      | none =>
        simp only [reduceCtorEq, false_iff, not_exists]
        rintro r ⟨⟨-, -, B, hB, -⟩, -⟩
        cases hlast.symm.trans hB
      | some B =>
        by_cases hthere : (B.find? e.entityId).isSome = true
        · simp only [hthere, if_true, Except.ok.injEq]
          constructor
          · intro h
            exact ⟨e, ⟨hfound, hexec, B, hlast, hthere⟩, h.symm⟩
          · rintro ⟨r, hr, hcall⟩
            rw [hcall, honly r hr]
        · simp only [hthere, Bool.false_eq_true, if_false, reduceCtorEq, false_iff, not_exists]
          rintro r ⟨hr, -⟩
          obtain rfl := honly r hr
          obtain ⟨-, -, B', hB', hthere'⟩ := hr
          cases hlast.symm.trans hB'
          exact hthere hthere'
    · simp only [hexec, Bool.not_false, if_true, reduceCtorEq, false_iff, not_exists]
      rintro r ⟨hr, -⟩
      exact hexec (honly r hr ▸ hr.2.1)

@[simp] theorem call_entity (c : Capability) (args : Arguments) (e : ExposedEntity) :
    (c.serviceCall args e).entityId = e.entityId := by
  cases c <;> rfl

theorem pool_mem {B : Boundary} {area : String} {domains : Option (List String)}
    {e : ExposedEntity} (h : e ∈ poolOf lower B area domains) : e ∈ B := by
  unfold poolOf at h
  dsimp only at h
  split at h
  · exact (List.mem_filter.mp h).1
  · split at h
    · exact (List.mem_filter.mp (List.mem_filter.mp h).1).1
    · exact (List.mem_filter.mp (List.mem_filter.mp h).1).1

/-- A domain narrows the devices down if one of them has it. -/
theorem pool_narrowed {B : Boundary} {area : String} {domains : List String} {e : ExposedEntity}
    (he : e ∈ poolOf lower B area none) (hdomain : e.domain ∈ domains) :
    poolOf lower B area (some domains) =
      (poolOf lower B area none).filter (fun e => e.domain ∈ domains) := by
  have hall : B.rows.filter (fun _ => true) = B.rows := by simp
  simp only [poolOf, Option.all_none, Option.all_some, hall] at he ⊢
  split
  · rfl
  · rename_i harea
    rw [if_neg harea] at he
    have hcomm : ∀ q : ExposedEntity → Bool, (B.rows.filter (fun e => e.domain ∈ domains)).filter q =
        (B.rows.filter q).filter (fun e => e.domain ∈ domains) := by
      intro q
      rw [List.filter_filter, List.filter_filter]
      exact List.filter_congr (fun _ _ => Bool.and_comm ..)
    rw [hcomm, hcomm]
    by_cases hexact : B.rows.filter (fun e => norm lower e.area = norm lower area) = []
    · simp [hexact]
    · rw [if_neg hexact] at he ⊢
      rw [if_neg]
      intro hnone
      exact absurd hdomain (by simpa using List.filter_eq_nil_iff.mp hnone e he)

/-- Without a refresh a device is mistaken only for a light, where a light is
looked for and something else was meant. -/
theorem unrefreshed_unmistaken {c : Capability} {args : Arguments} {B : Boundary}
    (h : ∀ domains, c.domains = some domains →
      ∀ e, Meant lower overrides args ⟨some B, some B, some B⟩ e → e.domain ∈ domains) :
    Unmistaken lower overrides c args ⟨some B, some B, some B⟩ := by
  rintro e hmeant r ⟨⟨B', hB', hr⟩, -⟩
  obtain ⟨B'', hB'', hfits, hnormal⟩ := id hmeant
  cases hB'
  cases hB''
  have hsame : r = e := by
    unfold Fits at hr hfits
    cases hdomains : c.domains with
    | none =>
      rw [hdomains] at hr
      exact hr.unique hfits
    | some domains =>
      have hdomain := h domains hdomains e hmeant
      rw [hdomains, pool_narrowed hfits.mem hdomain] at hr
      exact hr.unique (hfits.filter _ (by simpa using hdomain))
  subst hsame
  refine ⟨rfl, fun B' hB' e' he' => ?_⟩
  cases hB'
  rw [Table.eq_of_key (Table.mem_of_find he') (pool_mem hfits.mem) (Table.key_of_find he'), hnormal]
  simp

/-! ### Samples -/

def asciiLower : Lower := fun s => String.ofList (s.toList.map Char.toLower)

/-- A switch, and a light whose name has the switch's name in it. -/
def ceiling : Boundary :=
  ⟨[{ entityId := "switch.decke", name := "Decke" },
    { entityId := "light.decke_hinten", name := "Decke hinten" }], by decide⟩

/-- A lamp before a refresh, and a relay that the owner calls relevant after it. -/
def before : Boundary := ⟨[{ entityId := "light.flur", name := "Flur" }], by decide⟩

def after : Boundary := ⟨[{ entityId := "switch.tor", name := "Flur" }], by decide⟩

end Solvio.Capabilities.Switched
