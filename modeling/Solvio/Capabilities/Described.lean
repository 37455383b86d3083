import Solvio.Capabilities.Automations
import Solvio.Capabilities.Said

namespace Solvio.Capabilities.Described
open Solvio.Lib Solvio.Proactive Background

/-! ### The property -/

variable (E : Deployment)

/-- Neither raises anything but that it declines, and what is described is
created unless the arguments are not the reason. -/
structure Reliable (a : Arguments) : Prop where
  described : ∀ now e, 0 ≤ now → describeCreate E a now = .error e → ∃ reason, e = .declined reason
  created : ∀ owner spoken existing now e, 0 ≤ now → create E a owner spoken existing now = .error e →
    e = .credentialRefused ∨ ∃ reason, e = .declined reason
  accepted : ∀ t d, 0 ≤ t → describeCreate E a t = .ok d → ∀ owner spoken existing now, 0 ≤ now →
    existing < maxTasks → (spoken ≠ "" → E.credential spoken = false) →
      ∃ row, create E a owner spoken existing now = .ok row

/-- What is described alike is stored alike. -/
def Determined (a b : Arguments) : Prop :=
  ∀ t t' now d, 0 ≤ t → 0 ≤ t' → 0 ≤ now → describeCreate E a t = .ok d →
    describeCreate E b t' = .ok d → ∀ owner spoken existing row row',
      create E a owner spoken existing now = .ok row →
      create E b owner spoken existing now = .ok row' →
        row.action = row'.action ∧ row.schedule = row'.schedule

structure Trustworthy (a b : Arguments) : Prop where
  left : Reliable E a
  right : Reliable E b
  determined : Determined E a b

/-! ### The condition -/

/-- The words are understood, and the action is one that may be scheduled. -/
def Understood (a : Arguments) : Prop :=
  said E.script a.wann ≠ .silent ∧ (a.action ∈ allowedActions ∨ a.action ∈ researchNames)

def title (a : Arguments) : String := prefixOf (stripped a.titel) maxTitle

def topic (a : Arguments) : String := prefixOf (stripped a.thema) maxTopic

def actionOf (a : Arguments) : Action where
  deed := if a.action ∈ researchNames then .research (topic a)
    else .capability a.action (.dict a.argumente)
  condition := conditionOf a
  notify := notifyOf a

/-- What is asked of arguments that are understood. -/
structure Storable (a : Arguments) : Prop where
  titled : title a ≠ ""
  themed : a.action ∈ researchNames → 8 ≤ (topic a).length
  bounded : ∀ seconds, said E.script a.wann = .interval seconds → seconds < floatLimit
  discreet : E.credential (title a) = false ∧ E.credential (writtenAction (actionOf a)).dumps = false

structure Clear (a : Arguments) : Prop where
  sound : (said E.script a.wann).Sound
  storable : Understood E a → Storable E a

/-- What is described of the two is the same. -/
structure Alike (a b : Arguments) : Prop where
  understood : Understood E a
  titles : prefixOf a.titel maxTitle = prefixOf b.titel maxTitle
  words : prefixOf a.wann 80 = prefixOf b.wann 80
  actions : a.action = b.action
  times : (said E.script a.wann).shown = (said E.script b.wann).shown

/-- The two agree in what is not described: the subject, the condition, how to
report, and how long from now. -/
structure AgreeBeyond (a b : Arguments) : Prop where
  topics : a.action ∈ researchNames → topic a = topic b
  arguments : a.action ∉ researchNames → a.argumente = b.argumente
  condition : conditionOf a = conditionOf b
  notify : notifyOf a = notifyOf b
  delay : ∀ s s', said E.script a.wann = .delay s → said E.script b.wann = .delay s' → s = s'

/-! ### Describing and creating -/

variable {E} {a b : Arguments} {now : Rat}

/-- What describing comes to, by what the words make of the clock. -/
theorem describe_cases : describeCreate E a now = match (said E.script a.wann).plan now with
    | .error e => .error e
    | .ok (none, _) => .error (.declined "schedule_not_understood")
    | .ok (some p, note) =>
      if a.action ∉ allowedActions ∧ a.action ∉ researchNames then
        .error (.declined "action_not_allowed")
      else .ok (described a p note) := by
  unfold describeCreate
  rw [parse_said]
  cases (said E.script a.wann).plan now with
  | error e => rfl
  | ok r =>
    obtain ⟨p, note⟩ := r
    cases p <;> rfl

theorem describe_ok {d : Description} (h : describeCreate E a now = .ok d) : ∃ p,
    (said E.script a.wann).plan now = .ok (some p, (said E.script a.wann).note) ∧
      Understood E a ∧ d = described a p (said E.script a.wann).note := by
  rw [describe_cases] at h
  split at h
  · cases h
  · cases h
  · rename_i p note hplan
    split at h
    · cases h
    · rename_i hallowed
      cases h
      obtain ⟨-, rfl⟩ := Said.plan_some hplan
      refine ⟨p, hplan, ⟨?_, ?_⟩, rfl⟩
      · intro hsilent
        rw [hsilent] at hplan
        cases hplan
      · by_cases hmem : a.action ∈ allowedActions
        · exact .inl hmem
        · exact .inr (not_not.mp (fun hno => hallowed ⟨hmem, hno⟩))

theorem deed_ok {deed : Deed} (h : deedOf a = .ok deed) : deed = (actionOf a).deed ∧
    (a.action ∈ researchNames → 8 ≤ (topic a).length) ∧
    (a.action ∈ allowedActions ∨ a.action ∈ researchNames) := by
  unfold deedOf at h
  dsimp only at h
  split at h
  · rename_i hresearch
    split at h
    · cases h
    · rename_i hlong
      cases h
      exact ⟨by simp [actionOf, hresearch, topic], fun _ => Nat.not_lt.mp hlong, .inr hresearch⟩
  · rename_i hresearch
    split at h
    · rename_i hallowed
      cases h
      exact ⟨by simp [actionOf, hresearch], fun h => absurd h hresearch, .inl hallowed⟩
    · cases h

theorem deed_error {e : Raised} (h : deedOf a = .error e) : ∃ reason, e = .declined reason := by
  unfold deedOf at h
  dsimp only at h
  split at h
  · split at h
    · cases h
      exact ⟨_, rfl⟩
    · cases h
  · split at h
    · cases h
    · cases h
      exact ⟨_, rfl⟩

theorem deed_allowed (hallowed : a.action ∈ allowedActions ∨ a.action ∈ researchNames)
    (htopic : a.action ∈ researchNames → 8 ≤ (topic a).length) :
    deedOf a = .ok (actionOf a).deed := by
  unfold deedOf actionOf
  by_cases hresearch : a.action ∈ researchNames
  · have := htopic hresearch
    simp only [hresearch, if_true]
    exact if_neg (Nat.not_lt.mpr this)
  · simp [hresearch, hallowed.resolve_right hresearch]

/-- What preparing comes to. -/
theorem prepare_cases : prepare E a now = if title a = "" then .error (.declined "title_missing")
    else match (said E.script a.wann).plan now with
    | .error e => .error e
    | .ok (none, _) => .error (.declined "schedule_not_understood")
    | .ok (some p, note) => (deedOf a).map (fun deed => {
        title := title a
        plan := p
        note := note
        action := { deed := deed, condition := conditionOf a, notify := notifyOf a } }) := by
  unfold prepare title
  dsimp only
  split
  · rfl
  · rw [parse_said, said_stripped]
    cases (said E.script a.wann).plan now with
    | error e => rfl
    | ok r =>
      obtain ⟨p, note⟩ := r
      cases p with
      | none => rfl
      | some p => cases deedOf a <;> rfl

theorem prepare_ok {q : Prepared} (h : prepare E a now = .ok q) : title a ≠ "" ∧
    (said E.script a.wann).plan now = .ok (some q.plan, q.note) ∧ q.title = title a ∧
    q.action = actionOf a ∧ (a.action ∈ researchNames → 8 ≤ (topic a).length) ∧ Understood E a := by
  rw [prepare_cases] at h
  split at h
  · cases h
  · rename_i htitle
    split at h
    · cases h
    · cases h
    · rename_i p note hplan
      obtain ⟨deed, hdeed, rfl⟩ := map_ok h
      obtain ⟨rfl, htopic, hallowed⟩ := deed_ok hdeed
      refine ⟨htitle, hplan, rfl, rfl, htopic, fun hsilent => ?_, hallowed⟩
      rw [hsilent] at hplan
      cases hplan

theorem dumps_nonempty (kvs : List (String × Data)) : (Data.dict kvs).dumps ≠ "" := by
  intro h
  have := congrArg String.toList h
  simp [Data.dumps, Data.dumpChars] at this

/-- Where the owner's words are no credential, the task is refused for its own texts. -/
theorem refuses_iff {row : TaskRow} {spoken : String} (htitle : row.title = title a)
    (htitled : title a ≠ "") (haction : row.action = actionOf a)
    (hfrom : row.createdFrom = if spoken = "" then title a else spoken)
    (hspoken : spoken ≠ "" → E.credential spoken = false) : refuses E row = false ↔
      E.credential (title a) = false ∧ E.credential (writtenAction (actionOf a)).dumps = false := by
  have hdumps := dumps_nonempty (writtenDeed (actionOf a).deed ++
    ((actionOf a).condition.toList.map (fun c => ("condition", writtenCondition c)) ++
      [("notify", .string (Notify.text (actionOf a).notify))]))
  simp only [refuses, htitle, haction, hfrom, List.any_cons, List.any_nil, Bool.or_false,
    Bool.or_eq_false_iff, writtenAction] at hdumps ⊢
  by_cases hs : spoken = ""
  · simp [hs, htitled, hdumps]
  · simp [hs, htitled, hdumps, hspoken hs]

theorem new_task_ok {q : Prepared} {owner spoken : String} {row : TaskRow}
    (h : newTask E q owner spoken now = .ok row) : row.title = q.title ∧
      row.createdFrom = (if spoken = "" then q.title else spoken) ∧ row.schedule = q.plan ∧
      row.action = q.action ∧ ¬ (q.plan.kind = .interval ∧ (floatLimit : Int) ≤ q.plan.everySeconds) := by
  unfold newTask at h
  split at h
  · cases h
  · rename_i hbound
    cases h
    exact ⟨rfl, rfl, rfl, rfl, hbound⟩

theorem create_ok {owner spoken : String} {existing : Nat} {row : TaskRow}
    (h : create E a owner spoken existing now = .ok row) : ∃ q, prepare E a now = .ok q ∧
      newTask E q owner spoken now = .ok row ∧ refuses E row = false := by
  unfold create at h
  cases hq : prepare E a now with
  | error e => simp [hq, bind, Except.bind] at h
  | ok q =>
    simp only [hq, bind, Except.bind] at h
    split at h
    · cases h
    · cases hrow : newTask E q owner spoken now with
      | error e => simp [hrow] at h
      | ok row' =>
        simp only [hrow] at h
        split at h
        · cases h
        · rename_i hrefuses
          cases h
          exact ⟨q, rfl, hrow, by simpa using hrefuses⟩

theorem plan_interval {s : Said} {p : Schedule} {note : String}
    (h : s.plan now = .ok (some p, note)) (hbound : ∀ seconds, s = .interval seconds → seconds < floatLimit) :
    ¬ (p.kind = .interval ∧ (floatLimit : Int) ≤ p.everySeconds) := by
  rintro ⟨hkind, hlimit⟩
  obtain ⟨hrule, -⟩ := Said.plan_some h
  cases s with
  | interval seconds =>
    have hsmall := hbound seconds rfl
    have hevery : p.everySeconds = (clampInterval seconds).1 :=
      congrArg Rule.everySeconds (Option.some.inj hrule).symm
    rw [hevery] at hlimit
    have hlarge := float_limit_large
    unfold clampInterval minIntervalSeconds at hlimit
    split at hlimit
    · simp only at hlimit
      omega
    · simp only at hlimit
      omega
  | silent => cases hrule
  | illegible => cases hrule
  | delay seconds => cases (congrArg Rule.kind (Option.some.inj hrule)).trans hkind
  | weekly days hour minute => cases (congrArg Rule.kind (Option.some.inj hrule)).trans hkind
  | daily hour minute assumed => cases (congrArg Rule.kind (Option.some.inj hrule)).trans hkind

/-- Understood words that are sound are described. -/
theorem describe_understood (hnow : 0 ≤ now) (sound : (said E.script a.wann).Sound)
    (h : Understood E a) : ∃ p, (said E.script a.wann).plan now =
        .ok (some p, (said E.script a.wann).note) ∧
      describeCreate E a now = .ok (described a p (said E.script a.wann).note) := by
  obtain ⟨p, hp⟩ := Said.plan_sound hnow (said_formed _) sound h.1
  refine ⟨p, hp, ?_⟩
  rw [describe_cases, hp]
  refine if_neg (fun hno => ?_)
  rcases h.2 with hmem | hmem
  · exact hno.1 hmem
  · exact hno.2 hmem

/-! ### When one map of arguments is reliable -/

theorem create_error {owner spoken : String} {existing : Nat} {e : Raised} (hnow : 0 ≤ now)
    (h : Clear E a) (herror : create E a owner spoken existing now = .error e) :
    e = .credentialRefused ∨ ∃ reason, e = .declined reason := by
  unfold create at herror
  cases hq : prepare E a now with
  | error e' =>
    simp only [hq, bind, Except.bind, Except.error.injEq] at herror
    subst herror
    rw [prepare_cases] at hq
    split at hq
    · cases hq
      exact .inr ⟨_, rfl⟩
    · split at hq
      · rename_i hplan
        by_cases hsilent : said E.script a.wann = .silent
        · rw [hsilent] at hplan
          cases hplan
        · obtain ⟨p, hp⟩ := Said.plan_sound hnow (said_formed _) h.sound hsilent
          cases hp.symm.trans hplan
      · cases hq
        exact .inr ⟨_, rfl⟩
      · cases hdeed : deedOf a with
        | error d =>
          rw [hdeed] at hq
          cases hq
          exact .inr (deed_error hdeed)
        | ok d =>
          rw [hdeed] at hq
          cases hq
  | ok q =>
    obtain ⟨-, hplan, -, -, -, hunderstood⟩ := prepare_ok hq
    simp only [hq, bind, Except.bind] at herror
    split at herror
    · cases herror
      exact .inr ⟨_, rfl⟩
    · cases hrow : newTask E q owner spoken now with
      | error e' =>
        unfold newTask at hrow
        split at hrow
        · rename_i hover
          exact absurd hover (plan_interval hplan (h.storable hunderstood).bounded)
        · cases hrow
      | ok row =>
        simp only [hrow] at herror
        split at herror
        · cases herror
          exact .inl rfl
        · cases herror

theorem Clear.created (h : Clear E a) (hunderstood : Understood E a) {owner spoken : String}
    {existing : Nat} (hnow : 0 ≤ now) (hroom : existing < maxTasks)
    (hspoken : spoken ≠ "" → E.credential spoken = false) :
    ∃ row, create E a owner spoken existing now = .ok row := by
  obtain ⟨htitled, hthemed, hbounded, hdiscreet⟩ := h.storable hunderstood
  obtain ⟨p, hp⟩ := Said.plan_sound hnow (said_formed _) h.sound hunderstood.1
  have hprepare : prepare E a now = .ok {
      title := title a
      plan := p
      note := (said E.script a.wann).note
      action := actionOf a } := by
    rw [prepare_cases, if_neg htitled, hp]
    simp only [deed_allowed hunderstood.2 hthemed]
    rfl
  have hbound := plan_interval hp hbounded
  cases hrow : newTask E {
      title := title a
      plan := p
      note := (said E.script a.wann).note
      action := actionOf a } owner spoken now with
  | error e =>
    unfold newTask at hrow
    rw [if_neg hbound] at hrow
    cases hrow
  | ok row =>
    obtain ⟨htitle, hfrom, -, haction, -⟩ := new_task_ok hrow
    have hrefuses := (refuses_iff htitle htitled haction hfrom hspoken).mpr hdiscreet
    refine ⟨row, ?_⟩
    simp [create, hprepare, hrow, hrefuses, Nat.not_le.mpr hroom, bind, Except.bind]

theorem Clear.reliable (h : Clear E a) : Reliable E a where
  described now e hnow herror := by
    rw [describe_cases] at herror
    split at herror
    · rename_i hplan
      by_cases hsilent : said E.script a.wann = .silent
      · rw [hsilent] at hplan
        cases hplan
      · obtain ⟨p, hp⟩ := Said.plan_sound hnow (said_formed _) h.sound hsilent
        cases hp.symm.trans hplan
    · cases herror
      exact ⟨_, rfl⟩
    · split at herror
      · cases herror
        exact ⟨_, rfl⟩
      · cases herror
  created owner spoken existing now e hnow herror := create_error hnow h herror
  accepted t d _ hd owner spoken existing now hnow hroom hspoken := by
    obtain ⟨-, -, hunderstood, -⟩ := describe_ok hd
    exact h.created hunderstood hnow hroom hspoken

theorem Reliable.sound (h : Reliable E a) : (said E.script a.wann).Sound := by
  by_contra hunsound
  obtain ⟨e, he, -, hno⟩ := (said E.script a.wann).plan_unsound 0 hunsound
  have herror : describeCreate E a 0 = .error e := by rw [describe_cases, he]
  obtain ⟨reason, hreason⟩ := h.described 0 e (le_refl 0) herror
  exact hno reason hreason

theorem Reliable.clear (h : Reliable E a) : Clear E a where
  sound := h.sound
  storable hunderstood := by
    obtain ⟨p, hp, hd⟩ := describe_understood (le_refl 0) h.sound hunderstood
    obtain ⟨row, hrow⟩ := h.accepted 0 _ (le_refl 0) hd "" "" 0 0 (le_refl 0) (by decide)
      (fun hne => absurd rfl hne)
    obtain ⟨q, hq, hnew, hrefuses⟩ := create_ok hrow
    obtain ⟨htitled, hplan, htitle, haction, hthemed, -⟩ := prepare_ok hq
    obtain ⟨hrowTitle, hfrom, -, hrowAction, hbound⟩ := new_task_ok hnew
    rw [htitle] at hrowTitle hfrom
    rw [haction] at hrowAction
    refine ⟨htitled, hthemed, fun seconds hs => ?_,
      (refuses_iff hrowTitle htitled hrowAction hfrom (fun hne => absurd rfl hne)).mp hrefuses⟩
    obtain ⟨hrule, -⟩ := Said.plan_some hplan
    rw [hs] at hrule
    have hplanRule := Option.some.inj hrule
    by_contra hlarge
    refine hbound ⟨(congrArg Rule.kind hplanRule).symm, ?_⟩
    have hevery : q.plan.everySeconds = (clampInterval seconds).1 :=
      (congrArg Rule.everySeconds hplanRule).symm
    have hlimit := float_limit_large
    rw [hevery]
    unfold clampInterval minIntervalSeconds
    split
    · simp only
      omega
    · simp only
      omega

theorem described_same {p p' : Schedule} {note note' : String} :
    described a p note = described b p' note' ↔
      prefixOf a.titel maxTitle = prefixOf b.titel maxTitle ∧
      prefixOf a.wann 80 = prefixOf b.wann 80 ∧ a.action = b.action ∧
      SameTimes p.toRule p'.toRule note note' := by
  constructor
  · intro h
    have hkind := kind_value (congrArg Description.art h)
    have hclock := congrArg Description.uhrzeit h
    have hdays := congrArg Description.wochentage h
    have hdistance := congrArg Description.abstandS h
    have hnote := congrArg Description.hinweis h
    simp only [described, ← hkind] at hclock hdays hdistance hnote
    refine ⟨congrArg Description.titel h, congrArg Description.wann h,
      congrArg Description.aktion h, hkind, fun hk => ?_, fun hk => ?_, fun hk => ?_, ?_⟩
    · simpa [hk] using hclock
    · simpa [hk] using hdays
    · simpa [hk] using hdistance
    · by_cases hn : note = "" <;> by_cases hn' : note' = "" <;> simp_all
  · rintro ⟨htitle, hwords, haction, hkind, hclock, hdays, hdistance, rfl⟩
    simp only [described, ← hkind, htitle, hwords, haction, Description.mk.injEq, true_and, and_true]
    refine ⟨?_, ?_, ?_⟩
    · split
      · rename_i hk
        rw [hclock hk]
      · rfl
    · split
      · rename_i hk
        rw [hdays hk]
      · rfl
    · split
      · rename_i hk
        rw [hdistance hk]
      · rfl

/-! ### Two maps of arguments -/

theorem action_same (h : a.action = b.action) : actionOf a = actionOf b ↔
    (a.action ∈ researchNames → topic a = topic b) ∧
      (a.action ∉ researchNames → a.argumente = b.argumente) ∧ conditionOf a = conditionOf b ∧ notifyOf a = notifyOf b := by
  unfold actionOf
  rw [h]
  by_cases hresearch : b.action ∈ researchNames
  · simp [hresearch]
  · simp [hresearch]

/-- What is stored is the action of the arguments and the plan of the words. -/
theorem create_stored {owner spoken : String} {existing : Nat} {row : TaskRow}
    (h : create E a owner spoken existing now = .ok row) : row.action = actionOf a ∧
      (said E.script a.wann).rule now = some row.schedule.toRule := by
  obtain ⟨q, hq, hnew, -⟩ := create_ok h
  obtain ⟨-, hplan, -, haction, -⟩ := prepare_ok hq
  obtain ⟨-, -, hschedule, hrowAction, -⟩ := new_task_ok hnew
  rw [hrowAction, hschedule]
  exact ⟨haction, (Said.plan_some hplan).1⟩

/-- Two descriptions are the same iff the arguments are alike. -/
theorem described_alike {t t' : Rat} {d d' : Description} (ha : Clear E a) (hb : Clear E b)
    (hd : describeCreate E a t = .ok d) (hd' : describeCreate E b t' = .ok d') :
    d = d' ↔ Alike E a b := by
  obtain ⟨p, hp, hunderstood, rfl⟩ := describe_ok hd
  obtain ⟨p', hp', -, rfl⟩ := describe_ok hd'
  rw [described_same, Said.same_times ha.sound hb.sound (Said.plan_some hp).1 (Said.plan_some hp').1]
  constructor
  · rintro ⟨htitle, hwords, haction, htimes⟩
    exact ⟨hunderstood, htitle, hwords, haction, htimes⟩
  · rintro ⟨-, htitle, hwords, haction, htimes⟩
    exact ⟨htitle, hwords, haction, htimes⟩

theorem Alike.other (h : Alike E a b) (ha : Clear E a) : Understood E b := by
  refine ⟨fun hsilent => ?_, h.actions ▸ h.understood.2⟩
  have hkind := (Said.shown_kind (said E.script a.wann)).symm.trans
    (h.times ▸ Said.shown_kind (said E.script b.wann))
  rw [hsilent] at hkind
  have hspoken := h.understood.1
  have hsound := ha.sound
  cases hsaid : said E.script a.wann with
  | silent => exact hspoken hsaid
  | illegible =>
    rw [hsaid] at hsound
    exact hsound
  | _ =>
    rw [hsaid] at hkind
    cases hkind

theorem schedule_same {row row' : TaskRow}
    (hrow : (said E.script a.wann).rule now = some row.schedule.toRule)
    (hrow' : (said E.script b.wann).rule now = some row'.schedule.toRule) (h : Alike E a b) :
    row.schedule = row'.schedule ↔
      ∀ n n', said E.script a.wann = .delay n → said E.script b.wann = .delay n' → n = n' := by
  rw [← Said.rule_same (said_formed _) (said_formed _) hrow hrow' h.times]
  constructor
  · exact congrArg Schedule.toRule
  · intro hrule
    cases hs : row.schedule
    cases hs' : row'.schedule
    simp only [hs, hs'] at hrule
    simp [hrule]

theorem determined_iff (ha : Clear E a) (hb : Clear E b) :
    Determined E a b ↔ (Alike E a b → AgreeBeyond E a b) := by
  constructor
  · intro h halike
    have hother := halike.other ha
    obtain ⟨p, -, hd⟩ := describe_understood (le_refl 0) ha.sound halike.understood
    obtain ⟨p', -, hd'⟩ := describe_understood (le_refl 0) hb.sound hother
    obtain ⟨row, hrow⟩ : ∃ row, create E a "" "" 0 0 = .ok row :=
      ha.created halike.understood (le_refl 0) (by decide) (fun hne => absurd rfl hne)
    obtain ⟨row', hrow'⟩ : ∃ row, create E b "" "" 0 0 = .ok row :=
      hb.created hother (le_refl 0) (by decide) (fun hne => absurd rfl hne)
    have hsame := (described_alike ha hb hd hd').mpr halike
    obtain ⟨hact, hsched⟩ := h 0 0 0 _ (le_refl 0) (le_refl 0) (le_refl 0) hd (hsame ▸ hd') "" "" 0
      row row' hrow hrow'
    obtain ⟨haction, hrule⟩ := create_stored hrow
    obtain ⟨haction', hrule'⟩ := create_stored hrow'
    rw [haction, haction'] at hact
    obtain ⟨htopics, harguments, hcondition, hnotify⟩ := (action_same halike.actions).mp hact
    exact ⟨htopics, harguments, hcondition, hnotify, (schedule_same hrule hrule' halike).mp hsched⟩
  · intro h t t' now d ht ht' hnow hd hd' owner spoken existing row row' hrow hrow'
    have halike := (described_alike ha hb hd hd').mp rfl
    obtain ⟨htopics, harguments, hcondition, hnotify, hdelay⟩ := h halike
    obtain ⟨haction, hrule⟩ := create_stored hrow
    obtain ⟨haction', hrule'⟩ := create_stored hrow'
    rw [haction, haction']
    exact ⟨(action_same halike.actions).mpr ⟨htopics, harguments, hcondition, hnotify⟩,
      (schedule_same hrule hrule' halike).mpr hdelay⟩

/-- The description stands for the automation, and nothing else is raised, iff
both maps of arguments are clear and agree in what is not described. -/
theorem description_trusted {E : Deployment} {a b : Arguments} : Trustworthy E a b ↔
    Clear E a ∧ Clear E b ∧ (Alike E a b → AgreeBeyond E a b) := by
  constructor
  · rintro ⟨hleft, hright, hdetermined⟩
    have ha := hleft.clear
    have hb := hright.clear
    exact ⟨ha, hb, (determined_iff ha hb).mp hdetermined⟩
  · rintro ⟨ha, hb, hagree⟩
    exact ⟨ha.reliable, hb.reliable, (determined_iff ha hb).mpr hagree⟩

/-! ### Samples -/

def sample : Deployment where
  script := {
    lower := fun s => String.ofList (s.toList.map Char.toLower)
    isWord := fun c => c.isAlphanum || c = '_'
    decimal := fun c => if c.isDigit then some (c.toNat - 48) else none
    otherDigit := fun _ => false }
  zone := ⟨fun t => ⌊t / 60⌋, fun n => n * 60⟩
  credential _ := false
  writes t := toString t.num ++ "/" ++ toString t.den

def lightAt (name : String) : Arguments where
  titel := "Abendlicht"
  wann := "taeglich um 20:00"
  aktion := "ha_turn_on"
  argumente := [("name", .string name)]

/-- A time that no day has, and a task without a title. -/
def lateNight : Arguments := { lightAt "Flur" with wann := "um 25:99" }

def untitled : Arguments := { lightAt "Flur" with titel := " " }

theorem light_said (name : String) : said sample.script (lightAt name).wann = .daily 20 0 false := by
  change said sample.script "taeglich um 20:00" = .daily 20 0 false
  decide

theorem light_understood (name : String) : Understood sample (lightAt name) := by
  refine ⟨by simp [light_said], .inl ?_⟩
  change stripped "ha_turn_on" ∈ allowedActions
  decide

theorem light_not_research (name : String) : (lightAt name).action ∉ researchNames := by
  change stripped "ha_turn_on" ∉ researchNames
  decide

theorem light_clear (name : String) : Clear sample (lightAt name) where
  sound := by simp [light_said, Said.Sound]
  storable _ := by
    refine ⟨?_, fun hresearch => ?_, fun seconds hs => ?_, rfl, rfl⟩
    · change prefixOf (stripped "Abendlicht") maxTitle ≠ ""
      decide
    · exact absurd hresearch (light_not_research name)
    · simp [light_said] at hs

theorem light_alike (name other : String) : Alike sample (lightAt name) (lightAt other) where
  understood := light_understood name
  titles := rfl
  words := rfl
  actions := rfl
  times := by rw [light_said, light_said]

/-- Two devices have one description, the time of no day raises, and what has
no title is described and then declined. -/
theorem description_misleads : ¬ Determined sample (lightAt "Flur") (lightAt "Haustuer") ∧
    ¬ Reliable sample lateNight ∧ ¬ Reliable sample untitled := by
  refine ⟨fun h => ?_, fun h => ?_, fun h => ?_⟩
  · have hagree := (determined_iff (light_clear "Flur") (light_clear "Haustuer")).mp h
      (light_alike "Flur" "Haustuer")
    have hsame := hagree.arguments (light_not_research "Flur")
    simp [lightAt, Data.string] at hsame
  · have hlate : said sample.script lateNight.wann = .daily 25 99 true := by decide
    have hsound := h.sound
    rw [hlate] at hsound
    exact absurd hsound.1 (by decide)
  · have hunderstood : Understood sample untitled := by
      refine ⟨?_, (light_understood "Flur").2⟩
      change said sample.script (lightAt "Flur").wann ≠ .silent
      simp [light_said]
    have hblank : title untitled = "" := by decide
    exact (h.clear.storable hunderstood).titled hblank

end Solvio.Capabilities.Described
