import Solvio.Proactive.Scheduler

namespace Solvio.Proactive.Reports
open Solvio.Lib

variable {E : Deployment} {init : Watch}

abbrev Entry (E : Deployment) (init : Watch) : Type := (watching E init).Entry

/-! ### When a notification is due -/

def dataOf : Answer → Option Data
  | .data data _ _ => some data
  | _ => none

/-- The result of the latest successful run. -/
def previous : List (Entry E init) → Option Data
  | [] => none
  | e :: older => (dataOf e.call.answer).orElse (fun _ => previous older)

/-- The condition of the task holds, if it has one. -/
def holds (E : Deployment) (action : Action) (data : Data) : Bool :=
  match action.condition with
  | some condition => ((conditionMet E condition data).map Prod.fst).getD false
  | none => true

/-- The result differs from the one before. -/
def Differs (E : Deployment) (before : Option Data) (data : Data) : Prop :=
  ∀ d, before = some d → Fingerprint.of E.letters d ≠ Fingerprint.of E.letters data

/-- A result that is to be reported. -/
def Due (E : Deployment) (action : Action) (before : Option Data) (data : Data) : Prop :=
  match action.notify with
  | .always => True
  | .onChange => Differs E before data
  | .onCondition => holds E action data = true ∧
    ((∀ d, before = some d → holds E action d = false) ∨ Differs E before data)

/-- A notification is there that was not. -/
def Creates (e : Entry E init) : Prop := ∃ item ∈ e.post.items, item ∉ e.pre.items

/-- A successful run creates a notification iff one is due. -/
def Reported (log : List (Entry E init)) : Prop :=
  ∀ newer e older, log = newer ++ e :: older → ∀ data, dataOf e.call.answer = some data →
    (Creates e ↔ Due E init.task.action (previous older) data)

/-- A task that has not run yet. -/
structure New (init : Watch) : Prop where
  unread : ∀ x ∈ init.items, x.taskId ≠ init.task.taskId
  first : init.task.lastResult = none

/-! ### What the code goes by -/

/-- The fingerprint, the condition and the text of the notification can be had. -/
def Readable (E : Deployment) (task : TaskRow) (data : Data) : Prop :=
  (Fingerprint.of E.letters data).isSome ∧
    (∀ c, task.action.condition = some c → (conditionMet E c data).isSome) ∧
    (summarize task data :: findings E data).any E.credential = false

/-- What is due meets the condition; that turns true only with a new fingerprint
or when none is known; and no notification of the task has this fingerprint. -/
structure Regular (older : List (Entry E init)) (e : Entry E init) : Prop where
  readable : ∀ data, dataOf e.call.answer = some data → Readable E e.pre.task data
  gated : ∀ data, dataOf e.call.answer = some data →
    Due E init.task.action (previous older) data → holds E init.task.action data = true
  turns : ∀ data, dataOf e.call.answer = some data → ∀ d, previous older = some d →
    holds E init.task.action data = true → holds E init.task.action d = false →
      Fingerprint.of E.letters d ≠ Fingerprint.of E.letters data ∨ e.pre.task.previous = ""
  fresh : ∀ data, dataOf e.call.answer = some data →
    Due E init.task.action (previous older) data → ∀ x ∈ e.pre.items,
      x.notificationId ≠ notificationId (runIdFor init.task.taskId e.call.occurrence)
        ((Fingerprint.of E.letters data).getD "") ∧
      ¬ (x.taskId = init.task.taskId ∧ some x.fingerprint = Fingerprint.of E.letters data)

/-! ### What one run does -/

/-- The judge lets the result through. -/
def reports (E : Deployment) (task : TaskRow) (data : Data) (current : String) : Bool :=
  holds E task.action data &&
    !(task.action.notify = (if task.action.condition.isSome then .onCondition else .onChange) &&
      !Fingerprint.changed task.previous current)

theorem judge_reports {task : TaskRow} {data : Data} (o : Occasion)
    (hread : Readable E task data) : ∃ current, Fingerprint.of E.letters data = some current ∧
      ∃ why, judge E task data o = some (if reports E task data current then
        { state := .done, item := some (itemOf E task data current o), fingerprint := current }
        else { state := .noChange, detail := why, fingerprint := current }) := by
  obtain ⟨current, hcurrent⟩ := Option.isSome_iff_exists.mp hread.1
  refine ⟨current, hcurrent, ?_⟩
  cases hcond : task.action.condition with
  | none =>
    refine ⟨"unveraendert", ?_⟩
    simp only [judge, hcurrent, hcond, reports, holds, unchanged, Option.bind_eq_bind,
      Option.bind_some, Bool.true_and, Option.isSome_none, Bool.false_eq_true, if_false]
    by_cases h : (task.action.notify = .onChange && !Fingerprint.changed task.previous current) = true
    · simp [h]
    · simp [h]
  | some condition =>
    obtain ⟨⟨met, why⟩, hmet⟩ := Option.isSome_iff_exists.mp (hread.2.1 condition hcond)
    simp only [judge, hcurrent, hcond, reports, holds, unchanged, hmet, Option.bind_eq_bind,
      Option.bind_some, Option.map_some, Option.getD_some, Option.isSome_some, if_true]
    cases met with
    | false => exact ⟨why, by simp⟩
    | true =>
      refine ⟨"unveraendert", ?_⟩
      by_cases h : (task.action.notify = .onCondition &&
        !Fingerprint.changed task.previous current) = true
      · simp [h]
      · simp [h]

/-- A successful run that can be read: what it leaves in the inbox and in the row. -/
theorem run_data {c : Ran} {w : Watch} {data : Data} (hdata : dataOf c.answer = some data)
    (hread : Readable E w.task data) : ∃ current, Fingerprint.of E.letters data = some current ∧
      (runOnce E c w).task.taskId = w.task.taskId ∧
      (runOnce E c w).task.action = w.task.action ∧
      (runOnce E c w).task.previous = current ∧
      ∃ item : Item, item.taskId = w.task.taskId ∧ item.fingerprint = current ∧
        item.notificationId = notificationId (runIdFor w.task.taskId c.occurrence) current ∧
        (runOnce E c w).items = if reports E w.task data current = true ∧ item.Fresh w.items then
          item :: w.items else w.items := by
  obtain ⟨occurrence, answer, now, kind⟩ := c
  cases answer with
  | data given source trustTag =>
    cases hdata
    obtain ⟨current, hcurrent, why, hjudge⟩ := judge_reports
      ⟨runIdFor w.task.taskId occurrence, source, trustTag, now⟩ hread
    refine ⟨current, hcurrent, ?_⟩
    simp only [runOnce, execute, hjudge]
    generalize hitem : itemOf E w.task data current
      ⟨runIdFor w.task.taskId occurrence, source, trustTag, now⟩ = item
    have hadd : addItem E.credential w.items item = some (if item.Fresh w.items then
        (true, { item with summary := prefixOf item.summary 1200 } :: w.items)
        else (false, w.items)) := add_item (by rw [← hitem]; exact hread.2.2)
    by_cases hreports : reports E w.task data current = true
    · rw [if_pos hreports]
      simp only [Option.elim_some]
      rw [hadd]
      refine ⟨by simp [settled], by simp [settled], by simp [TaskRow.previous],
        { item with summary := prefixOf item.summary 1200 }, by rw [← hitem]; rfl,
        by rw [← hitem]; rfl, by rw [← hitem]; rfl, ?_⟩
      by_cases hfresh : item.Fresh w.items
      · rw [if_pos hfresh, if_pos ⟨hreports, hfresh⟩]
        simp
      · rw [if_neg hfresh, if_neg (fun h => hfresh h.2)]
        simp
    · rw [if_neg hreports]
      refine ⟨by simp [settled], by simp [settled], by simp [TaskRow.previous],
        item, by rw [← hitem]; rfl, by rw [← hitem]; rfl, by rw [← hitem]; rfl, ?_⟩
      rw [if_neg (fun h => hreports h.1)]
      simp
  | _ => cases hdata

/-- Any other run leaves the inbox, and the last result as it was or without a
fingerprint. -/
theorem run_other {c : Ran} {w : Watch} (hdata : dataOf c.answer = none) :
    (runOnce E c w).task.taskId = w.task.taskId ∧ (runOnce E c w).task.action = w.task.action ∧
      (runOnce E c w).items = w.items ∧ ((runOnce E c w).task.previous = "" ∨
        (runOnce E c w).task.previous = w.task.previous) := by
  obtain ⟨occurrence, answer, now, kind⟩ := c
  cases answer with
  | data given source trustTag => cases hdata
  | failed outcome detail => simp [runOnce, execute, TaskRow.previous]
  | approval request => simp [runOnce, execute, TaskRow.previous, settled]
  | raised => simp [runOnce, execute, TaskRow.previous]

/-! ### What a run keeps -/

/-- A result that has been reported once it has been due. -/
def Worth (E : Deployment) (action : Action) (data : Data) : Prop :=
  action.notify ≠ .always ∧ (action.notify = .onCondition → holds E action data = true)

/-- What is known of a task after its runs: the row names the previous result or
nothing, and what was worth it has been reported. -/
structure Kept (older : List (Entry E init)) (w : Watch) : Prop where
  id : w.task.taskId = init.task.taskId
  action : w.task.action = init.task.action
  last : w.task.previous = "" ∨
    ∃ d, previous older = some d ∧ Fingerprint.of E.letters d = some w.task.previous
  reported : ∀ d, previous older = some d → Worth E init.task.action d →
    ∃ x ∈ w.items, x.taskId = init.task.taskId ∧ some x.fingerprint = Fingerprint.of E.letters d

theorem previous_data {e : Entry E init} {older : List (Entry E init)} {data : Data}
    (h : dataOf e.call.answer = some data) : previous (e :: older) = some data := by
  simp [previous, h]

theorem previous_other {e : Entry E init} {older : List (Entry E init)}
    (h : dataOf e.call.answer = none) : previous (e :: older) = previous older := by
  simp [previous, h]

theorem new_kept (h : New init) : Kept ([] : List (Entry E init)) init where
  id := rfl
  action := rfl
  last := .inl (by simp [TaskRow.previous, h.first])
  reported d hd := by cases hd

theorem not_creates {e : Entry E init} (h : e.post.items = e.pre.items) : ¬ Creates e := by
  rintro ⟨item, hpost, hpre⟩
  exact hpre (h ▸ hpost)

theorem kept_other {e : Entry E init} {older : List (Entry E init)} (hkept : Kept older e.pre)
    (hdata : dataOf e.call.answer = none) : Kept (e :: older) e.post ∧ ¬ Creates e := by
  obtain ⟨hid, haction, hitems, hlast⟩ := run_other (E := E) (w := e.pre) hdata
  change e.post.task.previous = "" ∨ e.post.task.previous = e.pre.task.previous at hlast
  change e.post.items = e.pre.items at hitems
  refine ⟨⟨hid.trans hkept.id, haction.trans hkept.action, ?_, ?_⟩, not_creates hitems⟩
  · rcases hlast with hlast | hlast
    · exact .inl hlast
    · rw [previous_other hdata, hlast]
      exact hkept.last
  · rw [previous_other hdata, hitems]
    exact hkept.reported

/-- What is not due though it is worth it has been reported before. -/
theorem reported_before {older : List (Entry E init)} {w : Watch} {data : Data}
    (hkept : Kept older w) (hworth : Worth E init.task.action data)
    (hdue : ¬ Due E init.task.action (previous older) data) :
    ∃ x ∈ w.items, x.taskId = init.task.taskId ∧
      some x.fingerprint = Fingerprint.of E.letters data := by
  unfold Due at hdue
  cases hnotify : init.task.action.notify with
  | always => exact absurd hnotify hworth.1
  | onChange =>
    simp only [hnotify, Differs, not_forall, not_not] at hdue
    obtain ⟨d, hd, hsame⟩ := hdue
    rw [← hsame]
    exact hkept.reported d hd ⟨hworth.1, fun h => by rw [hnotify] at h; cases h⟩
  | onCondition =>
    simp only [hnotify, hworth.2 hnotify, true_and, not_or, not_forall, Differs, not_not,
      Bool.not_eq_false] at hdue
    obtain ⟨⟨d, hd, hholds⟩, d', hd', hsame⟩ := hdue
    cases hd.symm.trans hd'
    rw [← hsame]
    exact hkept.reported d hd ⟨hworth.1, fun _ => hholds⟩

/-- A result that is due differs from the previous one as far as the row tells,
or everything is due. -/
theorem due_differs {older : List (Entry E init)} {e : Entry E init} {data : Data}
    (hreg : Regular older e) (hdata : dataOf e.call.answer = some data)
    (hdue : Due E init.task.action (previous older) data) :
    init.task.action.notify = .always ∨ Differs E (previous older) data ∨
      e.pre.task.previous = "" := by
  have hholds := hreg.gated data hdata hdue
  unfold Due at hdue
  cases hnotify : init.task.action.notify with
  | always => exact .inl rfl
  | onChange =>
    rw [hnotify] at hdue
    exact .inr (.inl hdue)
  | onCondition =>
    rw [hnotify] at hdue
    obtain ⟨-, hflip | hdiffers⟩ := hdue
    · right
      by_cases hnone : e.pre.task.previous = ""
      · exact .inr hnone
      · exact .inl (fun d hd => (hreg.turns data hdata d hd hholds (hflip d hd)).resolve_right hnone)
    · exact .inr (.inl hdiffers)

theorem due_reports {older : List (Entry E init)} {e : Entry E init} {data : Data}
    {current : String} (hkept : Kept older e.pre) (hreg : Regular older e)
    (hdata : dataOf e.call.answer = some data)
    (hcurrent : Fingerprint.of E.letters data = some current)
    (hdue : Due E init.task.action (previous older) data) :
    reports E e.pre.task data current = true := by
  have hholds := hreg.gated data hdata hdue
  have hchanged : Differs E (previous older) data ∨ e.pre.task.previous = "" →
      Fingerprint.changed e.pre.task.previous current = true := by
    intro h
    simp only [Fingerprint.changed, ne_eq, Bool.or_eq_true, decide_eq_true_eq]
    rcases h with hdiffers | hnone
    · rcases hkept.last with hnone | ⟨d, hd, hfp⟩
      · exact .inl hnone
      · refine .inr (fun heq => hdiffers d hd ?_)
        rw [hfp, heq, hcurrent]
    · exact .inl hnone
  simp only [reports, hkept.action, hholds, Bool.true_and, Bool.not_eq_true',
    Bool.and_eq_false_iff, decide_eq_false_iff_not, Bool.not_eq_false']
  rcases due_differs hreg hdata hdue with halways | hdiffers
  · left
    rw [halways]
    split <;> decide
  · exact .inr (hchanged hdiffers)

theorem kept_data {e : Entry E init} {older : List (Entry E init)} {data : Data}
    (hkept : Kept older e.pre) (hdata : dataOf e.call.answer = some data)
    (hreg : Regular older e) : Kept (e :: older) e.post ∧
      (Creates e ↔ Due E init.task.action (previous older) data) := by
  obtain ⟨current, hcurrent, hid, haction, hprev, item, htask, hfp, hnote, hitems⟩ :=
    run_data hdata (hreg.readable data hdata)
  change e.post.task.taskId = _ at hid
  change e.post.task.action = _ at haction
  change e.post.task.previous = _ at hprev
  change e.post.items = _ at hitems
  have hdone : Due E init.task.action (previous older) data →
      reports E e.pre.task data current = true ∧ item.Fresh e.pre.items := by
    refine fun hdue => ⟨due_reports hkept hreg hdata hcurrent hdue, fun x hx => ?_⟩
    have hfresh := hreg.fresh data hdata hdue x hx
    rw [hcurrent] at hfresh
    refine ⟨?_, fun hsame => hfresh.2 ⟨hsame.1.trans (htask.trans hkept.id), ?_⟩⟩
    · rw [hnote, hkept.id]
      exact hfresh.1
    · rw [hsame.2, hfp]
  have hundone : ¬ Due E init.task.action (previous older) data → Worth E init.task.action data →
      ¬ item.Fresh e.pre.items := by
    intro hdue hworth hfresh
    obtain ⟨x, hx, hxtask, hxfp⟩ := reported_before hkept hworth hdue
    rw [hcurrent] at hxfp
    exact (hfresh x hx).2 ⟨hxtask.trans (hkept.id.symm.trans htask.symm),
      (Option.some.inj hxfp).trans hfp.symm⟩
  refine ⟨⟨hid.trans hkept.id, haction.trans hkept.action, .inr ⟨data, previous_data hdata, by
    rw [hprev, hcurrent]⟩, fun d hd hworth => ?_⟩, ?_⟩
  · rw [previous_data hdata] at hd
    cases hd
    rw [hitems]
    by_cases hdue : Due E init.task.action (previous older) data
    · rw [if_pos (hdone hdue), hcurrent]
      exact ⟨item, List.mem_cons_self .., htask.trans hkept.id, by rw [hfp]⟩
    · rw [if_neg (fun h => hundone hdue hworth h.2)]
      exact reported_before hkept hworth hdue
  · constructor
    · rintro ⟨x, hpost, hpre⟩
      rw [hitems] at hpost
      split at hpost
      · rename_i h
        by_contra hdue
        apply hundone hdue ?_ h.2
        have hreports := h.1
        simp only [reports, hkept.action, Bool.and_eq_true] at hreports
        exact ⟨fun halways => hdue (by simp only [Due, halways]), fun _ => hreports.1⟩
      · exact absurd hpost hpre
    · intro hdue
      obtain ⟨-, hfresh⟩ := hdone hdue
      refine ⟨item, ?_, fun hmem => (hfresh item hmem).1 rfl⟩
      rw [hitems, if_pos (hdone hdue)]
      exact List.mem_cons_self ..

/-- Along a run that keeps to the condition, every notification is there that is due. -/
theorem run_kept {log : List (Entry E init)} {w : Watch} (hnew : New init)
    (hrun : (watching E init).Run (fun _ _ => True) log w) (hreg : Machine.Each Regular log) :
    Kept log w ∧ Reported log := by
  induction hrun with
  | start => exact ⟨new_kept hnew, fun newer e older h => by simp at h⟩
  | @step older w c hr _ ih =>
    obtain ⟨hkept, hreported⟩ := ih hreg.2
    set e : Entry E init := ⟨w, c⟩ with he
    have hbefore : ∀ newer k below, e :: older = newer ++ k :: below → newer ≠ [] →
        ∀ data, dataOf k.call.answer = some data →
          (Creates k ↔ Due E init.task.action (previous below) data) := by
      intro newer k below h hne
      cases newer with
      | nil => exact absurd rfl hne
      | cons n newer => exact hreported newer k below (List.cons.inj h).2
    cases hdata : dataOf c.answer with
    | none =>
      obtain ⟨hkept', -⟩ := kept_other (e := e) hkept hdata
      refine ⟨hkept', fun newer k below h data hk => ?_⟩
      cases newer with
      | nil =>
        cases (List.cons.inj h).1
        exact absurd (hk.symm.trans hdata) (by simp)
      | cons n newer => exact hbefore _ _ _ h (by simp) data hk
    | some data =>
      obtain ⟨hkept', hdue⟩ := kept_data (e := e) hkept hdata hreg.1
      refine ⟨hkept', fun newer k below h data' hk => ?_⟩
      cases newer with
      | nil =>
        obtain ⟨hk', rfl⟩ := List.cons.inj h
        subst hk'
        cases hk.symm.trans hdata
        exact hdue
      | cons n newer => exact hbefore _ _ _ h (by simp) data' hk

/-! ### What a fingerprint tells apart -/

open Fingerprint

/-- One step into a result. -/
inductive Step where
  | key (name : String)
  | entry (index : Nat)
deriving DecidableEq

/-- An identifying field: where it stands, and its value. -/
structure Field where
  within : List Step
  name : String
  value : Scalar
deriving DecidableEq

variable (L : Letters)

mutual
def fields (at_ : List Step) : Data → List Field
  | .scalar _ => []
  | .list xs => entryFields at_ 0 xs
  | .dict kvs => memberFields at_ kvs

def entryFields (at_ : List Step) : Nat → List Data → List Field
  | _, [] => []
  | i, x :: xs => fields (at_ ++ [.entry i]) x ++ entryFields at_ (i + 1) xs

def memberFields (at_ : List Step) : List (String × Data) → List Field
  | [] => []
  | (key, value) :: kvs =>
    (if isVolatile (L.lower key) then [] else match value with
      | .scalar v => if isIdentifying (L.lower key) then [⟨at_, key, v⟩] else []
      | value => fields (at_ ++ [.key key]) value) ++ memberFields at_ kvs
end

/-- An identifying field of one result that the other does not have, in an entry
of a list. -/
def DifferInEntry (d d' : Data) : Prop :=
  ∃ f : Field, (∃ i, Step.entry i ∈ f.within) ∧
    (f ∈ fields L [] d ∧ f ∉ fields L [] d' ∨ f ∈ fields L [] d' ∧ f ∉ fields L [] d)

/-- Within the first hundred entries of every list. -/
def early (at_ : List Step) : Bool :=
  at_.all (fun step => match step with
    | .entry i => i < 100
    | .key _ => true)

/-- The keys on the way, without the positions. -/
def path (at_ : List Step) : String :=
  at_.foldl (fun s step => match step with
    | .entry _ => s
    | .key name => s ++ L.lower name ++ ".") ""

def Field.line (f : Field) : Option String :=
  (scalarText f.value).map (fun s => path L f.within ++ L.lower f.name ++ "=" ++ s)

/-- What is told of a result: the lines of the early fields without their
positions, in order, two hundred at most; or else the text. -/
def told (d : Data) : Option Material := do
  let lines ← ((fields L [] d).filter (fun f => early f.within)).mapM (Field.line L)
  some (if parts lines = [] then .text (normalized L d)
    else .parts (String.intercalate "\n" (parts lines)))

variable {L}

theorem path_entry (at_ : List Step) (i : Nat) : path L (at_ ++ [.entry i]) = path L at_ := by
  simp [path, List.foldl_append]

theorem path_key (at_ : List Step) (key : String) :
    path L (at_ ++ [.key key]) = path L at_ ++ L.lower key ++ "." := by
  simp [path, List.foldl_append]

@[simp] theorem early_key (at_ : List Step) (name : String) :
    early (at_ ++ [.key name]) = early at_ := by
  simp [early]

@[simp] theorem early_entry (at_ : List Step) (i : Nat) :
    early (at_ ++ [.entry i]) = (early at_ && decide (i < 100)) := by
  simp [early]

theorem member_fields (at_ : List Step) (key : String) (value : Data)
    (kvs : List (String × Data)) : memberFields L at_ ((key, value) :: kvs) =
      (if isVolatile (L.lower key) then [] else match value with
        | .scalar v => if isIdentifying (L.lower key) then [⟨at_, key, v⟩] else []
        | value => fields L (at_ ++ [.key key]) value) ++ memberFields L at_ kvs := by
  rw [memberFields.eq_def]

theorem member_identifiers (s key : String) (value : Data) (kvs : List (String × Data)) :
    memberIdentifiers L s ((key, value) :: kvs) =
      (if isVolatile (L.lower key) then some [] else match value with
        | .scalar v => if isIdentifying (L.lower key) then
            (scalarText v).map (fun t => [s ++ L.lower key ++ "=" ++ t]) else some []
        | value => identifiers L (s ++ L.lower key ++ ".") value).bind (fun found =>
      (memberIdentifiers L s kvs).bind (fun rest => some (found ++ rest))) := by
  rw [memberIdentifiers.eq_def]
  dsimp only [Option.bind_eq_bind]
  split
  · rfl
  · cases value <;> dsimp only
    split <;> rfl

/-! A field stands below the place it was looked for at. -/

mutual
theorem fields_late {at_ : List Step} (hlate : early at_ = false) :
    (d : Data) → (fields L at_ d).filter (fun f => early f.within) = []
  | .scalar _ => by simp [fields]
  | .list xs => by
    rw [fields]
    exact entry_late hlate 0 xs
  | .dict kvs => by
    rw [fields]
    exact member_late hlate kvs

theorem entry_late {at_ : List Step} (hlate : early at_ = false) (i : Nat) :
    (xs : List Data) → (entryFields L at_ i xs).filter (fun f => early f.within) = []
  | [] => by simp [entryFields]
  | x :: xs => by
    rw [entryFields, List.filter_append, fields_late (by simp [hlate]) x,
      entry_late hlate (i + 1) xs, List.append_nil]

theorem member_late {at_ : List Step} (hlate : early at_ = false) :
    (kvs : List (String × Data)) → (memberFields L at_ kvs).filter (fun f => early f.within) = []
  | [] => by simp [memberFields]
  | (key, value) :: kvs => by
    rw [member_fields, List.filter_append, member_late hlate kvs, List.append_nil]
    by_cases hvolatile : isVolatile (L.lower key) = true
    · simp [hvolatile]
    · cases value with
      | scalar v =>
        by_cases hident : isIdentifying (L.lower key) = true
        · simp [hvolatile, hident, hlate]
        · simp [hvolatile, hident]
      | list xs =>
        have h : (fields L (at_ ++ [.key key]) (.list xs)).filter _ = [] :=
          fields_late (by simp [hlate]) (.list xs)
        simp only [hvolatile, Bool.false_eq_true, if_false, h]
      | dict kvs' =>
        have h : (fields L (at_ ++ [.key key]) (.dict kvs')).filter _ = [] :=
          fields_late (by simp [hlate]) (.dict kvs')
        simp only [hvolatile, Bool.false_eq_true, if_false, h]
end

theorem entries_late {at_ : List Step} {i : Nat} (hi : 100 ≤ i) (xs : List Data) :
    (entryFields L at_ i xs).filter (fun f => early f.within) = [] := by
  induction xs generalizing i with
  | nil => simp [entryFields]
  | cons x xs ih =>
    rw [entryFields, List.filter_append, ih (by omega), List.append_nil]
    exact fields_late (by simp; omega) x

/-! What the code finds are the lines of the early fields. -/

mutual
theorem identifiers_fields {at_ : List Step} (hearly : early at_ = true) : (d : Data) →
    identifiers L (path L at_) d =
      ((fields L at_ d).filter (fun f => early f.within)).mapM (Field.line L)
  | .scalar _ => by simp [identifiers, fields]
  | .list xs => by
    rw [identifiers, fields]
    exact elements_fields hearly 0 (by omega) xs
  | .dict kvs => by
    rw [identifiers, fields]
    exact members_fields hearly kvs

theorem elements_fields {at_ : List Step} (hearly : early at_ = true) (i : Nat) {n : Nat}
    (hn : i + n = 100) : (xs : List Data) → elementIdentifiers L (path L at_) n xs =
      ((entryFields L at_ i xs).filter (fun f => early f.within)).mapM (Field.line L)
  | [] => by cases n <;> simp [elementIdentifiers, entryFields]
  | x :: xs => by
    cases n with
    | zero => rw [entries_late (by omega)]; rfl
    | succ n =>
      have hx : identifiers L (path L (at_ ++ [.entry i])) x = _ :=
        identifiers_fields (by simp only [early_entry, hearly]; simp; omega) x
      rw [path_entry] at hx
      rw [elementIdentifiers, entryFields, List.filter_append, List.mapM_append, hx,
        elements_fields hearly (i + 1) (by omega) xs]
      rfl

theorem members_fields {at_ : List Step} (hearly : early at_ = true) :
    (kvs : List (String × Data)) → memberIdentifiers L (path L at_) kvs =
      ((memberFields L at_ kvs).filter (fun f => early f.within)).mapM (Field.line L)
  | [] => by simp [memberIdentifiers, memberFields]
  | (key, value) :: kvs => by
    rw [member_identifiers, member_fields, List.filter_append, List.mapM_append,
      members_fields hearly kvs]
    by_cases hvolatile : isVolatile (L.lower key) = true
    · simp [hvolatile]
    · cases value with
      | scalar v =>
        by_cases hident : isIdentifying (L.lower key) = true
        · cases h : scalarText v <;> simp [hvolatile, hident, hearly, Field.line, h]
        · simp [hvolatile, hident]
      | list xs =>
        have h : identifiers L (path L (at_ ++ [.key key])) (.list xs) = _ :=
          identifiers_fields (by simp only [early_key, hearly]) (.list xs)
        rw [path_key] at h
        simp [hvolatile, h]
      | dict kvs' =>
        have h : identifiers L (path L (at_ ++ [.key key])) (.dict kvs') = _ :=
          identifiers_fields (by simp only [early_key, hearly]) (.dict kvs')
        rw [path_key] at h
        simp [hvolatile, h]
end

theorem material_told (d : Data) : material L d = told L d := by
  have hearly : early ([] : List Step) = true := rfl
  have h := identifiers_fields (L := L) hearly d
  change identifiers L "" d = _ at h
  rw [material, told, h]

theorem tag_other (p q : String) : "id:" ++ p ≠ "txt:" ++ q := by
  intro h
  have hlist := congrArg String.toList h
  rw [String.toList_append, String.toList_append] at hlist
  exact absurd (congrArg List.head? hlist) (by simp)

theorem print_same {m m' : Material} (h : m.print = m'.print) :
    (m.payload = m'.payload → m = m') ∧ digest m.payload = digest m'.payload := by
  cases m with
  | parts p =>
    cases m' with
    | parts q => exact ⟨fun hpq => congrArg _ hpq, (String.append_right_inj _).mp h⟩
    | text q => exact absurd h (tag_other _ _)
  | text p =>
    cases m' with
    | parts q => exact absurd h.symm (tag_other _ _)
    | text q => exact ⟨fun hpq => congrArg _ hpq, (String.append_right_inj _).mp h⟩

/-- Two results that differ in an entry of a list have different fingerprints. -/
def Distinguished (L : Letters) (d d' : Data) : Prop := DifferInEntry L d d' → of L d ≠ of L d'

/-- Both have a fingerprint, and the hashes of what they are made of do not collide. -/
structure Comparable (L : Letters) (d d' : Data) : Prop where
  left : (of L d).isSome
  right : (of L d').isSome
  collision : ∀ m m', material L d = some m → material L d' = some m' →
    digest m.payload = digest m'.payload → m.payload = m'.payload

theorem of_told {d d' : Data} (h : Comparable L d d') :
    of L d = of L d' ↔ told L d = told L d' := by
  have hleft := h.left
  have hright := h.right
  have hcoll := h.collision
  rw [← material_told, ← material_told]
  simp only [of] at hleft hright ⊢
  cases hm : material L d with
  | none => simp [hm] at hleft
  | some m =>
    cases hm' : material L d' with
    | none => simp [hm'] at hright
    | some m' =>
      simp only [Option.map_some, Option.some.injEq]
      refine ⟨fun hprint => ?_, fun heq => by rw [heq]⟩
      obtain ⟨hsame, hdigest⟩ := print_same hprint
      exact hsame (hcoll m m' hm hm' hdigest)

/-- A change is reported once as long as the runs are regular, and an entry of a
list is told apart iff what is told of the results differs. -/
theorem reported_once {log : List (Entry E init)} {w : Watch} (hnew : New init)
    (hrun : (watching E init).Run (fun _ _ => True) log w) (hreg : Machine.Each Regular log) :
    Reported log ∧ ∀ d d', Comparable E.letters d d' → (Distinguished E.letters d d' ↔
      (DifferInEntry E.letters d d' → told E.letters d ≠ told E.letters d')) := by
  refine ⟨(run_kept hnew hrun hreg).2, fun d d' hcomp => ?_⟩
  unfold Distinguished
  rw [ne_eq, ne_eq, of_told hcomp]

/-! ### A sample -/

/-- The letters of ASCII, and the zone of Greenwich. -/
def sample : Deployment where
  letters := ⟨fun s => String.ofList (s.toList.map Char.toLower), fun c => c.isAlphanum || c = '_'⟩
  zone := ⟨fun t => ⌊t / 60⌋, fun n => n * 60⟩
  credential _ := false
  repr := Data.dumps

def sampleTask : TaskRow where
  taskId := "bt-1"
  owner := "dieter"
  title := "Termine"
  createdAt := 0
  createdFrom := "local"
  schedule := ⟨every 600, by decide⟩
  action := { deed := .research "Termine der Woche" }

def sampleInit : Watch := ⟨sampleTask, []⟩

/-- One appointment, and none. -/
def busy : Data := .dict [("termine", .list [.dict [("id", .string "e1")]])]

def idle : Data := .dict [("termine", .list [])]

def sampleRun (data : Data) (occurrence : Rat) : Ran :=
  ⟨occurrence, .data data "research" "", occurrence, "Exception"⟩

def sampleLog (runs : List Ran) : List (Entry sample sampleInit) :=
  (watching sample sampleInit).history [] sampleInit runs

theorem sample_new : New sampleInit := ⟨fun x hx => (by cases hx), rfl⟩

theorem sample_ran (runs : List Ran) : (watching sample sampleInit).Run (fun _ _ => True)
    (sampleLog runs) ((watching sample sampleInit).after sampleInit runs) :=
  Machine.Run.start.history (fun _ _ _ => trivial)

theorem sample_regular {older : List (Entry sample sampleInit)} {e : Entry sample sampleInit}
    (data : Data) (hdata : dataOf e.call.answer = some data)
    (hpre : e.pre.task.action = sampleTask.action)
    (hread : (of sample.letters data).isSome)
    (hfresh : ∀ x ∈ e.pre.items,
      x.notificationId ≠ notificationId (runIdFor sampleTask.taskId e.call.occurrence)
        ((of sample.letters data).getD "") ∧
      ¬ (x.taskId = sampleTask.taskId ∧ some x.fingerprint = of sample.letters data)) :
    Regular older e where
  readable d hd := by
    cases hd.symm.trans hdata
    refine ⟨hread, fun c hc => ?_, by simp [sample]⟩
    rw [hpre] at hc
    cases hc
  gated _ _ _ := rfl
  turns _ _ _ _ _ h := by cases h
  fresh d hd _ := by
    cases hd.symm.trans hdata
    exact hfresh

theorem sample_each :
    Machine.Each Regular (sampleLog [sampleRun busy 600, sampleRun idle 1200]) :=
  show Regular _ _ ∧ Regular _ _ ∧ True from
    ⟨sample_regular idle rfl rfl (by decide +kernel) (by decide +kernel),
      sample_regular busy rfl rfl (by decide +kernel) (by decide +kernel), trivial⟩

theorem reported_once_sample : Reported (sampleLog [sampleRun busy 600, sampleRun idle 1200]) :=
  (reported_once sample_new (sample_ran _) sample_each).1

/-- Two lamps, of which one is on. -/
def lamps (first second : String) : Data :=
  .dict [("lichter", .list [.dict [("state", .string first)], .dict [("state", .string second)]])]

/-- What was there before is never reported again, and two lamps that change
places are no change. -/
theorem news_swallowed :
    (¬ ∀ (E : Deployment) (init : Watch) (log : List (Entry E init)) (w : Watch), New init →
      (watching E init).Run (fun _ _ => True) log w → Reported log) ∧
    ¬ ∀ (L : Letters) (d d' : Data), Comparable L d d' → Distinguished L d d' := by
  constructor
  · intro h
    have hlog := h sample sampleInit _ _ sample_new
      (sample_ran ([sampleRun busy 600, sampleRun idle 1200] ++ [sampleRun busy 1800]))
    have hdue := hlog [] _ _ (Machine.history_concat (m := watching sample sampleInit) ..) busy rfl
    have hdiffers : Differs sample (some idle) busy := fun d hd => by
      cases hd
      decide +kernel
    exact not_creates (e := ⟨_, sampleRun busy 1800⟩) (by decide +kernel) (hdue.mpr hdiffers)
  · intro h
    refine h sample.letters (lamps "on" "off") (lamps "off" "on")
      ⟨by decide +kernel, by decide +kernel, fun m m' hm hm' _ => ?_⟩
      ⟨⟨[.key "lichter", .entry 0], "state", .str "on"⟩, ⟨0, by decide⟩,
        .inl ⟨by decide +kernel, by decide +kernel⟩⟩ (by decide +kernel)
    have hsame : material sample.letters (lamps "on" "off") =
      material sample.letters (lamps "off" "on") := by decide +kernel
    rw [hm, hm'] at hsame
    rw [Option.some.inj hsame]

end Solvio.Proactive.Reports
