import Solvio.Capabilities.Grants

namespace Solvio.Capabilities.Bound
open Solvio.Lib Solvio.Proactive Grants
open Background (maxTasks newTask refuses)

variable (H : House)

abbrev Event : Type := (world H).Event

/-! ### What a direct run rests on -/

/-- What a verification has at hand. -/
structure Grounds where
  spec : Spec
  classification : Classification
  task : TaskRow
  grant : Preauthorization

/-- The effect that a verification recomputes. -/
def Grounds.effect (x : Grounds) (call : Call) : Effect where
  automationId := call.automationId
  capability := call.name
  actionClass := x.classification.actionClass
  targets := x.classification.targets
  arguments := call.arguments
  schedule := scheduleBinding x.task.schedule

variable {H}

/-- The event measures the call, and this is the class. -/
def Measures (e : Event H) (call : Call) (spec : Spec) (cl : Classification) : Prop :=
  e.call.op = .classify spec call.arguments ∧ H.spec call.name = some spec ∧
    measure H spec call.arguments e.call.input.boundary e.call.input.broken = some cl

/-- The event reads the automation, and it is running. -/
def FindsRunning (e : Event H) (id : String) (task : TaskRow) : Prop :=
  e.call.op = .getTask id ∧ e.pre.tasks.find? id = some task ∧ task.running = true

/-- The event reads the grant. -/
def FindsGrant (e : Event H) (id : String) (grant : Preauthorization) : Prop :=
  e.call.op = .getPreauth id ∧ e.pre.grants.find? id = some grant

/-- Where a grant comes from: an origin that may grant, and an effect on a device
that is not relevant to security. -/
def Born (g : Preauthorization) : Prop :=
  g.createdOrigin ∈ mayGrant ∧ g.targets ≠ [] ∧ ∃ e : Effect, e.automationId = g.automationId ∧
    e.capability = g.capability ∧ e.actionClass = eligibleClass ∧ e.targets = g.targets ∧
    g.digest = e.digest

/-- The call was measured, its automation found running and then its grant found,
and nothing else was asked for since: the grant is active and has the digest of the
effect. -/
def Granted (call : Call) (mine : List (Event H)) : Prop :=
  ∃ granted found measured rest, mine = granted :: found :: measured :: rest ∧ ∃ x : Grounds,
    Measures measured call x.spec x.classification ∧ FindsRunning found call.automationId x.task ∧
    FindsGrant granted call.automationId x.grant ∧ x.grant.active = true ∧
    x.classification.actionClass = eligibleClass ∧ x.grant.digest = (x.effect call).digest

/-- The call was measured, and only reads. -/
def OnlyReads (call : Call) (mine : List (Event H)) : Prop :=
  ∃ measured rest spec cl, mine = measured :: rest ∧ Measures measured call spec cl ∧
    cl.actionClass = .readOnly

/-! ### What the programs may ask for -/

variable (H)

def permits : (world H).Discipline := fun L a =>
  match a.op with
  | .run call false => call.origin = .backgroundAutomation → H.enforced = true →
    call.name ∉ specialPolicy →
      OnlyReads call (Shared.own a.task L) ∨ Granted call (Shared.own a.task L)
  | .putPreauth g _ => Born g ∧ g.active = true
  | _ => True

/-- Whatever is no direct run, and a new grant only if it is one that may be. -/
def Free : Op → Prop
  | .run _ false => False
  | .putPreauth g _ => Born g ∧ g.active = true
  | _ => True

variable {H}

theorem free_permits {L : List (Event H)} {a : (world H).Act} (h : Free a.op) : permits H L a := by
  unfold permits
  split
  · rename_i hop
    rw [hop] at h
    exact h.elim
  · rename_i hop
    rw [hop] at h
    exact h
  · trivial

theorem own_step {task : Nat} {L L' : List (Event H)} (hlater : Shared.Later task L L') (s : Desk)
    (op : Op) (input : Outside) : Shared.own task (⟨s, ⟨task, op, input⟩⟩ :: L' : List (Event H)) =
      ⟨s, ⟨task, op, input⟩⟩ :: Shared.own task L := by
  have h : Shared.own task (⟨s, ⟨task, op, input⟩⟩ :: L' : List (Event H)) =
      ⟨s, ⟨task, op, input⟩⟩ :: Shared.own task L' := Shared.own_cons_self rfl L'
  rw [h, hlater.own_eq]

/-- A verification that finds something has found a grant of the effect. -/
theorem verify_safe {task : Nat} {L : List (Event H)} {measured : Event H}
    {rest : List (Event H)} {call : Call} {spec : Spec} {cl : Classification}
    (hown : Shared.own task L = measured :: rest) (hmeasured : Measures measured call spec cl) :
    Shared.Safe (permits H) task (verifyPreauth call cl) L (fun L id =>
      id ≠ "" → Granted call (Shared.own task L)) := by
  simp only [verifyPreauth, ask, Prog.bind_request]
  intro L' s _ hlater input
  refine ⟨free_permits trivial, ?_⟩
  have hfound := own_step hlater s (.getTask call.automationId) input
  rw [hown] at hfound
  cases hrow : s.tasks.find? call.automationId with
  | none =>
    simp only [step, hrow]
    exact fun hne => absurd rfl hne
  | some row =>
    simp only [step, hrow]
    by_cases hrunning : row.running = true
    · simp only [hrunning, if_true]
      intro L'' s' _ hlater' input'
      refine ⟨free_permits trivial, ?_⟩
      have hgranted := own_step hlater' s' (.getPreauth call.automationId) input'
      rw [hfound] at hgranted
      cases hverify : verify (s'.grants.find? call.automationId) {
          automationId := call.automationId
          capability := call.name
          actionClass := cl.actionClass
          targets := cl.targets
          arguments := call.arguments
          schedule := scheduleBinding row.schedule } with
      | error e =>
        simp only [step, hverify]
        exact fun hne => absurd rfl hne
      | ok id =>
        simp only [step, hverify]
        intro _
        obtain ⟨g, hg, hactive, hid, hcap, hclass, hdigest, -⟩ := verify_ok hverify
        exact ⟨_, _, _, rest, hgranted, ⟨spec, cl, row, g⟩, hmeasured, ⟨rfl, hrow, hrunning⟩,
          ⟨rfl, hg⟩, hactive, hclass, hdigest⟩
    · simp only [hrunning]
      exact fun hne => absurd rfl hne

/-- What follows from a decision is free, or the run that it permits. -/
theorem proceed_safe {task : Nat} {L : List (Event H)} {measured : Event H}
    (rest : List (Event H)) {call : Call} {spec : Spec} {cl : Classification} {preauth : String}
    (hmeasured : Measures measured call spec cl)
    (hgrounds : preauth = "" ∧ (cl.actionClass = .readOnly → Shared.own task L = measured :: rest) ∨
      Granted call (Shared.own task L)) :
    Shared.Safe (permits H) task (proceed H call cl preauth) L (fun _ _ => True) := by
  simp only [proceed, ask, Prog.bind_request]
  split
  · trivial
  · rename_i hdeny
    split
    · intro L' s _ _ input
      refine ⟨free_permits trivial, ?_⟩
      cases happroved : input.approved with
      | false =>
        simp only [step, happroved]
        trivial
      | true =>
        simp only [step, happroved]
        exact fun L'' s' _ _ input' => ⟨free_permits trivial, trivial⟩
    · rename_i hask
      intro L' s _ hlater input
      refine ⟨?_, trivial⟩
      intro horigin henforced hspecial
      rw [hlater.own_eq]
      rcases hgrounds with ⟨rfl, hown⟩ | hgranted
      · by_cases hread : cl.actionClass = .readOnly
        · exact .inl ⟨measured, rest, spec, cl, hown hread, hmeasured, hread⟩
        · rw [horigin] at hdeny hask
          have hguarded : (policyDecide .backgroundAutomation cl.actionClass call.name
              call.untrusted call.commanded "").decision.Guarded :=
            background_guarded hspecial hread (fun h => h.2 rfl)
          rcases hguarded with hface | hdenied
          · simp [needsApproval, henforced, hface] at hask
          · exact absurd hdenied hdeny
      · exact .inr hgranted

theorem execute_launchable (call : Call) : Shared.Launchable (permits H) (execute H call) := by
  intro task
  unfold execute
  cases hspec : H.spec call.name with
  | none => trivial
  | some spec =>
    simp only [ask, Prog.bind_request]
    split
    · intro L s _ hlater input
      refine ⟨free_permits trivial, ?_⟩
      have hown := own_step hlater s (.classify spec call.arguments) input
      cases hcl : measure H spec call.arguments input.boundary input.broken with
      | none =>
        simp only [step, hcl]
        trivial
      | some cl =>
        simp only [step, hcl]
        have hmeasured : Measures (H := H) ⟨s, ⟨task, .classify spec call.arguments, input⟩⟩ call
            spec cl := ⟨rfl, hspec, hcl⟩
        unfold preauthOf
        split
        · rename_i hlooks
          refine (verify_safe hown hmeasured).bind (fun L id hid => proceed_safe [] hmeasured ?_)
          by_cases hempty : id = ""
          · refine .inl ⟨hempty, fun hread => ?_⟩
            simp [looksFor, hread, eligibleClass] at hlooks
          · exact .inr (hid hempty)
        · exact proceed_safe _ hmeasured (.inl ⟨rfl, fun _ => hown⟩)
    · trivial

/-- What is minted from an origin that may grant is a grant. -/
theorem mint_born {e : Effect} {by_ : Granter} {g : Preauthorization} (h : mint e by_ = .ok g)
    (horigin : by_.origin ∈ mayGrant) : Born g ∧ g.active = true := by
  obtain ⟨hid, hcap, hfrom, hclass, hactive, htargets, hdigest⟩ := mint_ok h
  exact ⟨⟨hfrom ▸ horigin, htargets, { e with targets := g.targets }, hid.symm, hcap.symm, hclass,
    rfl, hdigest⟩, hactive⟩

theorem mint_free (c : Creation) (task : TaskRow) (name : String) (arguments : Data)
    (cl : Classification) {origin : OriginClass} (principal : String)
    (horigin : origin.value ∈ mayGrant) :
    (mintForTask c task name arguments cl origin principal).Asks Free := by
  simp only [mintForTask, ask, Prog.bind_request]
  refine ⟨trivial, fun previous => ?_⟩
  dsimp only
  split
  · trivial
  · rename_i grant hmint
    refine ⟨mint_born hmint horigin, fun stored => ?_⟩
    dsimp only
    split <;> trivial

theorem grant_free (c : Creation) (task : TaskRow) : (grantPreauth H c task).Asks Free := by
  unfold grantPreauth
  split
  · trivial
  · split
    · split
      · trivial
      · simp only [ask, Prog.bind_request]
        refine ⟨trivial, fun cl => ?_⟩
        dsimp only
        split
        · trivial
        · split
          · refine ⟨trivial, fun context => ?_⟩
            dsimp only
            split
            · trivial
            · split
              · rename_i horigin
                exact mint_free _ _ _ _ _ _ horigin
              · trivial
          · trivial
    · trivial

theorem create_free (c : Creation) : (create H c).Asks Free := by
  unfold create
  split
  · trivial
  · simp only [ask, Prog.bind_request]
    refine ⟨trivial, fun existing => ?_⟩
    dsimp only
    by_cases hfull : maxTasks ≤ existing
    · rw [if_pos hfull]
      trivial
    · rw [if_neg hfull]
      cases newTask H.background _ c.owner c.spoken c.stored with
      | error e => trivial
      | ok task =>
        dsimp only
        cases refuses H.background task with
        | true => trivial
        | false => exact ⟨trivial, fun _ => grant_free ..⟩

theorem edit_free (id : String) (changes : List (TaskRow → TaskRow)) :
    (edit id changes).Asks Free := by
  simp only [edit, ask, Prog.bind_request]
  refine ⟨trivial, fun task => ?_⟩
  dsimp only
  split
  · trivial
  · refine Prog.Asks.bind (Prog.Asks.foldlM (fun task change => ?_)) (fun _ => trivial)
    exact ⟨trivial, fun _ => trivial⟩

theorem require_free (id : String) : (requireApproval id).Asks Free := by
  simp only [requireApproval, ask, Prog.bind_request]
  refine ⟨trivial, fun task => ?_⟩
  dsimp only
  split
  · trivial
  · exact ⟨trivial, fun _ => trivial⟩

theorem delete_free (id : String) (revokes : Bool) : (delete id revokes).Asks Free := by
  simp only [delete, ask, Prog.bind_request]
  refine ⟨trivial, fun task => ?_⟩
  dsimp only
  split
  · trivial
  · split
    · exact ⟨trivial, fun _ => ⟨trivial, fun _ => trivial⟩⟩
    · exact ⟨trivial, fun _ => trivial⟩

theorem free_launchable {p : Proc Unit} (h : p.Asks Free) : Shared.Launchable (permits H) p :=
  fun _ => Shared.Safe.of_asks h (fun _ _ hop => free_permits hop)

theorem launchable {p : Proc Unit} (h : Launch H p) : Shared.Launchable (permits H) p := by
  cases h with
  | call c => exact execute_launchable c
  | create c => exact free_launchable (create_free c)
  | edit id changes _ => exact free_launchable (edit_free id changes)
  | requireApproval id => exact free_launchable (require_free id)
  | delete id revokes => exact free_launchable (delete_free id revokes)

/-! ### What the store holds -/

/-- What a step leaves of the grant of an automation. -/
theorem step_grant (op : Op) (o : Outside) (s : Desk) (id : String) :
    (step H op o s).2.grants.find? id = match op with
      | .putPreauth g _ => if (s.tasks.find? g.automationId).isSome = true ∧ id = g.automationId
        then some g else s.grants.find? id
      | .deleteTask k => if id = k then none else s.grants.find? id
      | .revokePreauth k reason => if id = k then
        (s.grants.find? k).map (Preauthorization.revoke reason o.now) else s.grants.find? id
      | _ => s.grants.find? id := by
  cases op with
  | putPreauth g _ =>
    simp only [step]
    split
    · rename_i hthere
      simp [hthere, Keyed.key]
    · rename_i hthere
      simp [hthere]
  | deleteTask k => simp [step]
  | revokePreauth k reason => simp [step, revoked]
  | _ => rfl

/-- What a step leaves of an automation. -/
theorem step_task (op : Op) (o : Outside) (s : Desk) (id : String) :
    (step H op o s).2.tasks.find? id = match op with
      | .putTask row => if id = row.taskId then some (merged (s.tasks.find? row.taskId) row)
        else s.tasks.find? id
      | .deleteTask k => if id = k then none else s.tasks.find? id
      | _ => s.tasks.find? id := by
  cases op with
  | putTask row =>
    have hkey : (merged (s.tasks.find? row.taskId) row).taskId = row.taskId := by
      unfold merged
      split <;> rfl
    simp [step, Keyed.key, hkey]
  | deleteTask k => simp [step]
  | putPreauth g _ =>
    simp only [step]
    split <;> rfl
  | _ => rfl

/-- Every grant belongs to an automation, and comes from where grants come from. -/
structure Sound (s : Desk) : Prop where
  owned : ∀ id, (s.grants.find? id).isSome → (s.tasks.find? id).isSome
  born : ∀ id g, s.grants.find? id = some g → Born g

theorem born_revoked {g : Preauthorization} (h : Born g) (reason : String) (now : Rat) :
    Born (g.revoke reason now) := by
  unfold Preauthorization.revoke
  split
  · exact h
  · exact h

theorem Sound.step {s : Desk} (h : Sound s) {op : Op} (hop : ∀ g o, op = .putPreauth g o → Born g)
    (o : Outside) : Sound (step H op o s).2 where
  owned id hid := by
    rw [step_grant] at hid
    rw [step_task]
    cases op with
    | putPreauth g _ =>
      simp only at hid ⊢
      split at hid
      · rename_i hthere
        exact hthere.2 ▸ hthere.1
      · exact h.owned id hid
    | deleteTask k =>
      simp only at hid ⊢
      split at hid
      · cases hid
      · rename_i hne
        rw [if_neg hne]
        exact h.owned id hid
    | revokePreauth k reason =>
      simp only at hid ⊢
      split at hid
      · rename_i heq
        exact h.owned id (by simpa [heq] using hid)
      · exact h.owned id hid
    | putTask row =>
      simp only at hid ⊢
      split
      · rfl
      · exact h.owned id hid
    | _ => exact h.owned id hid
  born id g hg := by
    rw [step_grant] at hg
    cases op with
    | putPreauth g' _ =>
      simp only at hg
      split at hg
      · cases hg
        exact hop _ _ rfl
      · exact h.born id g hg
    | deleteTask k =>
      simp only at hg
      split at hg
      · cases hg
      · exact h.born id g hg
    | revokePreauth k reason =>
      simp only at hg
      split at hg
      · obtain ⟨old, hold, rfl⟩ := Option.map_eq_some_iff.mp hg
        exact born_revoked (h.born k old hold) reason o.now
      · exact h.born id g hg
    | _ => exact h.born id g hg

theorem run_sound {L : List (Event H)} {s : Desk} (hrun : (world H).machine.Run (permits H) L s) :
    Sound s := by
  refine hrun.invariant Sound ⟨fun id hid => ?_, fun id g hg => ?_⟩ (fun L s a hpermits hs => ?_)
  · cases hid
  · cases hg
  · refine hs.step (fun g o hop => ?_) a.input
    simp only [permits, hop] at hpermits
    exact hpermits.1

/-! ### What is revoked, and what is deleted -/

/-- A new grant for the automation is written. -/
def Mints (e : Event H) (id : String) : Prop :=
  ∃ g origin, e.call.op = .putPreauth g origin ∧ g.automationId = id

/-- The automation is written. -/
def Writes (e : Event H) (id : String) : Prop :=
  ∃ row, e.call.op = .putTask row ∧ row.taskId = id

section
variable {newer middle older : List (Event H)} {found lost : Event H} {s : Desk} {id : String}
  {g : Preauthorization}

/-- What is so after a step, and is kept by all that follow but some, is so when
the grant is found, unless one of those came in between. -/
theorem between (hrun : (world H).machine.Run (permits H) (newer ++ found :: middle ++ lost :: older) s)
    {I : Desk → Prop} {B : Event H → Prop} (hstart : I lost.post)
    (hkept : ∀ e, ¬ B e → I e.pre → I e.post) (hno : ¬ I found.pre) : ∃ m ∈ middle, B m := by
  by_contra hnone
  push Not at hnone
  rw [List.append_assoc, List.cons_append] at hrun
  obtain ⟨hbefore, -⟩ := hrun.split
  exact hno (hbefore.carried I hstart (fun m hm => hkept m (hnone m hm))).1

theorem minted_since_revoked
    (hrun : (world H).machine.Run (permits H) (newer ++ found :: middle ++ lost :: older) s)
    {reason : String} (hlost : lost.call.op = .revokePreauth id reason)
    (hfound : FindsGrant found id g) (hactive : g.active = true) : ∃ m ∈ middle, Mints m id := by
  refine between hrun (I := fun s => ∀ g, s.grants.find? id = some g → g.active = false)
    (B := fun e => Mints e id) ?_ ?_ ?_
  · intro g' hg'
    have hpost : lost.post.grants.find? id = _ :=
      step_grant lost.call.op lost.call.input lost.pre id
    simp only [hlost, if_true] at hpost
    rw [hpost] at hg'
    obtain ⟨old, -, rfl⟩ := Option.map_eq_some_iff.mp hg'
    exact Preauthorization.revoke_inactive ..
  · intro e hno hpre g' hg'
    have hgrant : e.post.grants.find? id = _ := step_grant e.call.op e.call.input e.pre id
    rw [hgrant] at hg'
    cases hop : e.call.op with
    | putPreauth new origin =>
      simp only [hop] at hg'
      split at hg'
      · rename_i hthere
        exact absurd ⟨new, origin, hop, hthere.2.symm⟩ hno
      · exact hpre g' hg'
    | deleteTask k =>
      simp only [hop] at hg'
      split at hg'
      · cases hg'
      · exact hpre g' hg'
    | revokePreauth k why =>
      simp only [hop] at hg'
      split at hg'
      · obtain ⟨old, -, rfl⟩ := Option.map_eq_some_iff.mp hg'
        exact Preauthorization.revoke_inactive ..
      · exact hpre g' hg'
    | _ =>
      simp only [hop] at hg'
      exact hpre g' hg'
  · intro hall
    rw [hall g hfound.2] at hactive
    cases hactive

theorem minted_since_deleted
    (hrun : (world H).machine.Run (permits H) (newer ++ found :: middle ++ lost :: older) s)
    (hlost : lost.call.op = .deleteTask id) (hfound : FindsGrant found id g) :
    ∃ m ∈ middle, Mints m id := by
  refine between hrun (I := fun s => s.grants.find? id = none) (B := fun e => Mints e id) ?_ ?_ ?_
  · have hpost : lost.post.grants.find? id = _ :=
      step_grant lost.call.op lost.call.input lost.pre id
    simpa [hlost] using hpost
  · intro e hno hpre
    have hgrant : e.post.grants.find? id = _ := step_grant e.call.op e.call.input e.pre id
    show e.post.grants.find? id = none
    rw [hgrant]
    cases hop : e.call.op with
    | putPreauth new origin =>
      simp only
      split
      · rename_i hthere
        exact absurd ⟨new, origin, hop, hthere.2.symm⟩ hno
      · exact hpre
    | deleteTask k =>
      simp only
      split
      · rfl
      · exact hpre
    | revokePreauth k why =>
      simp only
      split
      · rename_i heq
        rw [← heq, hpre]
        rfl
      · exact hpre
    | _ => exact hpre
  · rw [hfound.2]
    exact fun h => by cases h

theorem written_since_deleted
    (hrun : (world H).machine.Run (permits H) (newer ++ found :: middle ++ lost :: older) s)
    (hlost : lost.call.op = .deleteTask id) (hfound : FindsGrant found id g) :
    ∃ m ∈ middle, Writes m id := by
  have hsplit := hrun
  rw [List.append_assoc, List.cons_append] at hsplit
  have howned := (run_sound hsplit.split.1).owned id (by rw [hfound.2]; rfl)
  refine between hrun (I := fun s => s.tasks.find? id = none) (B := fun e => Writes e id) ?_ ?_ ?_
  · have hpost : lost.post.tasks.find? id = _ :=
      step_task lost.call.op lost.call.input lost.pre id
    simpa [hlost] using hpost
  · intro e hno hpre
    have htask : e.post.tasks.find? id = _ := step_task e.call.op e.call.input e.pre id
    show e.post.tasks.find? id = none
    rw [htask]
    cases hop : e.call.op with
    | putTask row =>
      simp only
      split
      · rename_i heq
        exact absurd ⟨row, hop, heq.symm⟩ hno
      · exact hpre
    | deleteTask k =>
      simp only
      split
      · rfl
      · exact hpre
    | _ => exact hpre
  · intro hnone
    rw [hnone] at howned
    cases howned

end

/-! ### The whole -/

/-- What a pre-authorisation carries, in a world. -/
structure Carries (W : (world H).World) : Prop where
  /-- A background run that nobody was asked about only reads, has its own policy or is
  not under an enforced policy; or its automation was found running and then an active
  grant, with the digest of the effect. -/
  direct : ∀ newer e older call, W.log = newer ++ e :: older → e.call.op = .run call false →
    call.origin = .backgroundAutomation → H.enforced = true → call.name ∉ specialPolicy →
      OnlyReads call (Shared.own e.call.task older) ∨ Granted call (Shared.own e.call.task older)
  /-- A grant that is found comes from where grants come from, and its automation exists. -/
  found : ∀ e ∈ W.log, ∀ id g, FindsGrant e id g → Born g ∧ (e.pre.tasks.find? id).isSome
  revoked : ∀ newer found middle lost older id reason g,
    W.log = newer ++ found :: middle ++ lost :: older → lost.call.op = .revokePreauth id reason →
      FindsGrant found id g → g.active = true → ∃ m ∈ middle, Mints m id
  deleted : ∀ newer found middle lost older id g,
    W.log = newer ++ found :: middle ++ lost :: older → lost.call.op = .deleteTask id →
      FindsGrant found id g → (∃ m ∈ middle, Writes m id) ∧ ∃ m ∈ middle, Mints m id

theorem disciplined_carries {W : (world H).World} (h : W.Disciplined (permits H)) : Carries W where
  direct newer e older call hlog hop horigin henforced hspecial := by
    have hrun := h.run
    rw [hlog] at hrun
    have hpermits := hrun.split.2
    simp only [permits, hop] at hpermits
    exact hpermits horigin henforced hspecial
  found e he id g hfound := by
    obtain ⟨newer, older, hlog, hrun, -⟩ := h.run.of_mem he
    have hsound := run_sound hrun
    exact ⟨hsound.born id g hfound.2, hsound.owned id (by rw [hfound.2]; rfl)⟩
  revoked newer found middle lost older id reason g hlog hlost hfound hactive := by
    have hrun := h.run
    rw [hlog] at hrun
    exact minted_since_revoked hrun hlost hfound hactive
  deleted newer found middle lost older id g hlog hlost hfound := by
    have hrun := h.run
    rw [hlog] at hrun
    exact ⟨written_since_deleted hrun hlost hfound, minted_since_deleted hrun hlost hfound⟩

/-- An enforced policy, a light and the weather. -/
def sample : House where
  background := {
    script := {
      lower := fun s => s
      isWord := Char.isAlphanum
      decimal := fun _ => none
      otherDigit := fun _ => false }
    zone := ⟨fun t => ⌊t / 60⌋, fun n => n * 60⟩
    credential := fun _ => false
    writes := fun t => toString t.num }
  overrides := []
  spec name := some { name := name }
  baseClass _ := .readOnly
  effectiveRisk _ := 1
  admits _ := true
  enforced := true

/-- An automation that looks up the weather. -/
def lookup : Call where
  name := "weather_now"
  arguments := .dict []
  origin := .backgroundAutomation
  automationId := "bt-1"

def lookedUp : (world sample).World :=
  Shared.World.play (world sample) [execute sample lookup] [(0, {}), (0, {})]

theorem looked_up_reach : Shared.World.Reach (Launch sample) lookedUp :=
  Shared.World.Reach.play (by simpa using Launch.call lookup) _

/-- Every run that nobody was asked about has an active grant. -/
def AllGranted (W : (world H).World) : Prop :=
  ∀ e ∈ W.log, ∀ call, e.call.op = .run call false → call.origin = .backgroundAutomation →
    ∃ g, e.pre.grants.find? call.automationId = some g ∧ g.active = true

/-- The devices of an effect in another order. -/
def lights (targets : List String) : Effect where
  automationId := "bt-1"
  capability := "ha_turn_on"
  actionClass := .haNormal
  targets := targets
  arguments := .dict []
  schedule := { art := "daily", zeitzone := "Europe/Berlin", uhrzeit := some "20:00" }

end Solvio.Capabilities.Bound
