import Solvio.Autopilot.Machine

namespace Solvio.Autopilot
open Solvio.Lib

/-! ### What a transition checks -/

namespace Ledger

variable {L : Ledger} {id target : String} {a : Args} {m : Milestone} {t : State} {ws : List Write}

theorem transition_ok (h : L.transition id target a = .ok ws) : ∃ m t,
    L.milestone id = some m ∧ m.state.terminal = false ∧ t.name = target ∧
      L.checkEdge m t = .ok () ∧ L.checkConditions m t a = .ok () ∧
      ws = setFields id (parkFields m t a) ++ setState id t := by
  unfold transition at h
  split at h
  · cases h
  · rename_i m hm
    split at h
    · cases h
    · rename_i hlive
      split at h
      · cases h
      · rename_i t ht
        cases hedge : L.checkEdge m t with
        | error e =>
          rw [hedge] at h
          cases h
        | ok u =>
          cases hcond : L.checkConditions m t a with
          | error e =>
            rw [hedge, hcond] at h
            cases h
          | ok u' =>
            rw [hedge, hcond] at h
            cases h
            exact ⟨m, t, hm, by simpa using hlive, State.name_of_ofName ht, hedge, hcond, rfl⟩

/-- Outside the parked states a transition is an edge of the table. -/
theorem edge_ok (h : L.checkEdge m t = .ok ()) (hp : m.state.parked = false) :
    t ∈ m.state.edges := by
  unfold checkEdge at h
  rw [if_neg (by simp [hp])] at h
  split at h
  · cases h
  · rename_i hallowed
    simpa [allowed] using hallowed

/-- Out of a parked state it goes to the remembered one, or it stops. -/
theorem parked_ok (h : L.checkEdge m t = .ok ()) (hp : m.state.parked = true) :
    t = .stopped ∨ (t.name = m.stateBeforePark ∧ t.name ∈ unpark ∧
      (m.state = .humanRequired → L.openBoundaries m.milestoneId = [])) := by
  unfold checkEdge at h
  by_cases ht : t = .stopped
  · exact Or.inl ht
  · rw [if_pos ⟨hp, ht⟩] at h
    split at h
    · cases h
    · rename_i hopen
      split at h
      · cases h
      · rename_i hname
        split at h
        · cases h
        · rename_i hun
          have hname : t.name = m.stateBeforePark := by simpa using hname
          refine Or.inr ⟨hname, by rw [hname]; simpa using hun, fun hs => ?_⟩
          by_contra hne
          exact hopen ⟨hne, hs⟩

theorem conditions_ready (h : L.checkConditions m t a = .ok ()) (ht : t = .ready) :
    (L.readyCheck m.milestoneId a.gateEvidenceId a.leadVerdict).ok = true := by
  subst ht
  by_contra hno
  simp [checkConditions, hno, throw, throwThe, MonadExceptOf.throw, bind, Except.bind] at h

theorem conditions_blocked (h : L.checkConditions m t a = .ok ()) (ht : t = .blocked) :
    a.blockReason ∈ blockReasons := by
  subst ht
  by_contra hno
  simp [checkConditions, hno, throw, throwThe, MonadExceptOf.throw, bind, Except.bind] at h

theorem conditions_human (h : L.checkConditions m t a = .ok ()) (ht : t = .humanRequired) :
    L.openBoundaries m.milestoneId ≠ [] := by
  subst ht
  intro hnone
  simp [checkConditions, hnone, throw, throwThe, MonadExceptOf.throw, bind, Except.bind] at h
  split at h <;> cases h

end Ledger

/-! ### What the statements do to the milestones -/

namespace Ledger

theorem resolve_ok {L : Ledger} {bid text id : String} {ws : List Write}
    (h : L.resolveBoundary bid text = .ok (id, ws)) : ∃ b, L.boundaries.find? bid = some b ∧
      b.isOpen = true ∧ b.milestoneId = id ∧ ws = [.resolveBoundary bid (cap text maxDetail),
        .insertEvent ⟨id, "boundary_resolved", bid⟩] := by
  unfold resolveBoundary at h
  split at h
  · cases h
  · rename_i b hb
    split at h
    · rename_i hopen
      cases h
      exact ⟨b, hb, hopen, rfl, rfl⟩
    · cases h

variable {L L' : Ledger} {w : Write} {ws : List Write} {id : String} {m : Milestone}

/-- What a statement makes of a milestone's row. -/
def updated (id : String) (m : Milestone) : Write → Milestone
  | .setFields k fs => if k = id then m.setAll fs else m
  | .setState k s => if k = id then { m with state := s } else m
  | _ => m

theorem apply_milestone (h : apply w L = some L') (hm : L.milestone id = some m) :
    L'.milestone id = some (updated id m w) := by
  unfold milestone at hm ⊢
  cases w with
  | insertMilestone n =>
    obtain ⟨t, ht, rfl⟩ := Option.map_eq_some_iff.mp h
    have hne : n.milestoneId ≠ id := by
      intro hid
      have hfree := (Table.insert_some ht).1
      rw [show Keyed.key n = id from hid, hm] at hfree
      cases hfree
    exact (Table.find_insert ht id).trans ((if_neg hne).trans hm)
  | setFields k fs =>
    cases h
    simp only [Table.find_modify]
    by_cases hk : k = id
    · subst hk
      simp [hm, updated]
    · rw [if_neg (fun he => hk he.symm), hm, updated, if_neg hk]
  | setState k s =>
    cases h
    simp only [Table.find_modify]
    by_cases hk : k = id
    · subst hk
      simp [hm, updated]
    · rw [if_neg (fun he => hk he.symm), hm, updated, if_neg hk]
  | insertCriterion c | insertEvidence c | insertFinding c | insertDecision c | insertBoundary c =>
    simp only [apply] at h
    split at h
    · obtain ⟨t, -, rfl⟩ := Option.map_eq_some_iff.mp h
      exact hm
    · cases h
  | setCriterion | closeFinding | resolveBoundary | insertEvent =>
    cases h
    exact hm

/-- A new row is the one that is inserted. -/
theorem apply_unknown (h : apply w L = some L') (hm : L.milestone id = none) :
    L'.milestone id = none ∨ ∃ n, w = .insertMilestone n ∧ L'.milestone id = some n := by
  unfold milestone at hm ⊢
  cases w with
  | insertMilestone n =>
    obtain ⟨t, ht, rfl⟩ := Option.map_eq_some_iff.mp h
    have hfind := Table.find_insert ht id
    split at hfind
    · exact Or.inr ⟨n, rfl, hfind⟩
    · exact Or.inl (hfind.trans hm)
  | setFields | setState =>
    cases h
    left
    simp only [Table.find_modify]
    split
    · rename_i hk
      rw [← hk, hm]
      rfl
    · exact hm
  | insertCriterion c | insertEvidence c | insertFinding c | insertDecision c | insertBoundary c =>
    simp only [apply] at h
    split at h
    · obtain ⟨t, -, rfl⟩ := Option.map_eq_some_iff.mp h
      exact Or.inl hm
    · cases h
  | setCriterion | closeFinding | resolveBoundary | insertEvent =>
    cases h
    exact Or.inl hm

/-- Without a statement for it the state stays. -/
theorem exec_state {s : State} (hs : L.state id = some s) (hno : ∀ t, .setState id t ∉ ws) :
    (commits.exec ws L).state id = some s := by
  refine commits.exec_keeps (fun L => L.state id = some s) (fun w hw L L' h hi => ?_) hs
  obtain ⟨m, hm, rfl⟩ := Option.map_eq_some_iff.mp hi
  unfold state
  rw [apply_milestone h hm, Option.map_some]
  cases w with
  | setFields k fs =>
    simp only [updated]
    split
    · rw [Milestone.setAll_state]
    · rfl
  | setState k t =>
    have hk : k ≠ id := fun hk => hno t (hk ▸ hw)
    simp only [updated, if_neg hk]
  | _ => rfl

/-- A state that is met at the end was there or was set. -/
theorem exec_reached {s : State} (hs : (commits.exec ws L).state id = some s)
    (hnew : ∀ m, .insertMilestone m ∈ ws → m.state ≠ s) :
    L.state id = some s ∨ .setState id s ∈ ws := by
  by_contra hor
  rw [not_or] at hor
  refine commits.exec_keeps (fun L => L.state id ≠ some s) (fun w hw L L' h hi => ?_) hor.1 hs
  unfold state at hi ⊢
  cases hm : L.milestone id with
  | none =>
    rcases apply_unknown h hm with hnone | ⟨n, rfl, hn⟩
    · simp [hnone]
    · rw [hn]
      simpa using hnew n hw
  | some m =>
    rw [hm] at hi
    rw [apply_milestone h hm, Option.map_some]
    cases w with
    | setFields k fs =>
      simp only [updated]
      split
      · rw [Milestone.setAll_state]
        exact hi
      · exact hi
    | setState k t =>
      simp only [updated]
      split
      · rename_i hk
        have ht : t ≠ s := fun ht => hor.2 (ht ▸ hk ▸ hw)
        simpa using ht
      · exact hi
    | _ => exact hi

end Ledger

/-! ### Where a state is set -/

theorem committed_ok {r : Except Refused (List Write)} {w : Write} (h : w ∈ committed r) :
    ∃ ws, r = .ok ws ∧ w ∈ ws := by
  cases r with
  | error e => cases h
  | ok ws => exact ⟨ws, rfl, h⟩

/-- A transition updates the milestone's row and notes an event. -/
theorem transition_writes {L : Ledger} {id target : String} {a : Args} {w : Write}
    (h : w ∈ committed (L.transition id target a)) :
    (∃ k fs, w = .setFields k fs) ∨ (∃ k s, w = .setState k s) ∨ ∃ e, w = .insertEvent e := by
  obtain ⟨ws, hws, hmem⟩ := committed_ok h
  obtain ⟨m, t, -, -, -, -, -, rfl⟩ := Ledger.transition_ok hws
  rcases List.mem_append.mp hmem with hmem | hmem
  · unfold Ledger.setFields at hmem
    split at hmem
    · cases hmem
    · exact Or.inl ⟨_, _, List.mem_singleton.mp hmem⟩
  · simp only [Ledger.setState, List.mem_cons, List.not_mem_nil, or_false] at hmem
    rcases hmem with rfl | rfl
    · exact Or.inr (Or.inl ⟨_, _, rfl⟩)
    · exact Or.inr (Or.inr ⟨_, rfl⟩)

/-- What the calls commit besides a transition's statements: a new milestone,
fields, or rows of the other tables. -/
inductive Plain (op : Op) : Write → Prop
  | created (id version hash repository : String) (criteria : List (String × String)) :
      op = .createMilestone id version hash repository criteria →
      Plain op (.insertMilestone (Ledger.newMilestone id version hash repository))
  | fields (id : String) (fs : List Field) : op = .setFields id fs → Plain op (.setFields id fs)
  | other (w : Write) : (∀ m, w ≠ .insertMilestone m) → (∀ k fs, w ≠ .setFields k fs) →
      (∀ k s, w ≠ .setState k s) → Plain op w

/-- The statements of a transition set the target's state and nothing else. -/
theorem transition_sets {L : Ledger} {id target k : String} {a : Args} {s : State}
    (h : .setState k s ∈ committed (L.transition id target a)) : k = id ∧ s.name = target ∧
      ∃ ws, L.transition id target a = .ok ws := by
  obtain ⟨ws, hws, hmem⟩ := committed_ok h
  obtain ⟨m, t, hm, -, ht, -, -, rfl⟩ := Ledger.transition_ok hws
  rcases List.mem_append.mp hmem with hmem | hmem
  · unfold Ledger.setFields at hmem
    split at hmem
    · cases hmem
    · cases List.mem_singleton.mp hmem
  · simp only [Ledger.setState, List.mem_cons, List.not_mem_nil, or_false] at hmem
    rcases hmem with he | he
    · cases he
      exact ⟨rfl, ht, _, hws⟩
    · cases he

/-- The composed calls make their transition without any argument, in a ledger
in which every milestone is as it was. -/
def Composed (L : Ledger) (w : Write) : Prop :=
  ∃ (L' : Ledger) (id target : String), (∀ j m, L.milestone j = some m → L'.milestone j = some m) ∧
    w ∈ committed (L'.transition id target {})

theorem exec_milestone {L : Ledger} {ws : List Write} {id : String} {m : Milestone}
    (hm : L.milestone id = some m) (hno : ∀ w ∈ ws, Ledger.updated id m w = m) :
    (commits.exec ws L).milestone id = some m :=
  commits.exec_keeps (fun L => L.milestone id = some m)
    (fun w hw _ _ h hi => (Ledger.apply_milestone h hi).trans (by rw [hno w hw])) hm

/-- Every statement of a call is plain, or one of a transition. -/
theorem op_writes {L : Ledger} {op : Op} {w : Write} (h : w ∈ op.writes L) :
    Plain op w ∨ (∃ id target a, op = .transition id target a ∧
      w ∈ committed (L.transition id target a)) ∨ Composed L w := by
  have hplain : ∀ {w : Write}, (∀ m, w ≠ .insertMilestone m) → (∀ k fs, w ≠ .setFields k fs) →
      (∀ k s, w ≠ .setState k s) → Plain op w ∨ (∃ id target a, op = .transition id target a ∧
        w ∈ committed (L.transition id target a)) ∨ Composed L w :=
    fun h1 h2 h3 => Or.inl (.other _ h1 h2 h3)
  cases op with
  | transition id target a => exact Or.inr (Or.inl ⟨id, target, a, rfl, h⟩)
  | createMilestone id version hash repository criteria =>
    simp only [Op.writes, Ledger.createMilestone, List.cons_append, List.mem_cons, List.mem_append,
      List.mem_map, List.not_mem_nil, or_false] at h
    rcases h with rfl | ⟨c, -, rfl⟩ | rfl
    · exact Or.inl (.created id version hash repository criteria rfl)
    · exact hplain (by simp) (by simp) (by simp)
    · exact hplain (by simp) (by simp) (by simp)
  | setFields id fs =>
    simp only [Op.writes, Ledger.setFields] at h
    split at h
    · cases h
    · cases List.mem_singleton.mp h
      exact Or.inl (.fields id fs rfl)
  | park b =>
    rcases List.mem_append.mp h with h | h
    · simp only [Ledger.openBoundary, List.mem_cons, List.not_mem_nil, or_false] at h
      rcases h with rfl | rfl
      · exact hplain (by simp) (by simp) (by simp)
      · exact hplain (by simp) (by simp) (by simp)
    · refine Or.inr (Or.inr ⟨_, _, _, fun j m hm => exec_milestone hm ?_, h⟩)
      simp [Ledger.openBoundary, Ledger.updated]
  | answer id text =>
    simp only [Op.writes, Ledger.answer] at h
    cases hr : L.resolveBoundary id text with
    | error e =>
      rw [hr] at h
      cases h
    | ok r =>
      obtain ⟨mid, ws⟩ := r
      obtain ⟨b, -, -, -, rfl⟩ := Ledger.resolve_ok hr
      have hws : ∀ w ∈ ([.resolveBoundary id (cap text maxDetail),
          .insertEvent ⟨mid, "boundary_resolved", id⟩] : List Write), Plain (.answer id text) w := by
        intro w hw
        simp only [List.mem_cons, List.not_mem_nil, or_false] at hw
        rcases hw with rfl | rfl
        · exact .other _ (by simp) (by simp) (by simp)
        · exact .other _ (by simp) (by simp) (by simp)
      rw [hr] at h
      simp only at h
      split at h
      · exact Or.inl (hws w h)
      · split at h
        · rcases List.mem_append.mp h with h | h
          · exact Or.inl (hws w h)
          · refine Or.inr (Or.inr ⟨_, _, _, fun j m hm => exec_milestone hm ?_, h⟩)
            simp [Ledger.updated]
        · exact Or.inl (hws w h)
  | unblock id =>
    simp only [Op.writes, Ledger.unblock] at h
    split at h
    · cases h
    · exact Or.inr (Or.inr ⟨L, _, _, fun _ _ hm => hm, h⟩)
  | setCriterion id key st ref =>
    obtain ⟨ws, hws, hmem⟩ := committed_ok h
    unfold Ledger.setCriterion at hws
    split at hws
    · cases hws
    · split at hws
      · cases hws
      · cases hws
        cases List.mem_singleton.mp hmem
        exact hplain (by simp) (by simp) (by simp)
  | closeFinding id =>
    obtain ⟨ws, hws, hmem⟩ := committed_ok h
    unfold Ledger.closeFinding at hws
    split at hws
    · cases hws
    · cases hws
      simp only [List.mem_cons, List.not_mem_nil, or_false] at hmem
      rcases hmem with rfl | rfl
      · exact hplain (by simp) (by simp) (by simp)
      · exact hplain (by simp) (by simp) (by simp)
  | resolveBoundary id text =>
    obtain ⟨ws, hws, hmem⟩ := committed_ok h
    cases hr : L.resolveBoundary id text with
    | error e =>
      rw [hr] at hws
      cases hws
    | ok r =>
      obtain ⟨b, -, -, -, he⟩ := Ledger.resolve_ok hr
      rw [hr] at hws
      cases hws
      rw [he] at hmem
      simp only [List.mem_cons, List.not_mem_nil, or_false] at hmem
      rcases hmem with rfl | rfl
      · exact hplain (by simp) (by simp) (by simp)
      · exact hplain (by simp) (by simp) (by simp)
  | recordEvent e =>
    cases List.mem_singleton.mp h
    exact hplain (by simp) (by simp) (by simp)
  | recordEvidence | openFinding | recordDecision | openBoundary =>
    simp only [Op.writes, Ledger.recordEvidence, Ledger.openFinding, Ledger.recordDecision,
      Ledger.openBoundary, List.mem_cons, List.not_mem_nil, or_false] at h
    rcases h with rfl | rfl
    · exact hplain (by simp) (by simp) (by simp)
    · exact hplain (by simp) (by simp) (by simp)

/-- Only a transition sets a state. -/
theorem op_sets {L : Ledger} {op : Op} {k : String} {s : State} (h : .setState k s ∈ op.writes L) :
    (∃ id target a, op = .transition id target a ∧ .setState k s ∈
      committed (L.transition id target a)) ∨ Composed L (.setState k s) := by
  rcases op_writes h with hplain | hset
  · cases hplain with
    | other _ _ _ hno => exact absurd rfl (hno k s)
  · exact hset

/-- A new milestone starts in PLANNING. -/
theorem op_inserts {L : Ledger} {op : Op} {m : Milestone}
    (h : .insertMilestone m ∈ op.writes L) : m.state = .planning ∧ m.stateBeforePark = "" := by
  rcases op_writes h with hplain | ⟨id, target, a, -, hset⟩ | ⟨L', id, target, -, hset⟩
  · cases hplain with
    | created => exact ⟨rfl, rfl⟩
    | other _ hno _ _ => exact absurd rfl (hno m)
  · rcases transition_writes hset with ⟨k, fs, he⟩ | ⟨k, s, he⟩ | ⟨e, he⟩ <;> cases he
  · rcases transition_writes hset with ⟨k, fs, he⟩ | ⟨k, s, he⟩ | ⟨e, he⟩ <;> cases he

theorem mem_writes {c : Call} {L : Ledger} {w : Write} (h : w ∈ c.writes L) :
    w ∈ c.op.writes L := by
  unfold Call.writes at h
  split at h
  · exact h
  · exact List.mem_of_mem_take h

end Solvio.Autopilot
