import Solvio.Autopilot.Transitions

namespace Solvio.Autopilot
open Solvio.Lib

/-! ### The calls of the autopilot -/

/-- The fields that the driver assigns by itself. -/
def Field.driven : Field → Bool
  | builder _ | currentTask _ | baseCommit _ | lastCommit _ => true
  | _ => false

/-- What the driver and the command line call: boundaries are opened by `park`
and resolved by `answer`, and a block has its hour. -/
def Driven (_ : List Entry) (c : Call) : Prop :=
  match c.op with
  | .setFields _ fs => fs.all Field.driven
  | .openBoundary _ => False
  | .resolveBoundary _ _ => False
  | .transition _ target a => target = "BLOCKED" → a.resumeAt ≠ 0
  | _ => True

/-- A call that moves a parked milestone at all is not cut off behind its first
statement before the state is set. -/
def Whole (L : Ledger) (c : Call) : Prop :=
  ∀ n, c.stops = some n → 0 < n → ∀ id m t, L.milestone id = some m → m.state.parked = true →
    .setState id t ∈ c.op.writes L → .setState id t ∈ (c.op.writes L).take n

/-! ### What has to be found again -/

/-- What a parked milestone needs to go on. -/
structure Kept (L : Ledger) (id : String) (m : Milestone) : Prop where
  origin : m.stateBeforePark ∈ unpark
  blocked : m.state = .blocked → m.blockReason ∈ blockReasons ∧ m.resumeAt ≠ 0
  asked : m.state = .humanRequired → L.openBoundaries id ≠ []

def Sound (L : Ledger) : Prop :=
  ∀ id m, L.milestone id = some m → m.state.parked = true → Kept L id m

/-- Where a parked row comes from: it was parked with this memory, or it has
just been parked and remembers the state before. -/
inductive From (m m' : Milestone) : Prop
  | same : m.state = m'.state → m.stateBeforePark = m'.stateBeforePark → From m m'
  | parked : m.state.parked = false → m'.stateBeforePark = m.state.name → From m m'

def Follows (L L' : Ledger) : Prop :=
  ∀ id m', L'.milestone id = some m' → m'.state.parked = true →
    ∃ m, L.milestone id = some m ∧ From m m'

/-! ### Statements that leave the parked milestones alone -/

def Write.calm : Write → Bool
  | .insertMilestone m => !m.state.parked
  | .setFields _ fs => fs.all Field.driven
  | .setState _ _ => false
  | .resolveBoundary _ _ => false
  | _ => true

/-- The part of a row that parking is about. -/
structure SameRow (m m' : Milestone) : Prop where
  state : m.state = m'.state
  before : m.stateBeforePark = m'.stateBeforePark
  reason : m.blockReason = m'.blockReason
  resumeAt : m.resumeAt = m'.resumeAt

theorem driven_same {f : Field} (hf : f.driven = true) (m : Milestone) : SameRow m (f.set m) := by
  cases f with
  | builder | currentTask | baseCommit | lastCommit => exact ⟨rfl, rfl, rfl, rfl⟩
  | _ => cases hf

theorem setAll_same {fs : List Field} (hfs : fs.all Field.driven = true) (m : Milestone) :
    SameRow m (m.setAll fs) := by
  induction fs generalizing m with
  | nil => exact ⟨rfl, rfl, rfl, rfl⟩
  | cons f fs ih =>
    simp only [List.all_cons, Bool.and_eq_true] at hfs
    have h := driven_same hfs.1 m
    have h' := ih hfs.2 (f.set m)
    exact ⟨h.state.trans h'.state, h.before.trans h'.before, h.reason.trans h'.reason,
      h.resumeAt.trans h'.resumeAt⟩

theorem updated_same {w : Write} (hw : w.calm = true) (id : String) (m : Milestone) :
    SameRow m (Ledger.updated id m w) := by
  cases w with
  | setFields k fs =>
    simp only [Ledger.updated]
    split
    · exact setAll_same hw m
    · exact ⟨rfl, rfl, rfl, rfl⟩
  | setState => cases hw
  | _ => exact ⟨rfl, rfl, rfl, rfl⟩

/-- Open questions stay open, and no parked milestone is made or moved. -/
structure CalmStep (L L' : Ledger) : Prop where
  row : ∀ id m', L'.milestone id = some m' → m'.state.parked = true →
    ∃ m, L.milestone id = some m ∧ SameRow m m'
  asked : ∀ id, L.openBoundaries id ≠ [] → L'.openBoundaries id ≠ []

theorem CalmStep.refl (L : Ledger) : CalmStep L L :=
  ⟨fun _ m hm _ => ⟨m, hm, rfl, rfl, rfl, rfl⟩, fun _ h => h⟩

theorem SameRow.trans {m m' m'' : Milestone} (h : SameRow m m') (h' : SameRow m' m'') :
    SameRow m m'' :=
  ⟨h.state.trans h'.state, h.before.trans h'.before, h.reason.trans h'.reason,
    h.resumeAt.trans h'.resumeAt⟩

theorem CalmStep.trans {L L' L'' : Ledger} (h : CalmStep L L') (h' : CalmStep L' L'') :
    CalmStep L L'' := by
  refine ⟨fun id m'' hm hp => ?_, fun id hn => h'.asked id (h.asked id hn)⟩
  obtain ⟨m', hm', hs'⟩ := h'.row id m'' hm hp
  obtain ⟨m, hm, hs⟩ := h.row id m' hm' (by rw [hs'.state]; exact hp)
  exact ⟨m, hm, hs.trans hs'⟩

theorem apply_boundaries {w : Write} {L L' : Ledger} (h : L.apply w = some L')
    (hw : w.calm = true) : ∀ b ∈ L.boundaries.rows, b ∈ L'.boundaries.rows := by
  intro b hb
  cases w with
  | insertBoundary c =>
    simp only [Ledger.apply] at h
    split at h
    · obtain ⟨t, ht, rfl⟩ := Option.map_eq_some_iff.mp h
      exact ((Table.insert_some ht).2 b).mpr (Or.inl hb)
    · cases h
  | insertMilestone m =>
    obtain ⟨t, -, rfl⟩ := Option.map_eq_some_iff.mp h
    exact hb
  | insertCriterion c | insertEvidence c | insertFinding c | insertDecision c =>
    simp only [Ledger.apply] at h
    split at h
    · obtain ⟨t, -, rfl⟩ := Option.map_eq_some_iff.mp h
      exact hb
    · cases h
  | setState | resolveBoundary => cases hw
  | setFields | setCriterion | closeFinding | insertEvent =>
    cases h
    exact hb

theorem calm_apply {w : Write} {L L' : Ledger} (h : L.apply w = some L') (hw : w.calm = true) :
    CalmStep L L' := by
  refine ⟨fun id m' hm' hp => ?_, fun id hn => ?_⟩
  · cases hm : L.milestone id with
    | none =>
      rcases Ledger.apply_unknown h hm with hnone | ⟨n, rfl, hn⟩
      · rw [hnone] at hm'
        cases hm'
      · rw [hn] at hm'
        cases hm'
        simp only [Write.calm, hp] at hw
        cases hw
    | some m =>
      rw [Ledger.apply_milestone h hm] at hm'
      cases hm'
      exact ⟨m, rfl, updated_same hw id m⟩
  · obtain ⟨b, hb⟩ := List.exists_mem_of_ne_nil _ hn
    obtain ⟨hrow, hopen⟩ := List.mem_filter.mp hb
    exact List.ne_nil_of_mem (List.mem_filter.mpr ⟨apply_boundaries h hw b hrow, hopen⟩)

theorem calm_exec {ws : List Write} (hws : ∀ w ∈ ws, w.calm = true) (L : Ledger) :
    CalmStep L (commits.exec ws L) :=
  commits.exec_keeps (fun L' => CalmStep L L')
    (fun w hw _ _ h hi => hi.trans (calm_apply h (hws w hw))) (.refl L)

theorem CalmStep.sound {L L' : Ledger} (h : CalmStep L L') (hs : Sound L) :
    Sound L' ∧ Follows L L' := by
  refine ⟨fun id m' hm' hp => ?_, fun id m' hm' hp => ?_⟩
  · obtain ⟨m, hm, hsame⟩ := h.row id m' hm' hp
    have hk := hs id m hm (by rw [hsame.state]; exact hp)
    exact ⟨hsame.before ▸ hk.origin, fun hb => by
      rw [← hsame.reason, ← hsame.resumeAt]
      exact hk.blocked (hsame.state.trans hb), fun ha => h.asked id (hk.asked (hsame.state.trans ha))⟩
  · obtain ⟨m, hm, hsame⟩ := h.row id m' hm' hp
    exact ⟨m, hm, .same hsame.state hsame.before⟩

/-! ### A transition, cut anywhere -/

/-- One row is another one, and all else that parking reads is as it was. -/
structure Rewrites (L L' : Ledger) (id : String) (m : Milestone) : Prop where
  row : ∀ j, L'.milestone j = if j = id then some m else L.milestone j
  boundaries : L'.boundaries = L.boundaries

theorem rewrites_fields {L : Ledger} {id : String} {m : Milestone} (hm : L.milestone id = some m)
    (fs : List Field) : ∃ L', L.apply (.setFields id fs) = some L' ∧
      Rewrites L L' id (m.setAll fs) := by
  refine ⟨_, rfl, fun j => ?_, rfl⟩
  simp only [Ledger.milestone, Table.find_modify] at hm ⊢
  rw [hm]
  rfl

theorem rewrites_state {L : Ledger} {id : String} {m : Milestone} (hm : L.milestone id = some m)
    (s : State) : ∃ L', L.apply (.setState id s) = some L' ∧
      Rewrites L L' id { m with state := s } := by
  refine ⟨_, rfl, fun j => ?_, rfl⟩
  simp only [Ledger.milestone, Table.find_modify] at hm ⊢
  rw [hm]
  rfl

theorem Rewrites.trans {L L' L'' : Ledger} {id : String} {m m' : Milestone}
    (h : Rewrites L L' id m) (h' : Rewrites L' L'' id m') : Rewrites L L'' id m' := by
  refine ⟨fun j => ?_, h'.boundaries.trans h.boundaries⟩
  rw [h'.row, h.row]
  split <;> rfl

theorem Rewrites.event {L L' : Ledger} {id : String} {m : Milestone} (h : Rewrites L L' id m)
    (e : Event) : Rewrites L { L' with events := e :: L'.events } id m := ⟨h.row, h.boundaries⟩

/-- The statements of a move: the fields, if any, and then the state. -/
def moveWrites (id : String) (fs : List Field) (t : State) : List Write :=
  Ledger.setFields id fs ++ Ledger.setState id t

/-- How far a move has come. -/
inductive Cut (L L' : Ledger) (id : String) (m : Milestone) (fs : List Field) (t : State)
    (n : Nat) : Prop
  | unmoved : n = 0 → L' = L → Cut L L' id m fs t n
  | fields : .setState id t ∉ (moveWrites id fs t).take n → 0 < n →
      Rewrites L L' id (m.setAll fs) → Cut L L' id m fs t n
  | moved : .setState id t ∈ (moveWrites id fs t).take n →
      Rewrites L L' id { m.setAll fs with state := t } → Cut L L' id m fs t n

theorem exec_move {L : Ledger} {id : String} {m : Milestone} (hm : L.milestone id = some m)
    (fs : List Field) (t : State) (n : Nat) :
    Cut L (commits.exec ((moveWrites id fs t).take n) L) id m fs t n := by
  have hstate : ∀ {L₁ : Ledger} {m₁ : Milestone}, Rewrites L L₁ id m₁ → ∀ k,
      Rewrites L (commits.exec ((Ledger.setState id t).take (k + 1)) L₁) id { m₁ with state := t } := by
    intro L₁ m₁ hr k
    obtain ⟨L₂, hL₂, hr₂⟩ := rewrites_state ((hr.row id).trans (if_pos rfl)) t
    have hboth := hr.trans hr₂
    simp only [Ledger.setState, List.take_succ_cons, Commits.exec, commits, hL₂]
    cases k with
    | zero => exact hboth
    | succ k =>
      simp only [List.take_succ_cons, List.take_nil, Commits.exec, Ledger.apply]
      exact hboth.event _
  unfold moveWrites
  by_cases hfs : fs = []
  · subst hfs
    have hnone : Ledger.setFields id [] = [] := rfl
    cases n with
    | zero => exact .unmoved rfl rfl
    | succ k =>
      refine .moved (by simp [moveWrites, hnone, Ledger.setState]) ?_
      refine hstate ⟨fun j => ?_, rfl⟩ k
      split
      · rename_i hj
        rw [hj]
        exact hm
      · rfl
  · have hsome : Ledger.setFields id fs = [.setFields id fs] := if_neg hfs
    obtain ⟨L₁, hL₁, hr₁⟩ := rewrites_fields hm fs
    rcases n with _ | _ | k
    · exact .unmoved rfl rfl
    · refine .fields (by simp [moveWrites, hsome]) Nat.one_pos ?_
      simp only [hsome, List.singleton_append, List.take_succ_cons, List.take_zero, Commits.exec,
        commits, hL₁]
      exact hr₁
    · refine .moved (by simp [moveWrites, hsome, Ledger.setState]) ?_
      rw [hsome]
      change Rewrites L (commits.exec (.setFields id fs :: (Ledger.setState id t).take (k + 1)) L) id _
      simp only [Commits.exec, commits, hL₁]
      exact hstate hr₁ k

/-- What a park writes into the row. -/
theorem parked_row {m : Milestone} {t : State} {a : Args} (ht : t.parked = true)
    (hm : m.state.parked = false) :
    (m.setAll (Ledger.parkFields m t a)).stateBeforePark = m.state.name ∧
      (t = .blocked → (m.setAll (Ledger.parkFields m t a)).blockReason = a.blockReason ∧
        (m.setAll (Ledger.parkFields m t a)).resumeAt = a.resumeAt) := by
  have hne : m.state ≠ .blocked := by
    intro h
    rw [h] at hm
    cases hm
  cases t with
  | humanRequired =>
    have hf : Ledger.parkFields m .humanRequired a = [.stateBeforePark m.state.name] := by
      simp [Ledger.parkFields, State.parked, hne]
    rw [hf]
    exact ⟨rfl, fun h => by cases h⟩
  | blocked =>
    have hf : Ledger.parkFields m .blocked a =
        [.stateBeforePark m.state.name, .blockReason a.blockReason, .resumeAt a.resumeAt] := by
      simp [Ledger.parkFields, State.parked]
    rw [hf]
    exact ⟨rfl, fun _ => ⟨rfl, rfl⟩⟩
  | _ => cases ht

/-- A milestone is parked out of a state that it may return to. -/
theorem park_origin {L : Ledger} {m : Milestone} {t : State} (h : L.checkEdge m t = .ok ())
    (ht : t.parked = true) : m.state.parked = false ∧ m.state.name ∈ unpark := by
  cases hp : m.state.parked with
  | true =>
    rcases Ledger.parked_ok h hp with rfl | ⟨-, hun, -⟩
    · cases ht
    · cases t with
      | humanRequired | blocked => exact absurd hun (by decide)
      | _ => cases ht
  | false =>
    refine ⟨rfl, ?_⟩
    have hmem := Ledger.edge_ok h hp
    cases hs : m.state with
    | planning | building | testing | reviewing | fixing => decide
    | ready | stopped =>
      rw [hs] at hmem
      cases hmem
    | humanRequired | blocked =>
      rw [hs] at hp
      cases hp

theorem openBoundaries_eq {L L' : Ledger} (h : L'.boundaries = L.boundaries) (id : String) :
    L'.openBoundaries id = L.openBoundaries id := by
  unfold Ledger.openBoundaries
  rw [h]

section transition
variable {L L' : Ledger} {id target : String} {a : Args} {ws : List Write} {m m₁ : Milestone}

/-- All rows but one are kept, and that one is in order. -/
theorem Rewrites.sound (hr : Rewrites L L' id m₁) (hm : L.milestone id = some m)
    (hs : ∀ j n, j ≠ id → L.milestone j = some n → n.state.parked = true → Kept L j n)
    (hrow : m₁.state.parked = true → Kept L id m₁ ∧ From m m₁) : Sound L' ∧ Follows L L' := by
  refine ⟨fun j m' hm' hp => ?_, fun j m' hm' hp => ?_⟩
  · rw [hr.row] at hm'
    have hkeep : Kept L j m' := by
      split at hm'
      · rename_i hj
        cases hm'
        exact hj ▸ (hrow hp).1
      · rename_i hj
        exact hs j m' hj hm' hp
    exact ⟨hkeep.origin, hkeep.blocked, fun hq => by
      rw [openBoundaries_eq hr.boundaries]
      exact hkeep.asked hq⟩
  · rw [hr.row] at hm'
    split at hm'
    · rename_i hj
      cases hm'
      exact ⟨m, hj ▸ hm, (hrow hp).2⟩
    · exact ⟨m', hm', .same rfl rfl⟩

/-- A transition that is whole leaves its row in order, whatever it met. -/
theorem moved_sound (h : L.transition id target a = .ok ws)
    (hs : ∀ j n, j ≠ id → L.milestone j = some n → n.state.parked = true → Kept L j n)
    (ha : a.blockReason ∈ blockReasons → target = "BLOCKED" → a.resumeAt ≠ 0) {n : Nat}
    (hmoved : ∀ t, t.name = target → .setState id t ∈ ws.take n) :
    Sound (commits.exec (ws.take n) L) ∧ Follows L (commits.exec (ws.take n) L) := by
  obtain ⟨m, t, hm, -, ht, hedge, hcond, rfl⟩ := Ledger.transition_ok h
  have hid : m.milestoneId = id := Table.key_of_find hm
  have hin : .setState id t ∈ (moveWrites id (Ledger.parkFields m t a) t).take n := hmoved t ht
  cases exec_move hm (Ledger.parkFields m t a) t n with
  | unmoved hn _ =>
    rw [hn] at hin
    cases hin
  | fields hnot _ _ => exact absurd hin hnot
  | moved _ hr =>
    refine hr.sound hm hs (fun hp => ?_)
    have htp : t.parked = true := hp
    obtain ⟨hlive, horigin⟩ := park_origin hedge htp
    obtain ⟨hbefore, hblocked⟩ := parked_row (a := a) htp hlive
    refine ⟨⟨?_, fun hb => ?_, fun hq => ?_⟩, .parked hlive hbefore⟩
    · change (m.setAll (Ledger.parkFields m t a)).stateBeforePark ∈ unpark
      rw [hbefore]
      exact horigin
    · obtain rfl : t = .blocked := hb
      obtain ⟨hreason, hresume⟩ := hblocked rfl
      have hin := Ledger.conditions_blocked hcond rfl
      change (m.setAll _).blockReason ∈ blockReasons ∧ (m.setAll _).resumeAt ≠ 0
      rw [hreason, hresume]
      exact ⟨hin, ha hin ht.symm⟩
    · obtain rfl : t = .humanRequired := hq
      rw [← hid]
      exact Ledger.conditions_human hcond rfl

theorem transition_sound (hs : Sound L) (h : L.transition id target a = .ok ws)
    (ha : a.blockReason ∈ blockReasons → target = "BLOCKED" → a.resumeAt ≠ 0) (n : Nat)
    (hwhole : ∀ m t, L.milestone id = some m → m.state.parked = true → .setState id t ∈ ws →
      0 < n → .setState id t ∈ ws.take n) :
    Sound (commits.exec (ws.take n) L) ∧ Follows L (commits.exec (ws.take n) L) := by
  obtain ⟨m, t, hm, -, ht, -, -, hws⟩ := Ledger.transition_ok h
  change ws = moveWrites id (Ledger.parkFields m t a) t at hws
  have hcut := exec_move hm (Ledger.parkFields m t a) t n
  rw [← hws] at hcut
  cases hcut with
  | unmoved _ he =>
    rw [he]
    exact (CalmStep.refl L).sound hs
  | fields hnot hpos hr =>
    refine hr.sound hm (fun j n _ hn hp => hs j n hn hp) (fun hp => ?_)
    rw [Milestone.setAll_state] at hp
    rw [← hws] at hnot
    exact absurd (hwhole m t hm hp (by rw [hws]; simp [moveWrites, Ledger.setState]) hpos) hnot
  | moved hin _ =>
    refine moved_sound h (fun j n _ hn hp => hs j n hn hp) ha (fun t' ht' => ?_)
    rw [State.name_injective (ht'.trans ht.symm), hws]
    exact hin

end transition

/-! ### An answer -/

/-- The ledger in which the question is answered. -/
structure Resolved (L L' : Ledger) (bid : String) : Prop where
  milestones : L'.milestones = L.milestones
  openOnes : ∀ j, L'.openBoundaries j =
    (L.openBoundaries j).filter (fun b => b.boundaryId ≠ bid)

theorem resolved_open (rows : List Boundary) (bid text j : String) :
    (rows.map (fun b => if b.boundaryId = bid then { b with isOpen := false, answer := text }
      else b)).filter (fun b => b.milestoneId = j && b.isOpen) =
      (rows.filter (fun b => b.milestoneId = j && b.isOpen)).filter
        (fun b => b.boundaryId ≠ bid) := by
  rw [List.filter_filter]
  induction rows with
  | nil => rfl
  | cons b rows ih =>
    by_cases hb : b.boundaryId = bid
    · simp only [List.map_cons, hb, ↓reduceIte, List.filter_cons, ih]
      simp
    · simp only [List.map_cons, hb, ↓reduceIte, List.filter_cons, ih]
      simp [hb]

theorem resolve_exec {L : Ledger} {bid text id : String} {ws : List Write}
    (h : L.resolveBoundary bid text = .ok (id, ws)) (n : Nat) :
    Resolved L (commits.exec (ws.take (n + 1)) L) bid := by
  obtain ⟨b, -, -, -, rfl⟩ := Ledger.resolve_ok h
  let close (c : Boundary) : Boundary := { c with isOpen := false, answer := cap text maxDetail }
  have hopen : ∀ j, Ledger.openBoundaries
      { L with boundaries := L.boundaries.modify bid close (fun _ => rfl) } j =
      (L.openBoundaries j).filter (fun b => b.boundaryId ≠ bid) := by
    intro j
    have hrows := resolved_open L.boundaries.rows bid (cap text maxDetail) j
    simp only [Ledger.openBoundaries, Table.modify, Table.update, decide_eq_true_eq]
    exact hrows
  rcases n with _ | _ | k
  · exact ⟨rfl, hopen⟩
  · exact ⟨rfl, hopen⟩
  · exact ⟨rfl, hopen⟩

/-- The questions about another milestone stay open. -/
theorem Resolved.others {L L' : Ledger} {bid : String} (h : Resolved L L' bid) {b : Boundary}
    (hb : L.boundaries.find? bid = some b) {j : String} (hj : j ≠ b.milestoneId)
    (hn : L.openBoundaries j ≠ []) : L'.openBoundaries j ≠ [] := by
  obtain ⟨c, hc⟩ := List.exists_mem_of_ne_nil _ hn
  rw [h.openOnes]
  refine List.ne_nil_of_mem (List.mem_filter.mpr ⟨hc, decide_eq_true (fun hid => hj ?_)⟩)
  obtain ⟨hrow, hmine⟩ := List.mem_filter.mp hc
  have hkey : L.boundaries.find? bid = some c := Table.find_some.mpr ⟨hrow, hid⟩
  rw [hb] at hkey
  cases hkey
  simp only [Bool.and_eq_true, decide_eq_true_eq] at hmine
  exact hmine.1.symm

theorem Resolved.kept {L L' : Ledger} {bid : String} (h : Resolved L L' bid) {b : Boundary}
    (hb : L.boundaries.find? bid = some b) (hs : Sound L) :
    ∀ j n, j ≠ b.milestoneId → L'.milestone j = some n → n.state.parked = true → Kept L' j n := by
  intro j n hj hn hp
  unfold Ledger.milestone at hn
  rw [h.milestones] at hn
  have hk := hs j n hn hp
  exact ⟨hk.origin, hk.blocked, fun hq => h.others hb hj (hk.asked hq)⟩

theorem Resolved.follows {L L' L'' : Ledger} {bid : String} (h : Resolved L L' bid)
    (hf : Follows L' L'') : Follows L L'' := by
  intro id m hm hp
  obtain ⟨n, hn, hfrom⟩ := hf id m hm hp
  exact ⟨n, by rw [Ledger.milestone, ← h.milestones]; exact hn, hfrom⟩

/-- The remembered state is open to a parked milestone without a question. -/
theorem unpark_ok {L : Ledger} {id : String} {m : Milestone} (hm : L.milestone id = some m)
    (hp : m.state.parked = true) (hun : m.stateBeforePark ∈ unpark)
    (hq : m.state = .humanRequired → L.openBoundaries id = []) (a : Args) :
    ∃ s, s.name = m.stateBeforePark ∧ s.parked = false ∧
      L.transition id m.stateBeforePark a = .ok (moveWrites id (Ledger.parkFields m s a) s) := by
  have hid : m.milestoneId = id := Table.key_of_find hm
  obtain ⟨s, hs, hname⟩ := List.mem_map.mp hun
  have hlive : m.state.terminal = false := by
    cases hst : m.state with
    | humanRequired | blocked => rfl
    | _ =>
      rw [hst] at hp
      cases hp
  have hkinds : s ≠ .stopped ∧ s ≠ .humanRequired ∧ s ≠ .ready ∧ s ≠ .blocked ∧ s.parked = false := by
    simp only [List.mem_cons, List.not_mem_nil, or_false] at hs
    rcases hs with rfl | rfl | rfl | rfl | rfl <;> decide
  obtain ⟨hstop, hhuman, hready, hblocked, hsp⟩ := hkinds
  have hntest : m.state ≠ .testing := by
    intro h
    rw [h] at hp
    cases hp
  refine ⟨s, hname, hsp, ?_⟩
  have hedge : L.checkEdge m s = .ok () := by
    unfold Ledger.checkEdge
    rw [if_pos ⟨hp, hstop⟩, if_neg (fun h => h.1 (hid ▸ hq h.2)), if_neg (by simp [hname]),
      if_neg (by simp [hun])]
  have hcond : L.checkConditions m s a = .ok () := by
    simp [Ledger.checkConditions, hhuman, hready, hblocked, hntest, pure, Except.pure]
  unfold Ledger.transition
  rw [hm]
  simp only [hlive, Bool.false_eq_true, ↓reduceIte, ← hname, State.ofName_name, hedge, hcond]
  rfl

theorem exec_moved {L : Ledger} {id : String} {m : Milestone} (hm : L.milestone id = some m)
    (fs : List Field) (t : State) : (commits.exec (moveWrites id fs t) L).state id = some t := by
  have hcut := exec_move hm fs t (moveWrites id fs t).length
  have hin : .setState id t ∈ moveWrites id fs t := by simp [moveWrites, Ledger.setState]
  rw [List.take_length] at hcut
  cases hcut with
  | unmoved hn _ =>
    rw [List.length_eq_zero_iff.mp hn] at hin
    cases hin
  | fields hnot _ _ =>
    rw [List.take_length] at hnot
    exact absurd hin hnot
  | moved _ hr => rw [Ledger.state, hr.row, if_pos rfl, Option.map_some]

/-! ### A call -/

theorem sound_same {L : Ledger} (hs : Sound L) : Sound L ∧ Follows L L := (CalmStep.refl L).sound hs

/-- An answer that closes the last question and is not torn leads out. -/
theorem answer_sound {L : Ledger} (hs : Sound L) (bid text : String) (n : Nat)
    (hwhole : ∀ id m t, L.milestone id = some m → m.state.parked = true →
      .setState id t ∈ L.answer bid text → 0 < n → .setState id t ∈ (L.answer bid text).take n) :
    Sound (commits.exec ((L.answer bid text).take n) L) ∧
      Follows L (commits.exec ((L.answer bid text).take n) L) := by
  cases n with
  | zero => exact sound_same hs
  | succ n =>
    unfold Ledger.answer at hwhole ⊢
    cases hr : L.resolveBoundary bid text with
    | error e => exact sound_same hs
    | ok r =>
      obtain ⟨id, ws⟩ := r
      obtain ⟨b, hb, -, hbid, hws⟩ := Ledger.resolve_ok hr
      rw [hr] at hwhole
      simp only at hwhole ⊢
      have hpart := resolve_exec hr n
      -- where the questions of the milestone do not matter, or some are left
      have hleft : (∀ m, L.milestone id = some m → m.state = .humanRequired →
          (commits.exec (ws.take (n + 1)) L).openBoundaries id ≠ []) →
          Sound (commits.exec (ws.take (n + 1)) L) ∧
            Follows L (commits.exec (ws.take (n + 1)) L) := by
        intro hopen
        have hkept := hpart.kept hb hs
        rw [hbid] at hkept
        refine ⟨fun j m hm hp => ?_, hpart.follows (fun j m hm _ => ⟨m, hm, .same rfl rfl⟩)⟩
        by_cases hj : j = id
        · subst hj
          have hm' : L.milestone j = some m := by
            unfold Ledger.milestone at hm ⊢
            rwa [hpart.milestones] at hm
          have hk := hs j m hm' hp
          exact ⟨hk.origin, hk.blocked, fun hq => hopen m hm' hq⟩
        · exact hkept j m hj hm hp
      split
      · rename_i hnone
        refine hleft (fun m hm _ => ?_)
        have hfull := resolve_exec hr 1
        rw [hws] at hnone hfull
        unfold Ledger.milestone at hnone hm
        rw [← hfull.milestones] at hm
        exact absurd (hm.symm.trans hnone) (by simp)
      · rename_i m hm
        have hfull := resolve_exec hr 1
        have htwo : ws.take 2 = ws := by rw [hws]; rfl
        rw [show 1 + 1 = 2 from rfl, htwo] at hfull
        have hm₀ : L.milestone id = some m := by
          unfold Ledger.milestone at hm ⊢
          rwa [hfull.milestones] at hm
        split
        · rename_i hlast
          obtain ⟨hst, hnone⟩ := hlast
          have hp : m.state.parked = true := by rw [hst]; rfl
          obtain ⟨s, hname, hsp, htr⟩ := unpark_ok hm hp (hs id m hm₀ hp).origin (fun _ => hnone) {}
          rw [hm] at hwhole
          simp only at hwhole
          rw [if_pos ⟨hst, hnone⟩, htr] at hwhole
          rw [htr]
          simp only [committed] at hwhole ⊢
          have hin := hwhole id m s hm₀ hp
            (List.mem_append_right _ (by simp [moveWrites, Ledger.setState])) (Nat.succ_pos n)
          have hkept := hfull.kept hb hs
          rw [hbid] at hkept
          cases n with
          | zero =>
            rw [hws] at hin
            simp at hin
          | succ k =>
            rw [hws] at hin
            have hin' : .setState id s ∈ (moveWrites id (Ledger.parkFields m s {}) s).take k := by
              simpa using hin
            have hexec : commits.exec ((ws ++ moveWrites id (Ledger.parkFields m s {}) s).take
                (k + 1 + 1)) L = commits.exec ((moveWrites id (Ledger.parkFields m s {}) s).take k)
                (commits.exec ws L) := by
              rw [hws]
              rfl
            rw [hexec]
            have hgone := moved_sound htr hkept (fun hr => absurd hr (by decide)) (n := k)
              (fun t ht => by rw [State.name_injective (ht.trans hname.symm)]; exact hin')
            exact ⟨hgone.1, hfull.follows hgone.2⟩
        · rename_i hmore
          refine hleft (fun m' hm' hq => ?_)
          obtain rfl : m = m' := Option.some.inj (hm₀.symm.trans hm')
          rw [hpart.openOnes, ← hfull.openOnes]
          exact fun hnone => hmore ⟨hq, hnone⟩

/-- A call that makes no move keeps the parked milestones. -/
theorem calm_sound {L : Ledger} (hs : Sound L) {ws : List Write} (hcalm : ∀ w ∈ ws, w.calm = true)
    (n : Nat) : Sound (commits.exec (ws.take n) L) ∧ Follows L (commits.exec (ws.take n) L) :=
  (calm_exec (fun w hw => hcalm w (List.mem_of_mem_take hw)) L).sound hs

theorem committed_calm {r : Except Refused (List Write)}
    (h : ∀ ws, r = .ok ws → ∀ w ∈ ws, w.calm = true) : ∀ w ∈ committed r, w.calm = true := by
  intro w hw
  obtain ⟨ws, hws, hmem⟩ := committed_ok hw
  exact h ws hws w hmem

theorem opened_milestones (b : Boundary) (L : Ledger) :
    (commits.exec (Ledger.openBoundary b) L).milestones = L.milestones := by
  refine commits.exec_keeps (fun L' => L'.milestones = L.milestones) (fun w hw L₁ L₂ h hi => ?_) rfl
  simp only [Ledger.openBoundary, List.mem_cons, List.not_mem_nil, or_false] at hw
  rcases hw with rfl | rfl
  · simp only [Ledger.apply] at h
    split at h
    · obtain ⟨t, -, rfl⟩ := Option.map_eq_some_iff.mp h
      exact hi
    · cases h
  · cases h
    exact hi

theorem park_sound {L : Ledger} (hs : Sound L) (b : Boundary) (n : Nat)
    (hwhole : ∀ id m t, L.milestone id = some m → m.state.parked = true →
      .setState id t ∈ L.park b → 0 < n → .setState id t ∈ (L.park b).take n) :
    Sound (commits.exec ((L.park b).take n) L) ∧
      Follows L (commits.exec ((L.park b).take n) L) := by
  have hcalm : ∀ w ∈ Ledger.openBoundary b, w.calm = true := by
    simp [Ledger.openBoundary, Write.calm]
  have hsame := opened_milestones b L
  have hfirst := calm_sound hs hcalm
  unfold Ledger.park at hwhole ⊢
  simp only at hwhole ⊢
  rw [List.take_append]
  rcases commits.exec_append ((Ledger.openBoundary b).take n)
    ((committed ((commits.exec (Ledger.openBoundary b) L).transition b.milestoneId
      State.humanRequired.name {})).take (n - (Ledger.openBoundary b).length)) L with he | he
  · rw [he]
    cases htr : (commits.exec (Ledger.openBoundary b) L).transition b.milestoneId
        State.humanRequired.name {} with
    | error e =>
      simp only [committed, List.take_nil, Commits.exec]
      exact hfirst n
    | ok ws =>
      simp only [committed]
      by_cases hn : n ≤ (Ledger.openBoundary b).length
      · rw [Nat.sub_eq_zero_of_le hn]
        simp only [List.take_zero, Commits.exec]
        exact hfirst n
      · have hopened : (Ledger.openBoundary b).take n = Ledger.openBoundary b :=
          List.take_of_length_le (by omega)
        rw [hopened]
        have hL' := (hfirst (Ledger.openBoundary b).length)
        rw [List.take_length] at hL'
        have hgo := transition_sound hL'.1 htr (fun hr => absurd hr (by decide))
          (n - (Ledger.openBoundary b).length) (fun m t hm hp hin _ => ?_)
        · exact ⟨hgo.1, fun id m hm hp => by
            obtain ⟨m₀, hm₀, hfrom⟩ := hgo.2 id m hm hp
            exact ⟨m₀, by rw [Ledger.milestone, ← hsame]; exact hm₀, hfrom⟩⟩
        · have hm₀ : L.milestone b.milestoneId = some m := by
            rw [Ledger.milestone, ← hsame]
            exact hm
          rw [htr] at hwhole
          have hmem := hwhole _ m t hm₀ hp (List.mem_append_right _ hin) (by omega)
          simp only [committed] at hmem
          rw [List.take_append] at hmem
          rcases List.mem_append.mp hmem with hmem | hmem
          · have := hcalm _ (List.mem_of_mem_take hmem)
            cases this
          · exact hmem
  · rw [he]
    exact hfirst n

/-- Every whole call leaves the parked milestones in order. -/
theorem call_sound {h : List Entry} {L : Ledger} {c : Call} (hs : Sound L) (hd : Driven h c)
    (hw : Whole L c) : Sound (autopilot.step c L).2 ∧ Follows L (autopilot.step c L).2 := by
  obtain ⟨n, hn, hwhole⟩ : ∃ n, c.writes L = (c.op.writes L).take n ∧
      ∀ id m t, L.milestone id = some m → m.state.parked = true →
        .setState id t ∈ c.op.writes L → 0 < n → .setState id t ∈ (c.op.writes L).take n := by
    unfold Call.writes
    cases hst : c.stops with
    | none => exact ⟨(c.op.writes L).length, by rw [List.take_length], fun id m t _ _ hin _ => by
        rw [List.take_length]
        exact hin⟩
    | some n => exact ⟨n, rfl, fun id m t hm hp hin hpos => hw n hst hpos id m t hm hp hin⟩
  change Sound (commits.exec (c.writes L) L) ∧ Follows L (commits.exec (c.writes L) L)
  rw [hn]
  obtain ⟨op, stops⟩ := c
  simp only [Driven] at hd
  simp only at hwhole ⊢
  cases op with
  | transition id target a =>
    simp only [Op.writes] at hwhole ⊢
    cases htr : L.transition id target a with
    | error e =>
      simp only [committed, List.take_nil]
      exact sound_same hs
    | ok ws =>
      rw [htr] at hwhole
      exact transition_sound hs htr (fun _ => hd) n (fun m t => hwhole id m t)
  | unblock id =>
    simp only [Op.writes, Ledger.unblock] at hwhole ⊢
    cases hm : L.milestone id with
    | none =>
      simp only [List.take_nil]
      exact sound_same hs
    | some m =>
      rw [hm] at hwhole
      simp only at hwhole ⊢
      cases htr : L.transition id (if m.stateBeforePark = "" then State.building.name
          else m.stateBeforePark) {} with
      | error e =>
        simp only [committed, List.take_nil]
        exact sound_same hs
      | ok ws =>
        rw [htr] at hwhole
        exact transition_sound hs htr (fun hr => absurd hr (by decide)) n
          (fun m' t hm' => hwhole id m' t (hm ▸ hm'))
  | park b => exact park_sound hs b n hwhole
  | answer bid text => exact answer_sound hs bid text n hwhole
  | openBoundary b => exact absurd hd id
  | resolveBoundary bid text => exact absurd hd id
  | setFields id fs =>
    refine calm_sound hs (fun w hw => ?_) n
    simp only [Op.writes, Ledger.setFields] at hw
    split at hw
    · cases hw
    · cases List.mem_singleton.mp hw
      exact hd
  | createMilestone id version hash repository criteria =>
    refine calm_sound hs (fun w hw => ?_) n
    simp only [Op.writes, Ledger.createMilestone, List.cons_append, List.mem_cons, List.mem_append,
      List.mem_map, List.not_mem_nil, or_false] at hw
    rcases hw with rfl | ⟨c, -, rfl⟩ | rfl <;> rfl
  | setCriterion id key st ref =>
    refine calm_sound hs (committed_calm (fun ws hws w hw => ?_)) n
    unfold Ledger.setCriterion at hws
    split at hws
    · cases hws
    · split at hws
      · cases hws
      · cases hws
        cases List.mem_singleton.mp hw
        rfl
  | closeFinding id =>
    refine calm_sound hs (committed_calm (fun ws hws w hw => ?_)) n
    unfold Ledger.closeFinding at hws
    split at hws
    · cases hws
    · cases hws
      simp only [List.mem_cons, List.not_mem_nil, or_false] at hw
      rcases hw with rfl | rfl <;> rfl
  | recordEvidence | openFinding | recordDecision | recordEvent =>
    refine calm_sound hs ?_ n
    simp [Op.writes, Ledger.recordEvidence, Ledger.openFinding, Ledger.recordDecision, Write.calm]

end Solvio.Autopilot
