import Solvio.Autopilot.Parking

namespace Solvio.Autopilot
open Solvio.Lib

/-! ### The calls that must not be cut off -/

/-- The process stops in a call that leads a milestone out of a parked state:
behind the statement that clears its memory, or behind the answer to its last
question, and before the state is set. -/
inductive Torn (L : Ledger) : Call → Prop
  | stopped {id : String} {a : Args} {m : Milestone} : L.milestone id = some m →
      m.state.parked = true → Torn L ⟨.transition id State.stopped.name a, some 1⟩
  | left {id : String} {a : Args} {m : Milestone} : L.milestone id = some m →
      m.state = .blocked → Torn L ⟨.transition id m.stateBeforePark a, some 1⟩
  | woken {id : String} {m : Milestone} : L.milestone id = some m → m.state = .blocked →
      Torn L ⟨.unblock id, some 1⟩
  | answered {bid text : String} {b : Boundary} {m : Milestone} {n : Nat} :
      L.boundaries.find? bid = some b → b.isOpen = true →
      L.milestone b.milestoneId = some m → m.state = .humanRequired →
      (∀ c ∈ L.openBoundaries b.milestoneId, c.boundaryId = bid) → 0 < n → n < 4 →
      Torn L ⟨.answer bid text, some n⟩

theorem Torn.stops {L : Ledger} {c : Call} (h : Torn L c) : c.stops ≠ none := by
  cases h <;> simp

/-- A move out of a parked state is three statements. -/
theorem move_cut {m : Milestone} {id : String} {t : State} {a : Args} (hp : m.state.parked = true)
    {n : Nat} (hn : 0 < n) (h : .setState id t ∉ (moveWrites id (Ledger.parkFields m t a) t).take n) :
    n = 1 := by
  have hfs : Ledger.parkFields m t a ≠ [] := by
    unfold Ledger.parkFields
    rw [hp]
    split <;> simp
  have hsome : Ledger.setFields id (Ledger.parkFields m t a) =
      [.setFields id (Ledger.parkFields m t a)] := if_neg hfs
  match n with
  | 0 => exact absurd hn (Nat.lt_irrefl 0)
  | 1 => rfl
  | k + 2 => exact absurd (by simp [moveWrites, hsome, Ledger.setState]) h

/-- A transition that leads out of a parked state leads to the remembered one
of a blocked milestone, or to STOPPED. -/
theorem transition_torn {L : Ledger} (hs : Sound L) {id target k : String} {a : Args}
    {m : Milestone} {t : State} {n : Nat} (hn : 0 < n) (hm : L.milestone k = some m)
    (hp : m.state.parked = true) (hin : .setState k t ∈ committed (L.transition id target a))
    (hnot : .setState k t ∉ (committed (L.transition id target a)).take n) :
    k = id ∧ n = 1 ∧ (target = State.stopped.name ∨
      (m.state = .blocked ∧ target = m.stateBeforePark)) := by
  obtain ⟨rfl, htarget, ws, hws⟩ := transition_sets hin
  rw [hws] at hnot
  obtain ⟨m', t', hm', -, ht', hedge, -, rfl⟩ := Ledger.transition_ok hws
  obtain rfl : m = m' := Option.some.inj (hm.symm.trans hm')
  obtain rfl : t = t' := State.name_injective (htarget.trans ht'.symm)
  refine ⟨rfl, move_cut hp hn hnot, ?_⟩
  rcases Ledger.parked_ok hedge hp with rfl | ⟨hname, -, hquiet⟩
  · exact Or.inl htarget.symm
  · refine Or.inr ⟨?_, htarget.symm.trans hname⟩
    have hid : m.milestoneId = k := Table.key_of_find hm
    cases hst : m.state with
    | blocked => rfl
    | humanRequired => exact absurd (hid ▸ hquiet hst) ((hs k m hm hp).asked hst)
    | _ =>
      rw [hst] at hp
      cases hp

/-- Every call that is not torn is whole. -/
theorem whole_of_not_torn {L : Ledger} (hs : Sound L) {c : Call} (h : ¬ Torn L c) : Whole L c := by
  obtain ⟨op, stops⟩ := c
  intro n hst hn id m t hm hp hin
  simp only at hst hin ⊢
  subst hst
  by_contra hnot
  apply h
  cases op with
  | transition k target a =>
    obtain ⟨rfl, rfl, rfl | ⟨hb, rfl⟩⟩ := transition_torn hs hn hm hp hin hnot
    · exact .stopped hm hp
    · exact .left hm hb
  | unblock k =>
    simp only [Op.writes, Ledger.unblock] at hin hnot
    cases hk : L.milestone k with
    | none =>
      rw [hk] at hin
      cases hin
    | some m' =>
      rw [hk] at hin hnot
      simp only at hin hnot
      obtain ⟨rfl, rfl, htarget⟩ := transition_torn hs hn hm hp hin hnot
      rw [hm] at hk
      cases hk
      rcases htarget with hstop | ⟨hb, -⟩
      · have hun := (hs id m hm hp).origin
        split at hstop
        · exact absurd hstop (by decide)
        · rw [hstop] at hun
          exact absurd hun (by decide)
      · exact .woken hm hb
  | answer bid text =>
    simp only [Op.writes, Ledger.answer] at hin hnot
    cases hr : L.resolveBoundary bid text with
    | error e =>
      rw [hr] at hin
      cases hin
    | ok r =>
      obtain ⟨k, ws⟩ := r
      obtain ⟨b, hb, hopen, hbid, hws⟩ := Ledger.resolve_ok hr
      have hfull := resolve_exec hr 1
      rw [show ws.take (1 + 1) = ws by rw [hws]; rfl] at hfull
      rw [hr] at hin hnot
      simp only at hin hnot
      split at hin
      · rw [hws] at hin
        simp at hin
      · rename_i m' hm'
        split at hin
        · rename_i hlast
          rw [hm'] at hnot
          simp only at hnot
          rw [if_pos hlast] at hnot
          have hmove : .setState id t ∈ committed ((commits.exec ws L).transition k
              m'.stateBeforePark {}) := by
            rcases List.mem_append.mp hin with hin | hin
            · rw [hws] at hin
              simp at hin
            · exact hin
          obtain ⟨rfl, -⟩ := transition_sets hmove
          obtain rfl : m = m' := by
            unfold Ledger.milestone at hm hm'
            rw [hfull.milestones, hm] at hm'
            exact Option.some.inj hm'
          refine .answered hb hopen (hbid ▸ hm) hlast.1 (fun c hc => ?_) hn ?_
          · by_contra hne
            have hleft := hlast.2
            rw [hfull.openOnes] at hleft
            have hmem : c ∈ (L.openBoundaries id).filter (fun b => b.boundaryId ≠ bid) :=
              List.mem_filter.mpr ⟨hbid ▸ hc, by simpa using hne⟩
            rw [hleft] at hmem
            cases hmem
          · obtain ⟨ws', hws', hmem⟩ := committed_ok hmove
            rw [hws'] at hnot
            obtain ⟨m₁, t₁, hm₁, -, ht₁, -, -, rfl⟩ := Ledger.transition_ok hws'
            obtain rfl : m = m₁ := Option.some.inj (hm'.symm.trans hm₁)
            obtain ⟨-, ht, -⟩ := transition_sets hmove
            obtain rfl : t = t₁ := State.name_injective (ht.trans ht₁.symm)
            rcases n with _ | _ | _ | _ | j
            · omega
            · omega
            · omega
            · omega
            · rw [hws] at hnot
              have hlate : .setState id t ∉
                  (moveWrites id (Ledger.parkFields m t {}) t).take (j + 2) := by
                intro hyes
                apply hnot
                simp only [committed, List.cons_append, List.nil_append, List.take_succ_cons,
                  List.mem_cons, reduceCtorEq, false_or]
                exact hyes
              have hone := move_cut hp (Nat.succ_pos _) hlate
              omega
        · rw [hws] at hin
          simp at hin
  | park b =>
    simp only [Op.writes, Ledger.park, List.mem_append] at hin
    rcases hin with hin | hin
    · simp [Ledger.openBoundary] at hin
    · obtain ⟨rfl, htarget, ws, hws⟩ := transition_sets hin
      obtain ⟨m', t', hm', -, ht', hedge, -, -⟩ := Ledger.transition_ok hws
      obtain rfl : m = m' := by
        rw [Ledger.milestone, opened_milestones] at hm'
        exact Option.some.inj (hm.symm.trans hm')
      obtain rfl : t' = .humanRequired := State.name_injective ht'
      rcases Ledger.parked_ok hedge hp with hstop | ⟨-, hun, -⟩
      · cases hstop
      · exact absurd hun (by decide)
  | setFields k fs =>
    simp only [Op.writes, Ledger.setFields] at hin
    split at hin <;> simp at hin
  | setCriterion k key st ref =>
    obtain ⟨ws, hws, hmem⟩ := committed_ok hin
    unfold Ledger.setCriterion at hws
    split at hws
    · cases hws
    · split at hws
      · cases hws
      · cases hws
        simp at hmem
  | closeFinding k =>
    obtain ⟨ws, hws, hmem⟩ := committed_ok hin
    unfold Ledger.closeFinding at hws
    split at hws
    · cases hws
    · cases hws
      simp at hmem
  | resolveBoundary bid text =>
    obtain ⟨ws, hws, hmem⟩ := committed_ok hin
    cases hr : L.resolveBoundary bid text with
    | error e =>
      rw [hr] at hws
      cases hws
    | ok r =>
      obtain ⟨b, -, -, -, he⟩ := Ledger.resolve_ok hr
      rw [hr] at hws
      cases hws
      rw [he] at hmem
      simp at hmem
  | createMilestone | recordEvidence | openFinding | recordDecision | recordEvent | openBoundary =>
    simp [Op.writes, Ledger.createMilestone, Ledger.recordEvidence, Ledger.openFinding,
      Ledger.recordDecision, Ledger.openBoundary] at hin

/-! ### Where a parked milestone comes from, and how it goes on -/

/-- The last state outside the parked ones that a history shows, newest step first. -/
def lastLive (id : String) : List Entry → Option State
  | [] => none
  | e :: h =>
    match e.pre.state id with
    | some s => if s.parked then lastLive id h else some s
    | none => none

def AllWhole (h : List Entry) : Prop := ∀ e ∈ h, ¬ Torn e.pre e.call

theorem run_sound {h : List Entry} {L : Ledger} (hrun : autopilot.Run Driven h L)
    (hw : AllWhole h) : Sound L := by
  induction hrun with
  | start =>
    intro id m hm
    cases hm
  | step hrun hc ih =>
    have hs := ih (fun e he => hw e (List.mem_cons_of_mem _ he))
    exact (call_sound hs hc (whole_of_not_torn hs (hw _ (List.mem_cons_self ..)))).1

/-- The memory of a parked milestone is the state it was parked from. -/
theorem parked_origin {h : List Entry} {L : Ledger} (hrun : autopilot.Run Driven h L)
    (hw : AllWhole h) : ∀ id m, L.milestone id = some m → m.state.parked = true →
      ∃ s, lastLive id h = some s ∧ m.stateBeforePark = s.name := by
  induction hrun with
  | start =>
    intro id m hm
    cases hm
  | @step h L c hrun hc ih =>
    intro id m' hm' hp'
    have hold : AllWhole h := fun e he => hw e (List.mem_cons_of_mem _ he)
    have hs := run_sound hrun hold
    have hstep := call_sound hs hc (whole_of_not_torn hs (hw _ (List.mem_cons_self ..)))
    obtain ⟨m, hm, hfrom⟩ := hstep.2 id m' hm' hp'
    have hpre : L.state id = some m.state := by rw [Ledger.state, hm, Option.map_some]
    simp only [lastLive, hpre]
    cases hfrom with
    | same hst hbefore =>
      have hp : m.state.parked = true := by rw [hst]; exact hp'
      rw [if_pos hp, ← hbefore]
      exact ih hold id m hm hp
    | parked hlive hbefore =>
      rw [if_neg (by simp [hlive])]
      exact ⟨m.state, rfl, hbefore⟩

/-- The owner answers questions, one after the other. -/
def answered (L : Ledger) (qs : List (String × String)) : Ledger :=
  qs.foldl (fun L q => commits.exec (L.answer q.1 q.2) L) L

/-- Each open question of the milestone, once, in some order. -/
structure AnswersAll (L : Ledger) (id : String) (qs : List (String × String)) : Prop where
  once : (qs.map Prod.fst).Nodup
  open_ : ∀ bid, bid ∈ qs.map Prod.fst ↔ ∃ b ∈ L.openBoundaries id, b.boundaryId = bid

/-- A parked milestone can go on: a blocked one as soon as its hour has come, a
waiting one with the last answer, and both where they came from. -/
structure Resumable (L : Ledger) (id : String) (m : Milestone) (s : State) : Prop where
  remembered : m.stateBeforePark = s.name
  reason : m.state = .blocked → m.blockReason ∈ blockReasons
  woken : m.state = .blocked → ∀ now, m.resumeAt ≤ now →
    L.resumes id now = true ∧ (commits.exec (L.unblock id) L).state id = some s
  asked : m.state = .humanRequired → L.openBoundaries id ≠ []
  answered : m.state = .humanRequired → ∀ qs, AnswersAll L id qs →
    (answered L qs).state id = some s

theorem unpark_nonempty {w : String} (h : w ∈ unpark) : w ≠ "" := by
  rintro rfl
  exact absurd h (by decide)

/-- The questions that are left when one is answered. -/
theorem AnswersAll.tail {L L' : Ledger} {id : String} {q : String × String}
    {qs : List (String × String)} (h : AnswersAll L id (q :: qs)) (hr : Resolved L L' q.1) :
    AnswersAll L' id qs := by
  have honce := h.once
  simp only [List.map_cons, List.nodup_cons] at honce
  refine ⟨honce.2, fun bid => ⟨fun hin => ?_, fun hin => ?_⟩⟩
  · obtain ⟨b, hb, rfl⟩ := (h.open_ bid).mp (List.mem_cons_of_mem _ hin)
    refine ⟨b, ?_, rfl⟩
    rw [hr.openOnes]
    have hne : b.boundaryId ≠ q.1 := fun he => honce.1 (he ▸ hin)
    exact List.mem_filter.mpr ⟨hb, by simpa using hne⟩
  · obtain ⟨b, hb, rfl⟩ := hin
    rw [hr.openOnes] at hb
    obtain ⟨hb, hne⟩ := List.mem_filter.mp hb
    rcases List.mem_cons.mp ((h.open_ b.boundaryId).mpr ⟨b, hb, rfl⟩) with he | hin
    · simp [he] at hne
    · exact hin

/-- An open question can be answered. -/
theorem resolves {L : Ledger} {id : String} {b : Boundary} (hb : b ∈ L.openBoundaries id)
    (text : String) : ∃ ws, L.resolveBoundary b.boundaryId text = .ok (id, ws) := by
  obtain ⟨hrow, hmine⟩ := List.mem_filter.mp hb
  simp only [Bool.and_eq_true, decide_eq_true_eq] at hmine
  have hfind : L.boundaries.find? b.boundaryId = some b := Table.find_some.mpr ⟨hrow, rfl⟩
  unfold Ledger.resolveBoundary
  rw [hfind]
  simp only [hmine.2, ↓reduceIte, hmine.1]
  exact ⟨_, rfl⟩

/-- The last answer leads a waiting milestone back. -/
theorem answers_lead_back {id : String} {m : Milestone} {s : State} (hname : m.stateBeforePark = s.name)
    (hun : m.stateBeforePark ∈ unpark) (hst : m.state = .humanRequired)
    (qs : List (String × String)) {L : Ledger} (hm : L.milestone id = some m)
    (hopen : L.openBoundaries id ≠ []) (h : AnswersAll L id qs) :
    (answered L qs).state id = some s := by
  induction qs generalizing L with
  | nil =>
    obtain ⟨b, hb⟩ := List.exists_mem_of_ne_nil _ hopen
    cases (h.open_ b.boundaryId).mpr ⟨b, hb, rfl⟩
  | cons q qs ih =>
    obtain ⟨b, hb, hbid⟩ := (h.open_ q.1).mp (List.mem_cons_self ..)
    obtain ⟨ws, hr⟩ := resolves hb q.2
    rw [hbid] at hr
    have hfull := resolve_exec hr 1
    obtain ⟨-, -, -, -, hws⟩ := Ledger.resolve_ok hr
    rw [show ws.take (1 + 1) = ws by rw [hws]; rfl] at hfull
    have hm' : (commits.exec ws L).milestone id = some m := by
      rw [Ledger.milestone, hfull.milestones]
      exact hm
    have hrest := h.tail hfull
    by_cases hlast : (commits.exec ws L).openBoundaries id = []
    · obtain ⟨s', hs', -, htr⟩ := unpark_ok hm' (by rw [hst]; rfl) hun (fun _ => hlast) {}
      obtain rfl : s' = s := State.name_injective (hs'.trans hname)
      have hanswer : L.answer q.1 q.2 = ws ++ moveWrites id (Ledger.parkFields m s' {}) s' := by
        unfold Ledger.answer
        rw [hr]
        simp only [hm']
        rw [if_pos ⟨hst, hlast⟩, htr]
        rfl
      have hnone : qs = [] := by
        cases qs with
        | nil => rfl
        | cons r qs =>
          obtain ⟨c, hc, -⟩ := (hrest.open_ r.1).mp (List.mem_cons_self ..)
          rw [hlast] at hc
          cases hc
      subst hnone
      have hexec : commits.exec (ws ++ moveWrites id (Ledger.parkFields m s' {}) s') L =
          commits.exec (moveWrites id (Ledger.parkFields m s' {}) s') (commits.exec ws L) := by
        rw [hws]
        rfl
      simp only [answered, List.foldl_cons, List.foldl_nil, hanswer, hexec]
      exact exec_moved hm' _ _
    · have hanswer : L.answer q.1 q.2 = ws := by
        unfold Ledger.answer
        rw [hr]
        simp only [hm']
        exact if_neg (fun hboth => hlast hboth.2)
      have hstep := ih hm' hlast hrest
      simp only [answered, List.foldl_cons, hanswer]
      exact hstep

theorem Kept.resumable {L : Ledger} {id : String} {m : Milestone} {s : State} (hk : Kept L id m)
    (hm : L.milestone id = some m) (hname : m.stateBeforePark = s.name) : Resumable L id m s := by
  refine ⟨hname, fun hb => (hk.blocked hb).1, fun hb now hnow => ⟨?_, ?_⟩, hk.asked,
    fun hst qs h => answers_lead_back hname hk.origin hst qs hm (hk.asked hst) h⟩
  · simp only [Ledger.resumes, hm]
    exact decide_eq_true ⟨hb, (hk.blocked hb).2, hnow⟩
  · obtain ⟨s', hs', -, htr⟩ := unpark_ok hm (by rw [hb]; rfl) hk.origin
      (fun hst => by rw [hb] at hst; cases hst) {}
    obtain rfl : s' = s := State.name_injective (hs'.trans hname)
    unfold Ledger.unblock
    rw [hm]
    simp only [if_neg (unpark_nonempty hk.origin), htr, committed]
    exact exec_moved hm _ _

/-- No milestone is stranded. -/
def Unstranded (h : List Entry) (L : Ledger) : Prop :=
  ∀ id m, L.milestone id = some m → m.state.parked = true →
    ∃ s, lastLive id h = some s ∧ Resumable L id m s

/-- In a run without a torn call every parked milestone remembers the state it
was parked from, and goes on there. -/
theorem parked_resumes {h : List Entry} {L : Ledger} (hrun : autopilot.Run Driven h L)
    (hw : AllWhole h) : Unstranded h L := by
  intro id m hm hp
  obtain ⟨s, hs, hname⟩ := parked_origin hrun hw id m hm hp
  exact ⟨s, hs, (run_sound hrun hw id m hm hp).resumable hm hname⟩

/-- A milestone is built until the quota is used up. -/
def quotaCalls : List Call :=
  [⟨.createMilestone "m" "v1" "h" "" [("gate", "DETERMINISTIC")], none⟩,
    ⟨.transition "m" "BUILDING" {}, none⟩,
    ⟨.transition "m" "BLOCKED" { blockReason := "capacity", resumeAt := 3600 }, none⟩]

/-- The hour has come, and the process stops behind the first statement. -/
def cutWake : Call := ⟨.unblock "m", some 1⟩

theorem driven_run (calls : List Call) (hd : ∀ c ∈ calls, ∀ h, Driven h c) :
    autopilot.Run Driven (autopilot.history [] autopilot.init calls)
      (autopilot.after autopilot.init calls) := Machine.Run.start.history hd

theorem quota_driven : ∀ c ∈ quotaCalls, ∀ h, Driven h c := by
  intro c hc h
  simp only [quotaCalls, List.mem_cons, List.not_mem_nil, or_false] at hc
  rcases hc with rfl | rfl | rfl <;> simp [Driven]

theorem parked_resumes_sample :
    Unstranded (autopilot.history [] autopilot.init quotaCalls)
      (autopilot.after autopilot.init quotaCalls) ∧
    (autopilot.after autopilot.init quotaCalls).state "m" = some .blocked := by
  refine ⟨parked_resumes (driven_run quotaCalls quota_driven) (fun e he ht => ?_), by decide⟩
  simp only [quotaCalls, Machine.history, List.mem_cons, List.not_mem_nil, or_false] at he
  rcases he with rfl | rfl | rfl <;> exact ht.stops rfl

/-- The blocked milestone has neither a memory nor a reason nor an hour. -/
def strandedRow : Milestone :=
  { milestoneId := "m", state := .blocked, contractVersion := "v1", contractHash := "h" }

theorem wake_cut_off : ¬ ∀ h L, autopilot.Run Driven h L → Unstranded h L := by
  intro hall
  have hrun := driven_run (quotaCalls ++ [cutWake]) (fun c hc h => by
    rcases List.mem_append.mp hc with hc | hc
    · exact quota_driven c hc h
    · cases List.mem_singleton.mp hc
      exact trivial)
  have hrow : (autopilot.after autopilot.init (quotaCalls ++ [cutWake])).milestone "m" =
      some strandedRow := by decide
  obtain ⟨s, -, hs⟩ := hall _ _ hrun "m" strandedRow hrow rfl
  have hname : "" = s.name := hs.remembered
  cases s <;> exact absurd hname (by decide)

end Solvio.Autopilot
