import Solvio.BackgroundJobs.Discipline

namespace Solvio.BackgroundJobs.RunsOnce
open Solvio.Lib

/-! ### A reconciliation leaves no job out -/

section
variable {task : Nat} {id : String}

/-- The rows that the task has met are still there. -/
def Lasts (mine : List Event) (t : Ledger) : Prop :=
  ∀ e ∈ mine, ∀ id, (e.pre.find? id).isSome → (t.find? id).isSome

/-- The node has refused what a reconciliation asked for. -/
def Refused (mine : List Event) : Prop := ∃ new c rest, mine = new ++ c :: rest ∧ ¬ Harmless c ∧
  ∃ v ∈ rest, v.call.op = .listNonTerminal

/-- The jobs that a reconciliation has not got to yet are among these. -/
structure Going (jobs : List Job) (mine : List Event) : Prop where
  listed : ∃ new first, mine = new ++ [first] ∧ first.call.op = .listNonTerminal ∧
    (∀ e ∈ new, e.call.op ≠ .listNonTerminal) ∧ (∀ spec ∈ jobs, spec ∈ first.pre) ∧
    ∀ row ∈ first.pre, row.status.terminal = false →
      row ∈ jobs ∨ ∃ v ∈ new, Visits v row.localJobId

theorem Going.cons {jobs : List Job} {mine : List Event} (h : Going jobs mine) (e : Event)
    (he : e.call.op ≠ .listNonTerminal) : Going jobs (e :: mine) := by
  obtain ⟨new, first, rfl, hfirst, hnone, hthere, hall⟩ := h.listed
  refine ⟨⟨e :: new, first, rfl, hfirst, ?_, hthere, fun row hrow hopen => ?_⟩⟩
  · intro n hn
    rcases List.mem_cons.mp hn with rfl | hn
    · exact he
    · exact hnone n hn
  · rcases hall row hrow hopen with hin | ⟨v, hv, hvisits⟩
    · exact .inl hin
    · exact .inr ⟨v, List.mem_cons_of_mem e hv, hvisits⟩

theorem Going.visit {spec : Job} {jobs : List Job} {mine : List Event} (h : Going (spec :: jobs) mine)
    (e : Event) (he : e.call.op ≠ .listNonTerminal) (hvisits : Visits e spec.localJobId) :
    Going jobs (e :: mine) := by
  obtain ⟨new, first, hmine, hfirst, hnone, hthere, hall⟩ := (h.cons e he).listed
  refine ⟨⟨new, first, hmine, hfirst, hnone,
    fun s hs => hthere s (List.mem_cons_of_mem _ hs), fun row hrow hopen => ?_⟩⟩
  rcases hall row hrow hopen with hin | hvisited
  · rcases List.mem_cons.mp hin with rfl | hin
    · refine .inr ⟨e, ?_, hvisits⟩
      cases new with
      | nil =>
        cases hmine
        exact absurd hfirst he
      | cons n new =>
        cases hmine
        exact List.mem_cons_self ..
    · exact .inl hin
  · exact .inr hvisited

theorem Going.listing {jobs : List Job} {mine : List Event} (h : Going jobs mine) :
    ∃ v ∈ mine, v.call.op = .listNonTerminal := by
  obtain ⟨new, first, rfl, hfirst, -⟩ := h.listed
  exact ⟨first, by simp, hfirst⟩

theorem Going.refused {jobs : List Job} {mine : List Event} (h : Going jobs mine) {e : Event}
    (he : ¬ Harmless e) : Refused (e :: mine) := ⟨[], e, mine, rfl, he, h.listing⟩

theorem Refused.cons {mine : List Event} (h : Refused mine) (e : Event) : Refused (e :: mine) := by
  obtain ⟨new, c, rest, rfl, hc, hv⟩ := h
  exact ⟨e :: new, c, rest, rfl, hc, hv⟩

/-- A job that was listed is still in the ledger. -/
theorem Going.there {spec : Job} {jobs : List Job} {mine : List Event} {t : Ledger}
    (h : Going (spec :: jobs) mine) (hlasts : Lasts mine t) : (t.find? spec.localJobId).isSome := by
  obtain ⟨new, first, rfl, -, -, hthere, -⟩ := h.listed
  refine hlasts first (by simp) spec.localJobId ?_
  have hrow : first.pre.find? spec.localJobId = some spec :=
    Table.find_of_mem (hthere spec (List.mem_cons_self ..))
  rw [hrow]
  rfl

theorem Lasts.rest {e : Event} {mine : List Event} {t : Ledger} (h : Lasts (e :: mine) t) :
    Lasts mine t := fun v hv => h v (List.mem_cons_of_mem e hv)

/-- What a look at a job that was listed leads to. -/
structure Looked (jobs : List Job) (answer : Except Raised (Option Job)) (mine : List Event) : Prop where
  going : Going jobs mine
  there : answer ≠ .ok none
  refused : ∀ e, answer = .error e → e ≠ .unavailable → Refused mine

theorem refresh_ends {spec : Job} {jobs : List Job} {mine : List Event}
    (h : Going (spec :: jobs) mine) :
    Shared.Ends Lasts task (refresh spec.localJobId) mine (Looked jobs) Refused := by
  simp only [refresh, ask, Prog.bind_request]
  intro t₁ o₁ hlasts₁
  obtain ⟨row, hrow⟩ := Option.isSome_iff_exists.mp (h.there hlasts₁)
  have hgoing : Going jobs (event t₁ task (.get spec.localJobId) o₁ :: mine) :=
    h.visit _ (fun heq => by cases heq) (.inr rfl)
  simp only [step, hrow]
  cases row.remoteJobId with
  | none => exact ⟨hgoing, fun heq => (by cases heq), fun _ heq => (by cases heq)⟩
  | some remote =>
    dsimp only
    split
    · exact ⟨hgoing, fun heq => (by cases heq), fun _ heq => (by cases heq)⟩
    · intro t₂ o₂ _
      have hgoing₂ : Going jobs (event t₂ task (.getJob spec.localJobId row.nodeId remote) o₂ ::
          event t₁ task (.get spec.localJobId) o₁ :: mine) :=
        hgoing.cons _ (fun heq => by cases heq)
      cases hanswer : o₂.jobMeta with
      | error e =>
        simp only [step, hanswer]
        split
        · simp only [noteUnknown, ask, Prog.bind_request, Prog.bind_ask]
          intro t₃ o₃ _ t₄ o₄ hlasts₄
          obtain ⟨now, hnow⟩ := Option.isSome_iff_exists.mp
            (h.there hlasts₄.rest.rest.rest)
          simp only [step, hnow]
          refine ⟨(hgoing₂.cons _ ?_).cons _ ?_, fun heq => (by cases heq), fun _ heq => (by cases heq)⟩
          · exact fun heq => by cases heq
          · exact fun heq => by cases heq
        · rename_i hknown
          refine ⟨hgoing₂, fun heq => (by cases heq), fun x heq hx => hgoing.refused ?_⟩
          cases heq
          intro hharmless
          rcases hharmless e hanswer with rfl | rfl
          · exact hx rfl
          · exact hknown rfl
      | ok m =>
        simp only [step, hanswer, noteMeta, ask, Prog.bind_request, Prog.bind_ask]
        intro t₃ o₃ _ t₄ o₄ _ t₅ o₅ hlasts₅
        obtain ⟨now, hnow⟩ := Option.isSome_iff_exists.mp (h.there hlasts₅.rest.rest.rest.rest)
        simp only [step, hnow]
        refine ⟨((hgoing₂.cons _ ?_).cons _ ?_).cons _ ?_, fun heq => (by cases heq),
          fun _ heq => (by cases heq)⟩
        · exact fun heq => by cases heq
        · exact fun heq => by cases heq
        · exact fun heq => by cases heq

theorem resend_ends (out : Counts) {spec : Job} {jobs : List Job} {mine : List Event}
    (h : Going (spec :: jobs) mine) :
    Shared.Ends Lasts task (resend out spec) mine (fun _ => Going jobs) Refused := by
  simp only [resend, ask, Prog.bind_request]
  intro t₁ o₁ hlasts₁
  obtain ⟨row, hrow⟩ := Option.isSome_iff_exists.mp (h.there hlasts₁)
  simp only [step, hrow, Option.map_some]
  intro t₂ o₂ _
  have hgoing : Going (spec :: jobs) (event t₁ task (.resendInfo spec.localJobId) o₁ :: mine) :=
    h.cons _ (fun heq => by cases heq)
  have hgoing₂ : Going jobs (event t₂ task (.submitJob spec.localJobId spec.nodeId row.submission) o₂ ::
      event t₁ task (.resendInfo spec.localJobId) o₁ :: mine) :=
    hgoing.visit _ (fun heq => by cases heq) (.inl ⟨_, _, rfl⟩)
  cases hanswer : o₂.submitted with
  | error e =>
    have hrefused : e ≠ .unavailable → Refused
        (event t₂ task (.submitJob spec.localJobId spec.nodeId row.submission) o₂ ::
          event t₁ task (.resendInfo spec.localJobId) o₁ :: mine) := by
      intro he
      exact hgoing.refused (fun hharmless => he (hharmless e hanswer))
    simp only [step, hanswer]
    cases e with
    | unavailable => exact hgoing₂
    | _ => exact hrefused (fun heq => by cases heq)
  | ok remote =>
    simp only [step, hanswer]
    exact fun t₃ o₃ _ => hgoing₂.cons _ (fun heq => by cases heq)

theorem one_ends (out : Counts) (spec : Job) (jobs : List Job) (mine : List Event)
    (h : Going (spec :: jobs) mine) :
    Shared.Ends Lasts task (reconcileOne out spec) mine (fun _ => Going jobs) Refused := by
  unfold reconcileOne
  split
  · exact resend_ends out h
  · refine (refresh_ends h).bind (fun answer mine hlooked => ?_)
    rcases answer with e | _ | updated
    · cases e with
      | unavailable => exact hlooked.going
      | _ => exact hlooked.refused _ rfl (fun heq => by cases heq)
    · exact absurd rfl hlooked.there
    · dsimp only
      split
      · exact hlooked.going
      · exact hlooked.going

/-- What is so of a task that is over. -/
def Reconciled (mine : List Event) : Prop := Refused mine ∨
  ∀ new e rest, mine = new ++ e :: rest → e.call.op = .listNonTerminal → ∀ row ∈ e.pre,
    row.status.terminal = false → ∃ v ∈ new, Visits v row.localJobId

/-- Where the first of a list is the only one of its kind. -/
theorem split_at_first {new new' rest : List Event} {first e : Event}
    (hsplit : new ++ [first] = new' ++ e :: rest) (hnone : ∀ n ∈ new, n.call.op ≠ .listNonTerminal)
    (he : e.call.op = .listNonTerminal) : new' = new ∧ e = first := by
  rcases List.append_eq_append_iff.mp hsplit with ⟨X, rfl, hX⟩ | ⟨X, rfl, hX⟩
  · cases X with
    | nil =>
      cases hX
      exact ⟨by simp, rfl⟩
    | cons x X => simp at hX
  · cases X with
    | nil =>
      cases hX
      exact ⟨by simp, rfl⟩
    | cons x X =>
      cases hX
      exact absurd he (hnone e (by simp))

theorem Going.reconciled {mine : List Event} (h : Going [] mine) : Reconciled mine := by
  obtain ⟨new, first, rfl, hfirst, hnone, -, hall⟩ := h.listed
  refine .inr (fun new' e rest hsplit he row hrow hopen => ?_)
  obtain ⟨rfl, rfl⟩ := split_at_first hsplit hnone he
  rcases hall row hrow hopen with hin | hvisited
  · cases hin
  · exact hvisited

theorem unlisted_reconciled {mine : List Event}
    (h : ∀ e ∈ mine, e.call.op ≠ .listNonTerminal) : Reconciled mine :=
  .inr (fun _ e _ hsplit he => absurd he (h e (by simp [hsplit])))

/-- What lists nothing leaves nothing out. -/
theorem only_ends {α : Type} {p : Proc α} (h : p.Asks (OnlyLooks id)) :
    Shared.Ends Lasts task (p >>= fun _ => pure ()) [] (fun _ => Reconciled) Reconciled := by
  have hnone : ∀ e ∈ ([] : List Event), e.call.op ≠ .listNonTerminal := fun _ he => by cases he
  have hends : Shared.Ends Lasts task (p >>= fun _ => (pure () : Proc Unit)) []
      (fun _ mine => ∀ e ∈ mine, e.call.op ≠ .listNonTerminal)
      (fun mine => ∀ e ∈ mine, e.call.op ≠ .listNonTerminal) := by
    refine Shared.Ends.of_asks (w := shared) (fun mine s op input hmine hop e he => ?_)
      (h.bind (f := fun _ => (pure () : Proc Unit)) (fun _ => trivial)) hnone
    rcases List.mem_cons.mp he with rfl | he
    · exact not_listing hop
    · exact hmine e he
  exact (hends.conseq (fun _ _ hmine => unlisted_reconciled hmine)).raises
    (fun _ hmine => unlisted_reconciled hmine)

theorem reconcile_ends : Shared.Ends Lasts task reconcile [] (fun _ => Reconciled) Refused := by
  simp only [reconcile, ask, Prog.bind_request]
  intro t o _
  refine (Shared.Ends.foldlM (I := Going) one_ends ?_).conseq (fun _ _ h => h.reconciled)
  refine ⟨⟨[], _, rfl, rfl, fun e he => (by cases he), fun spec hspec => ?_, fun row hrow hopen => ?_⟩⟩
  · exact (List.mem_filter.mp hspec).1
  · exact .inl (List.mem_filter.mpr ⟨hrow, by simpa using hopen⟩)

theorem launch_ends {p : Proc Unit} (h : Launch p) (task : Nat) :
    Shared.Ends Lasts task p [] (fun _ => Reconciled) Reconciled := by
  cases h with
  | submit id node s => exact only_ends (submit_only node s)
  | refresh id => exact only_ends refresh_only
  | result id => exact only_ends result_only
  | cancel id => exact only_ends cancel_only
  | reconcile =>
    exact (reconcile_ends.raises (fun _ h => .inl h)).bind (fun _ _ h => h)

end

/-! ### The whole -/

theorem reach_run {W : World} (h : Shared.World.Reach Launch W) :
    shared.machine.Run permits W.log W.state := (h.disciplined (fun _ hp => launchable hp)).run

theorem lasts {W : World} (h : Shared.World.Reach Launch W) (task : Nat) :
    Lasts (Shared.own task W.log) W.state := by
  intro e he id hid
  obtain ⟨row, hrow⟩ := Option.isSome_iff_exists.mp hid
  obtain ⟨row', hrow', -⟩ := row_stays (reach_run h) (List.mem_of_mem_filter he)
    (step_left e.call.op e.call.input hrow)
  rw [hrow']
  rfl

/-- In a regular run a reconciliation is not refused anything. -/
theorem not_refused {L : List Event} (heach : Machine.Each Regular L) (task : Nat) :
    ¬ Refused (Shared.own task L) := by
  rintro ⟨new, c, rest, hsplit, hc, v, hv, hlisted⟩
  obtain ⟨newer, older, rfl, htask, rfl⟩ := Shared.own_split hsplit
  obtain ⟨hmem, hown⟩ := List.mem_filter.mp hv
  have hsame : v.call.task = c.call.task := (of_decide_eq_true hown).trans htask.symm
  exact hc (heach.split.1.caught v hmem hsame hlisted)

theorem all_visited {W : World} (h : Shared.World.Reach Launch W)
    (heach : Machine.Each Regular W.log) {newer older : List Event} {e : Event}
    (hlog : W.log = newer ++ e :: older) (he : e.call.op = .listNonTerminal)
    (hover : Over W e.call.task) {row : Job} (hrow : row ∈ e.pre)
    (hopen : row.status.terminal = false) :
    ∃ v ∈ newer, v.call.task = e.call.task ∧ Visits v row.localJobId := by
  have hending := h.ending (A := Lasts) (fun W hW task => lasts hW task) (fun p hp => launch_ends hp)
  have hreconciled : Reconciled (Shared.own e.call.task W.log) := by
    rcases hover with hret | hfail
    · exact hending.ends _ _ hret
    · exact hending.ends _ _ hfail
  rcases hreconciled with hrefused | hall
  · exact absurd hrefused (not_refused heach _)
  · have hsplit : Shared.own e.call.task W.log =
        Shared.own e.call.task newer ++ e :: Shared.own e.call.task older := by
      rw [hlog, Shared.own_append, Shared.own_cons_self rfl]
    obtain ⟨v, hv, hvisits⟩ := hall _ _ _ hsplit he row hrow hopen
    obtain ⟨hmem, hown⟩ := List.mem_filter.mp hv
    exact ⟨v, hmem, of_decide_eq_true hown, hvisits⟩

def research (key : String) : Submission where
  capabilityId := "research.page"
  payload := .dict []
  privacyClass := "REMOTE_CONTROLLED_ALLOWED"
  idempotencyKey := key
  maxAttempts := 3

def submitting (id : String) : Proc Unit := submit id "node" (research id) >>= fun _ => pure ()

def cancelling (id : String) : Proc Unit := cancel id >>= fun _ => pure ()

def reconciling : Proc Unit := reconcile >>= fun _ => pure ()

def accepted : Outside := { submitted := .ok "r1" }

def busy : Outside := { submitted := .error (.capability "RESOURCE_BUSY") }

/-- A job that is submitted. -/
def submittedOnce : World :=
  Shared.World.play shared [submitting "j1"] [(0, {}), (0, accepted), (0, {})]

/-- The user cancels a job whose submission has not been answered yet. -/
def cancelledMeanwhile : World := Shared.World.play shared [submitting "j1", cancelling "j1"]
  [(0, {}), (0, accepted), (1, {}), (1, {}), (0, {})]

/-- Two jobs are submitted while the node is down, and it is busy for the first of
them when they are sent again. -/
def refusedFirst : World :=
  Shared.World.play shared [submitting "j1", submitting "j2", reconciling]
    [(0, {}), (0, {}), (1, {}), (1, {}), (2, {}), (2, {}), (2, busy)]

theorem submitting_launch (id : String) : Launch (submitting id) := .submit ..

theorem cancelling_launch (id : String) : Launch (cancelling id) := .cancel ..

theorem reconciling_launch : Launch reconciling := .reconcile

def lists : Op → Bool
  | .listNonTerminal => true
  | _ => false

def cancels : Op → Bool
  | .cancelJob _ _ _ => true
  | _ => false

def visits : Op → Option String
  | .submitJob id _ _ => some id
  | .get id => some id
  | _ => none

theorem visits_of {v : Event} {id : String} (h : Visits v id) : visits v.call.op = some id := by
  rcases h with ⟨node, s, h⟩ | h
  · rw [show v.call.op = _ from h]
    rfl
  · rw [h]
    rfl

/-- Nothing has ended, nothing is cancelled or listed. -/
def Calm (e : Event) : Prop := (∀ row ∈ e.post.rows, row.status.terminal = false) ∧
  lists e.call.op = false ∧ cancels e.call.op = false

theorem Calm.unfinished {e : Event} (h : Calm e) (id : String) : ¬ Finishes e id := by
  rintro ⟨-, row, hrow, hended⟩
  rw [h.1 row (Table.mem_of_find hrow)] at hended
  cases hended

theorem calm_each {L : List Event} (h : ∀ e ∈ L, Calm e) : Machine.Each Regular L := by
  induction L with
  | nil => trivial
  | cons e L ih =>
    have hcalm := h e (List.mem_cons_self ..)
    have hrest : ∀ v ∈ L, Calm v := fun v hv => h v (List.mem_cons_of_mem e hv)
    refine ⟨⟨fun id _ newer v rest hsplit _ _ _ n hn => ?_, fun _ _ _ _ _ hop => ?_,
      fun v hv _ hlisted => ?_⟩, ih hrest⟩
    · exact (hrest n (by rw [hsplit]; exact List.mem_append_left _ hn)).unfinished id
    · have hnot := hcalm.2.2
      rw [hop] at hnot
      cases hnot
    · have hnot := (hrest v hv).2.1
      rw [hlisted] at hnot
      cases hnot

end Solvio.BackgroundJobs.RunsOnce
