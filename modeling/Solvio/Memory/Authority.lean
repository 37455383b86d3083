import Solvio.Memory.Asked
import Solvio.Memory.Effects

namespace Solvio.Memory.Authority
open Solvio.Lib

/-! ### What runs beside the turns -/

/-- An operation of the user, of whatever kind. The store chooses the ids. -/
def ByUser : Op → Prop
  | .memory .user (.remember record) => record.id = ""
  | .memory .user (.supersede _ new) => new.id = ""
  | .memory .automatic _ => False
  | .candidates .automatic _ => False
  | .propose _ _ => False
  | _ => True

inductive Interleaved (E : Deployment) (p : Task Unit) : Prop
  | launched : Launched E p → Interleaved E p
  | user : p.Asks ByUser → Interleaved E p

/-- A step that is known: the process has asked for it, or the user has. -/
def Known (E : Deployment) (op : Op) : Prop := (∃ side, Asked E side op) ∨ ByUser op

/-- Lets a candidate or a record come to be without the user. -/
def Creates : Op → Prop
  | .memory .automatic (.remember _) => True
  | .memory .automatic (.supersede _ _) => True
  | .candidates .automatic (.observe _ _ _) => True
  | _ => False

/-! ### Rows and their source -/

section
variable {E : Deployment} {s : State} {i : Input}

/-- The row of the id says that the machine has learned it. -/
def Learned (id : String) (s : State) : Prop :=
  ∃ v, s.memory.files.db.view id = some v ∧ v.1.sourceType = .solvioInference

/-- The id is in use, and whatever has it was learned. -/
structure NeverUsers (E : Deployment) (id : String) (s : State) : Prop where
  drawn : Drawn E s.drawn id
  source : ∀ v, s.memory.files.db.view id = some v → v.1.sourceType = .solvioInference

/-- Every row has a drawn id. -/
def Issued (E : Deployment) (s : State) : Prop :=
  ∀ id v, s.memory.files.db.view id = some v → Drawn E s.drawn id

/-- A known call stores its record under the id that was drawn for it. -/
theorem known_inserts {actor : Actor} {c : MemoryCall} {uuid : String} {record : MemoryRecord}
    (h : Known E (.memory actor c)) (hins : c.inserted uuid = some record) :
    record.id = uuid := by
  rcases h with ⟨side, h⟩ | h
  · cases h with
    | read _ _ _ hreads =>
      cases c with
      | remember _ => exact hreads.elim
      | supersede _ _ => exact hreads.elim
      | _ => cases hins
    | remembered content intent now => cases hins; rfl
    | replaced oldId content intent now => cases hins; rfl
    | adopted c proposal decision moment => cases hins; rfl
    | relearned target c proposal decision moment => cases hins; rfl
    | confirmed c via moment => cases hins; rfl
    | settled c via moment => cases hins; rfl
    | corrected old memoryId statement now => cases hins; rfl
    | _ => cases hins
  · cases actor with
    | automatic => exact h.elim
    | user =>
      cases c with
      | remember record =>
        have hid : record.id = "" := h
        simp only [MemoryCall.inserted, hid, if_true, Option.some.injEq] at hins
        rw [← hins]
      | supersede oldId new =>
        have hid : new.id = "" := h
        simp only [MemoryCall.inserted, Open.successor, hid, if_true, Option.some.injEq] at hins
        rw [← hins]
      | _ => cases hins

/-- A row that a call leaves has its source from before, or was stored by it. -/
theorem call_source {B : Backend} {o : Open} {uuid : String} {c : MemoryCall} {id : String}
    {v : MemoryRow × List ProvenanceEntry}
    (h : (o.after ((c.call uuid i).perform B o)).files.db.view id = some v) :
    (∃ w, o.files.db.view id = some w ∧ v.1.sourceType = w.1.sourceType) ∨
      ∃ record, c.inserted uuid = some record ∧ record.id = id ∧ o.files.db.view id = none ∧
        v = (record.row, record.provenance) := by
  have hev := call_evolves (B := B) (s := o) (i := i) uuid c id
  rw [h] at hev
  generalize o.files.db.view id = old at hev
  cases hev with
  | same => exact .inl ⟨v, rfl, rfl⟩
  | inserted hins hid => exact .inr ⟨_, hins, hid, rfl, rfl⟩
  | updated changes hc horigin => exact .inl ⟨_, rfl, horigin.sourceType⟩
  | superseded new now hc => exact .inl ⟨_, rfl, rfl⟩
  | forgotten reason hc hf => exact .inl ⟨_, rfl, rfl⟩
  | reinforced entry now hc hs => exact .inl ⟨_, rfl, rfl⟩

theorem issued_step {op : Op} (h : Issued E s) (hknown : Known E op) :
    Issued E (State.step E op i s).2 := by
  intro id v hv
  rcases step_memory (E := E) (s := s) op i with ⟨hsame, -⟩ | ⟨actor, c, rfl, hafter⟩
  · rw [hsame] at hv
    exact (h id v hv).mono (step_drawn op i)
  · rw [hafter] at hv
    have hdrawn : (State.step E (.memory actor c) i s).2.drawn = s.drawn + 1 := rfl
    rw [hdrawn]
    rcases call_source hv with ⟨w, hw, -⟩ | ⟨record, hins, hid, -, -⟩
    · exact (h id w hw).mono (Nat.le_succ _)
    · rw [← hid, known_inserts hknown hins]
      exact ⟨s.drawn, Nat.lt_succ_self _, rfl⟩

theorem never_users_step (hfresh : E.Fresh) {op : Op} {id : String} (h : NeverUsers E id s)
    (hknown : Known E op) : NeverUsers E id (State.step E op i s).2 := by
  refine ⟨h.drawn.mono (step_drawn op i), fun v hv => ?_⟩
  rcases step_memory (E := E) (s := s) op i with ⟨hsame, -⟩ | ⟨actor, c, rfl, hafter⟩
  · rw [hsame] at hv
    exact h.source v hv
  · rw [hafter] at hv
    rcases call_source hv with ⟨w, hw, hsource⟩ | ⟨record, hins, hid, -, -⟩
    · exact hsource.trans (h.source w hw)
    · refine absurd h.drawn ?_
      rw [← hid, known_inserts hknown hins]
      exact not_drawn hfresh

end

/-! ### What the automatic keeps to -/

section
variable {E : Deployment} {init : State} {log : List (Entry E init)} {task : Nat}

/-- The task has handed an eligible turn to the extractor. -/
def Proposed (task : Nat) (log : List (Entry E init)) : Prop :=
  ∃ e ∈ log, e.call.task = task ∧ ∃ turn context, e.call.op = .propose turn context

/-- The record was found to be learned by the machine. -/
def Found (id : String) (log : List (Entry E init)) : Prop := ∃ e ∈ log, Learned id e.pre

/-- What is asked is known; nothing is created without a turn, and nothing is
replaced that was not found to be learned. -/
structure Restrained (log : List (Entry E init)) (a : (runtime E init).Act) : Prop where
  known : Known E a.op
  proposed : Creates a.op → Proposed a.task log
  found : ∀ target new, a.op = .memory .automatic (.supersede target new) → Found target log

theorem proposed_lasting : Shared.Safe.Lasting (w := runtime E init) (Proposed task) := by
  rintro log more ⟨e, he, hop⟩
  exact ⟨e, List.mem_append_right more he, hop⟩

/-- Asked in the handling of a turn, a supersede apart. -/
def Handling (E : Deployment) (op : Op) : Prop :=
  Asked E .automatic op ∧ ∀ target new, op ≠ .memory .automatic (.supersede target new)

theorem handling_derived : Derived (Handling E) where
  reads actor c h := ⟨.read _ _ _ h, fun target new he => by
    cases he
    exact h.elim⟩
  index c := ⟨.index _ c, fun _ _ h => (by cases h)⟩
  indexOpen := ⟨.indexOpen _, fun _ _ h => (by cases h)⟩
  embed texts := ⟨.embed _ texts, fun _ _ h => (by cases h)⟩

theorem handling_restrained {a : (runtime E init).Act} (hp : Proposed a.task log)
    (h : Handling E a.op) : Restrained log a :=
  ⟨.inl ⟨_, h.1⟩, fun _ => hp, fun target new he => absurd he (h.2 target new)⟩

abbrev Keeps (task : Nat) {α : Type} (p : Task α) (log : List (Entry E init)) : Prop :=
  Shared.Safe (w := runtime E init) Restrained task p log (fun log _ => Proposed task log)

theorem handling_keeps {α : Type} {p : Task α} (hp : Proposed task log)
    (h : p.Asks (Handling E)) : Keeps task p log :=
  .of_asks_since proposed_lasting h hp (fun _ _ ht hp hop =>
    handling_restrained (by rw [ht]; exact hp) hop)

/-- What `get` tells of a learned record. -/
theorem get_learned {s : State} {id : String} {record : MemoryRecord}
    (h : (s.memory.get id).reply = .ok (.found (some record)))
    (hlearned : record.isMachineLearned = true) : Learned id s := by
  unfold Open.get at h
  split at h
  · cases h
  · simp only [Open.answer, Except.ok.injEq, Reply.found.injEq] at h
    obtain ⟨row, hrow, rfl⟩ := Option.map_eq_some_iff.mp h
    exact ⟨(row, s.memory.files.db.provenanceOf id), by simp [Db.view, hrow],
      of_decide_eq_true hlearned⟩

/-- A supersede of a record that was found to be learned. -/
theorem relearn_keeps {target : String} (hp : Proposed task log) (hf : Found target log)
    (c : Candidate) (proposal : Proposal) (decision : Decision) (moment : Int) :
    Keeps task (Semantic.supersede E .automatic target
      (Adaptive.replacing target (Adaptive.build c proposal decision moment))) log := by
  have hasks : (Semantic.supersede E .automatic target (Adaptive.replacing target
      (Adaptive.build c proposal decision moment))).Asks (fun op => Handling E op ∨
        op = .memory .automatic (.supersede target
          (Adaptive.replacing target (Adaptive.build c proposal decision moment)))) :=
    Semantic.supersede_asks ⟨fun actor c h => .inl (handling_derived.reads actor c h),
      fun c => .inl (handling_derived.index c), .inl handling_derived.indexOpen,
      fun ts => .inl (handling_derived.embed ts)⟩ (.inr rfl)
  refine (Shared.Safe.of_asks_since (I := fun log => Proposed task log ∧ Found target log)
    (fun log more h => ?_) hasks ⟨hp, hf⟩ (fun log a ht h hop => ?_)).conseq (fun _ _ h => h.1)
  · obtain ⟨hp, e, he, hlearned⟩ := h
    exact ⟨proposed_lasting _ more hp, e, List.mem_append_right more he, hlearned⟩
  · rcases hop with hop | hop
    · exact handling_restrained (by rw [ht]; exact h.1) hop
    · refine ⟨.inl ⟨.automatic, ?_⟩, fun _ => by rw [ht]; exact h.1, fun target' new he => ?_⟩
      · rw [hop]
        exact .relearned ..
      · rw [hop] at he
        cases he
        exact h.2

theorem write_adopted_keeps (hp : Proposed task log) (c : Candidate) (proposal : Proposal)
    (decision : Decision) (moment : Int) (target : String) :
    Keeps task (Adaptive.writeAdopted E (Adaptive.build c proposal decision moment) target)
      log := by
  unfold Adaptive.writeAdopted
  split
  · exact handling_keeps hp ((Semantic.remember_asks handling_derived
      ⟨.adopted .., fun _ _ h => (by cases h)⟩).bind (fun _ => trivial))
  · refine Shared.Safe.bind (Q := fun log existing => Proposed task log ∧
      ∀ record, existing = some record → record.isMachineLearned = true → Found target log)
      (Task.memory_safe (fun log' s _ hlater i => ?_)) (fun log' existing hfound => ?_)
    · obtain ⟨more, rfl, -⟩ := hlater
      refine ⟨handling_restrained (proposed_lasting _ _ hp)
        ⟨.read _ _ _ trivial, fun _ _ h => (by cases h)⟩, fun r a hr ha => ?_⟩
      refine ⟨proposed_lasting _ (_ :: more) hp, fun record hrecord hlearned => ?_⟩
      cases r with
      | found found =>
        cases ha
        subst hrecord
        exact ⟨_, List.mem_cons_self .., get_learned hr hlearned⟩
      | _ => cases ha
    · obtain ⟨hp', hfound⟩ := hfound
      cases existing with
      | none => exact hp'
      | some existing =>
        dsimp only
        split
        · rename_i hlearned
          exact (relearn_keeps hp' (hfound existing rfl hlearned) c proposal decision moment).bind
            (fun _ _ h => h)
        · exact hp'

theorem transition_keeps (hp : Proposed task log) (id : String) (target : CandidateState)
    (move : CandidateStore.Move) (moment : Int) :
    Keeps task (Task.transition .automatic id target move moment) log :=
  handling_keeps hp (Task.candidates_asks ⟨.candidates .., fun _ _ h => (by cases h)⟩)

theorem settle_keeps (hp : Proposed task log) (c : Candidate) (proposal : Proposal)
    (decision : Decision) (moment : Int) :
    Keeps task (Adaptive.settle E c proposal decision moment) log := by
  unfold Adaptive.settle
  split
  · refine ((write_adopted_keeps hp c proposal decision moment _).attempt proposed_lasting hp).bind
      (fun log done hp => ?_)
    split
    · exact transition_keeps hp _ _ _ _
    · exact hp
  · exact transition_keeps hp _ _ _ _
  · exact transition_keeps hp _ _ _ _
  · exact hp

theorem pursue_keeps (hp : Proposed task log) (proposal : Proposal) (turn : OwnerTurn)
    (key : String) (suppressed secret : Bool) (conflict : Option Conflict) (decision : Decision)
    (moment : Int) : Keeps task
      (Adaptive.pursue E proposal turn key suppressed secret conflict decision moment) log := by
  have hend : ∀ log : List (Entry E init), Proposed task log → ∀ known : Bool,
      Keeps task (Adaptive.pursueOn E proposal turn key suppressed secret conflict decision moment
        known) log := by
    intro log hp known
    unfold Adaptive.pursueOn
    split
    · exact hp
    · refine (handling_keeps hp (Adaptive.observe_asks
        ⟨.candidates .., fun _ _ h => (by cases h)⟩)).bind (fun log c hp => ?_)
      cases c with
      | none => exact hp
      | some c =>
        refine (handling_keeps hp (.request ⟨.note .., fun _ _ h => (by cases h)⟩)).bind
          (fun log _ hp => ?_)
        exact settle_keeps hp c proposal _ moment
  rw [Adaptive.pursue_eq]
  split
  · exact (handling_keeps hp (Adaptive.reinforce_existing_asks E handling_derived
      ⟨.candidates .., fun _ _ h => (by cases h)⟩
      (fun _ _ => ⟨.candidates .., fun _ _ h => (by cases h)⟩)
      (fun _ _ _ => ⟨.reinforced .., fun _ _ h => (by cases h)⟩) proposal turn)).bind
      (fun log known hp => hend log hp known)
  · exact hend log hp false

theorem handle_keeps (hp : Proposed task log) (turn : OwnerTurn) (moment : Int)
    (proposal : Proposal) : Keeps task (Adaptive.handle E turn moment proposal) log := by
  have hnote : ∀ (log : List (Entry E init)) (m : Mark), Proposed task log →
      Keeps task (Task.note m) log := fun log m hp =>
    handling_keeps hp (.request ⟨.note .., fun _ _ h => (by cases h)⟩)
  refine (hnote log _ hp).bind (fun log _ hp => ?_)
  have hkeyed : Keeps task (Adaptive.handleKeyed E proposal turn
      (E.texts.dedupKey proposal.statement) moment) log := by
    refine (handling_keeps hp (Task.candidates_asks
      ⟨.candidates .., fun _ _ h => (by cases h)⟩)).bind (fun log suppressed hp => ?_)
    refine (handling_keeps hp (Adaptive.find_conflict_asks E handling_derived proposal turn)).bind
      (fun log conflict hp => ?_)
    exact pursue_keeps hp ..
  refine (hkeyed.attempt proposed_lasting hp).bind (fun log done hp => ?_)
  refine (hnote log _ hp).bind (fun log _ hp => ?_)
  cases done with
  | none => trivial
  | some u => exact hp

theorem handle_all_keeps (hp : Proposed task log) (turn : OwnerTurn) (moment : Int)
    (proposals : List Proposal) :
    Keeps task (Adaptive.handleAll E turn moment proposals) log := by
  induction proposals generalizing log with
  | nil => exact hp
  | cons p ps ih => exact (handle_keeps hp turn moment p).bind (fun log _ hp => ih hp)

/-- A known step that creates nothing is permitted at any time. -/
theorem quiet_restrained {a : (runtime E init).Act} (hknown : Known E a.op)
    (hcreates : ¬ Creates a.op) : Restrained log a where
  known := hknown
  proposed h := absurd h hcreates
  found target new he := by
    rw [he] at hcreates
    exact absurd trivial hcreates

theorem user_creates_nothing {op : Op} (h : Asked E .user op) : ¬ Creates op := by
  intro hcreates
  cases h with
  | read _ actor c hreads =>
    cases actor with
    | user => exact hcreates
    | automatic =>
      cases c with
      | remember _ => exact hreads.elim
      | supersede _ _ => exact hreads.elim
      | _ => exact hcreates
  | _ => exact hcreates

theorem by_user_creates_nothing {op : Op} (h : ByUser op) : ¬ Creates op := by
  intro hcreates
  unfold Creates at hcreates
  split at hcreates
  all_goals first | exact h | exact hcreates

theorem process_launchable (turn : OwnerTurn) (context : String) (moment : Int) :
    Shared.Launchable (w := runtime E init) Restrained
      (Adaptive.process E turn context moment) := by
  intro task
  unfold Adaptive.process
  split
  · trivial
  · rename_i hturn
    simp only [Bool.or_eq_true, Bool.not_eq_true', not_or, Bool.not_eq_true] at hturn
    intro log s _ _ i
    refine ⟨quiet_restrained (.inl ⟨.automatic, .propose turn context (by simpa using hturn.1)
      hturn.2⟩) (fun h => h), ?_⟩
    have hp : Proposed task (⟨s, ⟨task, .propose turn context, i⟩⟩ :: log : List (Entry E init)) :=
      ⟨_, List.mem_cons_self .., rfl, turn, context, rfl⟩
    generalize ((runtime E init).step (.propose turn context) i s).1 = r
    cases r with
    | none => trivial
    | some proposals =>
      exact (handle_all_keeps hp turn moment proposals).conseq (fun _ _ _ => trivial)

theorem interleaved_launchable {p : Task Unit} (h : Interleaved E p) :
    Shared.Launchable (w := runtime E init) Restrained p := by
  cases h with
  | user hasks =>
    exact fun task => .of_asks hasks (fun _ _ hop =>
      quiet_restrained (.inr hop) (by_user_creates_nothing hop))
  | launched hp =>
    rcases launched_cases hp with ⟨turn, context, moment, rfl⟩ | ⟨moment, rfl⟩ | hasks
    · exact process_launchable turn context moment
    · have hop : Asked E .automatic (.candidates .automatic (.expireDue moment)) ∧
          ¬ Creates (.candidates .automatic (.expireDue moment)) := ⟨.candidates .., fun h => h⟩
      exact fun task => .of_asks (P := fun op => Asked E .automatic op ∧ ¬ Creates op)
        (Task.candidates_asks hop) (fun _ _ hop => quiet_restrained (.inl ⟨_, hop.1⟩) hop.2)
    · exact fun task => .of_asks hasks (fun _ _ hop =>
        quiet_restrained (.inl ⟨_, hop⟩) (user_creates_nothing hop))

/-! ### What automatic steps do -/

/-- The id that was found to be learned is never one of the user's afterwards. -/
theorem found_never_users (hfresh : E.Fresh) (hstart : Issued E init) {s : State} {id : String}
    (hrun : (runtime E init).machine.Run Restrained log s) (h : Found id log) :
    NeverUsers E id s := by
  obtain ⟨e, he, v, hv, hsource⟩ := h
  obtain ⟨newer, older, rfl, hbefore, -⟩ := hrun.of_mem he
  have hissued : Issued E e.pre := hbefore.invariant (Issued E) hstart
    (fun log s a hc hi => issued_step hi hc.known)
  have hnow : NeverUsers E id e.pre := by
    refine ⟨hissued id v hv, fun w hw => ?_⟩
    rw [hv] at hw
    cases hw
    exact hsource
  exact (hrun.forward (NeverUsers E id) hnow
    (fun log s a hc hi => never_users_step hfresh hi hc.known)).2.1

/-- What a record says of its origin. -/
def OfMachine (row : MemoryRow) (ps : List ProvenanceEntry) : Prop :=
  row.sourceType = .solvioInference ∧ row.trustLevel = .agentGenerated ∧
    ∀ p ∈ ps, p.sourceType = .solvioInference ∧ p.trustLevel = .agentGenerated

/-- What an automatic step may do to the canonical store. -/
structure Modest (e : Entry E init) : Prop where
  created : ∀ id row ps, e.pre.memory.files.db.view id = none →
    e.post.memory.files.db.view id = some (row, ps) → OfMachine row ps
  spared : ∀ id row ps, e.pre.memory.files.db.view id = some (row, ps) →
    row.sourceType = .userDirect → e.post.memory.files.db.view id = some (row, ps)

/-- What a known call of the automatic stores. -/
theorem stored_of_machine {c : MemoryCall} {uuid : String} {record : MemoryRecord}
    (h : Known E (.memory .automatic c)) (hins : c.inserted uuid = some record) :
    OfMachine record.row record.provenance := by
  have hbuilt : ∀ c proposal decision moment,
      ∀ p ∈ (Adaptive.build c proposal decision moment).provenance,
        p.sourceType = .solvioInference ∧ p.trustLevel = .agentGenerated := by
    intro c proposal decision moment p hp
    obtain ⟨e, -, rfl⟩ := List.mem_map.mp hp
    exact ⟨rfl, rfl⟩
  rcases h with ⟨side, h⟩ | h
  · cases h with
    | read _ _ _ hreads =>
      cases c with
      | remember _ => exact hreads.elim
      | supersede _ _ => exact hreads.elim
      | _ => cases hins
    | adopted c proposal decision moment =>
      cases hins
      exact ⟨rfl, rfl, hbuilt c proposal decision moment⟩
    | relearned target c proposal decision moment =>
      cases hins
      exact ⟨rfl, rfl, hbuilt c proposal decision moment⟩
    | reinforced _ _ _ _ => cases hins
  · exact h.elim

theorem automatic_modest (hfresh : E.Fresh) (hstart : Issued E init) {s : State} {c : MemoryCall}
    {i : Input} (hrun : (runtime E init).machine.Run Restrained log s)
    (h : Restrained log ⟨task, .memory .automatic c, i⟩) :
    Modest (⟨s, ⟨task, .memory .automatic c, i⟩⟩ : Entry E init) := by
  refine ⟨fun id row ps hfree hv => ?_, fun id row ps hv hsource => ?_⟩
  · rcases call_source hv with ⟨w, hw, -⟩ | ⟨record, hins, -, -, hrow⟩
    · rw [show s.memory.files.db.view id = none from hfree] at hw
      cases hw
    · cases hrow
      exact stored_of_machine h.known hins
  · have hev := call_evolves (B := E.backend) (s := s.memory) (i := i) (E.uuid s.drawn) c id
    change s.memory.files.db.view id = some (row, ps) at hv
    change (s.memory.after ((c.call (E.uuid s.drawn) i).perform E.backend s.memory)).files.db.view
      id = some (row, ps)
    rw [hv] at hev
    obtain ⟨side, hasked⟩ | hno := h.known
    · generalize (s.memory.after _).files.db.view id = now at hev ⊢
      cases hev with
      | same => rfl
      | updated changes hc horigin =>
        subst hc
        cases hasked with
        | read _ _ _ hreads => exact hreads.elim
      | superseded new now hc =>
        subst hc
        have hlearned := (found_never_users hfresh hstart hrun (h.found id new rfl)).source _ hv
        rw [hsource] at hlearned
        cases hlearned
      | forgotten reason hc hf =>
        subst hc
        cases hasked with
        | read _ _ _ hreads => exact hreads.elim
      | deleted hc =>
        subst hc
        cases hasked with
        | read _ _ _ hreads => exact hreads.elim
      | reinforced entry now hc hs =>
        rw [hsource] at hs
        cases hs
    · exact hno.elim

end

/-- A turn that the extractor may see. -/
def Teaches (E : Deployment) (turn : OwnerTurn) : Prop :=
  turn.isEligible = true ∧ E.texts.looksLikeSecret turn.text = false

/-- What automatic learning keeps to in a world. -/
structure Subordinate {E : Deployment} {init : State} (W : (runtime E init).World) : Prop where
  modest : ∀ e ∈ W.log, ∀ c, e.call.op = .memory .automatic c → Modest e
  taught : ∀ e ∈ W.log, ∀ turn context, e.call.op = .propose turn context → Teaches E turn
  caused : ∀ e ∈ W.log, Creates e.call.op →
    ∃ p ∈ W.log, p.call.task = e.call.task ∧ ∃ turn context, p.call.op = .propose turn context

/-- Automatic learning stores learned records only, changes none of the user's,
and creates nothing but from an eligible turn without a secret. -/
theorem learning_subordinate {E : Deployment} (hfresh : E.Fresh) {init : State}
    (hstart : Issued E init) {W : (runtime E init).World}
    (hreach : Shared.World.Reach (Interleaved E) W) :
    Subordinate W ∧ ∀ turn, ¬ Teaches E turn → ∀ enabled context moment,
      Adaptive.process E turn context moment = pure () ∧
        Adaptive.observeTurn E enabled turn context moment = pure () := by
  have hdisc : W.Disciplined Restrained := hreach.disciplined (fun p hp => interleaved_launchable hp)
  refine ⟨⟨fun e he c hop => ?_, fun e he turn context hop => ?_, fun e he hcreates => ?_⟩,
    fun turn hturn enabled context moment => ?_⟩
  · obtain ⟨newer, older, -, hrun, hpermit⟩ := hdisc.run.of_mem he
    obtain ⟨s, task, op, i⟩ := e
    cases hop
    exact automatic_modest hfresh hstart hrun hpermit
  · obtain ⟨newer, older, -, -, hpermit⟩ := hdisc.run.of_mem he
    have hknown := hpermit.known
    rw [hop] at hknown
    rcases hknown with ⟨side, hasked⟩ | hno
    · cases hasked with
      | propose _ _ heligible hsecret => exact ⟨heligible, hsecret⟩
    · exact hno.elim
  · obtain ⟨newer, older, hsplit, -, hpermit⟩ := hdisc.run.of_mem he
    obtain ⟨p, hp, htask, hturn⟩ := hpermit.proposed hcreates
    refine ⟨p, ?_, htask, hturn⟩
    rw [hsplit]
    exact List.mem_append_right newer (List.mem_cons_of_mem e hp)
  · have hprocess : Adaptive.process E turn context moment = pure () := by
      unfold Adaptive.process
      split
      · rfl
      · rename_i hcond
        simp only [Bool.or_eq_true, Bool.not_eq_true', not_or, Bool.not_eq_true] at hcond
        exact absurd ⟨by simpa using hcond.1, hcond.2⟩ hturn
    refine ⟨hprocess, ?_⟩
    unfold Adaptive.observeTurn
    split
    · exact hprocess
    · rfl

/-! ### A turn beside the user's own record -/

def sampleTurn : OwnerTurn := { text := "likes jazz", channel := "voice_iphone" }

def sampleProposal : Proposal where
  statement := "likes jazz"
  kind := .stated
  memoryType := .preference
  subject := "user"

abbrev Sample : Shared State := runtime plainDeployment .start

def sampleTasks : List (Task Unit) :=
  [do let _ ← Service.remember plainDeployment { payload := "likes tea", marker := "" } 1,
    Adaptive.process plainDeployment sampleTurn "" 2]

def sampleActs : List (Nat × Input) :=
  List.replicate 24 (0, ({} : Input)) ++ (1, { proposals := some [sampleProposal] }) ::
    List.replicate 24 (1, ({} : Input))

def sampleWorld : Sample.World := .play Sample sampleTasks sampleActs

def adopts (W : Sample.World) : Bool :=
  W.log.any (fun e => match e.call.op with
    | .memory .automatic (.remember record) => record.content = "likes jazz"
    | _ => false)

theorem sample_reach : Shared.World.Reach (Interleaved plainDeployment) sampleWorld := by
  have hall : ∀ p ∈ sampleTasks, Interleaved plainDeployment p := by
    intro p hp
    simp only [sampleTasks, List.mem_cons, List.not_mem_nil, or_false] at hp
    rcases hp with rfl | rfl
    · exact .launched (.remembered _ _)
    · exact .launched (.processed _ _ _)
  exact @Shared.World.Reach.play _ Sample _ _ hall sampleActs

/-- The turn is adopted beside the record that the user has stored. -/
theorem learning_subordinate_sample : adopts sampleWorld = true ∧ Subordinate sampleWorld :=
  ⟨by decide +kernel, (learning_subordinate plain_fresh (fun _ _ h => by cases h) sample_reach).1⟩

end Solvio.Memory.Authority
