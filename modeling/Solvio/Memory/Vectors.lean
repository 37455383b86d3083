import Solvio.Memory.Asked
import Solvio.Memory.Effects

namespace Solvio.Memory.Vectors
open Solvio.Lib

/-! ### The operations on one `SemanticMemory` -/

inductive SemanticCall where
  | remember (record : MemoryRecord)
  | update (id : String) (changes : List Change)
  | supersede (oldId : String) (new : MemoryRecord)
  | forget (id reason : String)
  | purge (id : String)
  | rebuild

/-- The task of a call, whose result nobody here looks at. -/
def SemanticCall.task (E : Deployment) (actor : Actor) : SemanticCall → Task Unit
  | remember record => do let _ ← Semantic.remember E actor record
  | update id changes => do let _ ← Semantic.update E actor id changes
  | supersede oldId new => do let _ ← Semantic.supersede E actor oldId new
  | forget id reason => do let _ ← Semantic.forget actor id reason
  | purge id => do let _ ← Semantic.purge actor id
  | rebuild => Semantic.rebuild E actor

def SemanticTask (E : Deployment) (p : Task Unit) : Prop :=
  ∃ actor, ∃ c : SemanticCall, p = c.task E actor

/-! ### The order that the calls keep -/

/-- Takes a record out of what is current. -/
def revokes (id : String) : Op → Bool
  | .memory _ (.forget k _) => k = id
  | .memory _ (.purge k) => k = id
  | _ => false

/-- Neither opens the index nor marks that a call has returned. -/
def Plain : Op → Prop
  | .openIndex => False
  | .note (.returned _) => False
  | _ => True

theorem plain_derived : Derived Plain where
  reads _ _ _ := trivial
  index _ := trivial
  indexOpen := trivial
  embed _ := trivial

section log
variable {E : Deployment} {init : State}

def Revoked (id : String) (log : List (Entry E init)) : Prop := ∃ m ∈ log, revokes id m.call.op = true

instance (id : String) (log : List (Entry E init)) : Decidable (Revoked id log) :=
  inferInstanceAs (Decidable (∃ m ∈ log, revokes id m.call.op = true))

/-- After the record its vectors have been deleted as well. -/
def Dropped (id : String) (log : List (Entry E init)) : Prop :=
  ∃ newer d older, log = newer ++ d :: older ∧ d.call.op = .index (.delete id none) ∧
    Revoked id older

/-- No call returns before it has deleted the vectors, and the index stays open. -/
def Careful : (runtime E init).Discipline := fun log a =>
  a.op ≠ .openIndex ∧ ∀ id, a.op = .note (.returned id) → Dropped id log

theorem plain_careful {log : List (Entry E init)} {a : (runtime E init).Act}
    (h : Plain a.op) : Careful log a := by
  refine ⟨fun hop => ?_, fun id hop => ?_⟩
  · rw [hop] at h
    exact h
  · rw [hop] at h
    exact h.elim

theorem Revoked.cons {id : String} {log : List (Entry E init)} (h : Revoked id log)
    (e : Entry E init) : Revoked id (e :: log) := by
  obtain ⟨m, hm, hop⟩ := h
  exact ⟨m, List.mem_cons_of_mem e hm, hop⟩

theorem Revoked.later {id : String} {task : Nat} {log log' : List (Entry E init)}
    (h : Revoked id log) (hl : Shared.Later task log log') : Revoked id log' := by
  obtain ⟨m, hm, hop⟩ := h
  exact ⟨m, hl.mem hm, hop⟩

theorem Dropped.later {id : String} {task : Nat} {log log' : List (Entry E init)}
    (h : Dropped id log) (hl : Shared.Later task log log') : Dropped id log' := by
  obtain ⟨newer, d, older, rfl, hd, hm⟩ := h
  obtain ⟨more, rfl, -⟩ := hl
  exact ⟨more ++ newer, d, older, by simp, hd, hm⟩

/-- Nothing closes the index. -/
theorem index_stays_open (hopen : init.indexOpen = true) {log : List (Entry E init)} {s : State}
    (hrun : (runtime E init).machine.Run Careful log s) : s.indexOpen = true := by
  refine hrun.invariant (fun s => s.indexOpen = true) hopen (fun log s a hcareful hs => ?_)
  obtain ⟨task, op, i⟩ := a
  cases op with
  | openIndex => exact absurd rfl hcareful.1
  | candidates actor c =>
    change (s.callCandidates E c).2.indexOpen = true
    cases c <;> simp only [State.callCandidates, State.withCandidates]
    all_goals first | exact hs | (split <;> exact hs)
  | flags c => cases c <;> exact hs
  | _ => exact hs

end log

section programs
variable {E : Deployment} {init : State} {task : Nat}

abbrev Keeps (init : State) (task : Nat) {α : Type} (p : Task α) (log : List (Entry E init)) :
    Prop := Shared.Safe (w := runtime E init) Careful task p log (fun _ _ => True)

theorem plain_keeps {α : Type} {p : Task α} (h : p.Asks Plain) (log : List (Entry E init)) :
    Keeps init task p log :=
  Shared.Safe.of_asks h (fun _ _ hop => plain_careful hop)

/-- The end of `forget` and of `purge`. -/
theorem drop_keeps (hopen : init.indexOpen = true) {α : Type} (a : α) {id : String}
    {log : List (Entry E init)} (h : Revoked id log) : Keeps init task (do
      Semantic.dropVectors id none
      Task.note (.returned id)
      pure a : Task α) log := by
  intro log₁ s₁ hrun₁ hl₁ i₁
  refine ⟨plain_careful trivial, ?_⟩
  have hs : s₁.indexOpen = true := index_stays_open hopen hrun₁
  change Keeps init task (((if s₁.indexOpen = true then do
      let _ ← Task.index (.delete id none)
      pure ()
    else pure ()) >>= fun _ => Task.note (.returned id) >>= fun _ => pure a) : Task α) _
  rw [if_pos hs]
  intro log₂ s₂ hrun₂ hl₂ i₂
  refine ⟨plain_careful trivial, ?_⟩
  have hrev : Revoked id log₂ := ((h.later hl₁).cons _).later hl₂
  intro log₃ s₃ hrun₃ hl₃ i₃
  refine ⟨⟨fun h => (by cases h), fun k hk => ?_⟩, trivial⟩
  cases hk
  have hdrop : Dropped id (⟨s₂, ⟨task, .index (.delete id none), i₂⟩⟩ :: log₂ :
      List (Entry E init)) := ⟨[], _, log₂, rfl, rfl, hrev⟩
  exact hdrop.later hl₃

theorem revoke_keeps (hopen : init.indexOpen = true) {id : String} {actor : Actor}
    {c : MemoryCall} (hc : revokes id (Op.memory actor c) = true) (f : Reply → Option Bool)
    (log : List (Entry E init)) : Keeps init task (do
      let ok ← Task.memory actor c f
      Semantic.dropVectors id none
      Task.note (.returned id)
      pure ok : Task Bool) log := by
  intro log₁ s₁ hrun₁ hl₁ i₁
  refine ⟨plain_careful trivial, ?_⟩
  have hrev : Revoked id (⟨s₁, ⟨task, .memory actor c, i₁⟩⟩ :: log₁ : List (Entry E init)) :=
    ⟨_, List.mem_cons_self .., hc⟩
  generalize ((runtime E init).step (.memory actor c) i₁ s₁).1 = r
  cases r with
  | error e => trivial
  | ok r =>
    change Keeps init task (((f r).elim .fail .ret >>= _) : Task Bool) _
    cases f r with
    | none => trivial
    | some ok => exact drop_keeps hopen ok hrev

theorem semantic_launchable (hopen : init.indexOpen = true) {p : Task Unit}
    (h : SemanticTask E p) : Shared.Launchable (w := runtime E init) Careful p := by
  obtain ⟨actor, c, rfl⟩ := h
  intro task
  cases c with
  | remember record =>
    refine plain_keeps (Prog.Asks.bind (Semantic.remember_asks plain_derived trivial) ?_) []
    exact fun _ => trivial
  | update id changes =>
    refine plain_keeps (Prog.Asks.bind (Semantic.update_asks plain_derived trivial) ?_) []
    exact fun _ => trivial
  | supersede oldId new =>
    refine plain_keeps (Prog.Asks.bind (Semantic.supersede_asks plain_derived trivial) ?_) []
    exact fun _ => trivial
  | forget id reason =>
    have hop : revokes id (.memory actor (.forget id reason)) = true := decide_eq_true rfl
    exact Shared.Safe.bind (revoke_keeps hopen hop _ []) (fun _ _ _ => trivial)
  | purge id =>
    have hop : revokes id (.memory actor (.purge id)) = true := decide_eq_true rfl
    exact Shared.Safe.bind (revoke_keeps hopen hop _ []) (fun _ _ _ => trivial)
  | rebuild =>
    intro log₁ s₁ hrun₁ hl₁ i₁
    refine ⟨plain_careful trivial, ?_⟩
    have hs : s₁.indexOpen = true := index_stays_open hopen hrun₁
    change Keeps init task ((if s₁.indexOpen = true then _ else _) : Task Unit) _
    rw [if_pos hs]
    exact plain_keeps (Semantic.refill_asks plain_derived) _

end programs

/-! ### When no vector is left -/

section
variable {E : Deployment} {init : State} {log : List (Entry E init)} {e : Entry E init}
  {s : State}

/-- Vectors are written of current records only, and no record is stored under
a free id that was taken back before. -/
def meets (older : List (Entry E init)) (e : Entry E init) : Bool :=
  match e.call.op with
  | .index (.upsert id _ _ _) => e.pre.memory.current id
  | .memory _ c => (c.inserted (E.uuid e.pre.drawn)).all (fun record =>
    (e.pre.memory.files.db.view record.id).isSome || !decide (Revoked record.id older))
  | _ => true

def Undisturbed (log : List (Entry E init)) : Prop :=
  Machine.Each (fun older e => meets older e = true) log

instance (log : List (Entry E init)) : Decidable (Undisturbed log) :=
  inferInstanceAs (Decidable (Machine.Each _ log))

/-- A vector that a step leaves was there, or the step has written it. -/
theorem step_vector {op : Op} {i : Input} {id profile : String}
    (h : (State.step E op i s).2.index.Has id profile) :
    (s.index.Has id profile ∧ op ≠ .index (.delete id none)) ∨
      ∃ hash v, op = .index (.upsert id profile hash v) := by
  cases op with
  | index c =>
    rcases @SemanticIndex.has_run _ E.rank _ _ _ h with ⟨hbefore, hne⟩ | ⟨hash, v, rfl⟩
    · refine .inl ⟨hbefore, fun h => ?_⟩
      cases h
      exact hne rfl
    · exact .inr ⟨hash, v, rfl⟩
  | candidates actor c =>
    refine .inl ⟨?_, fun h => (by cases h)⟩
    change (s.callCandidates E c).2.index.Has id profile at h
    cases c <;> simp only [State.callCandidates, State.withCandidates] at h
    all_goals first | exact h | (split at h <;> exact h)
  | flags c => exact .inl ⟨by cases c <;> exact h, fun h => (by cases h)⟩
  | _ => exact .inl ⟨h, fun h => (by cases h)⟩

/-- What was taken back is not current any more. -/
theorem revoked_not_current (hrun : (runtime E init).machine.Run Careful log s)
    (hcond : Undisturbed log) {id : String} (h : Revoked id log) : ¬ s.memory.current id := by
  refine hrun.induct (fun log s => Undisturbed log → Revoked id log → ¬ s.memory.current id)
    (fun _ h => ?_) (fun log s a _ _ ih hcond h => ?_) hcond h
  · obtain ⟨m, hm, -⟩ := h
    cases hm
  · obtain ⟨task, op, i⟩ := a
    change ¬ (State.step E op i s).2.memory.current id
    obtain ⟨m, hm, hop⟩ := h
    rcases step_memory (E := E) (s := s) op i with ⟨hsame, hnot⟩ | ⟨actor, c, rfl, hafter⟩
    · rw [hsame]
      rcases List.mem_cons.mp hm with rfl | hm
      · cases op with
        | memory actor c => exact absurd rfl (hnot actor c)
        | _ => cases hop
      · exact ih hcond.2 ⟨m, hm, hop⟩
    · rw [hafter]
      rcases List.mem_cons.mp hm with rfl | hm
      · cases c with
        | forget k reason =>
          cases of_decide_eq_true hop
          exact forget_revokes id reason
        | purge k =>
          cases of_decide_eq_true hop
          exact purge_revokes id i.deletes
        | _ => cases hop
      · have hrev : Revoked id log := ⟨m, hm, hop⟩
        refine stays_revoked (ih hcond.2 hrev) (fun record hins hid hfree => ?_)
        have hmeets := hcond.1
        subst hid
        simp [meets, hins, hfree, hrev] at hmeets

theorem dropped_no_vector (hrun : (runtime E init).machine.Run Careful log s)
    (hcond : Undisturbed log) {id : String} (h : Dropped id log) (profile : String) :
    ¬ s.index.Has id profile := by
  refine hrun.induct (fun log s => Undisturbed log → Dropped id log → ¬ s.index.Has id profile)
    (fun _ h => ?_) (fun log s a hrun _ ih hcond h hhas => ?_) hcond h
  · obtain ⟨newer, d, older, hsplit, -⟩ := h
    simp at hsplit
  · obtain ⟨task, op, i⟩ := a
    obtain ⟨newer, d, older, hsplit, hd, hrev⟩ := h
    rcases step_vector hhas with ⟨hbefore, hne⟩ | ⟨hash, v, rfl⟩
    · cases newer with
      | nil =>
        cases hsplit
        exact hne hd
      | cons n newer =>
        cases hsplit
        exact ih hcond.2 ⟨newer, d, older, rfl, hd, hrev⟩ hbefore
    · have hcurrent : s.memory.current id = true := hcond.1
      cases newer with
      | nil =>
        cases hsplit
        cases hd
      | cons n newer =>
        cases hsplit
        obtain ⟨m, hm, hop⟩ := hrev
        exact revoked_not_current hrun hcond.2
          ⟨m, List.mem_append_right _ (List.mem_cons_of_mem d hm), hop⟩ hcurrent

end

/-- What `forget` or `purge` was called for has no vector once the call has
returned. -/
def Cleared {E : Deployment} {init : State} (W : (runtime E init).World) : Prop :=
  ∀ e ∈ W.log, ∀ id, e.call.op = .note (.returned id) →
    ∀ profile, ¬ W.state.index.Has id profile

/-- No vector of what was taken back is left or comes back, as long as vectors
are written of current records only. -/
theorem returned_leaves_no_vector {E : Deployment} {init : State} {W : (runtime E init).World}
    (hopen : init.indexOpen = true) (hreach : Shared.World.Reach (SemanticTask E) W)
    (hcond : Undisturbed W.log) : Cleared W := by
  have hdisc : W.Disciplined Careful := hreach.disciplined (fun _ hp => semantic_launchable hopen hp)
  intro e he id hop profile
  obtain ⟨newer, older, hsplit, -, hcareful⟩ := hdisc.run.of_mem he
  obtain ⟨later, d, rest, hrest, hd, hrev⟩ := hcareful.2 id hop
  have hdrop : Dropped id W.log := by
    refine ⟨newer ++ e :: later, d, rest, ?_, hd, hrev⟩
    rw [hsplit, hrest, List.append_assoc, List.cons_append]
  exact dropped_no_vector hdisc.run hcond hdrop profile

/-! ### A purge while the model embeds -/

def sampleRecord : MemoryRecord where
  id := "m"
  memoryType := .preference
  content := "prefers tea"
  subject := "user"
  source := "voice"
  sourceType := .userDirect
  trustLevel := .userDirect
  createdAt := 0
  updatedAt := 0

abbrev Sample : Shared State := runtime plainDeployment .start

def sampleTasks : List (Task Unit) :=
  [SemanticCall.task plainDeployment .user (.remember sampleRecord),
    SemanticCall.task plainDeployment .user (.purge "m")]

def sampleWorld (acts : List (Nat × Input)) : Sample.World := .play Sample sampleTasks acts

theorem sample_reach (acts : List (Nat × Input)) :
    Shared.World.Reach (SemanticTask plainDeployment) (sampleWorld acts) := by
  have hall : ∀ p ∈ sampleTasks, SemanticTask plainDeployment p := by
    intro p hp
    simp only [sampleTasks, List.mem_cons, List.not_mem_nil, or_false] at hp
    rcases hp with rfl | rfl
    · exact ⟨.user, _, rfl⟩
    · exact ⟨.user, _, rfl⟩
  exact @Shared.World.Reach.play _ Sample _ _ hall acts

def vectorAnswer : Input := { vectors := some [[1]] }

/-- The record is purged while its text is embedded. -/
def crossed : List (Nat × Input) :=
  [(0, {}), (0, {}), (0, {}), (0, {}), (1, {}), (1, {}), (1, {}), (1, {}), (0, vectorAnswer),
    (0, {})]

/-- The record is stored and indexed, and then it is purged. -/
def inTurn : List (Nat × Input) :=
  [(0, {}), (0, {}), (0, {}), (0, {}), (0, vectorAnswer), (0, {}), (1, {}), (1, {}), (1, {}),
    (1, {})]

def returnedIn (W : Sample.World) : Bool :=
  W.log.any (fun e => match e.call.op with
    | .note (.returned id) => id = "m"
    | _ => false)

theorem returned_mem {W : Sample.World} (h : returnedIn W = true) :
    ∃ e ∈ W.log, e.call.op = .note (.returned "m") := by
  obtain ⟨e, he, hop⟩ := List.any_eq_true.mp h
  refine ⟨e, he, ?_⟩
  split at hop
  · rename_i id hnote
    rw [hnote, of_decide_eq_true hop]
  · cases hop

def vectorLeft (W : Sample.World) : Bool :=
  W.state.index.rows.rows.any (fun row => row.memoryId = "m" && row.profileKey = "local")

theorem vector_has {W : Sample.World} (h : vectorLeft W = true) : W.state.index.Has "m" "local" := by
  obtain ⟨row, hrow, heq⟩ := List.any_eq_true.mp h
  simp only [Bool.and_eq_true, decide_eq_true_eq] at heq
  exact ⟨row, hrow, heq⟩

/-- The vector of a purged record is written after the purge has returned. -/
theorem purged_vector_written : ¬ ∀ (E : Deployment) (W : (runtime E .start).World),
    Shared.World.Reach (SemanticTask E) W → Cleared W := by
  intro h
  obtain ⟨e, he, hop⟩ := returned_mem (W := sampleWorld crossed) (by decide)
  exact h plainDeployment _ (sample_reach crossed) e he "m" hop "local"
    (vector_has (by decide))

/-- The run in turn meets the condition, and leaves no vector. -/
theorem returned_leaves_no_vector_sample :
    (∃ e ∈ (sampleWorld inTurn).log, e.call.op = .note (.returned "m")) ∧
      Cleared (sampleWorld inTurn) :=
  ⟨returned_mem (by decide), returned_leaves_no_vector rfl (sample_reach inTurn) (by
    decide)⟩

end Solvio.Memory.Vectors
