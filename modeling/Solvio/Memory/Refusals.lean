import Solvio.Memory.Asked
import Solvio.Memory.Effects

namespace Solvio.Memory.Refusals
open Solvio.Lib

/-! ### What a refusal and an automatic write rest on -/

/-- The user refuses the statement. -/
def Suppresses (key : String) : Op → Prop
  | .candidates .user (.suppress k _ _) => k = key
  | _ => False

theorem suppresses_iff {key : String} {op : Op} : Suppresses key op ↔
    ∃ reason now, op = .candidates .user (.suppress key reason now) := by
  constructor
  · intro h
    unfold Suppresses at h
    split at h
    · subst h
      exact ⟨_, _, rfl⟩
    · exact h.elim
  · rintro ⟨reason, now, rfl⟩
    rfl

/-- An automatic step that files the statement or stores it. -/
def Creates (E : Deployment) (key : String) (op : Op) : Prop :=
  (∃ c evidence now, op = .candidates .automatic (.observe c evidence now) ∧ c.dedupKey = key) ∨
    ∃ c uuid record, op = .memory .automatic c ∧ c.inserted uuid = some record ∧
      E.texts.dedupKey record.content = key

/-- Neither creates anything or lifts a refusal without the user, nor ends the taking
back of a statement. -/
def Calm : Op → Prop
  | .memory .automatic (.remember _) => False
  | .memory .automatic (.supersede _ _) => False
  | .candidates .automatic (.observe _ _ _) => False
  | .candidates .automatic (.unsuppress _) => False
  | .note (.revoked _ true) => False
  | _ => True

theorem calm_creates {E : Deployment} {key : String} {op : Op} (h : Calm op) :
    ¬ Creates E key op := by
  rintro (⟨c, evidence, now, rfl, -⟩ | ⟨c, uuid, record, rfl, hins, -⟩)
  · exact h.elim
  · cases c with
    | remember _ => exact h.elim
    | supersede _ _ => exact h.elim
    | _ => cases hins

theorem calm_derived : Derived Calm where
  reads actor c h := by
    cases actor with
    | user => trivial
    | automatic =>
      cases c with
      | remember _ => exact h.elim
      | supersede _ _ => exact h.elim
      | _ => trivial
  index _ := trivial
  indexOpen := trivial
  embed _ := trivial

section
variable {E : Deployment} {init : State}

/-- The question whether the statement is refused, answered with no. -/
def FoundFree (key : String) (e : Entry E init) : Prop :=
  e.call.op = .candidates .automatic (.isSuppressed key) ∧
    e.pre.candidates.isSuppressed key = false

/-- The task is handling a statement that it has found free. -/
def Cleared (task : Nat) (key : String) (log : List (Entry E init)) : Prop :=
  Shared.Since (w := runtime E init) task (fun op => op ≠ .note (.handled key))
    (fun _ v => FoundFree key v) log

/-- The task has refused the statement. -/
def Silenced (task : Nat) (key : String) (log : List (Entry E init)) : Prop :=
  ∃ u ∈ log, u.call.task = task ∧ Suppresses key u.call.op

/-- A record without a word is read. -/
def Wordless (e : Entry E init) : Prop :=
  ∃ actor id r, e.call.op = .memory actor (.get id) ∧
    (e.pre.memory.get id).reply = .ok (.found (some r)) ∧ r.content = ""

/-- What is created was found free, and what is reported as taken back has been
refused. -/
structure Heeding (log : List (Entry E init)) (a : (runtime E init).Act) : Prop where
  created : ∀ key, Creates E key a.op → Cleared a.task key log
  silenced : ∀ key, a.op = .note (.revoked key true) →
    Silenced a.task key log ∨ ∃ g ∈ log, Wordless g
  lifted : ∀ key, a.op ≠ .candidates .automatic (.unsuppress key)

theorem calm_heeding {log : List (Entry E init)} {a : (runtime E init).Act} (h : Calm a.op) :
    Heeding log a where
  created _ hcreates := (calm_creates h hcreates).elim
  silenced key hop := by
    rw [hop] at h
    exact h.elim
  lifted key hop := by
    rw [hop] at h
    exact h

abbrev Keeps {α : Type} (task : Nat) (p : Task α) (log : List (Entry E init))
    (Q : List (Entry E init) → α → Prop) : Prop :=
  Shared.Safe (w := runtime E init) Heeding task p log Q

end

/-! ### The handling of a proposal -/

section
variable {E : Deployment} {init : State} {task : Nat} {log : List (Entry E init)}
  {key : String}

theorem calm_keeps {α : Type} {p : Task α} (h : p.Asks Calm) (log : List (Entry E init)) :
    Keeps task p log (fun _ _ => True) :=
  .of_asks h (fun _ _ hop => calm_heeding hop)

/-- Creates only this statement, and does not end its handling. -/
structure Within (E : Deployment) (key : String) (op : Op) : Prop where
  unended : op ≠ .note (.handled key)
  revoked : ∀ j, op ≠ .note (.revoked j true)
  lifted : ∀ j, op ≠ .candidates .automatic (.unsuppress j)
  creates : ∀ j, Creates E j op → j = key

theorem within_calm {op : Op} (h : Calm op) (hnote : op ≠ .note (.handled key)) :
    Within E key op where
  unended := hnote
  revoked j hop := by
    rw [hop] at h
    exact h
  lifted j hop := by
    rw [hop] at h
    exact h
  creates j hcreates := (calm_creates h hcreates).elim

theorem within_stores {call : MemoryCall} {content : String}
    (h : ∀ uuid record, call.inserted uuid = some record → record.content = content) :
    Within E (E.texts.dedupKey content) (.memory .automatic call) where
  unended hop := by cases hop
  revoked j hop := by cases hop
  lifted j hop := by cases hop
  creates j hcreates := by
    rcases hcreates with ⟨c, evidence, now, hop, -⟩ | ⟨c, uuid, record, hop, hins, rfl⟩
    · cases hop
    · cases hop
      rw [h uuid record hins]

theorem within_observes {c : Candidate} {evidence : Evidence} {now : Int}
    (h : c.dedupKey = key) : Within E key (.candidates .automatic (.observe c evidence now)) where
  unended hop := by cases hop
  revoked j hop := by cases hop
  lifted j hop := by cases hop
  creates j hcreates := by
    rcases hcreates with ⟨d, evidence, now, hop, rfl⟩ | ⟨d, uuid, record, hop, -⟩
    · cases hop
      exact h
    · cases hop

theorem within_pursues (E : Deployment) (proposal : Proposal) (moment : Int) :
    Adaptive.Pursues (Within E (E.texts.dedupKey proposal.statement)) proposal
      (E.texts.dedupKey proposal.statement) moment where
  reads actor c h := within_calm (calm_derived.reads actor c h) (fun hop => by cases hop)
  index _ := within_calm trivial (fun hop => by cases hop)
  indexOpen := within_calm trivial (fun hop => by cases hop)
  embed _ := within_calm trivial (fun hop => by cases hop)
  lookup := within_calm trivial (fun hop => by cases hop)
  observe _ _ hkey := within_observes hkey
  move _ _ _ := within_calm trivial (fun hop => by cases hop)
  decided _ := within_calm trivial (fun hop => by cases hop)
  reinforce _ _ _ := within_calm trivial (fun hop => by cases hop)
  adopt c decision := by
    apply within_stores
    intro uuid record hins
    cases hins
    rfl
  relearn target c decision := by
    apply within_stores
    intro uuid record hins
    cases hins
    rfl

/-- A task that goes on handling what it has found free. -/
theorem cleared_kept (task : Nat) (key : String) :
    Shared.Safe.Kept (w := runtime E init) task (Within E key) (Cleared task key) where
  later := (Shared.Since.kept (w := runtime E init) task _ _).later
  own log s op i h hop := (Shared.Since.kept (w := runtime E init) task _ _).own log s op i h hop.unended

theorem within_keeps {α : Type} {p : Task α} (hasks : p.Asks (Within E key))
    (hfree : Cleared task key log) : Keeps task p log (fun log _ => Cleared task key log) := by
  refine Shared.Safe.of_asks_while (cleared_kept task key) hasks hfree (fun log op i h hop => ?_)
  refine ⟨fun j hcreates => ?_, fun j hrevoked => (hop.revoked j hrevoked).elim, hop.lifted⟩
  rw [hop.creates j hcreates]
  exact h

/-- What is refused is not pursued. -/
theorem refused_ends (proposal : Proposal) (turn : OwnerTurn) (secret : Bool)
    (conflict : Option Conflict) (moment : Int) :
    Adaptive.pursue E proposal turn key true secret conflict
      (E.texts.decide proposal turn 0 true secret conflict) moment = pure () := by
  have hdiscard : (E.texts.decide proposal turn 0 true secret conflict).action = .discard :=
    decide_refused E.texts proposal turn 0 conflict (.inl rfl)
  unfold Adaptive.pursue
  rw [hdiscard]
  rfl

theorem handle_keyed_keeps (proposal : Proposal) (turn : OwnerTurn) (moment : Int)
    (log : List (Entry E init)) : Keeps task (Adaptive.handleKeyed E proposal turn
      (E.texts.dedupKey proposal.statement) moment) log (fun _ _ => True) := by
  refine Shared.Safe.bind (Q := fun log suppressed => suppressed = false →
    Cleared task (E.texts.dedupKey proposal.statement) log) ?_ (fun log suppressed hfree => ?_)
  · refine Task.candidates_safe (fun log' s _ _ i => ⟨calm_heeding trivial, ?_⟩)
    intro r suppressed hr hsuppressed hfalse
    cases hr
    cases hsuppressed
    exact Shared.Since.now rfl ⟨rfl, hfalse⟩
  · cases suppressed with
    | true =>
      refine (calm_keeps (Adaptive.find_conflict_asks E calm_derived proposal turn) log).bind
        (fun log conflict _ => ?_)
      rw [refused_ends]
      trivial
    | false =>
      have hwithin := within_pursues E proposal moment
      refine (within_keeps (Adaptive.find_conflict_asks E hwithin.toDerived proposal turn)
        (hfree rfl)).bind (fun log conflict hfree => ?_)
      exact (within_keeps (Adaptive.pursue_asks E hwithin turn false _ conflict _) hfree).conseq
        (fun _ _ _ => trivial)

theorem note_keeps {m : Mark} (h : Calm (.note m)) (log : List (Entry E init)) :
    Keeps task (Task.note m) log (fun _ _ => True) := calm_keeps (.request h) log

theorem handle_keeps (turn : OwnerTurn) (moment : Int) (proposal : Proposal)
    (log : List (Entry E init)) :
    Keeps task (Adaptive.handle E turn moment proposal) log (fun _ _ => True) := by
  refine (note_keeps (by trivial) log).bind (fun log _ _ => ?_)
  refine (handle_keyed_keeps proposal turn moment log).attempt_some.bind (fun log done _ => ?_)
  refine (note_keeps (by trivial) log).bind (fun log _ _ => ?_)
  cases done <;> trivial

theorem process_launchable (turn : OwnerTurn) (context : String) (moment : Int) :
    Shared.Launchable (w := runtime E init) Heeding (Adaptive.process E turn context moment) := by
  intro task
  have hall : ∀ (proposals : List Proposal) (log : List (Entry E init)),
      Keeps task (Adaptive.handleAll E turn moment proposals) log (fun _ _ => True) := by
    intro proposals
    induction proposals with
    | nil => exact fun _ => trivial
    | cons p ps ih =>
      exact fun log => (handle_keeps turn moment p log).bind (fun log _ _ => ih log)
  unfold Adaptive.process
  split
  · trivial
  · refine Shared.Safe.bind (calm_keeps (.request (by trivial)) []) (fun log proposals _ => ?_)
    cases proposals with
    | none => trivial
    | some proposals => exact hall proposals log

end

/-! ### What the user takes back -/

section
variable {E : Deployment} {init : State} {task : Nat} {log : List (Entry E init)} {key : String}

/-- The statement is refused by now, or it is of a record without a word. -/
def Refused (task : Nat) (key : String) (log : List (Entry E init)) : Prop :=
  Silenced task key log ∨ ∃ g ∈ log, Wordless g

theorem refused_lasting (task : Nat) (key : String) :
    Shared.Safe.Lasting (w := runtime E init) (Refused task key) := by
  rintro log more (⟨u, hu, h⟩ | ⟨g, hg, h⟩)
  · exact .inl ⟨u, List.mem_append_right more hu, h⟩
  · exact .inr ⟨g, List.mem_append_right more hg, h⟩

theorem suppress_keeps (reason : SuppressReason) (now : Int) (log : List (Entry E init)) :
    Keeps task (Task.suppress .user key reason now) log (fun log _ => Refused task key log) := by
  refine Task.candidates_safe (fun log' s _ _ i => ⟨calm_heeding trivial, fun _ _ _ _ => ?_⟩)
  exact .inl ⟨_, List.mem_cons_self .., rfl, rfl⟩

/-- Calm requests leave what lasts. -/
theorem lasting_keeps {α : Type} {p : Task α} {I : List (Entry E init) → Prop}
    (lasting : Shared.Safe.Lasting (w := runtime E init) I) (h : p.Asks Calm) (hI : I log) :
    Keeps task p log (fun log _ => I log) :=
  .of_asks_since lasting h hI (fun _ _ _ _ hop => calm_heeding hop)

/-- What has taken a statement back has refused it. -/
theorem revocation_keeps {named : Option String} {body : Task Bool}
    {I : List (Entry E init) → Prop} (lasting : Shared.Safe.Lasting (w := runtime E init) I)
    (hbody : ∀ log : List (Entry E init), I log → Keeps task body log (fun log ok => ok = true →
      ∀ key, named = some key → Refused task key log)) (hI : I log) :
    Keeps task (Adaptive.revocation named body) log (fun _ _ => True) := by
  cases named with
  | none => exact (hbody log hI).conseq (fun _ _ _ => trivial)
  | some key =>
    refine (lasting_keeps lasting (.request (by trivial)) hI).bind (fun log _ hI => ?_)
    refine (hbody log hI).attempt_some.bind (fun log done hdone => ?_)
    refine Shared.Safe.bind (Q := fun _ _ => True) ?_ (fun _ _ _ => by cases done <;> trivial)
    refine fun log' s _ hlater i => ⟨⟨fun j hcreates => ?_, fun j hop => ?_,
      fun j hop => (by cases hop)⟩, trivial⟩
    · rcases hcreates with ⟨c, evidence, now, hop, -⟩ | ⟨c, uuid, record, hop, -⟩
      · cases hop
      · cases hop
    · obtain ⟨more, rfl, -⟩ := hlater
      cases done with
      | none => cases hop
      | some ok =>
        cases hop
        exact refused_lasting task key log more (hdone true rfl rfl key rfl)

theorem decline_launchable (candidateId : String) (moment : Int) :
    Shared.Launchable (w := runtime E init) Heeding
      (do let _ ← Adaptive.declineCandidate candidateId moment) := by
  intro task
  refine Shared.Safe.bind (Q := fun _ _ => True) ?_ (fun _ _ _ => trivial)
  refine (calm_keeps (Task.candidates_asks (by trivial)) []).bind (fun log c _ => ?_)
  cases c with
  | none => trivial
  | some c =>
    dsimp only
    split
    · refine revocation_keeps (I := fun _ => True) (fun _ _ _ => trivial) (fun log _ => ?_) trivial
      refine (calm_keeps (Task.candidates_asks (by trivial)) log).bind (fun log _ _ => ?_)
      refine (suppress_keeps .declined moment log).bind (fun log _ hrefused => ?_)
      intro _ key hkey
      cases hkey
      exact hrefused
    · trivial

/-- A text without a word was read in a record. -/
def Worded (content : String) (log : List (Entry E init)) : Prop :=
  content = "" → ∃ g ∈ log, Wordless g

theorem worded_lasting (content : String) :
    Shared.Safe.Lasting (w := runtime E init) (Worded content) := by
  intro log more h hempty
  obtain ⟨g, hg, hwordless⟩ := h hempty
  exact ⟨g, List.mem_append_right more hg, hwordless⟩

/-- The suppression that follows a removal. -/
theorem note_forgotten_keeps (memoryId content : String) (now : Int) (hworded : Worded content log) :
    Keeps task (Adaptive.noteForgotten E memoryId content now) log
      (fun log _ => Refused task (E.texts.dedupKey content) log) := by
  by_cases hcontent : content = ""
  · have hasks : (Adaptive.noteForgotten E memoryId content now).Asks Calm :=
      Adaptive.note_forgotten_asks E calm_derived (fun _ _ _ => trivial) memoryId content now
    exact lasting_keeps (refused_lasting task _) hasks (.inr (hworded hcontent))
  · unfold Adaptive.noteForgotten
    rw [if_pos hcontent]
    simp only [Prog.pure_eq, Prog.bind_ret, hcontent, if_false]
    exact suppress_keeps .forgotten now log

/-- What a read for a refusal finds has a word, or the log shows that it has none. -/
theorem get_worded (memoryId : String) (log : List (Entry E init)) :
    Keeps task (Task.get .user memoryId) log
      (fun log found => ∀ r, found = some r → Worded r.content log) := by
  refine Task.memory_safe (fun log' s _ _ i => ⟨calm_heeding trivial, fun r found hr hf => ?_⟩)
  rintro record rfl hempty
  cases r with
  | found r =>
    cases hf
    exact ⟨_, List.mem_cons_self .., .user, memoryId, record, rfl, hr, hempty⟩
  | _ => cases hf

theorem correct_launchable (memoryId statement : String) (now : Int) :
    Shared.Launchable (w := runtime E init) Heeding
      (do let _ ← Capabilities.correct E memoryId statement now) := by
  intro task
  refine Shared.Safe.bind (Q := fun _ _ => True) ?_ (fun _ _ _ => trivial)
  refine (get_worded memoryId []).bind (fun log old hworded => ?_)
  cases old with
  | none => trivial
  | some old =>
    dsimp only
    split
    · trivial
    · refine revocation_keeps (worded_lasting old.content) (fun log hworded => ?_) (hworded old rfl)
      have hasks : (Semantic.supersede E .user memoryId
          (Capabilities.correction old memoryId statement now)).Asks Calm :=
        Semantic.supersede_asks calm_derived trivial
      refine (lasting_keeps (worded_lasting old.content) hasks hworded).bind
        (fun log _ hworded => ?_)
      refine (note_forgotten_keeps memoryId old.content now hworded).bind (fun log _ hrefused => ?_)
      intro _ key hkey
      cases hkey
      exact hrefused

/-- Removing and then refusing. -/
theorem take_back_launchable {remove : Task Bool} (memoryId : String) (now : Int)
    (hremove : remove.Asks Calm) : Shared.Launchable (w := runtime E init) Heeding
      (do let _ ← Capabilities.takeBack E memoryId now remove) := by
  intro task
  refine Shared.Safe.bind (Q := fun _ _ => True) ?_ (fun _ _ _ => trivial)
  refine (get_worded memoryId []).bind (fun log record hworded => ?_)
  let I := fun log : List (Entry E init) => ∀ r, record = some r → Worded r.content log
  have hlasting : Shared.Safe.Lasting (w := runtime E init) I :=
    fun log more h r hr => worded_lasting r.content log more (h r hr)
  refine revocation_keeps hlasting (fun log hI => ?_) hworded
  refine (lasting_keeps hlasting hremove hI).bind (fun log ok hI => ?_)
  cases ok with
  | false => exact fun h => by cases h
  | true =>
    cases record with
    | none =>
      refine (calm_keeps (Adaptive.note_forgotten_asks E calm_derived (fun _ _ _ => trivial) ..)
        log).bind (fun log _ _ => ?_)
      intro _ key hkey
      cases hkey
    | some r =>
      refine (note_forgotten_keeps memoryId r.content now (hI r rfl)).bind
        (fun log _ hrefused => ?_)
      intro _ key hkey
      cases hkey
      exact hrefused

theorem launched_launchable {p : Task Unit} (h : Launched E p) :
    Shared.Launchable (w := runtime E init) Heeding p := by
  cases h with
  | observed enabled turn context moment =>
    unfold Adaptive.observeTurn
    split
    · exact process_launchable turn context moment
    · exact fun task => trivial
  | processed turn context moment => exact process_launchable turn context moment
  | maintained moment => exact fun task => calm_keeps (Task.candidates_asks (by trivial)) []
  | remembered intent now =>
    have hserves : Service.Serves E Calm :=
      { calm_derived with
        openIndex := trivial
        flags := fun _ => trivial
        remembered := fun _ _ _ => trivial
        replaced := fun _ _ _ _ => trivial }
    intro task
    refine calm_keeps (Prog.Asks.bind (Service.remember_asks hserves intent now) (fun _ => ?_)) []
    trivial
  | confirmed id via moment =>
    intro task
    refine calm_keeps (Prog.Asks.bind (Adaptive.confirm_asks E calm_derived (fun _ => trivial)
      (fun _ _ _ => trivial) (fun _ _ _ => trivial) id via moment) (fun _ => ?_)) []
    trivial
  | declined id moment => exact decline_launchable id moment
  | corrected id statement now => exact correct_launchable id statement now
  | forgotten id now =>
    exact take_back_launchable id now (Semantic.forget_asks (P := Calm) calm_derived trivial trivial)
  | purged id now =>
    exact take_back_launchable id now (Semantic.purge_asks (P := Calm) calm_derived trivial trivial)

end

/-! ### A refusal holds -/

section
variable {E : Deployment} {init : State} {key : String}

/-- A step without the user. -/
def Automatic : Op → Prop
  | .memory .automatic _ => True
  | .candidates .automatic _ => True
  | _ => False

/-- A candidate or a record of the statement is there that was not. -/
def Arises (key : String) (e : Entry E init) : Prop :=
  (∃ id x, e.pre.candidates.candidates.find? id = none ∧
    e.post.candidates.candidates.find? id = some x ∧ x.dedupKey = key) ∨
  ∃ id v, e.pre.memory.files.db.view id = none ∧ e.post.memory.files.db.view id = some v ∧
    E.texts.dedupKey v.1.content = key

/-- A confirmation of the statement, or that the user has it remembered. -/
def Reopens (E : Deployment) (key : String) (op : Op) : Prop :=
  op = .candidates .user (.unsuppress key) ∨
    ∃ content intent now, E.texts.dedupKey content = key ∧
      (op = .memory .user (.remember (Service.buildRecord E content intent now)) ∨
        ∃ oldId, op = .memory .user (.supersede oldId (Service.buildRecord E content intent now)))

/-- The read a task takes a record back with. -/
def Begins (task : Nat) (f : Entry E init) : Prop :=
  f.call.task = task ∧ ∃ id, f.call.op = .memory .user (.get id)

/-- Neither forgotten nor purged nor replaced. -/
def Truth (id : String) (s : State) : Prop :=
  s.memory.current id = true ∧
    ∃ v, s.memory.files.db.view id = some v ∧ v.1.supersededBy = none

/-- What was taken back does not come back until it is reopened, and what was
adopted meanwhile is no current truth. -/
structure Sticks (W : (runtime E init).World) : Prop where
  refused : ∀ newer r older key, W.log = newer ++ r :: older →
    r.call.op = .note (.revoked key true) → ∀ after e before, newer = after ++ e :: before →
    Automatic e.call.op → Arises key e → ∃ u ∈ before, Reopens E key u.call.op
  outrun : ∀ newer r older key, W.log = newer ++ r :: older →
    r.call.op = .note (.revoked key true) → ∀ mid e rest, older = mid ++ e :: rest →
    (∃ f ∈ rest, Begins r.call.task f) → Automatic e.call.op → ∀ id v,
    e.pre.memory.files.db.view id = none → e.post.memory.files.db.view id = some v →
    E.texts.dedupKey v.1.content = key → ¬ Truth id W.state

/-- The statement was refused while the task was handling it as free. -/
def Overtaken (task : Nat) (key : String) (log : List (Entry E init)) : Prop :=
  ∃ newer v older, log = newer ++ v :: older ∧ v.call.task = task ∧ FoundFree key v ∧
    (∀ n ∈ newer, n.call.task = task → n.call.op ≠ .note (.handled key)) ∧
      ∃ u ∈ newer, Suppresses key u.call.op

/-- No handling overlaps a refusal of its statement. -/
structure Apart (older : List (Entry E init)) (e : Entry E init) : Prop where
  free : ∀ key, e.call.op ≠ .note (.handled key) → ¬ Overtaken e.call.task key older
  alone : ∀ key, Suppresses key e.call.op → ∀ newer x rest, older = newer ++ x :: rest →
    (∃ f ∈ rest, Begins e.call.task f) → Cleared x.call.task key rest →
      x.call.op = .note (.handled key)
  held : ∀ key, e.call.op = .note (.revoked key true) → ∀ newer u rest,
    older = newer ++ u :: rest → u.call.task = e.call.task → Suppresses key u.call.op →
      ∀ n ∈ newer, n.call.op ≠ .candidates .user (.unsuppress key)
  worded : ¬ Wordless e

theorem arises_creates {e : Entry E init} (hauto : Automatic e.call.op) (h : Arises key e) :
    Creates E key e.call.op := by
  rcases h with ⟨id, x, hnone, hsome, rfl⟩ | ⟨id, v, hnone, hsome, rfl⟩
  · obtain ⟨-, actor, c, evidence, now, hop, hkey⟩ :=
      (candidate_step (E := E) (s := e.pre) e.call.op e.call.input id).fresh x hnone hsome
    rw [hop] at hauto
    cases actor with
    | user => exact hauto.elim
    | automatic => exact .inl ⟨c, evidence, now, hop, hkey.symm⟩
  · rcases step_memory (E := E) (s := e.pre) e.call.op e.call.input with
      ⟨hsame, -⟩ | ⟨actor, c, hop, hafter⟩
    · have hsame' : e.post.memory = e.pre.memory := hsame
      rw [hsame', hnone] at hsome
      cases hsome
    · have hev := call_evolves (B := E.backend) (s := e.pre.memory) (i := e.call.input)
        (E.uuid e.pre.drawn) c id
      rw [← hafter, hnone] at hev
      have hsome' : (State.step E e.call.op e.call.input e.pre).2.memory.files.db.view id =
        some v := hsome
      rw [hsome'] at hev
      rw [hop] at hauto
      cases actor with
      | user => exact hauto.elim
      | automatic =>
        cases hev with
        | inserted hins hid => exact .inr ⟨c, _, _, hop, hins, rfl⟩

/-- A refusal lasts until the user lifts it. -/
theorem suppressed_step {s : State} {op : Op} {i : Input} (h : s.candidates.isSuppressed key = true)
    (hop : ∀ actor, op ≠ .candidates actor (.unsuppress key)) :
    (State.step E op i s).2.candidates.isSuppressed key = true := by
  cases op with
  | candidates actor c =>
    change (s.callCandidates E c).2.candidates.isSuppressed key = true
    cases c with
    | suppress k reason now =>
      simp only [State.callCandidates, CandidateStore.isSuppressed, CandidateStore.suppress,
        Table.find_put]
      split
      · rfl
      · exact h
    | unsuppress k =>
      have hne : key ≠ k := fun hk => hop actor (by rw [hk])
      simp only [State.callCandidates, CandidateStore.isSuppressed, CandidateStore.unsuppress,
        Table.find_delete, if_neg hne]
      exact h
    | observe c evidence now =>
      simp only [State.callCandidates, State.withCandidates]
      split
      · exact h
      · rename_i x t hx
        rw [CandidateStore.isSuppressed] at h ⊢
        rw [CandidateStore.observe_suppressions hx]
        exact h
    | transition id target move now =>
      simp only [State.callCandidates, State.withCandidates]
      split
      · exact h
      · rename_i x t hx
        rw [CandidateStore.isSuppressed] at h ⊢
        rw [CandidateStore.transition_suppressions hx]
        exact h
    | expireDue now => exact h
    | _ => exact h
  | flags c => cases c <;> exact h
  | _ => exact h

theorem suppresses_step {s : State} {op : Op} {i : Input} (h : Suppresses key op) :
    (State.step E op i s).2.candidates.isSuppressed key = true := by
  obtain ⟨reason, now, rfl⟩ := suppresses_iff.mp h
  simp only [State.step, State.callCandidates, CandidateStore.isSuppressed,
    CandidateStore.suppress, Table.find_put]
  exact congrArg Option.isSome (if_pos rfl)

/-- Behind a refusal that is not lifted nothing automatic brings the statement back. -/
theorem nothing_behind {e : Entry E init} {behind before : List (Entry E init)}
    {u : Entry E init} (hrun : (runtime E init).machine.Run Heeding (behind ++ u :: before) e.pre)
    (hpermit : Heeding (behind ++ u :: before) e.call) (hapart : Apart (behind ++ u :: before) e)
    (hu : Suppresses key u.call.op)
    (hlifted : ∀ n ∈ behind, n.call.op ≠ .candidates .user (.unsuppress key)) :
    ¬ Creates E key e.call.op := by
  intro hcreates
  obtain ⟨newer, v, older, hsplit, htask, hfree, hall⟩ := hpermit.created key hcreates
  have hstart : u.post.candidates.isSuppressed key = true := suppresses_step hu
  have hstays := hrun.carried (fun s => s.candidates.isSuppressed key = true) hstart
    (fun n hn hs => suppressed_step hs (fun actor hop => ?_))
  · rcases Machine.two_splits hsplit with huv | ⟨X, hX, -⟩ | ⟨X, hX, -⟩
    · rw [huv, hfree.1] at hu
      exact hu
    · -- the handling read before the refusal, and goes on behind it
      refine hapart.free key (fun hop => ?_) ⟨newer, v, older, hsplit, htask, hfree, hall, u, ?_, hu⟩
      · rcases hcreates with ⟨c, evidence, now, hop', -⟩ | ⟨c, uuid, record, hop', -⟩
        · rw [hop] at hop'
          cases hop'
        · rw [hop] at hop'
          cases hop'
      · rw [hX]
        exact List.mem_append_right _ (List.mem_cons_self ..)
    · have hsup := hstays.2 v (by rw [hX]; exact List.mem_append_right _ (List.mem_cons_self ..))
      rw [hfree.2] at hsup
      cases hsup
  · cases actor with
    | user => exact hlifted n hn hop
    | automatic =>
      obtain ⟨_, _, -, -, hheeding⟩ := hrun.of_mem (List.mem_append_left _ hn)
      exact hheeding.lifted key hop

end

/-! ### A turn that is handled while its statement is forgotten -/

section
variable {E : Deployment} {init : State}

/-- Finds nothing free, lifts no refusal and reads no record without a word. -/
def quiet (e : Entry E init) : Bool :=
  match e.call.op with
  | .candidates .automatic (.isSuppressed key) => e.pre.candidates.isSuppressed key
  | .candidates .user (.unsuppress _) => false
  | .memory _ (.get id) => match (e.pre.memory.get id).reply with
    | .ok (.found (some r)) => r.content ≠ ""
    | _ => true
  | _ => true

theorem quiet_found {e : Entry E init} (h : quiet e = true) (key : String) : ¬ FoundFree key e := by
  rintro ⟨hop, hfree⟩
  simp only [quiet, hop, hfree] at h
  cases h

theorem quiet_lifts {e : Entry E init} (h : quiet e = true) (key : String) :
    e.call.op ≠ .candidates .user (.unsuppress key) := by
  intro hop
  simp only [quiet, hop] at h
  cases h

theorem quiet_worded {e : Entry E init} (h : quiet e = true) : ¬ Wordless e := by
  rintro ⟨actor, id, r, hop, hreply, hempty⟩
  simp [quiet, hop, hreply, hempty] at h

theorem quiet_apart {log : List (Entry E init)} (h : log.all quiet = true) :
    Machine.Each Apart log := by
  induction log with
  | nil => trivial
  | cons e older ih =>
    simp only [List.all_cons, Bool.and_eq_true] at h
    have holder := List.all_eq_true.mp h.2
    refine ⟨⟨fun key _ hover => ?_, fun key _ newer x rest hsplit _ hcleared => ?_,
      fun key _ newer u rest hsplit _ _ n hn => ?_, quiet_worded h.1⟩, ih h.2⟩
    · obtain ⟨newer, v, rest, rfl, -, hfree, -⟩ := hover
      exact quiet_found (holder v (by simp)) key hfree
    · obtain ⟨_, v, _, rfl, -, hfree, -⟩ := hcleared
      exact (quiet_found (holder v (by rw [hsplit]; simp)) key hfree).elim
    · exact quiet_lifts (holder n (by rw [hsplit]; simp [hn])) key

/-- Neither confirms nor stores anything for the user. -/
def closed : Op → Bool
  | .candidates .user (.unsuppress _) => false
  | .memory .user (.remember _) => false
  | .memory .user (.supersede _ _) => false
  | _ => true

/-- The statement was taken back, and has not been reopened. -/
def takenBack (key : String) : List (Entry E init) → Bool
  | [] => false
  | r :: older => (match r.call.op with
    | .note (.revoked k true) => k = key
    | _ => false) || (closed r.call.op && takenBack key older)

theorem taken_back {key : String} {log : List (Entry E init)} (h : takenBack key log = true) :
    ∃ before r older, log = before ++ r :: older ∧ r.call.op = .note (.revoked key true) ∧
      ∀ u ∈ before, ¬ Reopens E key u.call.op := by
  induction log with
  | nil => cases h
  | cons r older ih =>
    rcases Bool.or_eq_true_iff.mp h with hr | hrest
    · split at hr
      · rename_i k hop
        exact ⟨[], r, older, rfl, by rw [hop, of_decide_eq_true hr], fun u hu => by cases hu⟩
      · cases hr
    · obtain ⟨hclosed, hrest⟩ := Bool.and_eq_true_iff.mp hrest
      obtain ⟨before, d, rest, rfl, hd, hall⟩ := ih hrest
      refine ⟨r :: before, d, rest, rfl, hd, fun u hu => ?_⟩
      rcases List.mem_cons.mp hu with rfl | hu
      · rintro (hop | ⟨content, intent, now, -, hop | ⟨oldId, hop⟩⟩)
        all_goals
          rw [hop] at hclosed
          cases hclosed
      · exact hall u hu

/-- The last step files a statement that was taken back. -/
def resurfaces : List (Entry E init) → Bool
  | [] => false
  | e :: older => match e.call.op with
    | .candidates .automatic (.observe c _ _) => takenBack c.dedupKey older &&
      e.post.candidates.candidates.rows.any (fun x => x.dedupKey = c.dedupKey &&
        (e.pre.candidates.candidates.find? x.id).isNone)
    | _ => false

theorem resurfaced {W : (runtime E init).World} (h : resurfaces W.log = true) : ¬ Sticks W := by
  intro hsticks
  cases hlog : W.log with
  | nil => rw [hlog] at h; cases h
  | cons e older =>
    rw [hlog] at h
    simp only [resurfaces] at h
    split at h
    · rename_i c evidence now hop
      obtain ⟨htaken, hany⟩ := Bool.and_eq_true_iff.mp h
      obtain ⟨before, r, first, rfl, hr, hclosed⟩ := taken_back htaken
      obtain ⟨x, hx, hboth⟩ := List.any_eq_true.mp hany
      simp only [Bool.and_eq_true, decide_eq_true_eq, Option.isNone_iff_eq_none] at hboth
      obtain ⟨u, hu, hreopens⟩ := hsticks.refused (e :: before) r first c.dedupKey hlog hr [] e
        before rfl (by rw [hop]; trivial)
        (.inl ⟨x.id, x, hboth.2, Table.find_of_mem hx, hboth.1⟩)
      exact hclosed u hu hreopens
    · cases h

end

def sampleIntent : Intent := { payload := "likes jazz", marker := "merke" }

def sampleTurn : OwnerTurn := { text := "likes jazz", channel := "voice_iphone" }

def sampleProposal : Proposal where
  statement := "likes jazz"
  kind := .stated
  memoryType := .preference
  subject := "user"

abbrev Sample : Shared State := runtime plainDeployment .start

/-- The user has a statement remembered and forgotten, and says it again. -/
def sampleTasks : List (Task Unit) :=
  [do let _ ← Service.remember plainDeployment sampleIntent 1,
    do let _ ← Capabilities.forget plainDeployment "uuu" 2,
    Adaptive.process plainDeployment sampleTurn "" 3]

def sampleWorld (acts : List (Nat × Input)) : Sample.World :=
  .play Sample sampleTasks (List.replicate 20 (0, ({} : Input)) ++ acts)

theorem sample_reach (acts : List (Nat × Input)) :
    Shared.World.Reach (Launched plainDeployment) (sampleWorld acts) := by
  have hall : ∀ p ∈ sampleTasks, Launched plainDeployment p := by
    intro p hp
    simp only [sampleTasks, List.mem_cons, List.not_mem_nil, or_false] at hp
    rcases hp with rfl | rfl | rfl
    · exact .remembered _ _
    · exact .forgotten _ _
    · exact .processed _ _ _
  exact @Shared.World.Reach.play _ Sample _ _ hall _

def said : Input := { proposals := some [sampleProposal] }

/-- The statement is forgotten while it is handled. -/
def crossed : List (Nat × Input) :=
  List.replicate 3 (2, said) ++ List.replicate 8 (1, ({} : Input)) ++ List.replicate 6 (2, ({} : Input))

/-- The statement is forgotten before it is said again. -/
def inTurn : List (Nat × Input) := List.replicate 8 (1, ({} : Input)) ++ List.replicate 10 (2, said)

theorem crossed_resurfaces : ∃ W : Sample.World,
    Shared.World.Reach (Launched plainDeployment) W ∧ resurfaces W.log = true :=
  ⟨sampleWorld crossed, sample_reach _, by decide⟩

theorem in_turn_quiet : ∃ W : Sample.World, Shared.World.Reach (Launched plainDeployment) W ∧
    W.log.all quiet = true ∧ takenBack "likes jazz" W.log = true :=
  ⟨sampleWorld inTurn, sample_reach _, by decide, by decide⟩

end Solvio.Memory.Refusals
