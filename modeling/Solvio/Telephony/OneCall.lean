import Solvio.Telephony.Capabilities

namespace Solvio.Telephony.OneCall
open Solvio.Lib

variable {R : Readers}

abbrev World (R : Readers) : Type := (shared R).World

abbrev Event (R : Readers) : Type := (shared R).Event

/-! ### The property -/

/-- The provider is contacted for this execution. -/
def Contacts (id : String) (e : Event R) : Prop :=
  e.call.op = .approach id ∧ approach e.pre id = .contact

/-- The answer to a start of this execution. -/
def Answered (id : String) (e : Event R) : Prop := e.call.op = .dialed id

/-- Nobody knows whether the call that this event starts takes place: the
provider leaves it open, or the task is gone before it has the answer. -/
def Unknown (W : World R) (id : String) (e : Event R) : Prop :=
  (∃ a ∈ W.log, a.call.task = e.call.task ∧ Answered id a ∧
    startCall R a.call.input = .ambiguous) ∨
  (W.tasks e.call.task = none ∧ ∀ a ∈ W.log, a.call.task = e.call.task → ¬ Answered id a)

/-- The row says that the call did not happen. -/
def Denies (row : CallRow) : Prop := row.callState = .prepared ∨ row.callState = .failed

/-- One execution, one phone call: at most one contact, a row before it, and a
row that does not deny a call of which nobody knows. -/
structure RingsOnce (W : World R) : Prop where
  once : ∀ id, W.log.Pairwise (fun e e' => Contacts id e → ¬ Contacts id e')
  durable : ∀ id, ∀ e ∈ W.log, Contacts id e → (e.pre.find? id).isSome
  honest : ∀ id, ∀ e ∈ W.log, Contacts id e → Unknown W id e →
    ∃ row, W.state.find? id = some row ∧ ¬ Denies row

/-! ### What the code goes by -/

/-- The task waits for the answer to its start, or has yet to write it down. -/
def Waits (W : World R) (id : String) (t : Nat) : Prop :=
  (∃ k, W.tasks t = some (.ask (.dialed id) k)) ∨ ∃ k, W.tasks t = some (.ask (.conflict id) k)

/-- No task looks at the row of an execution for which another one waits, and no
task ends while it waits. -/
def Orderly (W : World R) : (shared R).Move → Prop
  | .spawn _ => True
  | .act t _ => ∀ id k, W.tasks t = some (.ask (.approach id) k) → ∀ t', ¬ Waits W id t'
  | .stop t => ∀ id, ¬ Waits W id t

/-! ### What every orderly run keeps -/

theorem approach_threaded {l : Ledger} {id : String} (h : Threaded l id) :
    approach l id ≠ .contact := by
  obtain ⟨row, hrow, hne⟩ := h
  simp [approach, hrow, hne]

/-- A row that allows a contact neither has a conversation nor an outcome. -/
theorem approach_contact {l : Ledger} {id : String} {row : CallRow} (h : approach l id = .contact)
    (hrow : l.find? id = some row) : row.conversationId = "" ∧ row.callState = .prepared := by
  simp only [approach, hrow] at h
  split at h
  · cases h
  · rename_i hnone
    refine ⟨by simpa using hnone, ?_⟩
    split at h <;> first | assumption | cases h

/-- What a task does that is past its start, or that recovers. -/
def Reads (l : Ledger) : Op R → Prop
  | .fetch _ => True
  | .close id _ _ => Threaded l id
  | .exhaust id _ => Threaded l id
  | _ => False

/-- Where a task can stand. -/
inductive Standing (l : Ledger) : Phone R Unit → Prop where
  | called (id : String) (order : Order) (rounds : Nat) :
    Standing l (finished (call id order rounds))
  | prepared {id : String} (message : String) (rounds : Nat) : (l.find? id).isSome →
    Standing l (finished (approaching id message rounds))
  | dialing (id message : String) (rounds : Nat) :
    Standing l (finished (dialing id message rounds))
  | conflicted (id : String) : Standing l (finished (conflicted id))
  | recovering : Standing l recoverOpenCalls
  | reading {p : Phone R Unit} : p.Asks (Reads l) → Standing l p

theorem await_reads {l : Ledger} {id : String} (h : Threaded l id) (thread message : String)
    (rounds : Nat) (last : Option (Conversation R)) :
    (awaitOutcome (R := R) id thread message rounds last).Asks (Reads l) := by
  induction rounds generalizing last with
  | zero => exact ⟨h, fun _ => trivial⟩
  | succ rounds ih =>
    refine ⟨trivial, fun r => ?_⟩
    cases r with
    | unavailable => exact ih none
    | raised => trivial
    | conversation c =>
      dsimp only
      split
      · exact ⟨h, fun _ => trivial⟩
      · exact ih _

theorem recover_reads {l : Ledger} {rows : List CallRow}
    (h : ∀ row ∈ rows, Threaded l row.executionId) :
    (recoverEach (R := R) rows).Asks (Reads l) := by
  induction rows with
  | nil => trivial
  | cons row rows ih =>
    have hrest := ih (fun r hr => h r (List.mem_cons_of_mem row hr))
    refine ⟨trivial, fun r => ?_⟩
    cases r with
    | unavailable => exact hrest
    | raised => trivial
    | conversation c =>
      dsimp only
      split
      · exact ⟨h row (List.mem_cons_self ..), fun _ => hrest⟩
      · exact hrest

theorem finished_reads {l : Ledger} {p : Phone R Result} (h : p.Asks (Reads l)) :
    Standing l (finished p) := .reading (h.bind (fun _ => trivial))

theorem unfinished_threaded {l : Ledger} : ∀ row ∈ l.unfinished, Threaded l row.executionId := by
  intro row hrow
  obtain ⟨hmem, hopen⟩ := List.mem_filter.mp hrow
  simp only [ne_eq, Bool.and_eq_true, decide_eq_true_eq] at hopen
  exact ⟨row, Table.find_some.mpr ⟨hmem, rfl⟩, hopen.1⟩

theorem Standing.mono {l l' : Ledger} {p : Phone R Unit} (h : Standing l p)
    (threaded : ∀ id, Threaded l id → Threaded l' id)
    (known : ∀ id, (l.find? id).isSome → (l'.find? id).isSome) : Standing l' p := by
  cases h with
  | called id order rounds => exact .called id order rounds
  | prepared message rounds hrow => exact .prepared message rounds (known _ hrow)
  | dialing id message rounds => exact .dialing id message rounds
  | conflicted id => exact .conflicted id
  | recovering => exact .recovering
  | reading hp =>
    refine .reading (hp.mono (fun op hop => ?_))
    cases op <;> first | exact threaded _ hop | exact hop

/-- A row is never taken away. -/
theorem known_step {l : Ledger} {id : String} (h : (l.find? id).isSome) (op : Op R)
    (answer : UpstreamAnswer) : (((shared R).step op answer l).2.find? id).isSome := by
  have hrecord : ∀ k r, ((l.recordOutcome k r).find? id).isSome := by
    intro k r
    rw [Ledger.find_record]
    split
    · rename_i hk
      subst hk
      simpa using h
    · exact h
  cases op with
  | prepare k order =>
    change ((l.prepare k order).find? id).isSome
    rw [Ledger.find_prepare]
    split
    · rfl
    · exact h
  | approach k => exact h
  | dialed k =>
    simp only [shared, settle]
    cases startCall R answer with
    | refused => exact hrecord k _
    | ambiguous => exact hrecord k _
    | started thread =>
      have hattach : ((l.attachConversation k thread).2.find? id).isSome := by
        rcases l.attach_cases k thread with ⟨-, heq⟩ | ⟨-, _, -, -, heq⟩ | ⟨-, _, -, -, hfind⟩
        · rw [heq]
          exact h
        · rw [heq]
          exact h
        · rw [hfind]
          split
          · rfl
          · exact h
      revert hattach
      dsimp only
      rcases l.attachConversation k thread with ⟨_ | _, l'⟩ <;> exact fun h => h
  | conflict k => exact hrecord k _
  | fetch thread => exact h
  | close k message c => exact hrecord k _
  | exhaust k last => exact hrecord k _
  | unfinished => exact h

/-- The state of a run: a waiting task is alone with a row that is still open,
and a contact is waited for or settled. -/
structure Kept (W : World R) : Prop where
  standing : ∀ t p, W.tasks t = some p → Standing W.state p
  started : ∀ t p, W.tasks t = some p → t < W.next
  logged : ∀ e ∈ W.log, e.call.task < W.next
  waiting : ∀ id t, Waits W id t → approach W.state id = .contact ∧
    (W.state.find? id).isSome ∧ (∃ e ∈ W.log, Contacts id e) ∧
    ∀ e ∈ W.log, Contacts id e → e.call.task = t
  settled : ∀ id, ∀ e ∈ W.log, Contacts id e → Waits W id e.call.task ∨
    (approach W.state id ≠ .contact ∧ ∃ a ∈ W.log, a.call.task = e.call.task ∧ Answered id a)
  fresh : ∀ id, (∀ e ∈ W.log, ¬ Contacts id e) → approach W.state id = .contact
  answered : ∀ id t k, W.tasks t = some (.ask (.conflict id) k) →
    ∃ a ∈ W.log, a.call.task = t ∧ Answered id a
  open_ : ∀ id, ∀ a ∈ W.log, Answered id a → startCall R a.call.input = .ambiguous →
    ∃ row, W.state.find? id = some row ∧ row.conversationId = "" ∧ row.callState = .unknown
  once : ∀ id, W.log.Pairwise (fun e e' => Contacts id e → ¬ Contacts id e')
  durable : ∀ id, ∀ e ∈ W.log, Contacts id e → (e.pre.find? id).isSome

theorem Kept.rings_once {W : World R} (h : Kept W) : RingsOnce W where
  once := h.once
  durable := h.durable
  honest id e he hcontact hunknown := by
    rcases hunknown with ⟨a, ha, -, hanswered, hambiguous⟩ | ⟨hgone, hnone⟩
    · obtain ⟨row, hrow, -, hstate⟩ := h.open_ id a ha hanswered hambiguous
      refine ⟨row, hrow, ?_⟩
      rintro (hdeny | hdeny) <;> rw [hstate] at hdeny <;> cases hdeny
    · rcases h.settled id e he hcontact with (⟨k, hk⟩ | ⟨k, hk⟩) | ⟨-, a, ha, htask, hanswered⟩
      · cases hgone.symm.trans hk
      · cases hgone.symm.trans hk
      · exact absurd hanswered (hnone a ha htask)

theorem kept_start : Kept (.start (shared R)) where
  standing t p hp := by cases hp
  started t p hp := by cases hp
  logged e he := by cases he
  waiting id t h := by rcases h with ⟨k, hk⟩ | ⟨k, hk⟩ <;> cases hk
  settled id e he := by cases he
  fresh id _ := rfl
  answered id t k hk := by cases hk
  open_ id a ha := by cases ha
  once id := .nil
  durable id e he := by cases he

/-! ### Moves of the scheduler -/

theorem set_task_waits {W : World R} {t : Nat} {p : Option (Phone R Unit)} {id : String} {t' : Nat}
    (h : Waits { W with tasks := Shared.World.setTask W.tasks t p } id t') (hne : t' ≠ t) :
    Waits W id t' := by
  simpa [Waits, Shared.World.setTask, hne] using h

theorem Kept.spawn {W : World R} (h : Kept W) {p : Phone R Unit} (hp : Launched p) :
    Kept (W.move (.spawn p)) := by
  have hstands : Standing W.state p := by
    cases hp with
    | call id order rounds => exact .called id order rounds
    | recover => exact .recovering
  have hidle : ∀ id, ¬ ((∃ k, p = .ask (.dialed id) k) ∨ ∃ k, p = .ask (.conflict id) k) := by
    rintro id (⟨k, hk⟩ | ⟨k, hk⟩) <;> cases hp <;> first
      | cases hk
      | (simp only [finished, call] at hk; split at hk <;> cases hk)
  have hother : ∀ id t, Waits (W.move (.spawn p)) id t → Waits W id t := by
    intro id t hw
    by_cases ht : t = W.next
    · subst ht
      simp only [Waits, Shared.World.move, Shared.World.setTask, if_true, Option.some.injEq] at hw
      exact absurd hw (hidle id)
    · exact set_task_waits hw ht
  have hsame : ∀ id t, t < W.next → Waits W id t → Waits (W.move (.spawn p)) id t := by
    intro id t ht hw
    simpa [Waits, Shared.World.move, Shared.World.setTask, Nat.ne_of_lt ht] using hw
  exact {
    standing := fun t q hq => by
      simp only [Shared.World.move, Shared.World.setTask] at hq
      split at hq
      · cases hq
        exact hstands
      · exact h.standing t q hq
    started := fun t q hq => by
      simp only [Shared.World.move, Shared.World.setTask] at hq ⊢
      split at hq
      · omega
      · exact Nat.lt_succ_of_lt (h.started t q hq)
    logged := fun e he => Nat.lt_succ_of_lt (h.logged e he)
    waiting := fun id t hw => h.waiting id t (hother id t hw)
    settled := fun id e he hc => (h.settled id e he hc).imp_left (hsame id _ (h.logged e he))
    fresh := h.fresh
    answered := fun id t k hk => by
      simp only [Shared.World.move, Shared.World.setTask] at hk
      split at hk
      · exact absurd (.inr ⟨k, Option.some.inj hk⟩) (hidle id)
      · exact h.answered id t k hk
    open_ := h.open_
    once := h.once
    durable := h.durable }

theorem Kept.stop {W : World R} (h : Kept W) {t : Nat} (hidle : ∀ id, ¬ Waits W id t) :
    Kept (W.move (.stop t)) := by
  have hother : ∀ id t', Waits (W.move (.stop t)) id t' → Waits W id t' := by
    intro id t' hw
    by_cases ht : t' = t
    · subst ht
      simp [Waits, Shared.World.move, Shared.World.setTask] at hw
    · exact set_task_waits hw ht
  have hsame : ∀ id t', Waits W id t' → Waits (W.move (.stop t)) id t' := by
    intro id t' hw
    have hne : t' ≠ t := fun heq => hidle id (heq ▸ hw)
    simpa [Waits, Shared.World.move, Shared.World.setTask, hne] using hw
  exact {
    standing := fun t' q hq => by
      simp only [Shared.World.move, Shared.World.setTask] at hq
      split at hq
      · cases hq
      · exact h.standing t' q hq
    started := fun t' q hq => by
      simp only [Shared.World.move, Shared.World.setTask] at hq
      split at hq
      · cases hq
      · exact h.started t' q hq
    logged := h.logged
    waiting := fun id t' hw => h.waiting id t' (hother id t' hw)
    settled := fun id e he hc => (h.settled id e he hc).imp_left (hsame id _)
    fresh := h.fresh
    answered := fun id t' k hk => by
      simp only [Shared.World.move, Shared.World.setTask] at hk
      split at hk
      · cases hk
      · exact h.answered id t' k hk
    open_ := h.open_
    once := h.once
    durable := h.durable }

/-! ### Steps of a task -/

/-- A step of a task, as the other tasks see it. -/
theorem act_waits {W : World R} {t : Nat} {op : Op R} {k : op.Reply R → Phone R Unit}
    (hask : W.tasks t = some (.ask op k)) (answer : UpstreamAnswer) {id : String} {t' : Nat}
    (hne : t' ≠ t) : Waits (W.move (.act t answer)) id t' ↔ Waits W id t' := by
  rw [Shared.World.act_ask hask]
  simp [Waits, Shared.World.setTask, hne]

theorem act_task {W : World R} {t : Nat} {op : Op R} {k : op.Reply R → Phone R Unit}
    (hask : W.tasks t = some (.ask op k)) (answer : UpstreamAnswer) {t' : Nat} (hne : t' ≠ t) :
    (W.move (.act t answer)).tasks t' = W.tasks t' := by
  rw [Shared.World.act_ask hask]
  simp [Shared.World.setTask, hne]

theorem act_waits_self {W : World R} {t : Nat} {op : Op R} {k : op.Reply R → Phone R Unit}
    (hask : W.tasks t = some (.ask op k)) (answer : UpstreamAnswer) {id : String} :
    Waits (W.move (.act t answer)) id t ↔
      (∃ k', k ((shared R).step op answer W.state).1 = .ask (.dialed id) k') ∨
      ∃ k', k ((shared R).step op answer W.state).1 = .ask (.conflict id) k' := by
  rw [Shared.World.act_ask hask]
  simp [Waits, Shared.World.setTask]

/-- What a step leaves of the tasks and the log, where the next stand of the task is known. -/
structure Stepped (W : World R) (t : Nat) (e : Event R) (W' : World R) : Prop where
  standing : ∀ t p, W'.tasks t = some p → Standing W'.state p
  started : ∀ t p, W'.tasks t = some p → t < W'.next
  logged : ∀ e ∈ W'.log, e.call.task < W'.next
  log : W'.log = e :: W.log
  pre : e.pre = W.state
  task : e.call.task = t

theorem Kept.stepped {W : World R} (h : Kept W) {t : Nat} {op : Op R}
    {k : op.Reply R → Phone R Unit} (hask : W.tasks t = some (.ask op k)) (answer : UpstreamAnswer)
    (hstands : Standing ((shared R).step op answer W.state).2
      (k ((shared R).step op answer W.state).1)) :
    Stepped W t ⟨W.state, ⟨t, op, answer⟩⟩ (W.move (.act t answer)) := by
  rw [Shared.World.act_ask hask]
  refine ⟨fun t' p hp => ?_, fun t' p hp => ?_, fun e he => ?_, rfl, rfl, rfl⟩
  · simp only [Shared.World.setTask] at hp
    split at hp
    · cases hp
      exact hstands
    · exact (h.standing t' p hp).mono (fun id ht => ht.step op answer)
        (fun id hk => known_step hk op answer)
  · simp only [Shared.World.setTask] at hp
    split at hp
    · rename_i ht
      exact ht ▸ h.started t _ hask
    · exact h.started t' p hp
  · rcases List.mem_cons.mp he with rfl | he
    · exact h.started t _ hask
    · exact h.logged e he

theorem approach_same {l l' : Ledger} {id : String} (h : l'.find? id = l.find? id) :
    approach l' id = approach l id := by
  unfold approach
  rw [h]

/-- The rows without a conversation are left as they are, and a new row is open. -/
def Frame (l l' : Ledger) : Prop :=
  ∀ id, l'.find? id = l.find? id ∨ (Threaded l id ∧ Threaded l' id) ∨
    (l.find? id = none ∧ approach l' id = .contact)

theorem Frame.refl (l : Ledger) : Frame l l := fun _ => .inl rfl

theorem frame_record {l : Ledger} {k : String} (h : Threaded l k) (r : Report) :
    Frame l (l.recordOutcome k r) := by
  intro id
  by_cases hk : id = k
  · subst hk
    exact .inr (.inl ⟨h, h.record id r⟩)
  · left
    rw [Ledger.find_record, if_neg hk]

theorem frame_prepare (l : Ledger) (k : String) (order : Order) : Frame l (l.prepare k order) := by
  intro id
  have hfind := Ledger.find_prepare l k id order
  by_cases hk : id = k ∧ l.find? k = none
  · obtain ⟨rfl, hnone⟩ := hk
    rw [if_pos ⟨rfl, hnone⟩] at hfind
    exact .inr (.inr ⟨hnone, by simp [approach, hfind]⟩)
  · exact .inl (by rw [hfind, if_neg hk])

/-- A step that neither contacts the provider nor ends a wait. -/
theorem Kept.quiet {W : World R} (h : Kept W) {t : Nat} {op : Op R}
    {k : op.Reply R → Phone R Unit} (hask : W.tasks t = some (.ask op k)) (answer : UpstreamAnswer)
    (hstands : Standing ((shared R).step op answer W.state).2
      (k ((shared R).step op answer W.state).1))
    (hcontact : ∀ id, op = .approach id → approach W.state id ≠ .contact)
    (hbusy : ∀ id, op ≠ .dialed id ∧ op ≠ .conflict id)
    (hidle : ∀ id, ¬ ((∃ k', k ((shared R).step op answer W.state).1 = .ask (.dialed id) k') ∨
      ∃ k', k ((shared R).step op answer W.state).1 = .ask (.conflict id) k'))
    (hframe : Frame W.state ((shared R).step op answer W.state).2) :
    Kept (W.move (.act t answer)) := by
  have hstep := h.stepped hask answer hstands
  have hstate : (W.move (.act t answer)).state = ((shared R).step op answer W.state).2 := by
    rw [Shared.World.act_ask hask]
  have hwas : ∀ id, ¬ Waits W id t := by
    rintro id (⟨k', hk⟩ | ⟨k', hk⟩) <;> cases hask.symm.trans hk
    · exact (hbusy id).1 rfl
    · exact (hbusy id).2 rfl
  have hwaits : ∀ id t', Waits (W.move (.act t answer)) id t' ↔ Waits W id t' := by
    intro id t'
    by_cases ht : t' = t
    · subst ht
      exact ⟨fun hw => absurd ((act_waits_self hask answer).mp hw) (hidle id),
        fun hw => absurd hw (hwas id)⟩
    · exact act_waits hask answer ht
  have hno : ∀ id, ¬ Contacts id (⟨W.state, ⟨t, op, answer⟩⟩ : Event R) :=
    fun id hc => hcontact id hc.1 hc.2
  have hnone : ∀ id, ¬ Answered id (⟨W.state, ⟨t, op, answer⟩⟩ : Event R) :=
    fun id ha => (hbusy id).1 ha
  refine ⟨hstep.standing, hstep.started, hstep.logged, fun id t' hw => ?_, fun id e he hc => ?_,
    fun id hfresh => ?_, fun id t' k' hk => ?_, fun id a ha hans hamb => ?_, fun id => ?_,
    fun id e he hc => ?_⟩
  · obtain ⟨hopen, hknown, ⟨e, he, hc⟩, hall⟩ := h.waiting id t' ((hwaits id t').mp hw)
    rw [hstep.log, hstate]
    refine ⟨?_, known_step hknown op answer, ⟨e, List.mem_cons_of_mem _ he, hc⟩, fun e' he' hc' => ?_⟩
    · rcases hframe id with hsame | ⟨hthread, -⟩ | ⟨hrow, -⟩
      · rw [approach_same hsame]
        exact hopen
      · exact absurd hopen (approach_threaded hthread)
      · rw [hrow] at hknown
        cases hknown
    · rcases List.mem_cons.mp he' with rfl | he'
      · exact absurd hc' (hno id)
      · exact hall e' he' hc'
  · rw [hstep.log] at he ⊢
    rcases List.mem_cons.mp he with rfl | he
    · exact absurd hc (hno id)
    · rcases h.settled id e he hc with hw | ⟨hclosed, a, ha, htask, hans⟩
      · exact .inl ((hwaits id _).mpr hw)
      · refine .inr ⟨?_, a, List.mem_cons_of_mem _ ha, htask, hans⟩
        rw [hstate]
        rcases hframe id with hsame | ⟨-, hthread⟩ | ⟨hrow, -⟩
        · rw [approach_same hsame]
          exact hclosed
        · exact approach_threaded hthread
        · exact absurd (by simp [approach, hrow]) hclosed
  · rw [hstep.log] at hfresh
    have hopen := h.fresh id (fun e he => hfresh e (List.mem_cons_of_mem _ he))
    rw [hstate]
    rcases hframe id with hsame | ⟨hthread, -⟩ | ⟨-, hnew⟩
    · rw [approach_same hsame]
      exact hopen
    · exact absurd hopen (approach_threaded hthread)
    · exact hnew
  · by_cases ht : t' = t
    · subst ht
      have hw : Waits (W.move (.act t' answer)) id t' := .inr ⟨k', hk⟩
      exact absurd ((hwaits id t').mp hw) (hwas id)
    · obtain ⟨a, ha, htask, hans⟩ := h.answered id t' k' (act_task hask answer ht ▸ hk)
      exact ⟨a, by rw [hstep.log]; exact List.mem_cons_of_mem _ ha, htask, hans⟩
  · rw [hstep.log] at ha
    rcases List.mem_cons.mp ha with rfl | ha
    · exact absurd hans (hnone id)
    · obtain ⟨row, hrow, hempty, hunknown⟩ := h.open_ id a ha hans hamb
      rw [hstate]
      rcases hframe id with hsame | ⟨⟨row', hrow', hne⟩, -⟩ | ⟨hgone, -⟩
      · exact ⟨row, hsame.trans hrow, hempty, hunknown⟩
      · cases hrow.symm.trans hrow'
        exact absurd hempty hne
      · cases hrow.symm.trans hgone
  · rw [hstep.log]
    exact .cons (fun e _ hc => absurd hc (hno id)) (h.once id)
  · rw [hstep.log] at he
    rcases List.mem_cons.mp he with rfl | he
    · exact absurd hc (hno id)
    · exact h.durable id e he hc

/-- The contact: the task waits from now on, and nobody else does. -/
theorem Kept.contact {W : World R} (h : Kept W) {t : Nat} {id message : String} {rounds : Nat}
    (hp : W.tasks t = some (finished (approaching id message rounds))) (answer : UpstreamAnswer)
    (hopen : approach W.state id = .contact) (hknown : (W.state.find? id).isSome)
    (halone : ∀ t', ¬ Waits W id t') : Kept (W.move (.act t answer)) := by
  have hask : W.tasks t = some (.ask (.approach id) (fun a => finished (match a with
    | .contact => dialing id message rounds
    | .polled thread => awaitOutcome id thread message rounds none
    | .failed => .ret (.safeFailure "telephony_already_failed")
    | .attempted => .ret (.ambiguous "telephony_already_attempted")))) := hp
  have hreply : ((shared R).step (.approach id) answer W.state).1 = .contact := hopen
  have hstep := h.stepped hask answer (by rw [hreply]; exact .dialing id message rounds)
  have hstate : (W.move (.act t answer)).state = W.state := by
    rw [Shared.World.act_ask hask]
  have hnone : ∀ e ∈ W.log, ¬ Contacts id e := by
    intro e he hc
    rcases h.settled id e he hc with hw | ⟨hclosed, -⟩
    · exact halone _ hw
    · exact hclosed hopen
  have hself : ∀ id', Waits (W.move (.act t answer)) id' t ↔ id' = id := by
    intro id'
    rw [act_waits_self hask answer, hreply]
    constructor
    · rintro (⟨k', hk⟩ | ⟨k', hk⟩)
      · cases hk
        rfl
      · cases hk
    · rintro rfl
      exact .inl ⟨_, rfl⟩
  have hother : ∀ id', id' ≠ id →
      ¬ Contacts id' (⟨W.state, ⟨t, .approach id, answer⟩⟩ : Event R) := by
    rintro id' hne ⟨hop, -⟩
    cases hop
    exact hne rfl
  have hwas : ∀ id', ¬ Waits W id' t := by
    rintro id' (⟨k', hk⟩ | ⟨k', hk⟩) <;> cases hask.symm.trans hk
  have hnew : Contacts id (⟨W.state, ⟨t, .approach id, answer⟩⟩ : Event R) := ⟨rfl, hopen⟩
  refine ⟨hstep.standing, hstep.started, hstep.logged, fun id' t' hw => ?_, fun id' e he hc => ?_,
    fun id' hfresh => ?_, fun id' t' k' hk => ?_, fun id' a ha hans hamb => ?_, fun id' => ?_,
    fun id' e he hc => ?_⟩
  · rw [hstate, hstep.log]
    by_cases ht : t' = t
    · subst ht
      obtain rfl := (hself id').mp hw
      refine ⟨hopen, hknown, ⟨_, List.mem_cons_self .., hnew⟩, fun e he hc => ?_⟩
      rcases List.mem_cons.mp he with rfl | he
      · rfl
      · exact absurd hc (hnone e he)
    · have hw' := (act_waits hask answer ht).mp hw
      have hne : id' ≠ id := fun heq => halone t' (heq ▸ hw')
      obtain ⟨hopen', hknown', ⟨e, he, hc⟩, hall⟩ := h.waiting id' t' hw'
      refine ⟨hopen', hknown', ⟨e, List.mem_cons_of_mem _ he, hc⟩, fun e' he' hc' => ?_⟩
      rcases List.mem_cons.mp he' with rfl | he'
      · exact absurd hc' (hother id' hne)
      · exact hall e' he' hc'
  · rw [hstep.log] at he ⊢
    rw [hstate]
    rcases List.mem_cons.mp he with rfl | he
    · by_cases heq : id' = id
      · exact .inl ((hself id').mpr heq)
      · exact absurd hc (hother id' heq)
    · rcases h.settled id' e he hc with hw | ⟨hclosed, a, ha, htask, hans⟩
      · have hne : e.call.task ≠ t := fun heq => hwas id' (heq ▸ hw)
        exact .inl ((act_waits hask answer hne).mpr hw)
      · exact .inr ⟨hclosed, a, List.mem_cons_of_mem _ ha, htask, hans⟩
  · rw [hstep.log] at hfresh
    rw [hstate]
    exact h.fresh id' (fun e he => hfresh e (List.mem_cons_of_mem _ he))
  · by_cases ht : t' = t
    · subst ht
      have hdialing : (W.move (.act t' answer)).tasks t' =
          some (finished (dialing id message rounds)) := by
        rw [Shared.World.act_ask hask]
        simp only [Shared.World.setTask, if_true]
        rw [hopen]
      cases hdialing.symm.trans hk
    · obtain ⟨a, ha, htask, hans⟩ := h.answered id' t' k' (act_task hask answer ht ▸ hk)
      exact ⟨a, by rw [hstep.log]; exact List.mem_cons_of_mem _ ha, htask, hans⟩
  · rw [hstep.log] at ha
    rw [hstate]
    rcases List.mem_cons.mp ha with rfl | ha
    · cases hans
    · exact h.open_ id' a ha hans hamb
  · rw [hstep.log]
    refine .cons (fun e he hc hc' => ?_) (h.once id')
    by_cases heq : id' = id
    · exact hnone e he (heq ▸ hc')
    · exact hother id' heq hc
  · rw [hstep.log] at he
    rcases List.mem_cons.mp he with rfl | he
    · by_cases heq : id' = id
      · exact heq ▸ hknown
      · exact absurd hc (hother id' heq)
    · exact h.durable id' e he hc

/-- The end of a wait, or of its first part. -/
theorem Kept.turn {W : World R} (h : Kept W) {t : Nat} {id : String} {op : Op R}
    {k : op.Reply R → Phone R Unit} (hask : W.tasks t = some (.ask op k)) (answer : UpstreamAnswer)
    (hop : op = .dialed id ∨ op = .conflict id)
    (hstands : Standing ((shared R).step op answer W.state).2
      (k ((shared R).step op answer W.state).1))
    (hoff : ∀ id', id' ≠ id →
      ((shared R).step op answer W.state).2.find? id' = W.state.find? id')
    (hnext : (op = .dialed id ∧ k ((shared R).step op answer W.state).1 = finished (conflicted id) ∧
        ((shared R).step op answer W.state).2 = W.state) ∨
      ((∀ id', ¬ ((∃ k', k ((shared R).step op answer W.state).1 = .ask (.dialed id') k') ∨
        ∃ k', k ((shared R).step op answer W.state).1 = .ask (.conflict id') k')) ∧
        approach ((shared R).step op answer W.state).2 id ≠ .contact))
    (hambiguous : op = .dialed id → startCall R answer = .ambiguous →
      ∃ row, ((shared R).step op answer W.state).2.find? id = some row ∧
        row.conversationId = "" ∧ row.callState = .unknown) :
    Kept (W.move (.act t answer)) := by
  have hstep := h.stepped hask answer hstands
  have hstate : (W.move (.act t answer)).state = ((shared R).step op answer W.state).2 := by
    rw [Shared.World.act_ask hask]
  have hwaits : Waits W id t := by
    rcases hop with rfl | rfl
    · exact .inl ⟨k, hask⟩
    · exact .inr ⟨k, hask⟩
  have hwas : ∀ id', Waits W id' t → id' = id := by
    rintro id' (⟨k', hk⟩ | ⟨k', hk⟩) <;> cases hask.symm.trans hk <;>
      rcases hop with hop | hop <;> cases hop <;> rfl
  obtain ⟨hopen, hknown, ⟨e₀, he₀, hc₀⟩, hall⟩ := h.waiting id t hwaits
  have hself : ∀ id', Waits (W.move (.act t answer)) id' t → id' = id ∧
      ((shared R).step op answer W.state).2 = W.state := by
    intro id' hw
    rcases hnext with ⟨-, hk, hsame⟩ | ⟨hidle, -⟩
    · refine ⟨?_, hsame⟩
      rcases (act_waits_self hask answer).mp hw with ⟨k', hk'⟩ | ⟨k', hk'⟩ <;>
        cases hk.symm.trans hk'
      rfl
    · exact absurd ((act_waits_self hask answer).mp hw) (hidle id')
  have halone : ∀ t', t' ≠ t → ¬ Waits W id t' := by
    intro t' hne hw
    obtain ⟨-, -, -, hall'⟩ := h.waiting id t' hw
    exact hne ((hall' e₀ he₀ hc₀).symm.trans (hall e₀ he₀ hc₀))
  have hno : ∀ id', ¬ Contacts id' (⟨W.state, ⟨t, op, answer⟩⟩ : Event R) := by
    rintro id' ⟨hc, -⟩
    rcases hop with rfl | rfl <;> cases hc
  have hanswered : ∃ a ∈ (⟨W.state, ⟨t, op, answer⟩⟩ : Event R) :: W.log,
      a.call.task = t ∧ Answered id a := by
    rcases hop with rfl | rfl
    · exact ⟨_, List.mem_cons_self .., rfl, rfl⟩
    · obtain ⟨a, ha, htask, hans⟩ := h.answered id t k hask
      exact ⟨a, List.mem_cons_of_mem _ ha, htask, hans⟩
  refine ⟨hstep.standing, hstep.started, hstep.logged, fun id' t' hw => ?_, fun id' e he hc => ?_,
    fun id' hfresh => ?_, fun id' t' k' hk => ?_, fun id' a ha hans hamb => ?_, fun id' => ?_,
    fun id' e he hc => ?_⟩
  · rw [hstate, hstep.log]
    have hw' : Waits W id' t' ∧ ((shared R).step op answer W.state).2.find? id' =
        W.state.find? id' := by
      by_cases ht : t' = t
      · subst ht
        obtain ⟨rfl, hsame⟩ := hself id' hw
        exact ⟨hwaits, by rw [hsame]⟩
      · have hw' := (act_waits hask answer ht).mp hw
        exact ⟨hw', hoff id' (fun heq => halone t' ht (heq ▸ hw'))⟩
    obtain ⟨hopen', hknown', ⟨e, he, hc⟩, hall'⟩ := h.waiting id' t' hw'.1
    refine ⟨(approach_same hw'.2).trans hopen', known_step hknown' op answer,
      ⟨e, List.mem_cons_of_mem _ he, hc⟩, fun e' he' hc' => ?_⟩
    rcases List.mem_cons.mp he' with rfl | he'
    · exact absurd hc' (hno id')
    · exact hall' e' he' hc'
  · rw [hstep.log] at he ⊢
    rw [hstate]
    rcases List.mem_cons.mp he with rfl | he
    · exact absurd hc (hno id')
    · by_cases heq : id' = id
      · subst heq
        have htask := hall e he hc
        rcases hnext with ⟨-, hk, -⟩ | ⟨-, hclosed⟩
        · left
          rw [htask]
          exact (act_waits_self hask answer).mpr (.inr ⟨_, hk⟩)
        · rw [htask]
          exact .inr ⟨hclosed, hanswered⟩
      · rcases h.settled id' e he hc with hw | ⟨hclosed, a, ha, htask, hans⟩
        · have hne : e.call.task ≠ t := fun ht => heq (hwas id' (ht ▸ hw))
          exact .inl ((act_waits hask answer hne).mpr hw)
        · refine .inr ⟨?_, a, List.mem_cons_of_mem _ ha, htask, hans⟩
          rw [approach_same (hoff id' heq)]
          exact hclosed
  · rw [hstep.log] at hfresh
    have hne : id' ≠ id := fun heq => hfresh e₀ (List.mem_cons_of_mem _ he₀) (heq ▸ hc₀)
    rw [hstate, approach_same (hoff id' hne)]
    exact h.fresh id' (fun e he => hfresh e (List.mem_cons_of_mem _ he))
  · by_cases ht : t' = t
    · subst ht
      have hw : Waits (W.move (.act t' answer)) id' t' := .inr ⟨k', hk⟩
      obtain ⟨rfl, -⟩ := hself id' hw
      rw [hstep.log]
      exact hanswered
    · obtain ⟨a, ha, htask, hans⟩ := h.answered id' t' k' (act_task hask answer ht ▸ hk)
      exact ⟨a, by rw [hstep.log]; exact List.mem_cons_of_mem _ ha, htask, hans⟩
  · rw [hstep.log] at ha
    rw [hstate]
    rcases List.mem_cons.mp ha with rfl | ha
    · rcases hop with rfl | rfl
      · cases hans
        exact hambiguous rfl hamb
      · cases hans
    · obtain ⟨row, hrow, hempty, hunknown⟩ := h.open_ id' a ha hans hamb
      have hne : id' ≠ id := by
        rintro rfl
        rw [(approach_contact hopen hrow).2] at hunknown
        cases hunknown
      exact ⟨row, (hoff id' hne).trans hrow, hempty, hunknown⟩
  · rw [hstep.log]
    exact .cons (fun e _ hc => absurd hc (hno id')) (h.once id')
  · rw [hstep.log] at he
    rcases List.mem_cons.mp he with rfl | he
    · exact absurd hc (hno id')
    · exact h.durable id' e he hc

theorem polled_threaded {l : Ledger} {id thread : String} (h : approach l id = .polled thread) :
    Threaded l id := by
  unfold approach at h
  split at h
  · cases h
  · rename_i row hrow
    split at h
    · rename_i hne
      exact ⟨row, hrow, hne⟩
    · split at h <;> cases h

theorem reads_idle {l : Ledger} {p : Phone R Unit} (h : p.Asks (Reads l)) (id : String) :
    ¬ ((∃ k, p = .ask (.dialed id) k) ∨ ∃ k, p = .ask (.conflict id) k) := by
  rintro (⟨k, rfl⟩ | ⟨k, rfl⟩) <;> exact h.1

/-- What the answer to a start leaves: an open row and a conflict, a
conversation, or an outcome. -/
theorem settle_cases {l : Ledger} {id : String} (answer : UpstreamAnswer)
    (hopen : approach l id = .contact) (hknown : (l.find? id).isSome) :
    (∀ id', id' ≠ id → (settle R id answer l).2.find? id' = l.find? id') ∧
    (((settle R id answer l).1 = .conflict ∧ (settle R id answer l).2 = l ∧
        startCall R answer ≠ .ambiguous) ∨
      (∃ thread, (settle R id answer l).1 = .polls thread ∧ Threaded (settle R id answer l).2 id ∧
        startCall R answer ≠ .ambiguous) ∨
      ((settle R id answer l).1 = .refused ∧ approach (settle R id answer l).2 id = .failed ∧
        startCall R answer ≠ .ambiguous) ∨
      ((settle R id answer l).1 = .ambiguous ∧ ∃ row, (settle R id answer l).2.find? id = some row ∧
        row.conversationId = "" ∧ row.callState = .unknown)) := by
  obtain ⟨row, hrow⟩ := Option.isSome_iff_exists.mp hknown
  obtain ⟨hempty, -⟩ := approach_contact hopen hrow
  unfold settle
  cases hstart : startCall R answer with
  | refused =>
    refine ⟨fun id' hne => by simp [hne], .inr (.inr (.inl ⟨rfl, ?_, by simp⟩))⟩
    simp [approach, hrow, hempty]
  | ambiguous =>
    refine ⟨fun id' hne => by simp [hne], .inr (.inr (.inr ⟨rfl, ?_⟩))⟩
    refine ⟨{ row with callState := .unknown, deliveryState := .unknown }, ?_, hempty, rfl⟩
    simp [hrow]
  | started thread =>
    rcases l.attach_cases id thread with ⟨hno, hsame⟩ | ⟨-, row', hrow', hthread, -⟩ |
      ⟨hyes, row', hrow', -, hfind⟩
    · rcases hattach : l.attachConversation id thread with ⟨b, l'⟩
      rw [hattach] at hno hsame
      simp only at hno hsame
      subst hno hsame
      simp only [hattach]
      exact ⟨fun _ _ => trivial, .inl ⟨trivial, trivial, by simp⟩⟩
    · cases hrow.symm.trans hrow'
      exact absurd (hthread.symm.trans hempty) thread.named
    · rcases hattach : l.attachConversation id thread with ⟨b, l'⟩
      rw [hattach] at hyes hfind
      simp only at hyes hfind
      subst hyes
      simp only [hattach]
      refine ⟨fun id' hne => by rw [hfind, if_neg hne], .inr (.inl ⟨thread.id, rfl, ?_, by simp⟩)⟩
      exact ⟨_, by rw [hfind, if_pos rfl], thread.named⟩

theorem Kept.act {W : World R} (h : Kept W) (t : Nat) (answer : UpstreamAnswer)
    (horderly : Orderly W (.act t answer)) : Kept (W.move (.act t answer)) := by
  cases htask : W.tasks t with
  | none => rwa [Shared.World.act_other (by simp [htask])]
  | some p =>
    have hreading : ∀ {p : Phone R Unit}, W.tasks t = some p → p.Asks (Reads W.state) →
        Kept (W.move (.act t answer)) := by
      intro p htask hreads
      cases p with
      | ret a => rwa [Shared.World.act_other (by simp [htask])]
      | fail => rwa [Shared.World.act_other (by simp [htask])]
      | ask op k =>
        have hnext : Standing ((shared R).step op answer W.state).2
            (k ((shared R).step op answer W.state).1) :=
          (Standing.reading (hreads.2 _)).mono (fun id ht => ht.step op answer)
            (fun id hk => known_step hk op answer)
        have hidle := reads_idle (hreads.2 ((shared R).step op answer W.state).1)
        cases op with
        | fetch thread =>
          exact h.quiet htask answer hnext (by simp) (by simp) hidle (Frame.refl _)
        | close id message c =>
          exact h.quiet htask answer hnext (by simp) (by simp) hidle (frame_record hreads.1 _)
        | exhaust id last =>
          exact h.quiet htask answer hnext (by simp) (by simp) hidle (frame_record hreads.1 _)
        | _ => exact absurd hreads.1 (by simp [Reads])
    cases h.standing t p htask with
    | called id order rounds =>
      by_cases hid : id = ""
      · rw [show finished (call id order rounds) = (.ret () : Phone R Unit) by
          simp [finished, call, hid]] at htask
        rwa [Shared.World.act_other (by simp [htask])]
      · have hcall : finished (call (R := R) id order rounds) = .ask (.prepare id order)
            (fun _ => finished (approaching id order.message rounds)) := by
          simp [finished, call, hid]
        rw [hcall] at htask
        refine h.quiet htask answer (.prepared _ _ ?_) (by simp) (by simp) ?_
          (frame_prepare _ id order)
        · change ((W.state.prepare id order).find? id).isSome
          rw [Ledger.find_prepare]
          cases hrow : W.state.find? id <;> simp
        · rintro id' (⟨k', hk⟩ | ⟨k', hk⟩) <;> cases hk
    | @prepared id message rounds hknown =>
      have hask : W.tasks t = some (.ask (.approach id) (fun a => finished (match a with
        | .contact => dialing id message rounds
        | .polled thread => awaitOutcome id thread message rounds none
        | .failed => .ret (.safeFailure "telephony_already_failed")
        | .attempted => .ret (.ambiguous "telephony_already_attempted")))) := htask
      cases happroach : approach W.state id with
      | contact => exact h.contact htask answer happroach hknown (horderly id _ htask)
      | polled thread =>
        have hreply : ((shared R).step (.approach id) answer W.state).1 = .polled thread := happroach
        have hreads := (await_reads (R := R) (polled_threaded happroach) thread message rounds
          none).bind (f := fun _ => .ret ()) (fun _ => trivial)
        refine h.quiet hask answer ?_ ?_ (by simp) ?_ (Frame.refl _)
        · rw [hreply]
          exact .reading hreads
        · intro id' hop
          cases hop
          simp [happroach]
        · rw [hreply]
          exact reads_idle hreads
      | failed =>
        have hreply : ((shared R).step (.approach id) answer W.state).1 = .failed := happroach
        refine h.quiet hask answer ?_ ?_ (by simp) ?_ (Frame.refl _)
        · rw [hreply]
          exact .reading trivial
        · intro id' hop
          cases hop
          simp [happroach]
        · rw [hreply]
          exact reads_idle (l := W.state) trivial
      | attempted =>
        have hreply : ((shared R).step (.approach id) answer W.state).1 = .attempted := happroach
        refine h.quiet hask answer ?_ ?_ (by simp) ?_ (Frame.refl _)
        · rw [hreply]
          exact .reading trivial
        · intro id' hop
          cases hop
          simp [happroach]
        · rw [hreply]
          exact reads_idle (l := W.state) trivial
    | dialing id message rounds =>
      have hask : W.tasks t = some (.ask (.dialed id) (fun d => finished (match d with
        | .refused => .ret .unavailable
        | .ambiguous => .ret (.ambiguous "telephony_start_ambiguous")
        | .conflict => conflicted id
        | .polls thread => awaitOutcome id thread message rounds none))) := htask
      obtain ⟨hopen, hknown, -, -⟩ := h.waiting id t (.inl ⟨_, hask⟩)
      obtain ⟨hoff, hcases⟩ := settle_cases (R := R) answer hopen hknown
      have hstep : (shared R).step (.dialed id) answer W.state = settle R id answer W.state := rfl
      rcases hcases with ⟨hreply, hsame, hclear⟩ | ⟨thread, hreply, hthread, hclear⟩ |
        ⟨hreply, hfailed, hclear⟩ | ⟨hreply, row, hrow, hempty, hunknown⟩
      · refine h.turn hask answer (.inl rfl) ?_ hoff (.inl ⟨rfl, ?_, hsame⟩)
          (fun _ hamb => absurd hamb hclear)
        · rw [hstep, hreply]
          exact .conflicted id
        · rw [hstep, hreply]
      · have hreads := (await_reads (R := R) hthread thread message rounds none).bind
          (f := fun _ => .ret ()) (fun _ => trivial)
        refine h.turn hask answer (.inl rfl) ?_ hoff (.inr ⟨?_, approach_threaded hthread⟩)
          (fun _ hamb => absurd hamb hclear)
        · rw [hstep, hreply]
          exact .reading hreads
        · rw [hstep, hreply]
          exact reads_idle hreads
      · refine h.turn hask answer (.inl rfl) ?_ hoff (.inr ⟨?_, ?_⟩)
          (fun _ hamb => absurd hamb hclear)
        · rw [hstep, hreply]
          exact .reading trivial
        · rw [hstep, hreply]
          exact reads_idle (l := W.state) trivial
        · rw [hstep, hfailed]
          simp
      · refine h.turn hask answer (.inl rfl) ?_ hoff (.inr ⟨?_, ?_⟩)
          (fun _ _ => ⟨row, hrow, hempty, hunknown⟩)
        · rw [hstep, hreply]
          exact .reading trivial
        · rw [hstep, hreply]
          exact reads_idle (l := W.state) trivial
        · intro hcontact
          rw [(approach_contact hcontact hrow).2] at hunknown
          cases hunknown
    | conflicted id =>
      have hask : W.tasks t = some (.ask (.conflict id) (fun _ => .ret ())) := htask
      obtain ⟨hopen, hknown, -, -⟩ := h.waiting id t (.inr ⟨_, hask⟩)
      obtain ⟨row, hrow⟩ := Option.isSome_iff_exists.mp hknown
      refine h.turn hask answer (.inr rfl) (.reading trivial) (fun id' hne => ?_)
        (.inr ⟨reads_idle (l := W.state) trivial, fun hcontact => ?_⟩) (by simp)
      · change (W.state.recordOutcome id _).find? id' = _
        rw [Ledger.find_record, if_neg hne]
      · have hwritten : ((shared R).step (.conflict id) answer W.state).2.find? id = some
            { row with callState := .unknown, deliveryState := .unknown } := by
          simp [shared, hrow]
        cases (approach_contact hcontact hwritten).2
    | recovering =>
      have hask : W.tasks t = some (.ask .unfinished recoverEach) := htask
      have hreads := recover_reads (R := R) (unfinished_threaded (l := W.state))
      exact h.quiet hask answer (.reading hreads) (by simp) (by simp) (reads_idle hreads)
        (Frame.refl _)
    | reading hreads => exact hreading htask hreads

/-- In every run whose moves are orderly an execution is one phone call. -/
theorem orderly_rings_once {W : World R} (h : Shared.World.ReachIf Launched Orderly W) :
    RingsOnce W := by
  refine Kept.rings_once ?_
  induction h with
  | start => exact kept_start
  | @move W m _ hlaunch horderly ih =>
    cases m with
    | spawn p => exact ih.spawn (hlaunch p rfl)
    | act t answer => exact ih.act t answer horderly
    | stop t => exact ih.stop horderly

/-! ### Samples -/

def sample : Readers where
  lower s := String.ofList (s.toList.map Char.toLower)
  lowerChar c := [c.toLower]
  isAlnum := Char.isAlphanum
  float v := match v with
    | .str _ => false
    | .none => false
    | _ => true
  repr := Data.dumps

def sampleOrder : Order where
  recipientAlias := "gregor"
  recipientDisplay := "Gregor"
  recipientHandle := "+491511234567"
  message := "Das Treffen beginnt morgen erst um zehn Uhr"

def sampleCall : Phone sample Unit := finished (call "x-1" sampleOrder 3)

/-- Only the first task is there. -/
def Single (W : World R) : Prop := ∀ t, t ≠ 0 → W.tasks t = none

theorem Single.act {W : World R} (h : Single W) (answer : UpstreamAnswer) :
    Single (W.move (.act 0 answer)) := by
  intro t ht
  simp only [Shared.World.move, Shared.World.act]
  split
  · simp [Shared.World.setTask, ht, h t ht]
  · exact h t ht

theorem Single.orderly {W : World R} (h : Single W) (answer : UpstreamAnswer) :
    Orderly W (.act 0 answer) := by
  intro id k hk t' hw
  by_cases ht : t' = 0
  · subst ht
    rcases hw with ⟨k', hk'⟩ | ⟨k', hk'⟩ <;> cases hk.symm.trans hk'
  · rcases hw with ⟨k', hk'⟩ | ⟨k', hk'⟩ <;> cases (h t' ht).symm.trans hk'

theorem single_run {W : World R} (h : Single W) (hreach : Shared.World.ReachIf Launched Orderly W)
    (answers : List UpstreamAnswer) :
    Shared.World.ReachIf Launched Orderly (W.moves (answers.map (.act 0))) := by
  induction answers generalizing W with
  | nil => exact hreach
  | cons answer answers ih =>
    exact ih (h.act answer) (hreach.move (fun p hp => by cases hp) (h.orderly answer))

def sampleStart : World sample := (Shared.World.start (shared sample)).move (.spawn sampleCall)

theorem sample_single : Single sampleStart := by
  intro t ht
  simp [sampleStart, Shared.World.start, Shared.World.move, Shared.World.setTask, ht]

theorem sample_reached : Shared.World.ReachIf Launched Orderly sampleStart :=
  .move .start (fun p hp => by cases hp; exact .call "x-1" sampleOrder 3) trivial

/-- A call whose start breaks off. -/
theorem orderly_rings_once_sample :
    RingsOnce (sampleStart.moves ([.unreachable, .unreachable, .unreachable].map (.act 0))) :=
  orderly_rings_once (single_run sample_single sample_reached _)

/-- Two calls that look at the row before one of them has its answer. -/
def overlapping : World sample :=
  .play (shared sample) [sampleCall, sampleCall]
    [(0, .unreachable), (0, .unreachable), (1, .unreachable), (1, .unreachable)]

/-- A call that is cancelled while the provider is being asked. -/
def cancelled : World sample :=
  (sampleStart.moves ([.unreachable, .unreachable].map (.act 0))).move (.stop 0)

/-- The phone rings twice, and a call that may take place is denied. -/
theorem rings_twice :
    (Shared.World.Reach Launched overlapping ∧ ¬ RingsOnce overlapping) ∧
    (Shared.World.Reach Launched cancelled ∧ ¬ RingsOnce cancelled) := by
  refine ⟨⟨Shared.World.Reach.play ?_ _, fun h => ?_⟩, ?_, fun h => ?_⟩
  · intro p hp
    simp only [List.mem_cons, List.not_mem_nil, or_false, or_self] at hp
    exact hp ▸ .call "x-1" sampleOrder 3
  · have honce := (List.pairwise_cons.mp (h.once "x-1")).1
    exact honce _ (List.mem_cons_of_mem _ (List.mem_cons_self ..)) ⟨rfl, by decide⟩ ⟨rfl, by decide⟩
  · refine Shared.World.Reach.move (Shared.World.Reach.moves sample_reached.reach ?_) ?_
    · intro p hp
      simp at hp
    · intro p hp
      cases hp
  · have hnone : ∀ a ∈ cancelled.log, ¬ Answered "x-1" a := by
      intro a ha hans
      rcases List.mem_cons.mp ha with rfl | ha
      · cases hans
      · rcases List.mem_cons.mp ha with rfl | ha
        · cases hans
        · cases ha
    have hprepared : cancelled.state.find? "x-1" =
        some { executionId := "x-1", order := sampleOrder } := by decide
    obtain ⟨row, hrow, hdeny⟩ := h.honest "x-1" _ (List.mem_cons_self ..) ⟨rfl, by decide⟩
      (.inr ⟨rfl, fun a ha _ => hnone a ha⟩)
    cases hprepared.symm.trans hrow
    exact hdeny (.inl rfl)

end Solvio.Telephony.OneCall
