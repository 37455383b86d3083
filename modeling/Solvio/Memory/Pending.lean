import Solvio.Memory.Asked
import Solvio.Memory.Effects

namespace Solvio.Memory.Pending
open Solvio.Lib

/-! ### What an automatic write rests on -/

/-- Touches no candidate. -/
def Uncandid : Op → Prop
  | .candidates _ _ => False
  | _ => True

/-- Writes no record. -/
def Unwritten : Op → Prop
  | .memory _ c => c.Reads
  | _ => True

/-- Neither stores a record nor adopts a candidate without the user. -/
def Plain : Op → Prop
  | .memory .automatic (.remember _) => False
  | .memory .automatic (.supersede _ _) => False
  | .candidates .automatic (.transition _ .adopted _ _) => False
  | _ => True

section
variable {E : Deployment} {init : State} {task : Nat} {log : List (Entry E init)} {key : String}

/-- The task has decided to adopt the statement, and has left the candidates
alone since. -/
def Decided (task : Nat) (key : String) (log : List (Entry E init)) : Prop :=
  Shared.Since (w := runtime E init) task Uncandid
    (fun _ d => d.call.op = .note (.decided key .adopt)) log

/-- The store has shown the record, and the task has written none since. -/
def Seen (task : Nat) (r : MemoryRecord) (log : List (Entry E init)) : Prop :=
  Shared.Since (w := runtime E init) task Unwritten
    (fun _ v => ∃ id, v.call.op = .memory .automatic (.getVisible id) ∧
      (v.pre.memory.getVisible id v.call.input.now).reply = .ok (.found (some r))) log

/-- A current record that says the same has been seen. -/
def TwinSeen (task : Nat) (key : String) (log : List (Entry E init)) : Prop :=
  ∃ r, Seen task r log ∧ r.supersededBy = none ∧ E.texts.dedupKey r.content = key

/-- The candidate has the key. -/
def KeyOf (id key : String) (log : List (Entry E init)) : Prop :=
  ∃ e ∈ log, ∃ x, e.post.candidates.candidates.find? id = some x ∧ x.dedupKey = key

/-- What is stored was decided, and what is adopted was decided or has a twin. -/
structure Deliberate (log : List (Entry E init)) (a : (runtime E init).Act) : Prop where
  stored : ∀ c uuid record, a.op = .memory .automatic c → c.inserted uuid = some record →
    Decided a.task (E.texts.dedupKey record.content) log
  adopted : ∀ id m now, a.op = .candidates .automatic (.transition id .adopted m now) →
    ∃ key, KeyOf id key log ∧ (Decided a.task key log ∨ TwinSeen a.task key log)

theorem plain_deliberate {a : (runtime E init).Act} (h : Plain a.op) : Deliberate log a where
  stored c uuid record hop hins := by
    rw [hop] at h
    cases c with
    | remember _ => exact h.elim
    | supersede _ _ => exact h.elim
    | _ => cases hins
  adopted id m now hop := by
    rw [hop] at h
    exact h.elim

theorem plain_derived : Derived Plain where
  reads actor c h := by
    cases actor with
    | user => trivial
    | automatic =>
      cases c with
      | remember _ => exact h.elim
      | supersede _ _ => exact h.elim
      | _ => trivial
  index _ := trivial
  indexOpen := trivial
  embed _ := trivial

theorem key_of_lasting (id : String) :
    Shared.Safe.Lasting (w := runtime E init) (KeyOf id key) := by
  rintro log more ⟨e, he, hx⟩
  exact ⟨e, List.mem_append_right more he, hx⟩

theorem Decided.later {log' : List (Entry E init)} (h : Decided task key log)
    (hl : Shared.Later task log log') : Decided task key log' :=
  (Shared.Since.kept (w := runtime E init) task _ _).later log log' h hl

theorem Seen.later {r : MemoryRecord} {log' : List (Entry E init)} (h : Seen task r log)
    (hl : Shared.Later task log log') : Seen task r log' :=
  (Shared.Since.kept (w := runtime E init) task _ _).later log log' h hl

theorem Seen.own {r : MemoryRecord} {s : State} {op : Op} {i : Input} (h : Seen task r log)
    (hop : Unwritten op) : Seen task r (⟨s, ⟨task, op, i⟩⟩ :: log : List (Entry E init)) :=
  (Shared.Since.kept (w := runtime E init) task _ _).own log s op i h hop

end

/-! ### What the handling of a turn does -/

section
variable {E : Deployment} {init : State} {task : Nat} {log : List (Entry E init)} {key : String}

abbrev Keeps {α : Type} (task : Nat) (p : Task α) (log : List (Entry E init))
    (Q : List (Entry E init) → α → Prop) : Prop :=
  Shared.Safe (w := runtime E init) Deliberate task p log Q

theorem plain_keeps {α : Type} {p : Task α} (h : p.Asks Plain) (log : List (Entry E init)) :
    Keeps task p log (fun _ _ => True) :=
  .of_asks h (fun _ _ hop => plain_deliberate hop)

/-- Every record of the map has been seen. -/
theorem visible_map_seen (ids : List String) {out : List (String × MemoryRecord)}
    (hout : ∀ p ∈ out, Seen task p.2 log) :
    Keeps task (ids.foldlM (fun out id =>
      if out.any (fun p => p.1 = id) then pure out
      else do
        match ← Task.getVisible .automatic id with
        | none => pure out
        | some record => pure (out ++ [(id, record)]) : _ → String → Task _) out) log
      (fun log out => ∀ p ∈ out, Seen task p.2 log) := by
  induction ids generalizing log out with
  | nil => exact hout
  | cons id ids ih =>
    rw [List.foldlM_cons]
    refine Shared.Safe.bind (Q := fun log out => ∀ p ∈ out, Seen task p.2 log) ?_
      (fun log out hout => ih hout)
    split
    · exact hout
    · refine Shared.Safe.bind (Q := fun log found => (∀ p ∈ out, Seen task p.2 log) ∧
        ∀ r, found = some r → Seen task r log)
        (Task.memory_safe (fun log' s _ hlater i => ⟨plain_deliberate trivial, ?_⟩))
        (fun log found hfound => ?_)
      · refine fun r found hr hfound => ⟨fun p hp => ?_, fun record hrecord => ?_⟩
        · exact ((hout p hp).later hlater).own trivial
        · cases r with
          | found r =>
            cases hfound
            subst hrecord
            exact Shared.Since.now rfl ⟨id, rfl, hr⟩
          | _ => cases hfound
      · obtain ⟨hout, hfound⟩ := hfound
        cases found with
        | none => exact hout
        | some record =>
          intro p hp
          rcases List.mem_append.mp hp with hp | hp
          · exact hout p hp
          · rw [List.mem_singleton.mp hp]
            exact hfound record rfl

/-- A hybrid search returns records that the store has shown. -/
theorem hybrid_recall_seen (query : String) (limit : Nat) (log : List (Entry E init)) :
    Keeps task (Semantic.hybridRecall E .automatic query limit) log
      (fun log hits => ∀ r ∈ hits, Seen task r log) := by
  have hranked : Keeps task (Semantic.hybridRanked E .automatic query) log
      (fun log hits => ∀ r ∈ hits, Seen task r log) := by
    refine (plain_keeps (Semantic.embed_query_asks plain_derived query) log).bind
      (fun log q _ => ?_)
    refine (plain_keeps (Semantic.semantic_hits_asks plain_derived query 50 q) log).bind
      (fun log sem _ => ?_)
    refine (plain_keeps (Task.search_asks plain_derived .automatic query 50) log).bind
      (fun log fts _ => ?_)
    refine (visible_map_seen _ (fun p hp => by cases hp)).bind (fun log recmap hseen => ?_)
    intro r hr
    obtain ⟨id, -, hid⟩ := List.mem_filterMap.mp hr
    obtain ⟨p, hp, rfl⟩ := Option.map_eq_some_iff.mp hid
    exact hseen p (List.mem_of_find?_eq_some hp)
  exact hranked.bind (fun log hits hseen r hr => hseen r (List.mem_of_mem_take hr))

theorem canonical_twin_seen (statement : String) (log : List (Entry E init)) :
    Keeps task (Adaptive.canonicalTwin E statement) log (fun log twin =>
      ∀ r, twin = some r → TwinSeen task (E.texts.dedupKey statement) log) := by
  refine (hybrid_recall_seen statement 8 log).attempt_some.bind (fun log hits hseen => ?_)
  cases hits with
  | none => exact fun r hr => (by cases hr)
  | some hits =>
    intro r hr
    have hprops := List.find?_some hr
    simp only [Bool.and_eq_true, decide_eq_true_eq, Option.isNone_iff_eq_none] at hprops
    exact ⟨r, hseen hits rfl r (List.mem_of_find?_eq_some hr), hprops⟩

/-- An open candidate of a key has the key, in this and any later step. -/
theorem open_by_key_keeps {I : List (Entry E init) → Prop}
    (hI : ∀ log log' s i, I log → Shared.Later task log log' →
      I (⟨s, ⟨task, .candidates .automatic (.openByKey key), i⟩⟩ :: log')) (h : I log) :
    Keeps task (Task.openByKey .automatic key) log
      (fun log found => I log ∧ ∀ c, found = some c → KeyOf c.id key log) := by
  refine Task.candidates_safe (fun log' s _ hlater i => ⟨plain_deliberate trivial, ?_⟩)
  refine fun r a hr ha => ⟨hI log log' s i h hlater, fun c hc => ?_⟩
  cases hr
  cases ha
  obtain ⟨hfind, hkey, -⟩ := CandidateStore.open_by_key hc
  exact ⟨_, List.mem_cons_self .., c, hfind, hkey⟩

theorem close_twin_keeps (twin : MemoryRecord) (moment : Int) (h : TwinSeen task key log) :
    Keeps task (Adaptive.closeTwin key twin moment) log (fun _ _ => True) := by
  obtain ⟨r, hseen, hr⟩ := h
  refine (open_by_key_keeps (fun log log' s i h hlater => ?_) hseen).bind (fun log found hfound => ?_)
  · exact (h.later hlater).own trivial
  · obtain ⟨hseen, hkey⟩ := hfound
    cases found with
    | none => trivial
    | some c =>
      refine Shared.Safe.bind (Shared.Safe.attempt_some (Q := fun _ _ => True)
        (Task.candidates_safe (fun log' s _ hlater i => ⟨⟨fun c uuid record hop => ?_,
          fun id m now hop => ?_⟩, fun _ _ _ _ => trivial⟩))) (fun _ _ _ => trivial)
      · cases hop
      · cases hop
        obtain ⟨more, rfl, hmore⟩ := hlater
        exact ⟨key, key_of_lasting _ _ more (hkey c rfl),
          .inr ⟨r, hseen.later ⟨more, rfl, hmore⟩, hr⟩⟩

theorem reinforce_existing_keeps (proposal : Proposal) (turn : OwnerTurn) (moment : Int)
    (log : List (Entry E init)) : Keeps task (Adaptive.reinforceExisting E proposal turn
      (E.texts.dedupKey proposal.statement) moment) log (fun _ _ => True) := by
  refine (canonical_twin_seen proposal.statement log).bind (fun log twin htwin => ?_)
  cases twin with
  | none => trivial
  | some twin =>
    refine (close_twin_keeps twin moment (htwin twin rfl)).bind (fun log _ _ => ?_)
    split
    · refine plain_keeps (Prog.Asks.bind (Prog.Asks.attempt (Task.memory_asks ?_)) ?_) log
      · trivial
      · exact fun _ => trivial
    · trivial

theorem observe_reply {s : State} {c : Candidate} {evidence : Evidence} {moment : Int}
    {found : Option Candidate}
    (h : (s.callCandidates E (.observe c evidence moment)).1 = .ok (.found found)) :
    ∃ x, found = some x ∧ x.dedupKey = c.dedupKey ∧
      (s.callCandidates E (.observe c evidence moment)).2.candidates.candidates.find? x.id =
        some x := by
  cases hx : s.candidates.observe c evidence moment (E.uuid s.drawn) with
  | error e =>
    simp only [State.callCandidates, hx, State.withCandidates] at h
    cases h
  | ok r =>
    obtain ⟨x, t⟩ := r
    obtain ⟨hkey, hfind⟩ := CandidateStore.observe_found hx
    simp only [State.callCandidates, hx, State.withCandidates] at h ⊢
    cases h
    exact ⟨x, rfl, hkey, by rw [hfind, if_pos rfl]⟩

/-- The candidate that is observed has the key. -/
theorem observe_keeps (c : Candidate) (evidence : Evidence) (moment : Int)
    (log : List (Entry E init)) :
    Keeps task (Adaptive.observe c evidence moment) log
      (fun log found => ∀ x, found = some x → KeyOf x.id c.dedupKey log) := by
  intro log' s hrun hlater i
  refine ⟨plain_deliberate trivial, ?_⟩
  generalize hr :
    ((runtime E init).step (.candidates .automatic (.observe c evidence moment)) i s).1 = r
  cases r with
  | error e => cases e <;> first | trivial | exact fun x hx => by cases hx
  | ok r =>
    cases r with
    | found found =>
      intro x hx
      obtain ⟨y, hy, hkey, hfind⟩ := observe_reply hr
      cases hx.symm.trans hy
      exact ⟨_, List.mem_cons_self .., x, hfind, hkey⟩
    | _ => trivial

/-- Adopting follows the decision to adopt, with the candidates left alone. -/
theorem adopt_keeps (c : Candidate) (proposal : Proposal) (decision : Decision) (moment : Int)
    (hkey : key = E.texts.dedupKey proposal.statement) (hdecided : Decided task key log)
    (hc : KeyOf c.id key log) :
    Keeps task (Adaptive.adopt E c proposal decision moment) log (fun _ _ => True) := by
  -- the canonical write asks for nothing about candidates
  have hasks : (Adaptive.writeAdopted E (Adaptive.build c proposal decision moment)
      decision.contestedMemoryId).Asks (fun op => Uncandid op ∧ ∀ c uuid record,
        op = .memory .automatic c → c.inserted uuid = some record →
          E.texts.dedupKey record.content = key) := by
    refine Adaptive.write_adopted_asks E ⟨fun actor call hreads => ⟨trivial, ?reads⟩,
      fun _ => ⟨trivial, fun _ _ _ h => (by cases h)⟩, ⟨trivial, fun _ _ _ h => (by cases h)⟩,
      fun _ => ⟨trivial, fun _ _ _ h => (by cases h)⟩⟩ ⟨trivial, ?adopt⟩ _ ⟨trivial, ?relearn⟩
    case reads =>
      intro c uuid record hop hins
      cases hop
      cases call with
      | remember _ => exact hreads.elim
      | supersede _ _ => exact hreads.elim
      | _ => cases hins
    all_goals
      intro c uuid record hop hins
      cases hop
      cases hins
      exact hkey.symm
  have hkept : Shared.Safe.Kept (w := runtime E init) task (fun op => Uncandid op ∧
      ∀ c uuid record, op = .memory .automatic c → c.inserted uuid = some record →
        E.texts.dedupKey record.content = key)
      (fun log => Decided task key log ∧ KeyOf c.id key log) := by
    refine ⟨fun log log' h hl => ⟨h.1.later hl, ?_⟩, fun log s op i h hop => ⟨?_, ?_⟩⟩
    · obtain ⟨more, rfl, -⟩ := hl
      exact key_of_lasting _ _ more h.2
    · exact (Shared.Since.kept (w := runtime E init) task _ _).own log s op i h.1 hop.1
    · exact key_of_lasting _ log [_] h.2
  have hallowed : ∀ (log : List (Entry E init)) (op : Op) (i : Input),
      (Decided task key log ∧ KeyOf c.id key log) → (Uncandid op ∧ ∀ c uuid record,
        op = .memory .automatic c → c.inserted uuid = some record →
          E.texts.dedupKey record.content = key) → Deliberate log ⟨task, op, i⟩ := by
    intro log op i h hop
    refine ⟨fun c uuid record hmem hins => ?_, fun id m now htrans => ?_⟩
    · rw [hop.2 c uuid record hmem hins]
      exact h.1
    · have huncandid := hop.1
      rw [show op = _ from htrans] at huncandid
      exact huncandid.elim
  refine (Shared.Safe.of_asks_while hkept hasks ⟨hdecided, hc⟩ hallowed).attempt_some.bind
    (fun log done hdone => ?_)
  split
  · rename_i id
    obtain ⟨hdecided, hc⟩ := hdone _ rfl
    refine Task.candidates_safe (fun log' s _ hlater i => ⟨⟨fun c uuid record hop => ?_,
      fun k m now hop => ?_⟩, fun _ _ _ _ => trivial⟩)
    · cases hop
    · cases hop
      refine ⟨key, ?_, .inl (hdecided.later hlater)⟩
      obtain ⟨more, rfl, -⟩ := hlater
      exact key_of_lasting _ _ more hc
  · trivial

theorem settle_keeps (c : Candidate) (proposal : Proposal) (decision : Decision) (moment : Int)
    (hkey : key = E.texts.dedupKey proposal.statement)
    (hdecided : decision.action = .adopt → Decided task key log) (hc : KeyOf c.id key log) :
    Keeps task (Adaptive.settle E c proposal decision moment) log (fun _ _ => True) := by
  unfold Adaptive.settle
  split
  · rename_i haction
    exact adopt_keeps c proposal decision moment hkey (hdecided haction) hc
  · exact plain_keeps (Task.candidates_asks (by trivial)) log
  · exact plain_keeps (Task.candidates_asks (by trivial)) log
  · trivial

theorem pursue_keeps (proposal : Proposal) (turn : OwnerTurn) (suppressed secret : Bool)
    (conflict : Option Conflict) (decision : Decision) (moment : Int)
    (log : List (Entry E init)) : Keeps task (Adaptive.pursue E proposal turn
      (E.texts.dedupKey proposal.statement) suppressed secret conflict decision moment) log
      (fun _ _ => True) := by
  have hend : ∀ (log : List (Entry E init)) (known : Bool),
      Keeps task (Adaptive.pursueOn E proposal turn (E.texts.dedupKey proposal.statement) suppressed
        secret conflict decision moment known) log (fun _ _ => True) := by
    intro log known
    unfold Adaptive.pursueOn
    split
    · trivial
    · refine (observe_keeps _ _ moment log).bind (fun log found hfound => ?_)
      cases found with
      | none => trivial
      | some c =>
        intro log' s _ hlater i
        refine ⟨plain_deliberate trivial, settle_keeps c proposal _ moment rfl (fun haction => ?_) ?_⟩
        · exact Shared.Since.now rfl (by rw [haction])
        · obtain ⟨more, rfl, -⟩ := hlater
          exact key_of_lasting _ _ (_ :: more) (hfound c rfl)
  rw [Adaptive.pursue_eq]
  split
  · exact (reinforce_existing_keeps proposal turn moment log).bind (fun log known _ => hend log known)
  · exact hend log false

theorem handle_keeps (turn : OwnerTurn) (moment : Int) (proposal : Proposal)
    (log : List (Entry E init)) :
    Keeps task (Adaptive.handle E turn moment proposal) log (fun _ _ => True) := by
  have hnote : ∀ (log : List (Entry E init)) (m : Mark),
      Keeps task (Task.note m) log (fun _ _ => True) := fun log m =>
    plain_keeps (.request (by trivial)) log
  refine (hnote log _).bind (fun log _ _ => ?_)
  have hkeyed : Keeps task (Adaptive.handleKeyed E proposal turn
      (E.texts.dedupKey proposal.statement) moment) log (fun _ _ => True) := by
    refine (plain_keeps (Task.candidates_asks (by trivial)) log).bind (fun log suppressed _ => ?_)
    refine (plain_keeps (Adaptive.find_conflict_asks E plain_derived proposal turn) log).bind
      (fun log conflict _ => ?_)
    exact pursue_keeps ..
  refine hkeyed.attempt_some.bind (fun log done _ => (hnote log _).bind (fun log _ _ => ?_))
  cases done <;> trivial

theorem process_launchable (turn : OwnerTurn) (context : String) (moment : Int) :
    Shared.Launchable (w := runtime E init) Deliberate
      (Adaptive.process E turn context moment) := by
  intro task
  have hall : ∀ (proposals : List Proposal) (log : List (Entry E init)),
      Keeps task (Adaptive.handleAll E turn moment proposals) log (fun _ _ => True) := by
    intro proposals
    induction proposals with
    | nil => exact fun _ => trivial
    | cons p ps ih =>
      exact fun log => (handle_keeps turn moment p log).bind (fun log _ _ => ih log)
  unfold Adaptive.process
  split
  · trivial
  · refine Shared.Safe.bind (plain_keeps (.request (by trivial)) []) (fun log proposals _ => ?_)
    cases proposals with
    | none => trivial
    | some proposals => exact hall proposals log

theorem user_plain {op : Op} (h : Asked E .user op) : Plain op := by
  cases h with
  | read _ actor c hreads => exact plain_derived.reads actor c hreads
  | _ => trivial

theorem launched_launchable {p : Task Unit} (h : Launched E p) :
    Shared.Launchable (w := runtime E init) Deliberate p := by
  rcases launched_cases h with ⟨turn, context, moment, rfl⟩ | ⟨moment, rfl⟩ | hasks
  · exact process_launchable turn context moment
  · exact fun task => plain_keeps (Task.candidates_asks (by trivial)) []
  · exact fun task => .of_asks hasks (fun _ _ hop => plain_deliberate (user_plain hop))

end

/-! ### Runs in which one task follows the other -/

section
variable {E : Deployment} {init : State} {log : List (Entry E init)} {key : String} {s : State}

/-- The candidate has been asked about if it waits. -/
def Askable (s : State) : Prop :=
  ∀ id x, s.candidates.candidates.find? id = some x → x.state.waits = true → x.askedAt.isSome

theorem askable_step {op : Op} {i : Input} (h : Askable s) :
    Askable (State.step E op i s).2 := by
  intro id y hy hwaits
  have hstep := candidate_step (E := E) (s := s) op i id
  cases hx : s.candidates.candidates.find? id with
  | none =>
    rw [(hstep.fresh y hx hy).1] at hwaits
    cases hwaits
  | some x =>
    obtain ⟨z, hz, hsucc, -⟩ := hstep.stays x hx
    cases hy.symm.trans hz
    rcases hsucc.waits hwaits with hasked | hwaited
    · exact hasked
    · exact hsucc.asked (h id x hx hwaited)

/-- The candidate has the key, and it has been asked about if that is wanted. -/
def Known (id key : String) (asked : Prop) (s : State) : Prop :=
  ∃ x, s.candidates.candidates.find? id = some x ∧ x.dedupKey = key ∧ (asked → x.askedAt.isSome)

theorem known_step {id : String} {asked : Prop} {op : Op} {i : Input}
    (h : Known id key asked s) : Known id key asked (State.step E op i s).2 := by
  obtain ⟨x, hx, hkey, hasked⟩ := h
  obtain ⟨y, hy, hsucc, -⟩ := (candidate_step (E := E) (s := s) op i id).stays x hx
  exact ⟨y, hy, hsucc.key.trans hkey, fun h => hsucc.asked (hasked h)⟩

/-- What is known of a candidate after a step stays known. -/
theorem known_since {permits : (runtime E init).Discipline} {id : String} {asked : Prop}
    (hrun : (runtime E init).machine.Run permits log s) {m : Entry E init} (hm : m ∈ log)
    (h : Known id key asked m.post) : Known id key asked s := by
  obtain ⟨newer, older, rfl⟩ := List.append_of_mem hm
  exact (hrun.carried (Known id key asked) h (fun n _ hn => known_step hn)).1

theorem uncandid_step {op : Op} (h : Uncandid op) (i : Input) :
    (State.step E op i s).2.candidates = s.candidates := by
  cases op with
  | candidates actor c => exact h.elim
  | flags c => cases c <;> rfl
  | _ => rfl

theorem unwritten_step {op : Op} (h : Unwritten op) (i : Input) :
    (State.step E op i s).2.memory = s.memory := by
  rcases step_memory (E := E) (s := s) op i with ⟨hsame, -⟩ | ⟨actor, c, rfl, hafter⟩
  · exact hsame
  · rw [hafter]
    exact reads_keep h

/-- Where a statement is to be adopted, nobody was ever asked about it. -/
def unasked (e : Entry E init) : Bool :=
  match e.call.op with
  | .note (.decided key .adopt) =>
    e.pre.candidates.candidates.rows.all (fun x => x.dedupKey ≠ key || x.askedAt.isNone)
  | _ => true

/-- A task that has decided to adopt meets no candidate that was asked about. -/
theorem decided_unasked {permits : (runtime E init).Discipline} {e : Entry E init} {id : String}
    (hrun : (runtime E init).machine.Run permits log e.pre)
    (hturn : Shared.InTurn (w := runtime E init) (e :: log))
    (hcond : Machine.Each (fun _ e => unasked e = true) log)
    (h : Decided e.call.task key log) (hknown : Known id key True e.pre) : False := by
  obtain ⟨newer, d, older, rfl, hd, hall⟩ := h.alone rfl hturn
  have hsame : e.pre.candidates = d.pre.candidates := by
    refine (hrun.carried (fun s => s.candidates = d.pre.candidates) ?_ (fun n hn hs => ?_)).1
    · exact uncandid_step (by rw [hd]; trivial) d.call.input
    · exact (uncandid_step (hall n hn) n.call.input).trans hs
  obtain ⟨x, hx, hkey, hasked⟩ := hknown
  have hmeets := (Machine.Each.split hcond).1
  simp only [unasked, hd] at hmeets
  rw [hsame] at hx
  have hx' := List.all_eq_true.mp hmeets x (Table.mem_of_find hx)
  simp only [hkey, ne_eq, not_true_eq_false, decide_false, Bool.false_or,
    Option.isNone_iff_eq_none] at hx'
  have hsome := hasked trivial
  rw [hx'] at hsome
  cases hsome

/-- A record that was seen is there still. -/
theorem seen_visible {permits : (runtime E init).Discipline} {e : Entry E init} {r : MemoryRecord}
    (hrun : (runtime E init).machine.Run permits log e.pre)
    (hturn : Shared.InTurn (w := runtime E init) (e :: log)) (h : Seen e.call.task r log) :
    ∃ id now, (e.pre.memory.getVisible id now).reply = .ok (.found (some r)) := by
  obtain ⟨newer, v, older, rfl, ⟨id, hv, hreply⟩, hall⟩ := h.alone rfl hturn
  have hsame : e.pre.memory = v.pre.memory := by
    refine (hrun.carried (fun s => s.memory = v.pre.memory) ?_ (fun n hn hs => ?_)).1
    · exact unwritten_step (by rw [hv]; trivial) v.call.input
    · exact (unwritten_step (hall n hn) n.call.input).trans hs
  exact ⟨id, v.call.input.now, by rw [hsame]; exact hreply⟩

end

/-! ### What waits for the human -/

/-- Once a candidate waits, its statement is stored by the user only, and it is
adopted by the user or since a current record says the same. -/
structure HumanDecides {E : Deployment} {init : State} (W : (runtime E init).World) : Prop where
  stored : ∀ newer e older, W.log = newer ++ e :: older → ∀ m ∈ older, ∀ id x,
    m.post.candidates.candidates.find? id = some x → x.state.waits = true →
    ∀ c record, e.call.op = .memory .automatic c →
      c.inserted (E.uuid e.pre.drawn) = some record → E.texts.dedupKey record.content ≠ x.dedupKey
  adopted : ∀ e ∈ W.log, ∀ id x y, e.pre.candidates.candidates.find? id = some x →
    x.state.waits = true → e.post.candidates.candidates.find? id = some y → y.state = .adopted →
    (∃ m now, e.call.op = .candidates .user (.transition id .adopted m now)) ∨
      ∃ r k now, (e.pre.memory.getVisible k now).reply = .ok (.found (some r)) ∧
        r.supersededBy = none ∧ E.texts.dedupKey r.content = x.dedupKey

/-- A record is stored without the user though its statement waited before. -/
def storesAsked {E : Deployment} {init : State} : List (Entry E init) → Bool
  | [] => false
  | e :: older => (match e.call.op with
    | .memory .automatic c => (c.inserted (E.uuid e.pre.drawn)).any (fun record =>
      older.any (fun m => m.post.candidates.candidates.rows.any (fun x =>
        x.state.waits && x.dedupKey = E.texts.dedupKey record.content)))
    | _ => false) || storesAsked older

theorem stores_asked {E : Deployment} {init : State} {log : List (Entry E init)}
    (h : storesAsked log = true) : ∃ newer e older, log = newer ++ e :: older ∧
      ∃ c record, e.call.op = .memory .automatic c ∧
        c.inserted (E.uuid e.pre.drawn) = some record ∧ ∃ m ∈ older, ∃ id x,
          m.post.candidates.candidates.find? id = some x ∧ x.state.waits = true ∧
            E.texts.dedupKey record.content = x.dedupKey := by
  induction log with
  | nil => cases h
  | cons e older ih =>
    rcases Bool.or_eq_true_iff.mp h with he | holder
    · split at he
      · rename_i c hop
        obtain ⟨record, hins, hany⟩ := (Option.any_eq_true _ _).mp he
        obtain ⟨m, hm, hany⟩ := List.any_eq_true.mp hany
        obtain ⟨x, hx, hboth⟩ := List.any_eq_true.mp hany
        simp only [Bool.and_eq_true, decide_eq_true_eq] at hboth
        exact ⟨[], e, older, rfl, c, record, hop, hins, m, hm, x.id, x, Table.find_of_mem hx,
          hboth.1, hboth.2.symm⟩
      · cases he
    · obtain ⟨newer, d, rest, rfl, hrest⟩ := ih holder
      exact ⟨e :: newer, d, rest, rfl, hrest⟩

def sampleTurn : OwnerTurn := { text := "likes jazz", channel := "voice_iphone" }

def sampleProposal (sensitivity : Sensitivity) : Proposal where
  statement := "likes jazz"
  kind := .stated
  memoryType := .preference
  subject := "user"
  sensitivity := sensitivity

abbrev Sample : Shared State := runtime plainDeployment .start

/-- Two turns of the same text, with what the extractor makes of each. -/
def sampleWorld (first second : Sensitivity) : Sample.World :=
  .play Sample [Adaptive.process plainDeployment sampleTurn "" 1,
      Adaptive.process plainDeployment sampleTurn "" 2]
    ((0, { proposals := some [sampleProposal first] }) :: List.replicate 24 (0, ({} : Input)) ++
      (1, { proposals := some [sampleProposal second] }) :: List.replicate 24 (1, ({} : Input)))

theorem sample_reach (first second : Sensitivity) :
    Shared.World.Reach (Launched plainDeployment) (sampleWorld first second) := by
  have hall : ∀ p ∈ [Adaptive.process plainDeployment sampleTurn "" 1,
      Adaptive.process plainDeployment sampleTurn "" 2], Launched plainDeployment p := by
    intro p hp
    simp only [List.mem_cons, List.not_mem_nil, or_false] at hp
    rcases hp with rfl | rfl
    · exact .processed _ _ _
    · exact .processed _ _ _
  exact @Shared.World.Reach.play _ Sample _ _ hall _

instance (log : List Sample.Event) : Decidable (Shared.InTurn (w := Sample) log) :=
  inferInstanceAs (Decidable (log.Pairwise _))

theorem sample_stores : ∃ W : Sample.World, Shared.World.Reach (Launched plainDeployment) W ∧
    Shared.InTurn (w := Sample) W.log ∧ storesAsked W.log = true :=
  ⟨sampleWorld .sensitive .personal, sample_reach _ _, by decide +kernel, by decide +kernel⟩

def waits (W : Sample.World) : Bool :=
  W.state.candidates.candidates.rows.any (fun x => x.state.waits)

theorem sample_waits : ∃ W : Sample.World, Shared.World.Reach (Launched plainDeployment) W ∧
    Shared.InTurn (w := Sample) W.log ∧ Machine.Each (fun _ e => unasked e = true) W.log ∧
      waits W = true :=
  ⟨sampleWorld .sensitive .sensitive, sample_reach _ _, by decide +kernel, by decide +kernel, by
    decide +kernel⟩

end Solvio.Memory.Pending
