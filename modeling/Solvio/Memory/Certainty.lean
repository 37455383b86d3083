import Solvio.Lib.Distinct
import Solvio.Memory.Guards
import Solvio.Memory.Pending

namespace Solvio.Memory.Certainty
open Solvio.Lib

/-! ### Independent observations -/

/-- Two observations of different conversations, on different days. -/
def Independent (es : List Evidence) : Prop :=
  ∃ a ∈ es, ∃ b ∈ es, a.conversationId ≠ "" ∧ b.conversationId ≠ "" ∧
    a.conversationId ≠ b.conversationId ∧ a.day ≠ b.day

/-- All observations that name their conversation are of one day, those of two
conversations among them, and one without a conversation is of another day. -/
def Borrows (es : List Evidence) : Prop :=
  (∃ a ∈ es, ∃ b ∈ es, a.conversationId ≠ "" ∧ b.conversationId ≠ "" ∧
    a.conversationId ≠ b.conversationId) ∧
  ∃ e ∈ es, ∀ a ∈ es, a.conversationId ≠ "" → a.day ≠ e.day ∧
    ∀ b ∈ es, b.conversationId ≠ "" → a.day = b.day

instance (es : List Evidence) : Decidable (Independent es) := by
  unfold Independent
  infer_instance

instance (es : List Evidence) : Decidable (Borrows es) := by
  unfold Borrows
  infer_instance

variable {es : List Evidence}

/-- The observations that name their conversation. -/
def named (es : List Evidence) : List Evidence := es.filter (fun e => e.conversationId ≠ "")

@[simp] theorem mem_named {e : Evidence} : e ∈ named es ↔ e ∈ es ∧ e.conversationId ≠ "" := by
  simp [named]

theorem conversations_named :
    (es.map Evidence.conversationId).filter (· ≠ "") = (named es).map Evidence.conversationId := by
  rw [named, List.filter_map]
  rfl

theorem independent_iff : Independent es ↔
    ∃ a ∈ named es, ∃ b ∈ named es, a.conversationId ≠ b.conversationId ∧ a.day ≠ b.day := by
  constructor
  · rintro ⟨a, ha, b, hb, hna, hnb, hconv, hday⟩
    exact ⟨a, Iff.mpr mem_named ⟨ha, hna⟩, b, Iff.mpr mem_named ⟨hb, hnb⟩, hconv, hday⟩
  · rintro ⟨a, ha, b, hb, hconv, hday⟩
    obtain ⟨ha, hna⟩ := Iff.mp mem_named ha
    obtain ⟨hb, hnb⟩ := Iff.mp mem_named hb
    exact ⟨a, ha, b, hb, hna, hnb, hconv, hday⟩

/-- The count is two as soon as two conversations are named and two days occur. -/
theorem two_le_independent (c : Candidate) : 2 ≤ c.independentConversations ↔
    (∃ a ∈ named c.evidence, ∃ b ∈ named c.evidence, a.conversationId ≠ b.conversationId) ∧
      ∃ a ∈ c.evidence, ∃ b ∈ c.evidence, a.day ≠ b.day := by
  have hconv : 2 ≤ ((named c.evidence).map Evidence.conversationId).eraseDups.length ↔
      ∃ a ∈ named c.evidence, ∃ b ∈ named c.evidence, a.conversationId ≠ b.conversationId := by
    rw [two_le_distinct]
    simp only [List.mem_map, exists_exists_and_eq_and]
  have hdays : 2 ≤ (c.evidence.map Evidence.day).eraseDups.length ↔
      ∃ a ∈ c.evidence, ∃ b ∈ c.evidence, a.day ≠ b.day := by
    rw [two_le_distinct]
    simp only [List.mem_map, exists_exists_and_eq_and]
  rw [← hconv, ← hdays, Candidate.independentConversations]
  simp only [conversations_named]
  split
  · rename_i hnone
    simp [hnone]
  · exact Nat.le_min

/-- What the count takes for certainty. -/
theorem certain_iff (c : Candidate) : 2 ≤ c.independentConversations ↔
    Independent c.evidence ∨ Borrows c.evidence := by
  rw [two_le_independent, independent_iff]
  constructor
  · rintro ⟨hconv, hdays⟩
    by_cases hnamed : ∃ a ∈ named c.evidence, ∃ b ∈ named c.evidence, a.day ≠ b.day
    · exact .inl (differ_in_both hconv hnamed)
    · have hone : ∀ a ∈ named c.evidence, ∀ b ∈ named c.evidence, a.day = b.day := by
        intro a ha b hb
        by_contra hne
        exact hnamed ⟨a, ha, b, hb, hne⟩
      obtain ⟨a, ha, b, hb, hne⟩ := hconv
      obtain ⟨e, he, hea⟩ : ∃ e ∈ c.evidence, a.day ≠ e.day := by
        obtain ⟨u, hu, v, hv, huv⟩ := hdays
        by_cases hau : a.day = u.day
        · exact ⟨v, hv, fun hav => huv (hau.symm.trans hav)⟩
        · exact ⟨u, hu, hau⟩
      have ha' := Iff.mp mem_named ha
      have hb' := Iff.mp mem_named hb
      refine .inr ⟨⟨a, ha'.1, b, hb'.1, ha'.2, hb'.2, hne⟩, e, he, fun x hx hnx => ?_⟩
      have hx' : x ∈ named c.evidence := Iff.mpr mem_named ⟨hx, hnx⟩
      refine ⟨fun hxe => hea ((hone a ha x hx').trans hxe), fun y hy hny => ?_⟩
      exact hone x hx' y (Iff.mpr mem_named ⟨hy, hny⟩)
  · rintro (⟨a, ha, b, hb, hconv, hday⟩ | ⟨⟨a, ha, b, hb, hna, hnb, hconv⟩, e, he, hall⟩)
    · exact ⟨⟨a, ha, b, hb, hconv⟩, a, (Iff.mp mem_named ha).1, b, (Iff.mp mem_named hb).1, hday⟩
    · exact ⟨⟨a, Iff.mpr mem_named ⟨ha, hna⟩, b, Iff.mpr mem_named ⟨hb, hnb⟩, hconv⟩,
        a, ha, e, he, (hall a ha hna).1⟩

theorem borrows_dependent (h : Borrows es) : ¬ Independent es := by
  rintro ⟨a, ha, b, hb, hna, hnb, -, hday⟩
  obtain ⟨-, e, -, hall⟩ := h
  exact hday ((hall a ha hna).2 b hb hnb)

/-- Only a borrowed day makes the count wrong. -/
theorem counts_independent_iff (c : Candidate) :
    (2 ≤ c.independentConversations ↔ Independent c.evidence) ↔ ¬ Borrows c.evidence := by
  rw [certain_iff]
  constructor
  · intro h hborrows
    exact borrows_dependent hborrows (h.mp (.inr hborrows))
  · intro hborrows
    exact ⟨fun h => h.resolve_right hborrows, .inl⟩

/-- Observations that all name their conversation borrow no day. -/
theorem named_borrows_nothing (h : ∀ e ∈ es, e.conversationId ≠ "") : ¬ Borrows es := by
  rintro ⟨-, e, he, hall⟩
  exact (hall e he (h e he)).1 rfl

/-! ### The same message again -/

/-- A message that the evidence has is not evidence once more. -/
theorem seen_again_evidence {c : Candidate} {evidence e : Evidence} (he : e ∈ c.evidence)
    (hid : e.messageId = evidence.messageId) (hne : evidence.messageId ≠ "") (now : Int) :
    (CandidateStore.seenAgain c evidence now).evidence = c.evidence := by
  have hany : c.evidence.any
      (fun e => e.messageId ≠ "" && e.messageId = evidence.messageId) = true := by
    rw [List.any_eq_true]
    exact ⟨e, he, by simp [hid, hne]⟩
  simp only [CandidateStore.seenAgain, hany, if_true]

theorem observe_again {s t : CandidateStore} {c x y : Candidate} {evidence e : Evidence}
    {now : Int} {uuid : String} (h : s.observe c evidence now uuid = .ok (x, t))
    (hopen : s.openByKey c.dedupKey = some y) (he : e ∈ y.evidence)
    (hid : e.messageId = evidence.messageId) (hne : evidence.messageId ≠ "") :
    x.evidence = y.evidence := by
  simp only [CandidateStore.observe, hopen] at h
  cases h
  exact seen_again_evidence he hid hne now

/-! ### What is learned of a pattern -/

/-- The record is of an inferred proposal, and nobody was asked. -/
def Learns (op : Op) (record : MemoryRecord) : Prop :=
  (∃ c uuid, op = .memory .automatic c ∧ c.inserted uuid = some record) ∧
    Kind.inferred.name ∈ record.tags

/-- Stores nothing without the user. -/
def Unstored : Op → Prop
  | .memory .automatic (.remember _) => False
  | .memory .automatic (.supersede _ _) => False
  | _ => True

theorem unstored_learns {op : Op} {record : MemoryRecord} (h : Unstored op) :
    ¬ Learns op record := by
  rintro ⟨⟨c, uuid, rfl, hins⟩, -⟩
  cases c with
  | remember _ => exact h
  | supersede _ _ => exact h
  | _ => cases hins

theorem unstored_derived : Derived Unstored where
  reads actor c h := by
    cases actor with
    | user => trivial
    | automatic =>
      cases c with
      | remember _ => exact h
      | supersede _ _ => exact h
      | _ => trivial
  index _ := trivial
  indexOpen := trivial
  embed _ := trivial

/-- The provenance of the record is this evidence. -/
def RestsOn (record : MemoryRecord) (es : List Evidence) : Prop :=
  record.provenance = es.map (fun e => Adaptive.observation e.conversationId e.takenAt e.note)

/-- An inferred proposal is adopted of a candidate that counts two conversations. -/
theorem adopt_counted {E : Deployment} {proposal : Proposal} {turn : OwnerTurn} {c : Candidate}
    {suppressed secret : Bool} {conflict : Option Conflict} {decision : Decision}
    (hkind : proposal.kind = .inferred)
    (h : (Adaptive.finalDecision E proposal turn c suppressed secret conflict decision).action =
      .adopt) : 2 ≤ c.independentConversations := by
  simp only [Adaptive.finalDecision, hkind] at h
  rw [decide_passed (passes_of_adopt h)] at h
  cases conflict with
  | none => exact (adopt_evidence h).2.2 hkind
  | some conflict =>
    rw [(adopt_conflict h).1] at hkind
    cases hkind

section
variable {E : Deployment} {init : State} {task : Nat} {log : List (Entry E init)}

/-- The task has filed an observation, and this candidate was the answer. -/
def Gathered (task : Nat) (x : Candidate) (log : List (Entry E init)) : Prop :=
  ∃ v ∈ log, v.call.task = task ∧ v.post.candidates.candidates.find? x.id = some x ∧
    ∃ c evidence now, v.call.op = .candidates .automatic (.observe c evidence now)

theorem gathered_lasting (task : Nat) (x : Candidate) :
    Shared.Safe.Lasting (w := runtime E init) (Gathered task x) := by
  rintro log more ⟨v, hv, h⟩
  exact ⟨v, List.mem_append_right more hv, h⟩

/-- What is learned of a pattern rests on a candidate that counts two conversations. -/
def Sure (log : List (Entry E init)) (a : (runtime E init).Act) : Prop :=
  ∀ record, Learns a.op record → ∃ x, Gathered a.task x log ∧ RestsOn record x.evidence ∧
    2 ≤ x.independentConversations

theorem unstored_sure {a : (runtime E init).Act} (h : Unstored a.op) : Sure log a :=
  fun _ hlearns => (unstored_learns h hlearns).elim

abbrev Keeps {α : Type} (task : Nat) (p : Task α) (log : List (Entry E init))
    (Q : List (Entry E init) → α → Prop) : Prop :=
  Shared.Safe (w := runtime E init) Sure task p log Q

theorem unstored_keeps {α : Type} {p : Task α} (h : p.Asks Unstored) (log : List (Entry E init)) :
    Keeps task p log (fun _ _ => True) :=
  .of_asks h (fun _ _ hop => unstored_sure hop)

/-- The candidate that is answered was gathered. -/
theorem observe_keeps (c : Candidate) (evidence : Evidence) (moment : Int)
    (log : List (Entry E init)) :
    Keeps task (Adaptive.observe c evidence moment) log
      (fun log found => ∀ x, found = some x → Gathered task x log) := by
  intro log' s _ _ i
  refine ⟨unstored_sure trivial, ?_⟩
  generalize hr :
    ((runtime E init).step (.candidates .automatic (.observe c evidence moment)) i s).1 = r
  cases r with
  | error e => cases e <;> first | trivial | exact fun x hx => by cases hx
  | ok r =>
    cases r with
    | found found =>
      intro x hx
      obtain ⟨y, hy, -, hfind⟩ := Pending.observe_reply hr
      cases hx.symm.trans hy
      exact ⟨_, List.mem_cons_self .., rfl, hfind, c, evidence, moment, rfl⟩
    | _ => trivial

/-- A record that rests on the evidence of the candidate. -/
structure Founded (c : Candidate) (op : Op) : Prop where
  rests : ∀ record, Learns op record → RestsOn record c.evidence
  counted : ∀ record, Learns op record → 2 ≤ c.independentConversations

theorem unstored_founded {c : Candidate} {op : Op} (h : Unstored op) : Founded c op where
  rests _ hlearns := (unstored_learns h hlearns).elim
  counted _ hlearns := (unstored_learns h hlearns).elim

theorem founded_derived (c : Candidate) : Derived (Founded c) where
  reads actor call h := unstored_founded (unstored_derived.reads actor call h)
  index _ := unstored_founded trivial
  indexOpen := unstored_founded trivial
  embed _ := unstored_founded trivial

theorem inferred_of_tag {c : Candidate} {proposal : Proposal} {decision : Decision} {moment : Int}
    (h : Kind.inferred.name ∈ (Adaptive.build c proposal decision moment).tags) :
    proposal.kind = .inferred := by
  cases hkind : proposal.kind with
  | inferred => rfl
  | stated =>
    simp only [Adaptive.build, hkind] at h
    exact absurd h (by decide)

/-- A write of what is built of the candidate, which counts two conversations if the
proposal is inferred. -/
theorem stores_founded {c : Candidate} {proposal : Proposal} {call : MemoryCall}
    (decision : Decision) (moment : Int) (hcount : proposal.kind = .inferred → 2 ≤ c.independentConversations)
    (hbuilt : ∀ uuid record, call.inserted uuid = some record →
      record.provenance = (Adaptive.build c proposal decision moment).provenance ∧
        record.tags = (Adaptive.build c proposal decision moment).tags) :
    Founded c (.memory .automatic call) where
  rests := by
    rintro record ⟨⟨call', uuid, hop, hins⟩, -⟩
    cases hop
    exact (hbuilt uuid record hins).1
  counted := by
    rintro record ⟨⟨call', uuid, hop, hins⟩, htag⟩
    cases hop
    rw [(hbuilt uuid record hins).2] at htag
    exact hcount (inferred_of_tag htag)

theorem adopt_keeps {c : Candidate} {proposal : Proposal} {decision : Decision} (moment : Int)
    (hcount : proposal.kind = .inferred → 2 ≤ c.independentConversations)
    (hgathered : Gathered task c log) :
    Keeps task (Adaptive.adopt E c proposal decision moment) log (fun _ _ => True) := by
  have hasks : (Adaptive.writeAdopted E (Adaptive.build c proposal decision moment)
      decision.contestedMemoryId).Asks (Founded c) := by
    refine Adaptive.write_adopted_asks E (founded_derived c) (stores_founded decision moment hcount ?_)
      _ (stores_founded decision moment hcount ?_)
    · intro uuid record hins
      cases hins
      exact ⟨rfl, rfl⟩
    · intro uuid record hins
      cases hins
      exact ⟨rfl, rfl⟩
  have hwrite : Keeps task (Adaptive.writeAdopted E (Adaptive.build c proposal decision moment)
      decision.contestedMemoryId) log (fun log _ => Gathered task c log) := by
    apply Shared.Safe.of_asks_since (gathered_lasting task c) hasks hgathered
    intro log a ha hlog hop record hlearns
    exact ⟨c, ha ▸ hlog, hop.rests record hlearns, hop.counted record hlearns⟩
  refine hwrite.attempt_some.bind (fun log done _ => ?_)
  split
  · exact unstored_keeps (Task.candidates_asks (by trivial)) log
  · trivial

theorem settle_keeps {c : Candidate} {proposal : Proposal} {decision : Decision} (moment : Int)
    (hcount : decision.action = .adopt → proposal.kind = .inferred →
      2 ≤ c.independentConversations) (hgathered : Gathered task c log) :
    Keeps task (Adaptive.settle E c proposal decision moment) log (fun _ _ => True) := by
  unfold Adaptive.settle
  split
  · rename_i haction
    exact adopt_keeps moment (hcount haction) hgathered
  · exact unstored_keeps (Task.candidates_asks (by trivial)) log
  · exact unstored_keeps (Task.candidates_asks (by trivial)) log
  · trivial

theorem pursue_keeps (proposal : Proposal) (turn : OwnerTurn) (key : String)
    (suppressed secret : Bool) (conflict : Option Conflict) (decision : Decision) (moment : Int)
    (log : List (Entry E init)) : Keeps task (Adaptive.pursue E proposal turn key suppressed secret
      conflict decision moment) log (fun _ _ => True) := by
  have hend : ∀ (log : List (Entry E init)) (known : Bool),
      Keeps task (Adaptive.pursueOn E proposal turn key suppressed secret conflict decision moment
        known) log (fun _ _ => True) := by
    intro log known
    unfold Adaptive.pursueOn
    split
    · trivial
    · refine (observe_keeps _ _ moment log).bind (fun log found hfound => ?_)
      cases found with
      | none => trivial
      | some c =>
        intro log' s _ hlater i
        obtain ⟨more, rfl, -⟩ := hlater
        refine ⟨unstored_sure trivial, settle_keeps moment (fun haction hkind => ?_) ?_⟩
        · exact adopt_counted hkind haction
        · exact gathered_lasting _ _ log (_ :: more) (hfound c rfl)
  rw [Adaptive.pursue_eq]
  split
  · refine Shared.Safe.bind (Q := fun _ _ => True) ?_ (fun log known _ => hend log known)
    exact unstored_keeps (Adaptive.reinforce_existing_asks E unstored_derived trivial
      (fun _ _ => trivial) (fun _ _ _ => trivial) proposal turn) log
  · exact hend log false

theorem handle_keeps (turn : OwnerTurn) (moment : Int) (proposal : Proposal)
    (log : List (Entry E init)) :
    Keeps task (Adaptive.handle E turn moment proposal) log (fun _ _ => True) := by
  have hnote : ∀ (log : List (Entry E init)) (m : Mark),
      Keeps task (Task.note m) log (fun _ _ => True) := fun log m =>
    unstored_keeps (.request (by trivial)) log
  have hkeyed : ∀ log : List (Entry E init), Keeps task (Adaptive.handleKeyed E proposal turn
      (E.texts.dedupKey proposal.statement) moment) log (fun _ _ => True) := by
    intro log
    refine (unstored_keeps (Task.candidates_asks (by trivial)) log).bind
      (fun log suppressed _ => ?_)
    refine (unstored_keeps (Adaptive.find_conflict_asks E unstored_derived proposal turn) log).bind
      (fun log conflict _ => ?_)
    exact pursue_keeps ..
  refine (hnote log _).bind (fun log _ _ => (hkeyed log).attempt_some.bind
    (fun log done _ => (hnote log _).bind (fun log _ _ => ?_)))
  cases done <;> trivial

theorem process_launchable (turn : OwnerTurn) (context : String) (moment : Int) :
    Shared.Launchable (w := runtime E init) Sure (Adaptive.process E turn context moment) := by
  intro task
  have hall : ∀ (proposals : List Proposal) (log : List (Entry E init)),
      Keeps task (Adaptive.handleAll E turn moment proposals) log (fun _ _ => True) := by
    intro proposals
    induction proposals with
    | nil => exact fun _ => trivial
    | cons p ps ih =>
      exact fun log => (handle_keeps turn moment p log).bind (fun log _ _ => ih log)
  unfold Adaptive.process
  split
  · trivial
  · refine Shared.Safe.bind (unstored_keeps (.request (by trivial)) []) (fun log proposals _ => ?_)
    cases proposals with
    | none => trivial
    | some proposals => exact hall proposals log

theorem user_unstored {op : Op} (h : Asked E .user op) : Unstored op := by
  cases h with
  | read _ actor c hreads => exact unstored_derived.reads actor c hreads
  | _ => trivial

theorem launched_launchable {p : Task Unit} (h : Launched E p) :
    Shared.Launchable (w := runtime E init) Sure p := by
  rcases launched_cases h with ⟨turn, context, moment, rfl⟩ | ⟨moment, rfl⟩ | hasks
  · exact process_launchable turn context moment
  · exact fun task => unstored_keeps (Task.candidates_asks (by trivial)) []
  · exact fun task => .of_asks hasks (fun _ _ hop => unstored_sure (user_unstored hop))

/-- Whatever runs at the same time, what is learned of a pattern rests on a candidate
that its task has gathered. -/
theorem learned_sure {W : (runtime E init).World} (h : Shared.World.Reach (Launched E) W)
    {newer older : List (Entry E init)} {e : Entry E init} (hsplit : W.log = newer ++ e :: older)
    {record : MemoryRecord} (hlearns : Learns e.call.op record) :
    ∃ x, Gathered e.call.task x older ∧ RestsOn record x.evidence ∧
      2 ≤ x.independentConversations := by
  have hrun := (h.disciplined (fun p hp => launched_launchable hp)).run
  rw [hsplit] at hrun
  exact hrun.split.2 record hlearns

end

/-- Certainty does not come from repetition, unless an observation without a
conversation lends its day. -/
theorem certain_of_independent (E : Deployment) (init : State) :
    (∀ c : Candidate, (2 ≤ c.independentConversations ↔ Independent c.evidence) ↔
      ¬ Borrows c.evidence) ∧
    (∀ (s t : CandidateStore) (c x y : Candidate) (evidence : Evidence) (now : Int) (uuid : String),
      s.observe c evidence now uuid = .ok (x, t) → s.openByKey c.dedupKey = some y →
      evidence.messageId ≠ "" → (∃ e ∈ y.evidence, e.messageId = evidence.messageId) →
      x.evidence = y.evidence) ∧
    ∀ W : (runtime E init).World, Shared.World.Reach (Launched E) W → ∀ newer e older,
      W.log = newer ++ e :: older → ∀ record, Learns e.call.op record →
      ∃ x, Gathered e.call.task x older ∧ RestsOn record x.evidence ∧
        (Independent x.evidence ↔ ¬ Borrows x.evidence) := by
  refine ⟨counts_independent_iff, ?_, ?_⟩
  · rintro s t c x y evidence now uuid h hopen hne ⟨e, he, hid⟩
    exact observe_again h hopen he hid hne
  · intro W hreach newer e older hsplit record hlearns
    obtain ⟨x, hgathered, hrests, hcount⟩ := learned_sure hreach hsplit hlearns
    refine ⟨x, hgathered, hrests, ?_⟩
    rw [← counts_independent_iff]
    exact ⟨fun h => ⟨fun _ => h, fun _ => hcount⟩, fun h => h.mp hcount⟩

/-! ### A pattern that is learned -/

def afternoon (conversationId : String) (takenAt : Int) : Evidence where
  takenAt := takenAt
  kind := .inferred
  conversationId := conversationId
  messageId := conversationId

def sampleCandidate (evidence : List Evidence) : Candidate where
  id := "c"
  statement := "likes jazz"
  dedupKey := "likes jazz"
  kind := .inferred
  memoryType := .preference
  subject := "user"
  sensitivity := .personal
  evidence := evidence

/-- A process that finds the candidate after one conversation. -/
def sampleInit : State :=
  { State.start with candidates :=
    ⟨⟨[sampleCandidate [afternoon "a" 0]], List.pairwise_singleton ..⟩, .empty⟩ }

def sampleTurn : OwnerTurn where
  text := "likes jazz"
  channel := "voice_iphone"
  conversationId := "b"
  messageId := "b"

def sampleProposal : Proposal where
  statement := "likes jazz"
  kind := .inferred
  memoryType := .preference
  subject := "user"

abbrev Sample : Shared State := runtime plainDeployment sampleInit

/-- The next conversation is a day later. -/
def sampleWorld : Sample.World :=
  .play Sample [Adaptive.process plainDeployment sampleTurn "" 90000]
    (List.replicate 11 (0, { proposals := some [sampleProposal] }))

theorem sample_reach : Shared.World.Reach (Launched plainDeployment) sampleWorld := by
  refine @Shared.World.Reach.play _ Sample _ _ (fun p hp => ?_) _
  rw [List.mem_singleton.mp hp]
  exact .processed _ _ _

/-- The last step stores what was inferred. -/
def learned : List (Entry plainDeployment sampleInit) → Bool
  | [] => false
  | e :: _ => match e.call.op with
    | .memory .automatic (.remember record) => Kind.inferred.name ∈ record.tags
    | _ => false

theorem learned_learns {log : List (Entry plainDeployment sampleInit)} (h : learned log = true) :
    ∃ e older record, log = [] ++ e :: older ∧ Learns e.call.op record := by
  cases log with
  | nil => cases h
  | cons e older =>
    simp only [learned] at h
    split at h
    · rename_i record hop
      refine ⟨e, older, _, rfl, ⟨_, "u", hop, rfl⟩, ?_⟩
      split
      · exact of_decide_eq_true h
      · exact of_decide_eq_true h
    · cases h

theorem sample_learned : ∃ W : Sample.World,
    Shared.World.Reach (Launched plainDeployment) W ∧ learned W.log = true :=
  ⟨sampleWorld, sample_reach, by decide⟩

theorem certain_of_independent_sample : ∃ (W : Sample.World) (e : Entry plainDeployment sampleInit)
    (older : List (Entry plainDeployment sampleInit)) (record : MemoryRecord) (x : Candidate),
    W.log = [] ++ e :: older ∧ Learns e.call.op record ∧ RestsOn record x.evidence ∧
      (Independent x.evidence ↔ ¬ Borrows x.evidence) := by
  obtain ⟨W, hreach, hlearned⟩ := sample_learned
  obtain ⟨e, older, record, hsplit, hlearns⟩ := learned_learns hlearned
  obtain ⟨x, -, hrests, hiff⟩ := (certain_of_independent plainDeployment sampleInit).2.2 W hreach []
    e older hsplit record hlearns
  exact ⟨W, e, older, record, x, hsplit, hlearns, hrests, hiff⟩

/-- Two conversations of one afternoon, and a turn without a conversation the next day. -/
def borrowed : List Evidence := [afternoon "a" 50000, afternoon "b" 60000, afternoon "" 90000]

/-- Such a statement is adopted as if two days had shown it. -/
theorem borrowed_day_adopts :
    2 ≤ (sampleCandidate borrowed).independentConversations ∧ ¬ Independent borrowed ∧
      (Adaptive.finalDecision plainDeployment sampleProposal sampleTurn (sampleCandidate borrowed)
        false false none ⟨.gather, .personal, .none, ""⟩).action = .adopt := by
  decide

end Solvio.Memory.Certainty
