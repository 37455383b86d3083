import Solvio.Memory.Pipeline

namespace Solvio.Memory
open Solvio.Lib

/-- Reads of the canonical store, and whatever concerns the index only. -/
structure Derived (P : Op → Prop) : Prop where
  reads : ∀ actor c, MemoryCall.Reads c → P (.memory actor c)
  index : ∀ c, P (.index c)
  indexOpen : P .indexOpen
  embed : ∀ texts, P (.embed texts)

section asked
variable {P : Op → Prop}

namespace Task

theorem memory_asks {α : Type} {actor : Actor} {c : MemoryCall} {f : Reply → Option α}
    (h : P (.memory actor c)) : (memory actor c f).Asks P := by
  refine ⟨h, fun r => ?_⟩
  cases r with
  | error e => trivial
  | ok r =>
    dsimp only
    cases f r <;> trivial

theorem candidates_asks {α : Type} {actor : Actor} {c : CandidateCall}
    {f : CandidateReply → Option α} (h : P (.candidates actor c)) :
    (candidates actor c f).Asks P := by
  refine ⟨h, fun r => ?_⟩
  cases r with
  | error e => trivial
  | ok r =>
    dsimp only
    cases f r <;> trivial

theorem get_asks (d : Derived P) (actor : Actor) (id : String) : (get actor id).Asks P :=
  memory_asks (d.reads actor (.get id) trivial)

theorem visible_asks (d : Derived P) (actor : Actor) (id : String) :
    (getVisible actor id).Asks P :=
  memory_asks (d.reads actor (.getVisible id) trivial)

theorem search_asks (d : Derived P) (actor : Actor) (query : String) (limit : Nat) :
    (search actor query limit).Asks P :=
  memory_asks (d.reads actor (.search query limit) trivial)

theorem active_records_asks (d : Derived P) (actor : Actor) : (activeRecords actor).Asks P :=
  memory_asks (d.reads actor .activeRecords trivial)

theorem active_ids_asks (d : Derived P) (actor : Actor) : (activeIds actor).Asks P :=
  memory_asks (d.reads actor .activeIds trivial)

theorem embed_asks {texts : List String} (h : P (.embed texts)) : (embed texts).Asks P := by
  refine ⟨h, fun r => ?_⟩
  cases r <;> trivial

theorem embed_one_asks {text : String} (h : P (.embed [text])) : (embedOne text).Asks P := by
  refine (embed_asks h).bind (fun vectors => ?_)
  cases vectors <;> trivial

theorem content_hash_asks {id profile : String} (h : P (.index (.contentHashOf id profile))) :
    (contentHashOf id profile).Asks P := ⟨h, fun _ => trivial⟩

theorem ids_asks {profile : String} (h : P (.index (.idsForProfile profile))) :
    (idsForProfile profile).Asks P := by
  refine ⟨h, fun r => ?_⟩
  cases r <;> trivial

end Task

namespace Semantic
variable {E : Deployment} {actor : Actor} (d : Derived P)
include d

theorem index_one_asks (record : MemoryRecord) : (indexOne E record).Asks P := by
  refine (Prog.Asks.request d.indexOpen).bind (fun isOpen => ?_)
  cases isOpen with
  | false => trivial
  | true =>
    refine (Prog.Asks.attempt ?_).bind (fun _ => trivial)
    refine (Task.content_hash_asks (d.index _)).bind (fun current => ?_)
    split
    · trivial
    · refine (Task.embed_one_asks (d.embed _)).bind (fun vector => ?_)
      exact (Prog.Asks.request (d.index _)).bind (fun _ => trivial)

theorem drop_vectors_asks (id : String) (profile : Option String) :
    (dropVectors id profile).Asks P := by
  refine (Prog.Asks.request d.indexOpen).bind (fun isOpen => ?_)
  cases isOpen with
  | false => trivial
  | true => exact (Prog.Asks.request (d.index _)).bind (fun _ => trivial)

theorem remember_asks {record : MemoryRecord} (h : P (.memory actor (.remember record))) :
    (remember E actor record).Asks P := by
  refine (Task.memory_asks h).bind (fun id => ?_)
  refine (Task.get_asks d actor id).bind (fun stored => ?_)
  cases stored with
  | none => trivial
  | some stored => exact (index_one_asks d stored).bind (fun _ => trivial)

theorem update_asks {id : String} {changes : List Change}
    (h : P (.memory actor (.update id changes))) : (update E actor id changes).Asks P :=
  (Task.memory_asks h).bind (fun record => (index_one_asks d record).bind (fun _ => trivial))

theorem supersede_asks {oldId : String} {new : MemoryRecord}
    (h : P (.memory actor (.supersede oldId new))) : (supersede E actor oldId new).Asks P :=
  (Task.memory_asks h).bind (fun record => (drop_vectors_asks d ..).bind (fun _ =>
    (index_one_asks d record).bind (fun _ => trivial)))

theorem forget_asks {id reason : String} (h : P (.memory actor (.forget id reason)))
    (hnote : P (.note (.returned id))) : (forget actor id reason).Asks P :=
  (Task.memory_asks h).bind (fun _ => (drop_vectors_asks d ..).bind (fun _ =>
    (Prog.Asks.request hnote).bind (fun _ => trivial)))

theorem purge_asks {id : String} (h : P (.memory actor (.purge id)))
    (hnote : P (.note (.returned id))) : (purge actor id).Asks P :=
  (Task.memory_asks h).bind (fun _ => (drop_vectors_asks d ..).bind (fun _ =>
    (Prog.Asks.request hnote).bind (fun _ => trivial)))

/-! Search. -/

theorem embed_query_asks (query : String) : (embedQuery query).Asks P := by
  refine (Prog.Asks.request d.indexOpen).bind (fun isOpen => ?_)
  cases isOpen with
  | false => trivial
  | true => exact (Task.embed_one_asks (d.embed _)).attempt

theorem semantic_hits_asks (query : String) (k : Nat) (qvec : Option Vector) :
    (semanticHits E query k qvec).Asks P := by
  have hrest : ∀ q, (searchHits E k q).Asks P := by
    intro q
    cases q with
    | none => trivial
    | some v =>
      refine (Prog.Asks.request d.indexOpen).bind (fun isOpen => ?_)
      cases isOpen with
      | false => trivial
      | true =>
        refine (Prog.Asks.request (d.index _)).bind (fun r => ?_)
        cases r <;> trivial
  cases qvec with
  | none => exact (embed_query_asks d query).bind hrest
  | some v => exact hrest (some v)

theorem visible_map_asks (ids : List String) : (visibleMap actor ids).Asks P := by
  refine Prog.Asks.foldlM (fun out id => ?_)
  split
  · trivial
  · refine (Task.visible_asks d actor id).bind (fun r => ?_)
    cases r <;> trivial

theorem hybrid_ranked_asks (query : String) : (hybridRanked E actor query).Asks P :=
  (embed_query_asks d query).bind (fun q => (semantic_hits_asks d query 50 q).bind (fun _ =>
    (Task.search_asks d actor query 50).bind (fun _ =>
      (visible_map_asks d _).bind (fun _ => trivial))))

theorem hybrid_recall_asks (query : String) (limit : Nat) :
    (hybridRecall E actor query limit).Asks P :=
  (hybrid_ranked_asks d query).bind (fun _ => trivial)

/-! Maintenance. -/

theorem pending_asks (records : List MemoryRecord) : (pending E records).Asks P := by
  induction records with
  | nil => trivial
  | cons record records ih =>
    refine (Task.content_hash_asks (d.index _)).bind (fun current => ih.bind (fun rest => ?_))
    split <;> trivial

theorem upsert_all_asks (ps : List (Pending × Vector)) : (upsertAll E ps).Asks P := by
  induction ps with
  | nil => trivial
  | cons p ps ih => exact (Prog.Asks.request (d.index _)).bind (fun _ => ih)

theorem embed_batches_asks (chunks : List (List Pending)) : (embedBatches E chunks).Asks P := by
  induction chunks with
  | nil => trivial
  | cons chunk chunks ih =>
    exact (Task.embed_asks (d.embed _)).bind (fun vectors =>
      (upsert_all_asks d _).bind (fun _ => ih))

theorem reconcile_asks : (reconcile E actor).Asks P := by
  refine (Prog.Asks.request d.indexOpen).bind (fun isOpen => ?_)
  cases isOpen with
  | false => trivial
  | true =>
    exact (Task.active_ids_asks d actor).bind (fun active =>
      (Task.ids_asks (d.index _)).bind (fun indexed =>
        (Prog.Asks.request (d.index _)).bind (fun _ => trivial)))

/-- What `rebuild` does as soon as the index is open. -/
theorem refill_asks : ((do
    reconcile E actor
    let records ← Task.activeRecords actor
    let pending ← pending E records
    embedBatches E (batches 64 pending.length pending)
    let _ ← Task.index (.setActiveProfile E.profile)
    pure ()) : Task Unit).Asks P :=
  (reconcile_asks d).bind (fun _ => (Task.active_records_asks d actor).bind (fun records =>
    (pending_asks d records).bind (fun _ => (embed_batches_asks d _).bind (fun _ =>
      (Prog.Asks.request (d.index _)).bind (fun _ => trivial)))))

theorem rebuild_asks (hopen : P .openIndex) : (rebuild E actor).Asks P := by
  refine (Prog.Asks.request d.indexOpen).bind (fun isOpen => ?_)
  cases isOpen with
  | true => exact refill_asks d
  | false =>
    refine (Prog.Asks.request hopen).bind (fun isOpen => ?_)
    cases isOpen with
    | true => exact refill_asks d
    | false => trivial

end Semantic

end asked

/-! ### Safe requests -/

section safe
variable {E : Deployment} {init : State} {permits : (runtime E init).Discipline} {task : Nat}
  {α : Type} {log : List (Entry E init)} {Q : List (Entry E init) → α → Prop}

/-- A call into the store is safe that is permitted whatever the others do, if
what it answers has `Q`. -/
theorem Task.memory_safe {actor : Actor} {c : MemoryCall} {f : Reply → Option α}
    (h : ∀ log' s, (runtime E init).machine.Run permits log' s → Shared.Later task log log' →
      ∀ i, permits log' ⟨task, .memory actor c, i⟩ ∧
        ∀ r a, ((c.call (E.uuid s.drawn) i).perform E.backend s.memory).reply = .ok r →
          f r = some a → Q (⟨s, ⟨task, .memory actor c, i⟩⟩ :: log') a) :
    Shared.Safe (w := runtime E init) permits task (Task.memory actor c f) log Q := by
  intro log' s hrun hlater i
  obtain ⟨hpermit, hnext⟩ := h log' s hrun hlater i
  refine ⟨hpermit, ?_⟩
  generalize hr : ((runtime E init).step (.memory actor c) i s).1 = r
  cases r with
  | error e => trivial
  | ok r =>
    change Shared.Safe (w := runtime E init) permits task ((f r).elim .fail .ret) _ Q
    cases hf : f r with
    | none => trivial
    | some a => exact hnext r a hr hf

/-- The same of a call into the store of the candidates. -/
theorem Task.candidates_safe {actor : Actor} {c : CandidateCall} {f : CandidateReply → Option α}
    (h : ∀ log' s, (runtime E init).machine.Run permits log' s → Shared.Later task log log' →
      ∀ i, permits log' ⟨task, .candidates actor c, i⟩ ∧
        ∀ r a, (s.callCandidates E c).1 = .ok r → f r = some a →
          Q (⟨s, ⟨task, .candidates actor c, i⟩⟩ :: log') a) :
    Shared.Safe (w := runtime E init) permits task (Task.candidates actor c f) log Q := by
  intro log' s hrun hlater i
  obtain ⟨hpermit, hnext⟩ := h log' s hrun hlater i
  refine ⟨hpermit, ?_⟩
  generalize hr : ((runtime E init).step (.candidates actor c) i s).1 = r
  cases r with
  | error e => trivial
  | ok r =>
    change Shared.Safe (w := runtime E init) permits task ((f r).elim .fail .ret) _ Q
    cases hf : f r with
    | none => trivial
    | some a => exact hnext r a hr hf

end safe

/-! ### What the callers ask -/

/-- Every request of the programs that run in the process, by whom they act for. -/
inductive Asked (E : Deployment) : Actor → Op → Prop
  | read (side actor : Actor) (c : MemoryCall) : c.Reads → Asked E side (.memory actor c)
  | index (side : Actor) (c : IndexCall) : Asked E side (.index c)
  | indexOpen (side : Actor) : Asked E side .indexOpen
  | openIndex (side : Actor) : Asked E side .openIndex
  | embed (side : Actor) (texts : List String) : Asked E side (.embed texts)
  | flags (side : Actor) (c : FlagCall) : Asked E side (.flags c)
  | candidates (side : Actor) (c : CandidateCall) : Asked E side (.candidates side c)
  | note (side : Actor) (m : Mark) : Asked E side (.note m)
  | propose (turn : OwnerTurn) (context : String) : turn.isEligible = true →
    E.texts.looksLikeSecret turn.text = false → Asked E .automatic (.propose turn context)
  | remembered (content : String) (intent : Intent) (now : Int) :
    Asked E .user (.memory .user (.remember (Service.buildRecord E content intent now)))
  | replaced (oldId content : String) (intent : Intent) (now : Int) :
    Asked E .user (.memory .user (.supersede oldId (Service.buildRecord E content intent now)))
  | adopted (c : Candidate) (proposal : Proposal) (decision : Decision) (moment : Int) :
    Asked E .automatic
      (.memory .automatic (.remember (Adaptive.build c proposal decision moment)))
  | relearned (target : String) (c : Candidate) (proposal : Proposal) (decision : Decision)
    (moment : Int) : Asked E .automatic (.memory .automatic (.supersede target
      (Adaptive.replacing target (Adaptive.build c proposal decision moment))))
  | reinforced (id conversationId note : String) (moment : Int) : Asked E .automatic
    (.memory .automatic (.reinforce id (Adaptive.observation conversationId moment note)))
  | confirmed (c : Candidate) (via : String) (moment : Int) :
    Asked E .user (.memory .user (.remember (Adaptive.confirmation c via moment)))
  | settled (c : Candidate) (via : String) (moment : Int) :
    Asked E .user (.memory .user (.supersede c.contestedMemoryId
      { Adaptive.confirmation c via moment with supersedes := some c.contestedMemoryId }))
  | corrected (old : MemoryRecord) (memoryId statement : String) (now : Int) :
    Asked E .user (.memory .user (.supersede memoryId
      (Capabilities.correction old memoryId statement now)))
  | forgotten (id reason : String) : Asked E .user (.memory .user (.forget id reason))
  | purged (id : String) : Asked E .user (.memory .user (.purge id))

theorem asked_derived (E : Deployment) (side : Actor) : Derived (Asked E side) where
  reads actor c h := .read side actor c h
  index c := .index side c
  indexOpen := .indexOpen side
  embed texts := .embed side texts

namespace Service
variable (E : Deployment) {P : Op → Prop}

/-- What `remember` may ask. -/
structure Serves (P : Op → Prop) : Prop extends Derived P where
  openIndex : P .openIndex
  flags : ∀ c, P (.flags c)
  remembered : ∀ content intent now, P (.memory .user (.remember (buildRecord E content intent now)))
  replaced : ∀ oldId content intent now,
    P (.memory .user (.supersede oldId (buildRecord E content intent now)))

theorem asked_serves : Serves E (Asked E .user) where
  toDerived := asked_derived E .user
  openIndex := .openIndex _
  flags c := .flags _ c
  remembered _ _ _ := .remembered ..
  replaced _ _ _ _ := .replaced ..

section
variable {E} (h : Serves E P)
include h

theorem set_flags_asks (c : FlagCall) : (Task.flags c).Asks P := .request (h.flags c)

theorem check_index_asks : (checkIndexConsistency E).Asks P := by
  refine (Prog.Asks.request h.indexOpen).bind (fun isOpen => ?_)
  cases isOpen with
  | false => trivial
  | true =>
    refine Prog.Asks.bind (Prog.Asks.attempt ?_) (fun seen => ?_)
    · exact (Task.active_ids_asks h.toDerived .user).bind (fun active =>
        (Task.ids_asks (h.index _)).bind (fun _ => trivial))
    · cases seen <;> trivial

theorem check_once_asks : (checkOnce E).Asks P := by
  refine (set_flags_asks h _).bind (fun flags => ?_)
  split
  · refine (set_flags_asks h _).bind (fun _ => (check_index_asks h).bind (fun ok => ?_))
    cases ok with
    | true => trivial
    | false => exact (set_flags_asks h _).bind (fun _ => (set_flags_asks h _).bind (fun _ => trivial))
  · trivial

theorem recheck_asks : (recheck E).Asks P := by
  refine (set_flags_asks h _).bind (fun _ => (check_index_asks h).bind (fun ok => ?_))
  refine (set_flags_asks h _).bind (fun _ => ?_)
  cases ok with
  | true => trivial
  | false => exact (set_flags_asks h _).bind (fun _ => trivial)

theorem ensure_index_asks : (ensureIndex E).Asks P := by
  refine (check_once_asks h).bind (fun _ => (set_flags_asks h _).bind (fun flags => ?_))
  split
  · refine (Prog.Asks.attempt (Semantic.rebuild_asks h.toDerived h.openIndex)).bind
      (fun done => ?_)
    cases done with
    | none => exact (set_flags_asks h _).bind (fun _ => trivial)
    | some u => exact recheck_asks h
  · trivial

theorem note_indexed_asks (id : String) : (noteIndexed E id).Asks P := by
  refine Prog.Asks.bind ?_ (fun indexed => ?_)
  · refine (Prog.Asks.request h.indexOpen).bind (fun isOpen => ?_)
    cases isOpen with
    | false => trivial
    | true => exact (Task.content_hash_asks (h.index _)).bind (fun _ => trivial)
  · cases indexed with
    | true => trivial
    | false => exact (set_flags_asks h _).bind (fun _ => (set_flags_asks h _).bind (fun _ => trivial))

theorem store_asks (content : String) (intent : Intent) (now : Int)
    (target : Option MemoryRecord) : (store E (buildRecord E content intent now) target).Asks P := by
  cases target with
  | some old =>
    exact (Semantic.supersede_asks h.toDerived (h.replaced ..)).bind (fun new =>
      (note_indexed_asks h new.id).bind (fun _ => trivial))
  | none =>
    exact (Semantic.remember_asks h.toDerived (h.remembered ..)).bind (fun id =>
      (note_indexed_asks h id).bind (fun _ => trivial))

theorem settle_asks (content : String) (intent : Intent) (now : Int)
    (found : List MemoryRecord) : (settle E content intent now found).Asks P := by
  unfold settle
  split
  · trivial
  · have hend : ∀ target, (settleOn E content intent now found target).Asks P := by
      intro target
      unfold settleOn
      split
      · trivial
      · exact (Prog.Asks.attempt (store_asks h content intent now _)).bind (fun _ => trivial)
    dsimp only
    split
    · exact (Prog.Asks.attempt (Semantic.semantic_hits_asks h.toDerived ..)).bind
        (fun scores => hend _)
    · exact hend .none

theorem remember_asks (intent : Intent) (now : Int) : (remember E intent now).Asks P := by
  unfold remember
  simp only
  split
  · trivial
  · refine (ensure_index_asks h).bind (fun _ => ?_)
    split
    · trivial
    · exact (Prog.Asks.attempt (Semantic.hybrid_recall_asks h.toDerived _ 5)).bind
        (fun found => settle_asks h _ intent now _)

end

end Service

namespace Adaptive
variable (E : Deployment) {P : Op → Prop}

theorem transition_asks (actor : Actor) (id : String) (target : CandidateState)
    (move : CandidateStore.Move) (now : Int) :
    (Task.transition actor id target move now).Asks (Asked E actor) :=
  Task.candidates_asks (.candidates ..)

theorem canonical_twin_asks (d : Derived P) (statement : String) :
    (canonicalTwin E statement).Asks P := by
  refine (Prog.Asks.attempt (Semantic.hybrid_recall_asks d statement 8)).bind (fun hits => ?_)
  cases hits <;> trivial

theorem close_twin_asks {key : String} {moment : Int} (twin : MemoryRecord)
    (hkey : P (.candidates .automatic (.openByKey key)))
    (hclose : ∀ id move, P (.candidates .automatic (.transition id .adopted move moment))) :
    (closeTwin key twin moment).Asks P := by
  refine Prog.Asks.bind (Task.candidates_asks hkey) (fun c => ?_)
  cases c with
  | none => trivial
  | some c =>
    exact (Prog.Asks.attempt (Task.candidates_asks (hclose c.id _))).bind (fun _ => trivial)

theorem reinforce_existing_asks (d : Derived P) {key : String} {moment : Int}
    (hkey : P (.candidates .automatic (.openByKey key)))
    (hclose : ∀ id move, P (.candidates .automatic (.transition id .adopted move moment)))
    (hreinforce : ∀ id conversationId note,
      P (.memory .automatic (.reinforce id (observation conversationId moment note))))
    (proposal : Proposal) (turn : OwnerTurn) :
    (reinforceExisting E proposal turn key moment).Asks P := by
  refine (canonical_twin_asks E d proposal.statement).bind (fun twin => ?_)
  cases twin with
  | none => trivial
  | some twin =>
    refine (close_twin_asks twin hkey hclose).bind (fun _ => ?_)
    split
    · exact (Prog.Asks.attempt (Task.memory_asks (hreinforce ..))).bind (fun _ => trivial)
    · trivial

theorem find_conflict_asks (d : Derived P) (proposal : Proposal) (turn : OwnerTurn) :
    (findConflict E proposal turn).Asks P := by
  unfold findConflict
  split
  · refine (Prog.Asks.attempt (Semantic.hybrid_recall_asks d proposal.statement 8)).bind
      (fun hits => ?_)
    cases hits with
    | none => trivial
    | some hits =>
      refine (Prog.Asks.attempt (Semantic.semantic_hits_asks d ..)).bind (fun scores => ?_)
      split <;> trivial
  · trivial

theorem observe_asks {c : Candidate} {evidence : Evidence} {moment : Int}
    (h : P (.candidates .automatic (.observe c evidence moment))) :
    (observe c evidence moment).Asks P := by
  refine ⟨h, fun r => ?_⟩
  dsimp only
  split <;> trivial

theorem write_adopted_asks (d : Derived P) {record : MemoryRecord}
    (hadopt : P (.memory .automatic (.remember record))) (target : String)
    (hrelearn : P (.memory .automatic (.supersede target (replacing target record)))) :
    (writeAdopted E record target).Asks P := by
  unfold writeAdopted
  split
  · exact (Semantic.remember_asks d hadopt).bind (fun _ => trivial)
  · refine (Task.get_asks d .automatic target).bind (fun existing => ?_)
    cases existing with
    | none => trivial
    | some existing =>
      dsimp only
      split
      · exact (Semantic.supersede_asks d hrelearn).bind (fun _ => trivial)
      · trivial

/-- What the handling of a proposal may ask behind its first decision. -/
structure Pursues (P : Op → Prop) (proposal : Proposal) (key : String) (moment : Int) : Prop
    extends Derived P where
  lookup : P (.candidates .automatic (.openByKey key))
  observe : ∀ c evidence, c.dedupKey = key →
    P (.candidates .automatic (.observe c evidence moment))
  move : ∀ id target m, P (.candidates .automatic (.transition id target m moment))
  decided : ∀ action, P (.note (.decided key action))
  reinforce : ∀ id conversationId note,
    P (.memory .automatic (.reinforce id (observation conversationId moment note)))
  adopt : ∀ c decision, P (.memory .automatic (.remember (build c proposal decision moment)))
  relearn : ∀ target c decision, P (.memory .automatic
    (.supersede target (replacing target (build c proposal decision moment))))

theorem asked_pursues (proposal : Proposal) (key : String) (moment : Int) :
    Pursues (Asked E .automatic) proposal key moment where
  toDerived := asked_derived E .automatic
  lookup := .candidates ..
  observe _ _ _ := .candidates ..
  move _ _ _ := .candidates ..
  decided _ := .note ..
  reinforce _ _ _ := .reinforced ..
  adopt _ _ := .adopted ..
  relearn _ _ _ := .relearned ..

theorem settle_asks {proposal : Proposal} {key : String} {moment : Int}
    (h : Pursues P proposal key moment) (c : Candidate) (decision : Decision) :
    (settle E c proposal decision moment).Asks P := by
  unfold settle
  split
  · refine (Prog.Asks.attempt (write_adopted_asks E h.toDerived (h.adopt ..) _
      (h.relearn ..))).bind (fun done => ?_)
    split
    · exact Task.candidates_asks (h.move ..)
    · trivial
  · exact Task.candidates_asks (h.move ..)
  · exact Task.candidates_asks (h.move ..)
  · trivial

theorem pursue_asks {proposal : Proposal} {key : String} {moment : Int}
    (h : Pursues P proposal key moment) (turn : OwnerTurn) (suppressed secret : Bool)
    (conflict : Option Conflict) (decision : Decision) :
    (pursue E proposal turn key suppressed secret conflict decision moment).Asks P := by
  have hend : ∀ known, (pursueOn E proposal turn key suppressed secret conflict decision moment
      known).Asks P := by
    intro known
    unfold pursueOn
    split
    · trivial
    · refine (observe_asks (h.observe _ _ rfl)).bind (fun c => ?_)
      cases c with
      | none => trivial
      | some c =>
        exact (Prog.Asks.request (h.decided _)).bind (fun _ => settle_asks E h c _)
  rw [pursue_eq]
  split
  · exact (reinforce_existing_asks E h.toDerived h.lookup (fun _ _ => h.move ..) h.reinforce
      proposal turn).bind hend
  · exact hend false

theorem handle_asks (turn : OwnerTurn) (moment : Int) (proposal : Proposal) :
    (handle E turn moment proposal).Asks (Asked E .automatic) := by
  refine (Prog.Asks.request (.note _ _)).bind (fun _ => Prog.Asks.bind (Prog.Asks.attempt ?_)
    (fun done => (Prog.Asks.request (.note _ _)).bind (fun _ => ?_)))
  · exact Prog.Asks.bind (Task.candidates_asks (.candidates ..)) (fun suppressed =>
      (find_conflict_asks E (asked_derived E .automatic) proposal turn).bind (fun conflict =>
        pursue_asks E (asked_pursues E ..) turn _ _ _ _))
  · cases done <;> trivial

theorem handle_all_asks (turn : OwnerTurn) (moment : Int) (proposals : List Proposal) :
    (handleAll E turn moment proposals).Asks (Asked E .automatic) := by
  induction proposals with
  | nil => trivial
  | cons p ps ih => exact (handle_asks E turn moment p).bind (fun _ => ih)

theorem process_asks (turn : OwnerTurn) (context : String) (moment : Int) :
    (process E turn context moment).Asks (Asked E .automatic) := by
  unfold process
  split
  · trivial
  · rename_i hturn
    simp only [Bool.or_eq_true, Bool.not_eq_true', not_or, Bool.not_eq_true] at hturn
    refine (Prog.Asks.request (.propose turn context (by simpa using hturn.1) hturn.2)).bind
      (fun proposals => ?_)
    cases proposals with
    | none => trivial
    | some proposals => exact handle_all_asks E turn moment proposals

theorem revocation_asks {key : Option String} {body : Task Bool} (h : body.Asks (Asked E .user)) :
    (revocation key body).Asks (Asked E .user) := by
  cases key with
  | none => exact h
  | some key =>
    refine (Prog.Asks.request (.note _ _)).bind (fun _ => h.attempt.bind (fun done =>
      (Prog.Asks.request (.note _ _)).bind (fun _ => ?_)))
    cases done <;> trivial

theorem confirm_asks (d : Derived P) (hcand : ∀ c, P (.candidates .user c))
    (hconfirm : ∀ c via moment, P (.memory .user (.remember (confirmation c via moment))))
    (hsettle : ∀ c via moment, P (.memory .user (.supersede c.contestedMemoryId
      { confirmation c via moment with supersedes := some c.contestedMemoryId })))
    (candidateId via : String) (moment : Int) :
    (confirmCandidate E candidateId via moment).Asks P := by
  refine Prog.Asks.bind (Task.candidates_asks (hcand _)) (fun c => ?_)
  cases c with
  | none => trivial
  | some c =>
    dsimp only
    split
    · refine Prog.Asks.bind (Prog.Asks.attempt ?_) (fun id => ?_)
      · unfold writeConfirmed
        simp only
        split
        · exact Semantic.remember_asks d (hconfirm ..)
        · exact (Semantic.supersede_asks d (hsettle ..)).bind (fun _ => trivial)
      · cases id with
        | none => trivial
        | some id =>
          exact Prog.Asks.bind (Task.candidates_asks (hcand _)) (fun _ =>
            Prog.Asks.bind (Task.candidates_asks (hcand _)) (fun _ => trivial))
    · trivial

theorem decline_asks (candidateId : String) (moment : Int) :
    (declineCandidate candidateId moment).Asks (Asked E .user) := by
  refine Prog.Asks.bind (Task.candidates_asks (.candidates ..)) (fun c => ?_)
  cases c with
  | none => trivial
  | some c =>
    dsimp only
    split
    · exact revocation_asks E ((transition_asks E ..).bind (fun _ =>
        Prog.Asks.bind (Task.candidates_asks (.candidates ..)) (fun _ => trivial)))
    · trivial

theorem note_forgotten_asks (d : Derived P)
    (hsuppress : ∀ key reason now, P (.candidates .user (.suppress key reason now)))
    (memoryId content : String) (moment : Int) :
    (noteForgotten E memoryId content moment).Asks P := by
  have hend : ∀ text : String, (if text = "" then pure ()
      else Task.suppress .user (E.texts.dedupKey text) .forgotten moment : Task Unit).Asks P := by
    intro text
    split
    · trivial
    · exact Task.candidates_asks (hsuppress ..)
  unfold noteForgotten
  split
  · exact hend content
  · exact (Prog.Asks.attempt (Task.get_asks d .user memoryId)).bind (fun record => hend _)

end Adaptive

namespace Capabilities
variable (E : Deployment)

theorem correct_asks (memoryId statement : String) (now : Int) :
    (correct E memoryId statement now).Asks (Asked E .user) := by
  have d := asked_derived E .user
  refine (Task.get_asks d .user memoryId).bind (fun old => ?_)
  cases old with
  | none => trivial
  | some old =>
    dsimp only
    split
    · trivial
    · exact Adaptive.revocation_asks E ((Semantic.supersede_asks d (.corrected ..)).bind
        (fun _ => (Adaptive.note_forgotten_asks E (asked_derived E .user)
        (fun _ _ _ => .candidates ..) ..).bind (fun _ => trivial)))

theorem take_back_asks (memoryId : String) (now : Int) {remove : Task Bool}
    (h : remove.Asks (Asked E .user)) : (takeBack E memoryId now remove).Asks (Asked E .user) := by
  refine (Task.get_asks (asked_derived E .user) .user memoryId).bind (fun record => ?_)
  refine Adaptive.revocation_asks E (h.bind (fun ok => ?_))
  cases ok with
  | false => trivial
  | true => exact (Adaptive.note_forgotten_asks E (asked_derived E .user)
        (fun _ _ _ => .candidates ..) ..).bind (fun _ => trivial)

end Capabilities

/-- What runs in the process handles a turn, is the maintenance, or asks what
the user may. -/
theorem launched_cases {E : Deployment} {p : Task Unit} (h : Launched E p) :
    (∃ turn context moment, p = Adaptive.process E turn context moment) ∨
      (∃ moment, p = Adaptive.maintenance moment) ∨ p.Asks (Asked E .user) := by
  have d := asked_derived E .user
  cases h with
  | observed enabled turn context moment =>
    unfold Adaptive.observeTurn
    split
    · exact .inl ⟨turn, context, moment, rfl⟩
    · exact .inr (.inr trivial)
  | processed turn context moment => exact .inl ⟨turn, context, moment, rfl⟩
  | maintained moment => exact .inr (.inl ⟨moment, rfl⟩)
  | remembered intent now =>
    exact .inr (.inr ((Service.remember_asks (Service.asked_serves E) intent now).bind
      (fun _ => trivial)))
  | confirmed id via moment =>
    exact .inr (.inr ((Adaptive.confirm_asks E d (fun c => .candidates .user c) .confirmed .settled
      id via moment).bind (fun _ => trivial)))
  | declined id moment =>
    exact .inr (.inr ((Adaptive.decline_asks E id moment).bind (fun _ => trivial)))
  | corrected id statement now =>
    exact .inr (.inr ((Capabilities.correct_asks E id statement now).bind (fun _ => trivial)))
  | forgotten id now =>
    exact .inr (.inr ((Capabilities.take_back_asks E id now
      (Semantic.forget_asks d (.forgotten ..) (.note ..))).bind (fun _ => trivial)))
  | purged id now =>
    exact .inr (.inr ((Capabilities.take_back_asks E id now
      (Semantic.purge_asks d (.purged ..) (.note ..))).bind (fun _ => trivial)))

/-- The programs of the process ask nothing else. -/
theorem launched_asks {E : Deployment} {p : Task Unit} (h : Launched E p) :
    ∃ side, p.Asks (Asked E side) := by
  rcases launched_cases h with ⟨turn, context, moment, rfl⟩ | ⟨moment, rfl⟩ | hasks
  · exact ⟨_, Adaptive.process_asks E turn context moment⟩
  · exact ⟨_, Task.candidates_asks (.candidates ..)⟩
  · exact ⟨_, hasks⟩

end Solvio.Memory
