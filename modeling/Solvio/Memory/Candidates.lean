import Solvio.Memory.Records

namespace Solvio.Memory
open Solvio.Lib

inductive CandidateState where
  | gathering | askPending | contested | adopted | declined | expired
deriving DecidableEq

namespace CandidateState

/-- `OPEN_STATES`. -/
def isOpen : CandidateState → Bool
  | gathering | askPending | contested => true
  | _ => false

/-- What only the human decides. -/
def waits : CandidateState → Bool
  | askPending | contested => true
  | _ => false

/-- `ALLOWED`. -/
def allowed : CandidateState → List CandidateState
  | gathering => [gathering, adopted, askPending, contested, expired]
  | askPending => [adopted, declined, expired]
  | contested => [adopted, declined, expired]
  | adopted => []
  | declined => []
  | expired => []

end CandidateState

/-- How a proposal was come by. -/
inductive Kind where
  | stated | inferred
deriving DecidableEq

/-- Why the human is asked. -/
inductive AskReason where
  | none | sensitive | rule | contradiction | category
deriving DecidableEq

inductive SuppressReason where
  | declined | forgotten
deriving DecidableEq

structure Evidence where
  takenAt : Int
  kind : Kind
  conversationId : String := ""
  messageId : String := ""
  note : String := ""
deriving DecidableEq

/-- The date of an observation. -/
def Evidence.day (e : Evidence) : Int := e.takenAt / 86400

structure Candidate where
  id : String
  statement : String
  dedupKey : String
  kind : Kind
  memoryType : MemoryType
  subject : String
  sensitivity : Sensitivity
  state : CandidateState := .gathering
  askReason : AskReason := .none
  evidence : List Evidence := []
  firstSeen : Option Int := none
  lastSeen : Int := 0
  contestedMemoryId : String := ""
  adoptedMemoryId : String := ""
  askedAt : Option Int := none
  decidedAt : Option Int := none
  validUntil : Option Int := none
deriving DecidableEq

instance : Keyed Candidate String := ⟨Candidate.id⟩

/-- `independent_conversations`. -/
def Candidate.independentConversations (c : Candidate) : Nat :=
  let conversations := ((c.evidence.map Evidence.conversationId).filter (· ≠ "")).eraseDups
  let days := (c.evidence.map Evidence.day).eraseDups
  if conversations = [] then 0 else min conversations.length days.length

structure Suppression where
  dedupKey : String
  createdAt : Int
  reason : SuppressReason
deriving DecidableEq

instance : Keyed Suppression String := ⟨Suppression.dedupKey⟩

/-- `candidates.sqlite3`. -/
structure CandidateStore where
  candidates : Table Candidate
  suppressions : Table Suppression

def maxEvidence : Nat := 20
def maxOpenCandidates : Nat := 500
def gatherSeconds : Int := 90 * 86400
def askSeconds : Int := 30 * 86400

inductive CandidateFault where
  | budgetExhausted
  | unknownCandidate (id : String)
  | illegalTransition (source target : CandidateState)
  | integrity
deriving DecidableEq

namespace CandidateStore

variable (s : CandidateStore)

def empty : CandidateStore := ⟨.empty, .empty⟩

/-- `is_suppressed`. -/
def isSuppressed (key : String) : Bool := (s.suppressions.find? key).isSome

/-- `suppress`. -/
def suppress (key : String) (reason : SuppressReason) (now : Int) : CandidateStore :=
  { s with suppressions := s.suppressions.put ⟨key, now, reason⟩ }

/-- `unsuppress`. -/
def unsuppress (key : String) : CandidateStore :=
  { s with suppressions := s.suppressions.delete key }

/-- `open_by_key`. -/
def openByKey (key : String) : Option Candidate :=
  s.candidates.rows.find? (fun c => c.dedupKey = key && c.state.isOpen)

/-- `pending_decisions`. -/
def pendingDecisions : List Candidate := s.candidates.rows.filter (fun c => c.state.waits)

def rewritten (c a : Candidate) : Candidate :=
  { c with id := a.id, dedupKey := a.dedupKey, firstSeen := a.firstSeen }

/-- `_write_sync`, which sets neither the id nor the key nor the first date. -/
def write (c : Candidate) : CandidateStore :=
  { s with candidates := s.candidates.modify c.id (rewritten c) (fun _ => rfl) }

/-- An open candidate that is seen again. A turn does not count twice. -/
def seenAgain (c : Candidate) (evidence : Evidence) (now : Int) : Candidate :=
  { c with
    evidence :=
      if c.evidence.any (fun e => e.messageId ≠ "" && e.messageId = evidence.messageId) then
        c.evidence
      else (c.evidence ++ [evidence]).drop (c.evidence.length + 1 - maxEvidence)
    lastSeen := now }

/-- The row of a candidate that is seen for the first time. -/
def firstRow (c : Candidate) (evidence : Evidence) (now : Int) (uuid : String) : Candidate :=
  { c with
    id := if c.id = "" then uuid else c.id
    evidence := [evidence]
    firstSeen := some (c.firstSeen.getD now)
    lastSeen := now
    state := .gathering }

/-- `observe`: more evidence for the open candidate of the key, or a new one. -/
def observe (c : Candidate) (evidence : Evidence) (now : Int) (uuid : String) :
    Except CandidateFault (Candidate × CandidateStore) :=
  match s.openByKey c.dedupKey with
  | some existing =>
    let seen := seenAgain existing evidence now
    .ok (seen, s.write seen)
  | none =>
    if s.candidates.rows.countP (fun c => c.state.isOpen) ≥ maxOpenCandidates then
      .error .budgetExhausted
    else
      match s.candidates.insert? (firstRow c evidence now uuid) with
      | none => .error .integrity
      | some t => .ok (firstRow c evidence now uuid, { s with candidates := t })

/-- What a transition says beside its target. -/
structure Move where
  memoryId : String := ""
  contested : String := ""
  reason : AskReason := .none
deriving DecidableEq

/-- The candidate after a transition. -/
def moved (c : Candidate) (target : CandidateState) (m : Move) (now : Int) : Candidate :=
  let c := { c with state := target, lastSeen := now }
  match target with
  | .adopted => { c with
      adoptedMemoryId := if m.memoryId = "" then c.adoptedMemoryId else m.memoryId
      decidedAt := some now }
  | .declined | .expired => { c with decidedAt := some now }
  | .askPending | .contested => { c with
      askedAt := some now
      askReason := if m.reason = .none then c.askReason else m.reason
      contestedMemoryId := if m.contested = "" then c.contestedMemoryId else m.contested }
  | .gathering => c

/-- `transition`. -/
def transition (id : String) (target : CandidateState) (m : Move) (now : Int) :
    Except CandidateFault (Candidate × CandidateStore) :=
  match s.candidates.find? id with
  | none => .error (.unknownCandidate id)
  | some c =>
    if target ∈ c.state.allowed then .ok (moved c target m now, s.write (moved c target m now))
    else .error (.illegalTransition c.state target)

/-- A candidate that has waited long enough. -/
def due (now : Int) (c : Candidate) : Bool :=
  (c.state = .gathering && c.lastSeen < now - gatherSeconds) ||
    (c.state.waits && c.askedAt.any (· < now - askSeconds))

def expired (c : Candidate) (now : Int) : Candidate :=
  { c with state := .expired, decidedAt := some now }

/-- `expire_due`. -/
def expireDue (now : Int) : CandidateStore :=
  { s with candidates := s.candidates.update (due now) (expired · now) (fun _ => rfl) }

/-! ### What becomes of a candidate -/

variable {s : CandidateStore} {t : CandidateStore} {c x : Candidate} {evidence : Evidence}
  {now : Int} {uuid id : String} {target : CandidateState} {m : Move}

/-- A candidate later on: it has its key, it stays asked once it was, and it
waits only if it has been asked. -/
structure Succeeds (c c' : Candidate) : Prop where
  key : c'.dedupKey = c.dedupKey
  asked : c.askedAt.isSome → c'.askedAt.isSome
  waits : c'.state.waits = true → c'.askedAt.isSome ∨ c.state.waits = true

theorem Succeeds.refl (c : Candidate) : Succeeds c c := ⟨rfl, id, .inr⟩

theorem open_by_key {key : String} (h : s.openByKey key = some c) :
    s.candidates.find? c.id = some c ∧ c.dedupKey = key ∧ c.state.isOpen = true := by
  have hprops := List.find?_some h
  simp only [Bool.and_eq_true, decide_eq_true_eq] at hprops
  exact ⟨Table.find_of_mem (List.mem_of_find?_eq_some h), hprops⟩

theorem find_write (c : Candidate) (k : String) : (s.write c).candidates.find? k =
    if k = c.id then (s.candidates.find? c.id).map (rewritten c) else s.candidates.find? k :=
  Table.find_modify s.candidates c.id k (rewritten c) (fun _ => rfl)

/-- What `observe` answers is stored under its id and has the key; it was there
or is new. -/
theorem observe_found (h : s.observe c evidence now uuid = .ok (x, t)) :
    x.dedupKey = c.dedupKey ∧ ∀ k, t.candidates.find? k =
      if k = x.id then some x else s.candidates.find? k := by
  unfold observe at h
  split at h
  · rename_i existing hopen
    obtain ⟨hfind, hkey, -⟩ := open_by_key hopen
    cases h
    refine ⟨hkey, fun k => ?_⟩
    rw [find_write]
    have hid : (seenAgain existing evidence now).id = existing.id := rfl
    rw [hid, hfind]
    rfl
  · split at h
    · cases h
    · split at h
      · cases h
      · rename_i u hins
        cases h
        refine ⟨rfl, fun k => ?_⟩
        refine (Table.find_insert hins k).trans ?_
        change (if (firstRow c evidence now uuid).id = k then _ else _) = _
        by_cases hk : (firstRow c evidence now uuid).id = k
        · rw [if_pos hk, if_pos hk.symm]
        · rw [if_neg hk, if_neg (Ne.symm hk)]

/-- An answer of `observe` succeeds the row that was there, or is gathering. -/
theorem observe_succeeds (h : s.observe c evidence now uuid = .ok (x, t)) :
    (∃ y, s.candidates.find? x.id = some y ∧ Succeeds y x ∧ x.state = y.state) ∨
      (s.candidates.find? x.id = none ∧ x.state = .gathering) := by
  unfold observe at h
  split at h
  · rename_i existing hopen
    obtain ⟨hfind, -, -⟩ := open_by_key hopen
    cases h
    exact .inl ⟨existing, hfind, ⟨rfl, fun h => h, .inr⟩, rfl⟩
  · split at h
    · cases h
    · split at h
      · cases h
      · rename_i u hins
        cases h
        exact .inr ⟨(Table.insert_some hins).1, rfl⟩

theorem transition_found (h : s.transition id target m now = .ok (x, t)) :
    ∃ y, s.candidates.find? id = some y ∧ target ∈ y.state.allowed ∧ x = moved y target m now ∧
      ∀ k, t.candidates.find? k = if k = id then some x else s.candidates.find? k := by
  unfold transition at h
  split at h
  · cases h
  · rename_i y hy
    split at h
    · rename_i hallowed
      cases h
      refine ⟨y, hy, hallowed, rfl, fun k => ?_⟩
      have hid : (moved y target m now).id = id := by
        rw [← Table.key_of_find hy]
        cases target <;> rfl
      have hwritten : rewritten (moved y target m now) y = moved y target m now := by
        cases target <;> rfl
      rw [find_write, hid, hy, Option.map_some, hwritten]
    · cases h

theorem moved_succeeds (y : Candidate) (target : CandidateState) (m : Move) (now : Int) :
    Succeeds y (moved y target m now) := by
  cases target with
  | askPending => exact ⟨rfl, fun _ => rfl, fun _ => .inl rfl⟩
  | contested => exact ⟨rfl, fun _ => rfl, fun _ => .inl rfl⟩
  | _ => exact ⟨rfl, fun h => h, fun h => by cases h⟩

theorem moved_state (y : Candidate) (target : CandidateState) (m : Move) (now : Int) :
    (moved y target m now).state = target := by
  cases target <;> rfl

theorem find_expire (now : Int) (k : String) : (s.expireDue now).candidates.find? k =
    (s.candidates.find? k).map (fun c => if due now c then expired c now else c) :=
  Table.find_update s.candidates (due now) (expired · now) (fun _ => rfl) k

theorem expired_succeeds (y : Candidate) (now : Int) : Succeeds y (expired y now) :=
  ⟨rfl, fun h => h, fun h => by cases h⟩

/-! Neither a sighting nor a move touches what is refused. -/

theorem observe_suppressions (h : s.observe c evidence now uuid = .ok (x, t)) :
    t.suppressions = s.suppressions := by
  unfold observe at h
  split at h
  · cases h
    rfl
  · split at h
    · cases h
    · split at h
      · cases h
      · cases h
        rfl

theorem transition_suppressions (h : s.transition id target m now = .ok (x, t)) :
    t.suppressions = s.suppressions := by
  unfold transition at h
  split at h
  · cases h
  · split at h
    · cases h
      rfl
    · cases h

end CandidateStore

end Solvio.Memory
