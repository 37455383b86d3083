import Solvio.Lib.Programs
import Solvio.Memory.Fusion
import Solvio.Memory.Policy
import Solvio.Memory.SemanticIndex

namespace Solvio.Memory
open Solvio.Lib

/-- What `_supersede_target` answers: nothing fits, several do, or one of the
candidates does. -/
inductive Target where
  | none
  | ambiguous
  | pick (i : Nat)
deriving DecidableEq

/-- What the service is built on. -/
structure Deployment where
  backend : Backend
  texts : Texts
  rank : Ranking
  exactTokens : String → List String
  lower : String → String
  supersedeTarget : String → List MemoryRecord → List (String × Rat) → Target
  config : HybridConfig
  profile : String
  uuid : Nat → String

/-- `uuid4` names nothing twice. -/
structure Deployment.Fresh (E : Deployment) : Prop where
  injective : Function.Injective E.uuid
  nonempty : ∀ n, E.uuid n ≠ ""

/-- A deployment without word lists, in which a text is its own key and a search
finds the very text. -/
def plainDeployment : Deployment where
  backend := {
    hasFts := false
    credential := fun _ => false
    matched := fun _ _ => []
    like := fun rows query => (rows.filter (fun row => row.content = query)).map MemoryRow.id }
  texts := {
    looksLikeSecret := fun _ => false
    dedupKey := id
    subjectOf := fun _ => "user"
    ownerSelfAssertion := fun _ => true
    hasSupersessionMarker := fun _ => false
    lexicalSensitivity := fun _ => .personal
    isUseful := fun _ => true
    isPermissiveRule := fun _ => false }
  rank := fun vectors _ => vectors.map (fun v => (v.1, 1))
  exactTokens := fun _ => []
  lower := id
  supersedeTarget := fun _ found _ => if found = [] then .none else .pick 0
  config := {}
  profile := "local"
  uuid := fun n => String.ofList (List.replicate (n + 1) 'u')

theorem plain_fresh : plainDeployment.Fresh where
  injective n m h := by
    have hlen := congrArg List.length (String.ofList_injective h)
    simpa using hlen
  nonempty n h := by
    have hlen := congrArg (fun s => s.toList.length) h
    simp [plainDeployment] at hlen

/-- Whose step a write is. -/
inductive Actor where
  | automatic | user
deriving DecidableEq

/-- A call into the canonical store. -/
inductive MemoryCall where
  | remember (record : MemoryRecord)
  | get (id : String)
  | search (query : String) (limit : Nat)
  | update (id : String) (changes : List Change)
  | supersede (oldId : String) (new : MemoryRecord)
  | forget (id reason : String)
  | purge (id : String)
  | getVisible (id : String)
  | activeRecords
  | activeIds
  | reinforce (id : String) (entry : ProvenanceEntry)

/-- Calls that leave the canonical store as it is. -/
def MemoryCall.Reads : MemoryCall → Prop
  | .get _ | .search _ _ | .getVisible _ | .activeRecords | .activeIds => True
  | _ => False

inductive CandidateCall where
  | isSuppressed (key : String)
  | suppress (key : String) (reason : SuppressReason) (now : Int)
  | unsuppress (key : String)
  | get (id : String)
  | openByKey (key : String)
  | observe (candidate : Candidate) (evidence : Evidence) (now : Int)
  | transition (id : String) (target : CandidateState) (move : CandidateStore.Move) (now : Int)
  | expireDue (now : Int)

inductive CandidateReply where
  | done
  | told (b : Bool)
  | found (c : Option Candidate)

/-- The flags of `MemoryService` that say what its index is worth. -/
structure Flags where
  reindexPending : Bool := false
  indexIncomplete : Bool := false
  checkDue : Bool := true
deriving DecidableEq

inductive FlagCall where
  | read
  | setPending (b : Bool)
  | setIncomplete (b : Bool)
  | setCheckDue (b : Bool)

/-- Marks that the programs leave for the statements about them. -/
inductive Mark where
  | handling (key : String)
  | handled (key : String)
  | revoking (key : String)
  | revoked (key : String) (ok : Bool)
  | decided (key : String) (action : Act)
  | returned (id : String)

/-- One step between two awaits that anybody else can see. -/
inductive Op where
  | memory (actor : Actor) (call : MemoryCall)
  | index (call : IndexCall)
  | candidates (actor : Actor) (call : CandidateCall)
  | flags (call : FlagCall)
  | indexOpen
  | openIndex
  | embed (texts : List String)
  | propose (turn : OwnerTurn) (context : String)
  | note (mark : Mark)

def Op.Reply : Op → Type
  | memory _ _ => Except Fault Memory.Reply
  | index _ => IndexReply
  | candidates _ _ => Except CandidateFault CandidateReply
  | flags _ => Flags
  | indexOpen => Bool
  | openIndex => Bool
  | embed _ => Option (List Vector)
  | propose _ _ => Option (List Proposal)
  | note _ => Unit

/-- What a step takes from outside: the clock, whether a delete goes through
and a file opens, and the answers of the model and of the extractor. -/
structure Input where
  now : Int := 0
  deletes : Bool := true
  opens : Bool := true
  vectors : Option (List Vector) := none
  proposals : Option (List Proposal) := none

/-- The store, the index, the candidates and the flags of one process. -/
structure State where
  memory : Open
  index : SemanticIndex
  indexOpen : Bool
  candidates : CandidateStore
  flags : Flags
  drawn : Nat

def MemoryCall.call (uuid : String) (i : Input) : MemoryCall → Call
  | .remember record => .remember record uuid
  | .get id => .get id
  | .search query limit => .search query false limit
  | .update id changes => .update id changes i.now
  | .supersede oldId new => .supersede oldId new uuid i.now
  | .forget id reason => .forget id reason
  | .purge id => .purge id i.deletes
  | .getVisible id => .getVisible id i.now
  | .activeRecords => .activeRecords i.now
  | .activeIds => .activeIds i.now
  | .reinforce id entry => .reinforce id entry i.now

namespace State

variable (E : Deployment)

/-- A call into the canonical store, with a fresh id in case it inserts. -/
def callMemory (c : MemoryCall) (i : Input) (s : State) : Except Fault Memory.Reply × State :=
  let o := (c.call (E.uuid s.drawn) i).perform E.backend s.memory
  (o.reply, { s with
    memory := ⟨s.memory.files.commits o.commits, o.purged⟩
    drawn := s.drawn + 1 })

/-- What a write of a candidate answers and leaves. -/
def withCandidates (s : State) :
    Except CandidateFault (Candidate × CandidateStore) →
      Except CandidateFault CandidateReply × State
  | .error e => (.error e, s)
  | .ok (c, t) => (.ok (.found (some c)), { s with candidates := t })

def callCandidates (c : CandidateCall) (s : State) :
    Except CandidateFault CandidateReply × State :=
  match c with
  | .isSuppressed key => (.ok (.told (s.candidates.isSuppressed key)), s)
  | .suppress key reason now =>
    (.ok .done, { s with candidates := s.candidates.suppress key reason now })
  | .unsuppress key => (.ok .done, { s with candidates := s.candidates.unsuppress key })
  | .get id => (.ok (.found (s.candidates.candidates.find? id)), s)
  | .openByKey key => (.ok (.found (s.candidates.openByKey key)), s)
  | .observe candidate evidence now =>
    withCandidates { s with drawn := s.drawn + 1 }
      (s.candidates.observe candidate evidence now (E.uuid s.drawn))
  | .transition id target move now => withCandidates s (s.candidates.transition id target move now)
  | .expireDue now => (.ok .done, { s with candidates := s.candidates.expireDue now })

def callFlags (c : FlagCall) (s : State) : State :=
  match c with
  | .read => s
  | .setPending b => { s with flags := { s.flags with reindexPending := b } }
  | .setIncomplete b => { s with flags := { s.flags with indexIncomplete := b } }
  | .setCheckDue b => { s with flags := { s.flags with checkDue := b } }

def step (op : Op) (i : Input) (s : State) : op.Reply × State :=
  match op with
  | .memory _ call => s.callMemory E call i
  | .index call => ((s.index.run E.rank call).1, { s with index := (s.index.run E.rank call).2 })
  | .candidates _ call => s.callCandidates E call
  | .flags call => ((s.callFlags call).flags, s.callFlags call)
  | .indexOpen => (s.indexOpen, s)
  | .openIndex => (i.opens, { s with indexOpen := i.opens })
  | .embed _ => (i.vectors, s)
  | .propose _ _ => (i.proposals, s)
  | .note _ => ((), s)

/-- A process over the files of an empty directory. -/
def start : State where
  memory := ⟨⟨.empty, [], []⟩, []⟩
  index := .empty
  indexOpen := true
  candidates := .empty
  flags := {}
  drawn := 0

end State

/-- One process over the files it finds. -/
def runtime (E : Deployment) (init : State) : Shared State where
  Op := Op
  Input := Input
  Reply := Op.Reply
  step := State.step E
  init := init

abbrev Entry (E : Deployment) (init : State) : Type := (runtime E init).Event

/-! ### Requests -/

abbrev Task (α : Type) : Type := Prog Op Op.Reply α

namespace Task

/-- A call into the canonical store. What it raises is raised. -/
def memory {α : Type} (actor : Actor) (c : MemoryCall) (f : Reply → Option α) : Task α :=
  .ask (.memory actor c) (fun r => match r with
    | .ok r => (f r).elim .fail .ret
    | .error _ => .fail)

def remember (actor : Actor) (record : MemoryRecord) : Task String :=
  memory actor (.remember record) (fun
    | .stored id => some id
    | _ => none)

def foundOf : Reply → Option (Option MemoryRecord)
  | .found r => some r
  | _ => none

def recordsOf : Reply → Option (List MemoryRecord)
  | .records rs => some rs
  | _ => none

def toldOf : Reply → Option Bool
  | .told b => some b
  | _ => none

def get (actor : Actor) (id : String) : Task (Option MemoryRecord) :=
  memory actor (.get id) foundOf

def getVisible (actor : Actor) (id : String) : Task (Option MemoryRecord) :=
  memory actor (.getVisible id) foundOf

def search (actor : Actor) (query : String) (limit : Nat) : Task (List MemoryRecord) :=
  memory actor (.search query limit) recordsOf

def activeRecords (actor : Actor) : Task (List MemoryRecord) :=
  memory actor .activeRecords recordsOf

def activeIds (actor : Actor) : Task (List String) :=
  memory actor .activeIds (fun
    | .ids is => some is
    | _ => none)

def update (actor : Actor) (id : String) (changes : List Change) : Task MemoryRecord :=
  memory actor (.update id changes) (fun r => (foundOf r).join)

def supersede (actor : Actor) (oldId : String) (new : MemoryRecord) : Task MemoryRecord :=
  memory actor (.supersede oldId new) (fun r => (foundOf r).join)

def forget (actor : Actor) (id reason : String) : Task Bool :=
  memory actor (.forget id reason) toldOf

def purge (actor : Actor) (id : String) : Task Bool := memory actor (.purge id) toldOf

def reinforce (actor : Actor) (id : String) (entry : ProvenanceEntry) : Task Bool :=
  memory actor (.reinforce id entry) toldOf

def index (c : IndexCall) : Task IndexReply := .request (Op.index c)

/-- A call into the store of the candidates. -/
def candidates {α : Type} (actor : Actor) (c : CandidateCall) (f : CandidateReply → Option α) :
    Task α :=
  .ask (.candidates actor c) (fun r => match r with
    | .ok r => (f r).elim .fail .ret
    | .error _ => .fail)

def candidateOf : CandidateReply → Option (Option Candidate)
  | .found c => some c
  | _ => none

def isSuppressed (actor : Actor) (key : String) : Task Bool :=
  candidates actor (.isSuppressed key) (fun
    | .told b => some b
    | _ => none)

def suppress (actor : Actor) (key : String) (reason : SuppressReason) (now : Int) : Task Unit :=
  candidates actor (.suppress key reason now) (fun _ => some ())

def unsuppress (actor : Actor) (key : String) : Task Unit :=
  candidates actor (.unsuppress key) (fun _ => some ())

def getCandidate (actor : Actor) (id : String) : Task (Option Candidate) :=
  candidates actor (.get id) candidateOf

def openByKey (actor : Actor) (key : String) : Task (Option Candidate) :=
  candidates actor (.openByKey key) candidateOf

def observe (actor : Actor) (candidate : Candidate) (evidence : Evidence) (now : Int) :
    Task Candidate :=
  candidates actor (.observe candidate evidence now) (fun r => (candidateOf r).join)

def transition (actor : Actor) (id : String) (target : CandidateState)
    (move : CandidateStore.Move) (now : Int) : Task Unit :=
  candidates actor (.transition id target move now) (fun _ => some ())

def expireDue (actor : Actor) (now : Int) : Task Unit :=
  candidates actor (.expireDue now) (fun _ => some ())

def flags (c : FlagCall) : Task Flags := .request (Op.flags c)

def note (m : Mark) : Task Unit := .request (Op.note m)

/-- The embedding of texts, which may fail. -/
def embed (texts : List String) : Task (List Vector) :=
  .ask (.embed texts) (fun
    | some vs => .ret vs
    | none => .fail)

end Task

end Solvio.Memory
