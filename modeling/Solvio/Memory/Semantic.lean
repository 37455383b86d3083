import Solvio.Memory.Runtime

namespace Solvio.Memory
open Solvio.Lib

namespace Task

def textOf : IndexReply → Option String
  | .text t => t
  | _ => none

def contentHashOf (id profile : String) : Task (Option String) :=
  .ask (.index (.contentHashOf id profile)) (fun r => .ret (textOf r))

def idsForProfile (profile : String) : Task (List String) :=
  .ask (.index (.idsForProfile profile)) (fun
    | .ids is => .ret is
    | _ => .fail)

def indexOpen : Task Bool := .request Op.indexOpen

/-- The first vector of an answer; an empty answer raises. -/
def embedOne (text : String) : Task Vector := do
  match ← embed [text] with
  | v :: _ => pure v
  | [] => .fail

end Task

/-! ### `SemanticMemory` -/

namespace Semantic

variable (E : Deployment) (actor : Actor)

/-- The `try` of `_index_one`: the vector is written as long as the hash of the
record differs from the one in the index. -/
def embedRecord (record : MemoryRecord) : Task Bool := do
  let text := embeddingText E.lower record
  let current ← Task.contentHashOf record.id E.profile
  if current = some (contentHash text) then pure true
  else do
    let vector ← Task.embedOne text
    let _ ← Task.index (.upsert record.id E.profile (contentHash text) vector)
    pure true

/-- `_index_one`. A failure of the model leaves the record without a vector. -/
def indexOne (record : MemoryRecord) : Task Bool := do
  if ← Task.indexOpen then do
    let done ← (embedRecord E record).attempt
    pure (done.getD false)
  else pure false

/-- `remember`. -/
def remember (record : MemoryRecord) : Task String := do
  let id ← Task.remember actor record
  match ← Task.get actor id with
  | none => pure id
  | some stored => do
    let _ ← indexOne E stored
    pure id

/-- `update`. -/
def update (id : String) (changes : List Change) : Task MemoryRecord := do
  let record ← Task.update actor id changes
  let _ ← indexOne E record
  pure record

/-- Vectors are deleted if the index is there. -/
def dropVectors (id : String) (profile : Option String) : Task Unit := do
  if ← Task.indexOpen then do
    let _ ← Task.index (.delete id profile)
    pure ()
  else pure ()

/-- `supersede`. -/
def supersede (oldId : String) (new : MemoryRecord) : Task MemoryRecord := do
  let record ← Task.supersede actor oldId new
  dropVectors oldId (some E.profile)
  let _ ← indexOne E record
  pure record

/-- `forget`. -/
def forget (id reason : String) : Task Bool := do
  let ok ← Task.forget actor id reason
  dropVectors id none
  Task.note (.returned id)
  pure ok

/-- `purge`. -/
def purge (id : String) : Task Bool := do
  let ok ← Task.purge actor id
  dropVectors id none
  Task.note (.returned id)
  pure ok

/-! ### Search -/

/-- `_embed_query`. -/
def embedQuery (query : String) : Task (Option Vector) := do
  if ← Task.indexOpen then (Task.embedOne query).attempt else pure none

/-- `semantic_hits`. A query without a vector is embedded once more. -/
def semanticHits (query : String) (k : Nat) (qvec : Option Vector) :
    Task (List (String × Rat)) := do
  let qvec ← match qvec with
    | some v => pure (some v)
    | none => embedQuery query
  match qvec with
  | none => pure []
  | some v =>
    if ← Task.indexOpen then do
      match ← Task.index (.search v E.profile k) with
      | .hits hits => pure hits
      | _ => pure []
    else pure []

/-- The search itself. -/
def searchHits (k : Nat) : Option Vector → Task (List (String × Rat))
  | none => pure []
  | some v => do
    if ← Task.indexOpen then do
      match ← Task.index (.search v E.profile k) with
      | .hits hits => pure hits
      | _ => pure []
    else pure []

/-- `_visible_map`. -/
def visibleMap (ids : List String) : Task (List (String × MemoryRecord)) :=
  ids.foldlM (fun out id =>
    if out.any (fun p => p.1 = id) then pure out
    else do
      match ← Task.getVisible actor id with
      | none => pure out
      | some record => pure (out ++ [(id, record)])) []

/-- How `hybrid_recall` orders what its two arms have found. -/
def hybridOrder (fts : List String) (sem : List (String × Rat))
    (recmap : List (String × MemoryRecord)) (query : String) : List String :=
  if sem = [] then fts
  else fuse E.exactTokens fts sem E.config
    (recmap.map (fun p => (p.1, p.2.subject ++ " " ++ p.2.content))) query

/-- The list that `hybrid_recall` cuts to its limit. -/
def hybridRanked (query : String) : Task (List MemoryRecord) := do
  let qvec ← embedQuery query
  let sem ← semanticHits E query 50 qvec
  let fts ← Task.search actor query 50
  let recmap ← visibleMap actor (fts.map MemoryRecord.id ++ sem.map Prod.fst)
  pure ((hybridOrder E (fts.map MemoryRecord.id) sem recmap query).filterMap
    (fun id => (recmap.find? (fun p => p.1 = id)).map Prod.snd))

/-- `hybrid_recall`. -/
def hybridRecall (query : String) (limit : Nat) : Task (List MemoryRecord) := do
  let ranked ← hybridRanked E actor query
  pure (firstHits limit ranked)

/-! ### Maintenance -/

/-- `reconcile`. -/
def reconcile : Task Unit := do
  if ← Task.indexOpen then do
    let active ← Task.activeIds actor
    let indexed ← Task.idsForProfile E.profile
    let _ ← Task.index (.deleteIds (indexed.filter (· ∉ active)) E.profile)
    pure ()
  else pure ()

/-- A record whose vector is missing or of another text. -/
structure Pending where
  id : String
  text : String
  hash : String

/-- The records that are embedded anew. -/
def pending : List MemoryRecord → Task (List Pending)
  | [] => pure []
  | record :: records => do
    let text := embeddingText E.lower record
    let current ← Task.contentHashOf record.id E.profile
    let rest ← pending records
    if current = some (contentHash text) then pure rest
    else pure (⟨record.id, text, contentHash text⟩ :: rest)

/-- `range(0, len(pending), batch)`; the fuel is the length. -/
def batches {α : Type} (size : Nat) : Nat → List α → List (List α)
  | 0, _ => []
  | _, [] => []
  | fuel + 1, xs => xs.take size :: batches size fuel (xs.drop size)

def upsertAll : List (Pending × Vector) → Task Unit
  | [] => pure ()
  | (p, v) :: rest => do
    let _ ← Task.index (.upsert p.id E.profile p.hash v)
    upsertAll rest

/-- The vectors of a batch are paired with its records by their places. -/
def embedBatches : List (List Pending) → Task Unit
  | [] => pure ()
  | chunk :: chunks => do
    let vectors ← Task.embed (chunk.map Pending.text)
    upsertAll E (chunk.zip vectors)
    embedBatches chunks

/-- `rebuild`. -/
def rebuild : Task Unit := do
  let isOpen ← Task.indexOpen
  let isOpen ← if isOpen then pure true else .request Op.openIndex
  if isOpen then do
    reconcile E actor
    let records ← Task.activeRecords actor
    let pending ← pending E records
    embedBatches E (batches 64 pending.length pending)
    let _ ← Task.index (.setActiveProfile E.profile)
    pure ()
  else pure ()

end Semantic

end Solvio.Memory
