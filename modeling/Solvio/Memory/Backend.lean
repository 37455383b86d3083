import Solvio.Memory.Records
import Mathlib.Data.List.Sort

namespace Solvio.Memory
open Solvio.Lib

/-- What the store is built on: whether SQLite has FTS5, what the firewall
takes for a credential, and how a query ranks the texts. -/
structure Backend where
  hasFts : Bool
  credential : String → Bool
  matched : List FtsRow → String → List String
  like : List MemoryRow → String → List String

theorem find_kept (t : Table MemoryRow) (p : String → Bool) (id : String) :
    (t.filter (fun row => !p row.id)).find? id = if p id then none else t.find? id := by
  have h := Table.find_filter_key (fun id => !p id) t id
  change (t.filter (fun row => !p row.id)).find? id = _ at h
  rw [h]
  cases p id <;> rfl

/-- `memory.sqlite3`. The foreign keys hold by construction. -/
structure Db where
  memories : Table MemoryRow
  provenance : List ProvenanceRow
  relations : List RelationRow
  fts : List FtsRow
  owned : ∀ p ∈ provenance, (memories.find? p.memoryId).isSome
  linked : ∀ r ∈ relations, (memories.find? r.memoryId).isSome

namespace Db

def empty : Db := ⟨.empty, [], [], [], by simp, by simp⟩

/-- `UPDATE memories ... WHERE id=?`. -/
def updateRow (db : Db) (id : String) (f : MemoryRow → MemoryRow) (hf : ∀ a, (f a).id = a.id) :
    Db where
  memories := db.memories.modify id f hf
  provenance := db.provenance
  relations := db.relations
  fts := db.fts
  owned p hp := by
    rw [Table.find_modify]
    split
    · rename_i h
      rw [Option.isSome_map, ← h]
      exact db.owned p hp
    · exact db.owned p hp
  linked r hr := by
    rw [Table.find_modify]
    split
    · rename_i h
      rw [Option.isSome_map, ← h]
      exact db.linked r hr
    · exact db.linked r hr

/-- `DELETE FROM memories`, which cascades to what a record owns. -/
def deleteRows (db : Db) (p : String → Bool) : Db where
  memories := db.memories.filter (fun row => !p row.id)
  provenance := db.provenance.filter (fun q => !p q.memoryId)
  relations := db.relations.filter (fun r => !p r.memoryId)
  fts := db.fts
  owned q hq := by
    obtain ⟨hq, hp⟩ := List.mem_filter.mp hq
    rw [find_kept, if_neg (by simpa using hp)]
    exact db.owned q hq
  linked r hr := by
    obtain ⟨hr, hp⟩ := List.mem_filter.mp hr
    rw [find_kept, if_neg (by simpa using hp)]
    exact db.linked r hr

def addProvenance (db : Db) (p : ProvenanceRow) (h : (db.memories.find? p.memoryId).isSome) :
    Db where
  memories := db.memories
  provenance := db.provenance ++ [p]
  relations := db.relations
  fts := db.fts
  owned q hq := by
    rcases List.mem_append.mp hq with hq | hq
    · exact db.owned q hq
    · rw [List.mem_singleton.mp hq]
      exact h
  linked := db.linked

def setFts (db : Db) (fts : List FtsRow) : Db := { db with fts := fts }

/-- The three inserts of a record. -/
def addRow (db : Db) (row : MemoryRow) (ps : List ProvenanceEntry) (rs : List Relation) :
    Option Db :=
  match h : db.memories.insert? row with
  | none => none
  | some t => some {
      memories := t
      provenance := db.provenance ++ ps.map (ProvenanceRow.mk row.id)
      relations := db.relations ++ rs.eraseDups.map (RelationRow.mk row.id)
      fts := db.fts
      owned := fun q hq => by
        rw [Table.find_insert h]
        split
        · rfl
        · rename_i hne
          rcases List.mem_append.mp hq with hq | hq
          · exact db.owned q hq
          · obtain ⟨e, -, rfl⟩ := List.mem_map.mp hq
            exact absurd rfl hne
      linked := fun q hq => by
        rw [Table.find_insert h]
        split
        · rfl
        · rename_i hne
          rcases List.mem_append.mp hq with hq | hq
          · exact db.linked q hq
          · obtain ⟨e, -, rfl⟩ := List.mem_map.mp hq
            exact absurd rfl hne }

/-- What `addRow` leaves, if the id was free. -/
theorem add_row {db db' : Db} {row : MemoryRow} {ps : List ProvenanceEntry} {rs : List Relation}
    (h : db.addRow row ps rs = some db') :
    db.memories.insert? row = some db'.memories ∧
      db'.provenance = db.provenance ++ ps.map (ProvenanceRow.mk row.id) ∧
      db'.relations = db.relations ++ rs.eraseDups.map (RelationRow.mk row.id) ∧
      db'.fts = db.fts := by
  unfold addRow at h
  split at h
  · cases h
  · rename_i t ht
    simp only [Option.some.injEq] at h
    subst h
    exact ⟨ht, rfl, rfl, rfl⟩

/-! ### Reading -/

def provenanceOf (db : Db) (id : String) : List ProvenanceEntry :=
  (db.provenance.filter (fun p => p.memoryId = id)).map ProvenanceRow.entry

def relationsOf (db : Db) (id : String) : List Relation :=
  ((db.relations.filter (fun r => r.memoryId = id)).map RelationRow.relation).insertionSort
    (fun a b => a.kind < b.kind ∨ (a.kind = b.kind ∧ a.targetId ≤ b.targetId))

def record (db : Db) (row : MemoryRow) : MemoryRecord :=
  recordFromRow row (db.provenanceOf row.id) (db.relationsOf row.id)

end Db

variable (B : Backend)

/-! ### Writes -/

/-- `_fts_upsert`. -/
def ftsUpsert (db : Db) (row : MemoryRow) : Db :=
  if B.hasFts then
    db.setFts (db.fts.filter (fun f => f.id ≠ row.id) ++
      [⟨row.id, row.content, row.subject, row.tags⟩])
  else db

/-- `fts_delete`. -/
def ftsDelete (db : Db) (id : String) : Db :=
  if B.hasFts then db.setFts (db.fts.filter (fun f => f.id ≠ id)) else db

/-- `insert_record`. -/
def insertRecord (db : Db) (rec : MemoryRecord) : Except Fault Db :=
  if B.credential rec.content then .error (.credential "memory.insert_record")
  else
    match db.addRow rec.row rec.provenance rec.relations with
    | none => .error (.duplicateId rec.id)
    | some db => .ok (ftsUpsert B db rec.row)

/-- `get_record`. -/
def getRecord (db : Db) (id : String) : Option MemoryRecord := (db.memories.find? id).map db.record

/-- The text that a change puts in place of the content. -/
def Change.newContent : Change → Option String
  | content s => some s
  | _ => none

/-- `update_fields`, of which `none` is the answer that there is no such record. -/
def updateFields (db : Db) (id : String) (changes : List Change) (now : Int) :
    Except Fault (Option Db) :=
  match db.memories.find? id with
  | none => .ok none
  | some row =>
    if (changes.filterMap Change.newContent).any B.credential then
      .error (.credential "memory.update_fields")
    else
      match h : applyChanges row changes now with
      | .error e => .error e
      | .ok row' =>
        let db := db.updateRow id (fun a => if a.id = row'.id then row' else a) (by
          intro a
          split
          · rename_i he
            exact he.symm
          · rfl)
        .ok (some (if row'.forgotten then db else ftsUpsert B db row'))

/-- `set_superseded`. -/
def setSuperseded (db : Db) (oldId newId : String) (now : Int) : Db :=
  db.updateRow oldId (fun a => { a with supersededBy := some newId, updatedAt := now })
    (fun _ => rfl)

/-- `set_forgotten`, which answers whether there is such a record. -/
def setForgotten (db : Db) (id reason : String) : Bool × Db :=
  match db.memories.find? id with
  | none => (false, db)
  | some row =>
    if row.forgotten then (true, db)
    else (true, ftsDelete B (db.updateRow id
      (fun a => { a with forgotten := true, forgottenReason := reason }) (fun _ => rfl)) id)

/-- `hard_delete`. -/
def hardDelete (db : Db) (id : String) : Db := ftsDelete B (db.deleteRows (· = id)) id

/-- `append_provenance`. -/
def appendProvenance (db : Db) (id : String) (entry : ProvenanceEntry) (now : Int) :
    Except Fault (Bool × Db) :=
  if B.credential entry.note then .error (.credential "memory.append_provenance")
  else
    if h : (db.memories.find? id).isSome then
      .ok (true, (db.addProvenance ⟨id, entry⟩ h).updateRow id
        (fun a => { a with updatedAt := now }) (fun _ => rfl))
    else .ok (false, db)

/-- `prune_orphan_fts`. -/
def pruneOrphanFts (db : Db) : Db :=
  db.setFts (db.fts.filter (fun f => (db.memories.find? f.id).isSome))

/-- `reconcile_purged`. -/
def reconcilePurged (db : Db) (isPurged : String → Bool) : Db :=
  let left := db.deleteRows isPurged
  if B.hasFts then
    pruneOrphanFts (left.setFts (left.fts.filter (fun f =>
      ¬ ((db.memories.find? f.id).isSome ∧ isPurged f.id))))
  else left

/-! ### Queries -/

/-- `_candidate_ids`. -/
def candidateIds (db : Db) (query : String) : List String :=
  if B.hasFts then B.matched db.fts query else B.like db.memories.rows query

/-- The loops over candidates stop once they have `limit` records. -/
def firstHits (limit : Nat) (rs : List MemoryRecord) : List MemoryRecord := rs.take (max limit 1)

/-- `recall`. -/
def «recall» (db : Db) (query : String) (types : List MemoryType)
    (subject : Option String) (limit : Nat) (now : Int) : List MemoryRecord :=
  firstHits limit (((candidateIds B db query).filterMap db.memories.find?).filter (fun row =>
    row.current && subject.all (row.subject = ·) && (types = [] || row.memoryType ∈ types) &&
      row.validNow now) |>.map db.record)

/-- `search`. -/
def search (db : Db) (query : String) (includeSuperseded : Bool) (limit : Nat) :
    List MemoryRecord :=
  firstHits limit (((candidateIds B db query).filterMap db.memories.find?).filter (fun row =>
    !row.forgotten && (includeSuperseded || row.supersededBy.isNone)) |>.map db.record)

/-- `ORDER BY created_at, id`. -/
def byCreation (rows : List MemoryRow) : List MemoryRow :=
  rows.insertionSort (fun a b => a.createdAt < b.createdAt ∨
    (a.createdAt = b.createdAt ∧ a.id ≤ b.id))

/-- `history`. -/
def history (db : Db) (subject : String) : List MemoryRecord :=
  (byCreation (db.memories.rows.filter (fun row => row.subject = subject))).map db.record

/-- `related`. -/
def related (db : Db) (id : String) : List MemoryRecord :=
  (byCreation ((db.relations.filter (fun r => r.memoryId = id)).filterMap
    (fun r => db.memories.find? r.relation.targetId))).map db.record

/-- `expired_active`. -/
def expiredActive (db : Db) (now : Int) : List (String × Bool) :=
  (db.memories.rows.filter (fun row => row.retentionPolicy.mode = .ttl && row.current)).filterMap
    (fun row => row.retentionPolicy.ttlDays.bind (fun days =>
      if row.createdAt + days * 86400 ≤ now then some (row.id, row.retentionPolicy.purgeOnExpiry)
      else none))

/-- `get_visible_record`. -/
def getVisibleRecord (db : Db) (id : String) (now : Int) : Option MemoryRecord :=
  ((db.memories.find? id).filter (fun row => row.current && row.validNow now)).map db.record

/-- `iter_active_records`. -/
def iterActiveRecords (db : Db) (now : Int) : List MemoryRecord :=
  ((byCreation (db.memories.rows.filter MemoryRow.current)).filter
    (fun row => row.validNow now)).map db.record

/-- `active_ids`. -/
def activeIds (db : Db) (now : Int) : List String :=
  (db.memories.rows.filter (fun row => row.current && row.validNow now)).map MemoryRow.id

end Solvio.Memory
