import Solvio.Lib.Codec
import Solvio.Lib.Runs
import Solvio.Lib.Sha256
import Solvio.Memory.Backend

namespace Solvio.Memory
open Solvio.Lib

/-- `hash_id`. -/
def hashId (recId : String) : String := toHex (sha256 (encodeUtf8 ("solvio-id:" ++ recId)))

/-- The files of the store: both databases and the backups. -/
structure Files where
  db : Db
  ledger : List String
  backups : List Db

/-- What becomes durable at once. -/
inductive Commit where
  | tombstone (idHash : String)
  | memory (db : Db)
  | snapshot (db : Db)

/-- A tombstone is inserted or ignored, and no statement deletes one. -/
def Files.commit (f : Files) : Commit → Files
  | .tombstone h => { f with ledger := if h ∈ f.ledger then f.ledger else f.ledger ++ [h] }
  | .memory db => { f with db := db }
  | .snapshot db => { f with backups := f.backups ++ [db] }

def Files.commits (f : Files) (cs : List Commit) : Files := cs.foldl Files.commit f

inductive Reply where
  | done
  | stored (id : String)
  | told (b : Bool)
  | found (r : Option MemoryRecord)
  | records (rs : List MemoryRecord)
  | entries (ps : List ProvenanceEntry)
  | ids (ids : List String)

/-- What an operation answers, commits and leaves in the deny cache. -/
structure Outcome where
  reply : Except Fault Reply
  commits : List Commit := []
  purged : List String

/-- A store in a running process. -/
structure Open where
  files : Files
  purged : List String

namespace Open

variable (B : Backend) (s : Open)

def answer (r : Reply) : Outcome := ⟨.ok r, [], s.purged⟩

def refuse (e : Fault) : Outcome := ⟨.error e, [], s.purged⟩

def write (r : Reply) (db : Db) : Outcome := ⟨.ok r, [.memory db], s.purged⟩

/-- `_is_purged`. -/
def isPurged (id : String) : Bool := hashId id ∈ s.purged

/-- `_deny_filter`. -/
def denyFilter (rs : List MemoryRecord) : List MemoryRecord := rs.filter (fun r => !s.isPurged r.id)

/-- `remember`. A record without an id is given the one that was drawn. -/
def remember (record : MemoryRecord) (uuid : String) : Outcome :=
  let record := if record.id = "" then { record with id := uuid } else record
  match insertRecord B s.files.db record with
  | .error e => s.refuse e
  | .ok db => s.write (.stored record.id) db

/-- `get`. -/
def get (id : String) : Outcome :=
  if s.isPurged id then s.answer (.found none) else s.answer (.found (getRecord s.files.db id))

/-- `recall`. -/
def «recall» (query : String) (types : List MemoryType) (subject : Option String) (limit : Nat)
    (now : Int) : Outcome :=
  s.answer (.records (s.denyFilter (Memory.recall B s.files.db query types subject limit now)))

/-- `search`. -/
def search (query : String) (includeSuperseded : Bool) (limit : Nat) : Outcome :=
  s.answer (.records (s.denyFilter (Memory.search B s.files.db query includeSuperseded limit)))

/-- `update`. -/
def update (id : String) (changes : List Change) (now : Int) : Outcome :=
  if s.isPurged id then s.refuse (.unknownId id)
  else
    match updateFields B s.files.db id changes now with
    | .error e => s.refuse e
    | .ok none => s.refuse (.unknownId id)
    | .ok (some db) => s.write (.found (getRecord db id)) db

/-- The record that `supersede` inserts. -/
def successor (oldId : String) (new : MemoryRecord) (uuid : String) : MemoryRecord :=
  { new with
    id := if new.id = "" then uuid else new.id
    supersedes := if new.supersedes.all (· = "") then some oldId else new.supersedes }

/-- `supersede`. -/
def supersede (oldId : String) (new : MemoryRecord) (uuid : String) (now : Int) : Outcome :=
  if s.isPurged oldId then s.refuse (.unknownId oldId)
  else
    match getRecord s.files.db oldId with
    | none => s.refuse (.unknownId oldId)
    | some _ =>
      let new := successor oldId new uuid
      match insertRecord B s.files.db new with
      | .error e => s.refuse e
      | .ok db =>
        let db := setSuperseded db oldId new.id now
        s.write (.found (getRecord db new.id)) db

/-- `forget`. -/
def forget (id reason : String) : Outcome :=
  if s.isPurged id then s.answer (.told false)
  else
    let r := setForgotten B s.files.db id reason
    s.write (.told r.1) r.2

/-- `purge`: the tombstone first, then the active delete, which may fail. -/
def purge (id : String) (deletes : Bool) : Outcome :=
  match getRecord s.files.db id with
  | none => s.answer (.told (s.files.ledger.contains (hashId id)))
  | some _ =>
    if deletes then
      ⟨.ok (.told true), [.tombstone (hashId id), .memory (hardDelete B s.files.db id)],
        hashId id :: s.purged⟩
    else ⟨.error .deleteFailed, [.tombstone (hashId id)], hashId id :: s.purged⟩

/-- `history`. -/
def history (subject : String) : Outcome :=
  s.answer (.records (s.denyFilter (Memory.history s.files.db subject)))

/-- `list_related`. -/
def listRelated (id : String) : Outcome :=
  s.answer (.records (s.denyFilter (related s.files.db id)))

/-- `get_provenance`. -/
def getProvenance (id : String) : Outcome :=
  if s.isPurged id then s.answer (.entries []) else s.answer (.entries (s.files.db.provenanceOf id))

/-- `get_visible`. -/
def getVisible (id : String) (now : Int) : Outcome :=
  if s.isPurged id then s.answer (.found none)
  else s.answer (.found (getVisibleRecord s.files.db id now))

/-- `active_records`. -/
def activeRecords (now : Int) : Outcome :=
  s.answer (.records (s.denyFilter (iterActiveRecords s.files.db now)))

/-- `active_ids`. -/
def activeIds (now : Int) : Outcome :=
  s.answer (.ids ((Memory.activeIds s.files.db now).filter (fun id => !s.isPurged id)))

/-- `reinforce`, of what the machine has derived only. -/
def reinforce (id : String) (entry : ProvenanceEntry) (now : Int) : Outcome :=
  if s.isPurged id then s.answer (.told false)
  else
    match getRecord s.files.db id with
    | none => s.answer (.told false)
    | some record =>
      if record.sourceType ≠ .solvioInference then s.refuse (.reinforceRefused id)
      else
        match appendProvenance B s.files.db id entry now with
        | .error e => s.refuse e
        | .ok (ok, db) => s.write (.told ok) db

/-- One round of the loop of `apply_retention`. -/
def retire (acc : List Commit × Db) (expired : String × Bool) : List Commit × Db :=
  if expired.2 then
    match getRecord acc.2 expired.1 with
    | none => acc
    | some _ => (acc.1 ++ [.tombstone (hashId expired.1)], hardDelete B acc.2 expired.1)
  else (acc.1, (setForgotten B acc.2 expired.1 "ttl_expiry_forget").2)

/-- `apply_retention`. The deletes are committed together at its end. -/
def applyRetention (now : Int) : Outcome :=
  let r := (expiredActive s.files.db now).foldl (retire B) ([], s.files.db)
  ⟨.ok .done, r.1 ++ [.memory r.2], r.1.filterMap (fun
    | .tombstone h => some h
    | _ => none) ++ s.purged⟩

/-- `_reconcile_sync`. -/
def reconciled (forcePrune : Bool) : List Commit :=
  if s.purged ≠ [] then [.memory (reconcilePurged B s.files.db s.isPurged)]
  else if forcePrune && B.hasFts then [.memory (pruneOrphanFts s.files.db)]
  else []

/-- `reconcile`. -/
def reconcile : Outcome := ⟨.ok .done, s.reconciled B true, s.purged⟩

/-- `backup`. -/
def backup : Outcome := ⟨.ok .done, [.snapshot s.files.db], s.purged⟩

end Open

/-- `build_restored_db`. -/
def buildRestoredDb (B : Backend) (db : Db) (purged : List String) : Db :=
  let left := db.deleteRows (fun id => hashId id ∈ purged)
  if B.hasFts then
    left.setFts (left.fts.filter (fun f =>
      ¬ ((db.memories.find? f.id).isSome ∧ hashId f.id ∈ purged)))
  else left

/-- A store is opened with the ledger it finds, and reconciled with it. -/
def openCommits (B : Backend) (f : Files) : List Commit :=
  Open.reconciled B ⟨f, f.ledger⟩ false

/-- `restore` of a backup, with what `validate_ledger_file` and `verify_backup`
have found. -/
def Open.restore (B : Backend) (s : Open) (number : Nat) (ledgerFault : Option String)
    (backupFaults : List String) : Outcome :=
  match s.files.backups[number]? with
  | none => s.refuse (.restoreRefused ["backup file missing"])
  | some db =>
    match ledgerFault with
    | some fault => s.refuse (.restoreRefused [fault])
    | none =>
      if backupFaults ≠ [] then s.refuse (.restoreRefused backupFaults)
      else
        let staged := buildRestoredDb B db s.files.ledger
        ⟨.ok .done, .memory staged :: openCommits B { s.files with db := staged }, s.files.ledger⟩

inductive Call where
  | remember (record : MemoryRecord) (uuid : String)
  | get (id : String)
  | «recall» (query : String) (types : List MemoryType) (subject : Option String) (limit : Nat)
    (now : Int)
  | search (query : String) (includeSuperseded : Bool) (limit : Nat)
  | update (id : String) (changes : List Change) (now : Int)
  | supersede (oldId : String) (new : MemoryRecord) (uuid : String) (now : Int)
  | forget (id reason : String)
  | purge (id : String) (deletes : Bool)
  | history (subject : String)
  | listRelated (id : String)
  | getProvenance (id : String)
  | getVisible (id : String) (now : Int)
  | activeRecords (now : Int)
  | activeIds (now : Int)
  | reinforce (id : String) (entry : ProvenanceEntry) (now : Int)
  | applyRetention (now : Int)
  | reconcile
  | backup
  | restore (number : Nat) (ledgerFault : Option String) (backupFaults : List String)

def Call.perform (B : Backend) (s : Open) : Call → Outcome
  | remember record uuid => s.remember B record uuid
  | get id => s.get id
  | «recall» query types subject limit now => s.recall B query types subject limit now
  | search query includeSuperseded limit => s.search B query includeSuperseded limit
  | update id changes now => s.update B id changes now
  | supersede oldId new uuid now => s.supersede B oldId new uuid now
  | forget id reason => s.forget B id reason
  | purge id deletes => s.purge B id deletes
  | history subject => s.history subject
  | listRelated id => s.listRelated id
  | getProvenance id => s.getProvenance id
  | getVisible id now => s.getVisible id now
  | activeRecords now => s.activeRecords now
  | activeIds now => s.activeIds now
  | reinforce id entry now => s.reinforce B id entry now
  | applyRetention now => s.applyRetention B now
  | reconcile => s.reconcile B
  | backup => s.backup
  | restore number ledgerFault backupFaults => s.restore B number ledgerFault backupFaults

/-- The files, and the deny cache of the process that has them open. -/
structure Store where
  files : Files
  purged : Option (List String)

/-- A process that calls, and may die after any of the commits of a call or of
the opening. -/
inductive Action where
  | call (c : Call)
  | crash (c : Call) (commits : Nat)
  | close
  | reopen
  | crashReopen (commits : Nat)

def Action.take (B : Backend) (s : Store) : Action → Except Fault Reply × Store
  | call c =>
    match s.purged with
    | none => (.error .closed, s)
    | some purged =>
      let o := c.perform B ⟨s.files, purged⟩
      (o.reply, ⟨s.files.commits o.commits, some o.purged⟩)
  | crash c n =>
    match s.purged with
    | none => (.error .closed, s)
    | some purged =>
      (.error .closed, ⟨s.files.commits ((c.perform B ⟨s.files, purged⟩).commits.take n), none⟩)
  | close => (.ok .done, ⟨s.files, none⟩)
  | reopen => (.ok .done, ⟨s.files.commits (openCommits B s.files), some s.files.ledger⟩)
  | crashReopen n => (.error .closed, ⟨s.files.commits ((openCommits B s.files).take n), none⟩)

/-- The store over the files of an empty directory. -/
def machine (B : Backend) : Machine Store where
  Call := Action
  Reply _ := Except Fault Reply
  step a s := a.take B s
  init := ⟨⟨.empty, [], []⟩, none⟩

end Solvio.Memory
