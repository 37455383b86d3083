import Solvio.Memory.Runtime

namespace Solvio.Memory
open Solvio.Lib

/-! ### What is stored of a record -/

namespace Db

/-- The row of a record and its provenance. -/
def view (db : Db) (id : String) : Option (MemoryRow × List ProvenanceEntry) :=
  (db.memories.find? id).map (fun row => (row, db.provenanceOf id))

theorem view_none {db : Db} {id : String} : db.view id = none ↔ db.memories.find? id = none := by
  simp [view]

/-- A record that is not stored owns no provenance. -/
theorem provenance_none {db : Db} {id : String} (h : db.memories.find? id = none) :
    db.provenanceOf id = [] := by
  rw [provenanceOf, List.map_eq_nil_iff, List.filter_eq_nil_iff]
  intro p hp he
  have hsome := db.owned p hp
  rw [of_decide_eq_true he, h] at hsome
  cases hsome

@[simp] theorem view_set_fts (db : Db) (fts : List FtsRow) (id : String) :
    (db.setFts fts).view id = db.view id := rfl

@[simp] theorem view_fts_upsert (B : Backend) (db : Db) (row : MemoryRow) (id : String) :
    (ftsUpsert B db row).view id = db.view id := by
  unfold ftsUpsert
  split <;> rfl

@[simp] theorem view_fts_delete (B : Backend) (db : Db) (k id : String) :
    (ftsDelete B db k).view id = db.view id := by
  unfold ftsDelete
  split <;> rfl

theorem view_update_row (db : Db) (k : String) (f : MemoryRow → MemoryRow)
    (hf : ∀ a, (f a).id = a.id) (id : String) :
    (db.updateRow k f hf).view id =
      if id = k then (db.view k).map (fun v => (f v.1, v.2)) else db.view id := by
  change (((db.memories.modify k f hf).find? id).map fun row => (row, db.provenanceOf id)) = _
  rw [Table.find_modify]
  split
  · rename_i h
    subst h
    cases hfind : db.memories.find? id <;> simp [view, hfind]
  · rfl

theorem view_delete_rows (db : Db) (p : String → Bool) (id : String) :
    (db.deleteRows p).view id = if p id then none else db.view id := by
  change (((db.memories.filter (fun row => !p row.id)).find? id).map
    fun row => (row, (db.deleteRows p).provenanceOf id)) = _
  rw [find_kept]
  split
  · rfl
  · rename_i h
    have hkept : (db.deleteRows p).provenanceOf id = db.provenanceOf id := by
      simp only [provenanceOf, deleteRows, List.filter_filter]
      congr 2
      funext q
      by_cases hq : q.memoryId = id
      · simp [hq, h]
      · simp [hq]
    rw [hkept]
    rfl

theorem view_add_provenance (db : Db) (p : ProvenanceRow)
    (h : (db.memories.find? p.memoryId).isSome) (id : String) :
    (db.addProvenance p h).view id =
      if id = p.memoryId then (db.view id).map (fun v => (v.1, v.2 ++ [p.entry]))
      else db.view id := by
  change ((db.memories.find? id).map fun row => (row, (db.addProvenance p h).provenanceOf id)) = _
  have hprov : (db.addProvenance p h).provenanceOf id =
      if id = p.memoryId then db.provenanceOf id ++ [p.entry] else db.provenanceOf id := by
    simp only [provenanceOf, addProvenance, List.filter_append, List.map_append]
    split
    · rename_i he
      simp [he]
    · rename_i he
      simp [Ne.symm he]
  rw [hprov]
  split
  · cases hfind : db.memories.find? id <;> simp [view, hfind]
  · rfl

theorem view_add_row {db db' : Db} {row : MemoryRow} {ps : List ProvenanceEntry}
    {rs : List Relation} (h : db.addRow row ps rs = some db') :
    db.view row.id = none ∧
      ∀ id, db'.view id = if id = row.id then some (row, ps) else db.view id := by
  obtain ⟨hins, hprov, -, -⟩ := add_row h
  have hfree : db.memories.find? row.id = none := (Table.insert_some hins).1
  refine ⟨Iff.mpr view_none hfree, fun id => ?_⟩
  have hfind : db'.memories.find? id = if row.id = id then some row else db.memories.find? id :=
    Table.find_insert hins id
  have howned : db'.provenanceOf id =
      if row.id = id then db.provenanceOf id ++ ps else db.provenanceOf id := by
    simp only [provenanceOf, hprov, List.filter_append, List.map_append, List.filter_map]
    split
    · rename_i he
      have hall : ps.filter ((fun p : ProvenanceRow => decide (p.memoryId = id)) ∘
          ProvenanceRow.mk row.id) = ps := List.filter_eq_self.mpr (by simp [he])
      rw [hall, List.map_map]
      simp [Function.comp_def]
    · rename_i he
      have hnone : ps.filter ((fun p : ProvenanceRow => decide (p.memoryId = id)) ∘
          ProvenanceRow.mk row.id) = [] := List.filter_eq_nil_iff.mpr (by simp [he])
      rw [hnone, List.map_nil, List.map_nil, List.append_nil]
  simp only [view, hfind, howned]
  by_cases he : row.id = id
  · subst he
    simp [provenance_none hfree]
  · simp [he, Ne.symm he]

end Db

section writes
variable {B : Backend} {db db' : Db}

theorem insert_view {rec : MemoryRecord} (h : insertRecord B db rec = .ok db') :
    db.view rec.id = none ∧
      ∀ id, db'.view id = if id = rec.id then some (rec.row, rec.provenance) else db.view id := by
  unfold insertRecord at h
  split at h
  · cases h
  · split at h
    · cases h
    · rename_i t ht
      cases h
      obtain ⟨hfree, hview⟩ := Db.view_add_row ht
      refine ⟨hfree, fun id => ?_⟩
      rw [Db.view_fts_upsert]
      exact hview id

theorem update_view {id : String} {changes : List Change} {now : Int}
    (h : updateFields B db id changes now = .ok (some db')) :
    ∃ row row' ps, db.view id = some (row, ps) ∧ row.SameOrigin row' ∧
      ∀ k, db'.view k = if k = id then some (row', ps) else db.view k := by
  unfold updateFields at h
  split at h
  · cases h
  · rename_i row hrow
    split at h
    · cases h
    · split at h
      · cases h
      · rename_i row' hrow'
        have horigin := apply_changes_origin hrow'
        have hview : db.view id = some (row, db.provenanceOf id) := by simp [Db.view, hrow]
        refine ⟨row, row', db.provenanceOf id, hview, horigin, fun k => ?_⟩
        simp only [Except.ok.injEq, Option.some.injEq] at h
        have hk : db'.view k = (db.updateRow id (fun a => if a.id = row'.id then row' else a)
            (by intro a; split; · rename_i he; exact he.symm
                · rfl)).view k := by
          rw [← h]
          split
          · rfl
          · rw [Db.view_fts_upsert]
        rw [hk, Db.view_update_row, hview]
        split
        · simp [horigin.id]
        · rfl

theorem superseded_view (db : Db) (oldId newId : String) (now : Int) (k : String) :
    (setSuperseded db oldId newId now).view k =
      if k = oldId then (db.view oldId).map
        (fun v => ({ v.1 with supersededBy := some newId, updatedAt := now }, v.2))
      else db.view k := Db.view_update_row ..

theorem forgotten_view (db : Db) (id reason : String) (k : String) :
    (setForgotten B db id reason).2.view k =
      if k = id then (db.view id).map (fun v =>
        (if v.1.forgotten then v.1
          else { v.1 with forgotten := true, forgottenReason := reason }, v.2))
      else db.view k := by
  unfold setForgotten
  split
  · rename_i hrow
    split
    · rename_i hk
      rw [hk, Db.view_none.mpr hrow]
      rfl
    · rfl
  · rename_i row hrow
    have hview : db.view id = some (row, db.provenanceOf id) := by simp [Db.view, hrow]
    split
    · rename_i hforgotten
      split
      · rename_i hk
        rw [hk, hview]
        simp [hforgotten]
      · rfl
    · rename_i hforgotten
      rw [Db.view_fts_delete, Db.view_update_row, hview]
      split
      · simp [hforgotten]
      · rfl

theorem deleted_view (db : Db) (id k : String) :
    (hardDelete B db id).view k = if k = id then none else db.view k := by
  rw [hardDelete, Db.view_fts_delete, Db.view_delete_rows]
  simp

theorem reinforced_view {id : String} {entry : ProvenanceEntry} {now : Int} {ok : Bool}
    (h : appendProvenance B db id entry now = .ok (ok, db')) (k : String) :
    db'.view k = if k = id then (db.view id).map
      (fun v => ({ v.1 with updatedAt := now }, v.2 ++ [entry])) else db.view k := by
  unfold appendProvenance at h
  split at h
  · cases h
  · split at h
    · rename_i hsome
      cases h
      rw [Db.view_update_row, Db.view_add_provenance, Db.view_add_provenance]
      split
      · simp [Option.map_map, Function.comp_def]
      · rfl
    · rename_i hnone
      cases h
      split
      · rename_i hk
        have hview : db.view id = none := Db.view_none.mpr (by simpa using hnone)
        rw [hk, hview]
        rfl
      · rfl

end writes

/-! ### What a call into the store does -/

/-- The record that a call inserts, with the id it is given. -/
def MemoryCall.inserted (uuid : String) : MemoryCall → Option MemoryRecord
  | remember record => some (if record.id = "" then { record with id := uuid } else record)
  | supersede oldId new => some (Open.successor oldId new uuid)
  | _ => none

/-- How the row of a record and its provenance get on by a call. -/
inductive Evolves (uuid : String) (c : MemoryCall) (id : String) :
    Option (MemoryRow × List ProvenanceEntry) → Option (MemoryRow × List ProvenanceEntry) → Prop
  | same (v : Option (MemoryRow × List ProvenanceEntry)) : Evolves uuid c id v v
  | inserted {record : MemoryRecord} : c.inserted uuid = some record → record.id = id →
    Evolves uuid c id none (some (record.row, record.provenance))
  | updated {row row' : MemoryRow} {ps : List ProvenanceEntry} (changes : List Change) :
    c = .update id changes → row.SameOrigin row' →
    Evolves uuid c id (some (row, ps)) (some (row', ps))
  | superseded {row : MemoryRow} {ps : List ProvenanceEntry} (new : MemoryRecord) (now : Int) :
    c = .supersede id new → Evolves uuid c id (some (row, ps))
      (some ({ row with
        supersededBy := some (Open.successor id new uuid).id, updatedAt := now }, ps))
  | forgotten {row : MemoryRow} {ps : List ProvenanceEntry} (reason : String) :
    c = .forget id reason → row.forgotten = false → Evolves uuid c id (some (row, ps))
      (some ({ row with forgotten := true, forgottenReason := reason }, ps))
  | deleted {row : MemoryRow} {ps : List ProvenanceEntry} : c = .purge id →
    Evolves uuid c id (some (row, ps)) none
  | reinforced {row : MemoryRow} {ps : List ProvenanceEntry} (entry : ProvenanceEntry)
    (now : Int) : c = .reinforce id entry → row.sourceType = .solvioInference →
    Evolves uuid c id (some (row, ps)) (some ({ row with updatedAt := now }, ps ++ [entry]))

/-- The store that an operation leaves. -/
def Open.after (s : Open) (o : Outcome) : Open := ⟨s.files.commits o.commits, o.purged⟩

section calls
variable {B : Backend} {s : Open} {uuid : String} {i : Input}

@[simp] theorem after_answer (r : Reply) : s.after (s.answer r) = s := rfl

@[simp] theorem after_refuse (e : Fault) : s.after (s.refuse e) = s := rfl

@[simp] theorem after_write_db (r : Reply) (db : Db) : (s.after (s.write r db)).files.db = db := rfl

@[simp] theorem after_write_purged (r : Reply) (db : Db) :
    (s.after (s.write r db)).purged = s.purged := rfl

/-- A remember stores its record under an id that is free. -/
theorem remember_view (uuid : String) (record : MemoryRecord) :
    (∀ k, (s.after (s.remember B record uuid)).files.db.view k = s.files.db.view k) ∨
      ∃ stored, (MemoryCall.remember record).inserted uuid = some stored ∧
        s.files.db.view stored.id = none ∧
        ∀ k, (s.after (s.remember B record uuid)).files.db.view k =
          if k = stored.id then some (stored.row, stored.provenance) else s.files.db.view k := by
  unfold Open.remember
  simp only
  split
  · exact .inl (fun k => rfl)
  · rename_i db hdb
    obtain ⟨hfree, hview⟩ := insert_view hdb
    exact .inr ⟨_, rfl, hfree, hview⟩

theorem remember_evolves (record : MemoryRecord) (id : String) :
    Evolves uuid (.remember record) id (s.files.db.view id)
      ((s.after (s.remember B record uuid)).files.db.view id) := by
  rcases remember_view (B := B) (s := s) uuid record with
    hsame | ⟨stored, hins, hfree, hview⟩
  · rw [hsame]
    exact .same _
  · rw [hview]
    split
    · rename_i hid
      subst hid
      rw [hfree]
      exact .inserted hins rfl
    · exact .same _

theorem update_evolves (k : String) (changes : List Change) (now : Int) (id : String) :
    Evolves uuid (.update k changes) id (s.files.db.view id)
      ((s.after (s.update B k changes now)).files.db.view id) := by
  unfold Open.update
  split
  · exact .same _
  · split
    · exact .same _
    · exact .same _
    · rename_i db hdb
      obtain ⟨row, row', ps, hold, horigin, hview⟩ := update_view hdb
      rw [after_write_db, hview]
      split
      · rename_i hid
        subst hid
        rw [hold]
        exact .updated changes rfl horigin
      · exact .same _

/-- A supersede stores the successor and marks the record that it replaces. -/
theorem supersede_view (uuid oldId : String) (new : MemoryRecord) (now : Int) :
    (∀ k, (s.after (s.supersede B oldId new uuid now)).files.db.view k = s.files.db.view k) ∨
      ∃ row ps, s.isPurged oldId = false ∧ s.files.db.view oldId = some (row, ps) ∧
        s.files.db.view (Open.successor oldId new uuid).id = none ∧
        ∀ k, (s.after (s.supersede B oldId new uuid now)).files.db.view k =
          if k = oldId then some ({ row with
            supersededBy := some (Open.successor oldId new uuid).id, updatedAt := now }, ps)
          else if k = (Open.successor oldId new uuid).id then
            some ((Open.successor oldId new uuid).row, (Open.successor oldId new uuid).provenance)
          else s.files.db.view k := by
  unfold Open.supersede
  split
  · exact .inl (fun k => rfl)
  · rename_i hpurged
    split
    · exact .inl (fun k => rfl)
    · rename_i old hold
      simp only
      split
      · exact .inl (fun k => rfl)
      · rename_i db hdb
        obtain ⟨hfree, hview⟩ := insert_view hdb
        obtain ⟨row, hrow, -⟩ := Option.map_eq_some_iff.mp hold
        have hv : s.files.db.view oldId = some (row, s.files.db.provenanceOf oldId) := by
          simp [Db.view, hrow]
        have hne : oldId ≠ (Open.successor oldId new uuid).id := by
          intro he
          rw [he, hfree] at hv
          cases hv
        refine .inr ⟨row, _, by simpa using hpurged, hv, hfree, fun k => ?_⟩
        rw [after_write_db, superseded_view, hview, hview, if_neg hne, hv]
        rfl

theorem supersede_evolves (oldId : String) (new : MemoryRecord) (now : Int) (id : String) :
    Evolves uuid (.supersede oldId new) id (s.files.db.view id)
      ((s.after (s.supersede B oldId new uuid now)).files.db.view id) := by
  rcases supersede_view (B := B) (s := s) uuid oldId new now with
    hsame | ⟨row, ps, -, hold, hfree, hview⟩
  · rw [hsame]
    exact .same _
  · rw [hview]
    split
    · rename_i hid
      subst hid
      rw [hold]
      exact .superseded new now rfl
    · split
      · rename_i hid
        subst hid
        rw [hfree]
        exact .inserted rfl rfl
      · exact .same _

theorem forget_evolves (k reason id : String) :
    Evolves uuid (.forget k reason) id (s.files.db.view id)
      ((s.after (s.forget B k reason)).files.db.view id) := by
  unfold Open.forget
  split
  · exact .same _
  · simp only [after_write_db, forgotten_view]
    split
    · rename_i hid
      subst hid
      cases hv : s.files.db.view id with
      | none => exact .same _
      | some v =>
        obtain ⟨row, ps⟩ := v
        simp only [Option.map_some]
        split
        · exact .same _
        · rename_i hf
          exact .forgotten reason rfl (by simpa using hf)
    · exact .same _

/-- A delete that fails leaves the rows. -/
theorem purge_undeleted (id : String) :
    (s.after (s.purge B id false)).files.db = s.files.db := by
  unfold Open.purge
  split <;> rfl

theorem purge_evolves (k : String) (deletes : Bool) (id : String) :
    Evolves uuid (.purge k) id (s.files.db.view id)
      ((s.after (s.purge B k deletes)).files.db.view id) := by
  unfold Open.purge
  split
  · exact .same _
  · rename_i old hold
    split
    · change Evolves uuid (.purge k) id (s.files.db.view id)
        ((hardDelete B s.files.db k).view id)
      rw [deleted_view]
      split
      · rename_i hid
        subst hid
        obtain ⟨row, hrow, -⟩ := Option.map_eq_some_iff.mp hold
        have hv : s.files.db.view id = some (row, s.files.db.provenanceOf id) := by
          simp [Db.view, hrow]
        rw [hv]
        exact .deleted rfl
      · exact .same _
    · exact .same _

theorem reinforce_evolves (k : String) (entry : ProvenanceEntry) (now : Int) (id : String) :
    Evolves uuid (.reinforce k entry) id (s.files.db.view id)
      ((s.after (s.reinforce B k entry now)).files.db.view id) := by
  unfold Open.reinforce
  split
  · exact .same _
  · split
    · exact .same _
    · rename_i record hrec
      split
      · exact .same _
      · rename_i hsource
        split
        · exact .same _
        · rename_i ok db hdb
          rw [after_write_db, reinforced_view hdb]
          split
          · rename_i hid
            subst hid
            obtain ⟨row, hrow, rfl⟩ := Option.map_eq_some_iff.mp hrec
            have hv : s.files.db.view id = some (row, s.files.db.provenanceOf id) := by
              simp [Db.view, hrow]
            rw [hv]
            exact .reinforced entry now rfl (by simpa [Db.record, recordFromRow] using hsource)
          · exact .same _

theorem answer_evolves {o : Outcome} {c : MemoryCall} (h : ∃ r, o = s.answer r) (id : String) :
    Evolves uuid c id (s.files.db.view id) ((s.after o).files.db.view id) := by
  obtain ⟨r, rfl⟩ := h
  exact .same _

theorem get_answers (id : String) : ∃ r, s.get id = s.answer r := by
  unfold Open.get
  split <;> exact ⟨_, rfl⟩

theorem visible_answers (id : String) (now : Int) : ∃ r, s.getVisible id now = s.answer r := by
  unfold Open.getVisible
  split <;> exact ⟨_, rfl⟩

/-- What any call does to any record. -/
theorem call_evolves (uuid : String) (c : MemoryCall) (id : String) :
    Evolves uuid c id (s.files.db.view id)
      ((s.after ((c.call uuid i).perform B s)).files.db.view id) := by
  cases c with
  | remember record => exact remember_evolves record id
  | get k => exact answer_evolves (get_answers k) id
  | search query limit => exact .same _
  | update k changes => exact update_evolves k changes i.now id
  | supersede oldId new => exact supersede_evolves oldId new i.now id
  | forget k reason => exact forget_evolves k reason id
  | purge k => exact purge_evolves k i.deletes id
  | getVisible k => exact answer_evolves (visible_answers k i.now) id
  | activeRecords => exact .same _
  | activeIds => exact .same _
  | reinforce k entry => exact reinforce_evolves k entry i.now id

/-- No call takes a mark out of the deny cache. -/
theorem call_purged (c : MemoryCall) {id : String} (h : s.isPurged id = true) :
    (s.after ((c.call uuid i).perform B s)).isPurged id = true := by
  have hself : hashId id ∈ s.purged := of_decide_eq_true h
  refine decide_eq_true ?_
  cases c with
  | purge k =>
    simp only [MemoryCall.call, Call.perform, Open.purge]
    repeat' split
    all_goals first | exact hself | exact List.mem_cons_of_mem _ hself
  | search query limit => exact hself
  | activeRecords => exact hself
  | activeIds => exact hself
  | _ =>
    simp only [MemoryCall.call, Call.perform, Open.remember, Open.get, Open.update,
      Open.supersede, Open.forget, Open.getVisible, Open.reinforce]
    repeat' split
    all_goals exact hself

/-- A call that reads leaves the store as it is. -/
theorem reads_keep {c : MemoryCall} (h : c.Reads) :
    s.after ((c.call uuid i).perform B s) = s := by
  cases c with
  | get id => obtain ⟨r, hr⟩ := get_answers (s := s) id; exact congrArg s.after hr
  | getVisible id =>
    obtain ⟨r, hr⟩ := visible_answers (s := s) id i.now
    exact congrArg s.after hr
  | search query limit => rfl
  | activeRecords => rfl
  | activeIds => rfl
  | _ => exact h.elim

/-! ### What is current -/

/-- The store still answers with the record. -/
def Open.current (s : Open) (id : String) : Bool :=
  !s.isPurged id && (s.files.db.view id).any (fun v => !v.1.forgotten)

theorem current_iff {id : String} : s.current id = true ↔
    s.isPurged id = false ∧ ∃ v, s.files.db.view id = some v ∧ v.1.forgotten = false := by
  simp [Open.current, Option.any_eq_true]

/-- What has been taken back is current again only if it is written anew. -/
theorem stays_revoked {c : MemoryCall} {id : String} (h : ¬ s.current id)
    (hnew : ∀ record, c.inserted uuid = some record → record.id = id →
      s.files.db.view id ≠ none) :
    ¬ (s.after ((c.call uuid i).perform B s)).current id := by
  intro hafter
  obtain ⟨hpurged, v, hv, hforgotten⟩ := Iff.mp current_iff hafter
  have hbefore : s.isPurged id = false := by
    by_contra hp
    rw [call_purged c (by simpa using hp)] at hpurged
    cases hpurged
  have hev := call_evolves (B := B) (s := s) (i := i) uuid c id
  rw [hv] at hev
  refine h (Iff.mpr current_iff ⟨hbefore, ?_⟩)
  generalize hold : s.files.db.view id = old at hev
  cases hev with
  | same => exact ⟨v, rfl, hforgotten⟩
  | inserted hins hid => exact absurd hold (hnew _ hins hid)
  | updated changes hc horigin => exact ⟨_, rfl, horigin.forgotten.symm.trans hforgotten⟩
  | superseded new now hc => exact ⟨_, rfl, hforgotten⟩
  | forgotten reason hc hf => exact ⟨_, rfl, hf⟩
  | reinforced entry now hc hs => exact ⟨_, rfl, hforgotten⟩

theorem forget_revokes (id reason : String) :
    ¬ (s.after (s.forget B id reason)).current id := by
  intro hafter
  obtain ⟨hpurged, v, hv, hforgotten⟩ := Iff.mp current_iff hafter
  unfold Open.forget at hpurged hv
  split at hv
  · rename_i hp
    rw [if_pos hp, after_answer, hp] at hpurged
    cases hpurged
  · simp only [after_write_db, forgotten_view, if_true] at hv
    obtain ⟨old, -, rfl⟩ := Option.map_eq_some_iff.mp hv
    simp only at hforgotten
    split at hforgotten
    · simp_all
    · cases hforgotten

theorem purge_revokes (id : String) (deletes : Bool) :
    ¬ (s.after (s.purge B id deletes)).current id := by
  intro hafter
  obtain ⟨hpurged, v, hv, -⟩ := Iff.mp current_iff hafter
  unfold Open.purge at hpurged hv
  split at hv
  · rename_i hnone
    have hfree : s.files.db.view id = none := Db.view_none.mpr (by simpa [getRecord] using hnone)
    rw [after_answer, hfree] at hv
    cases hv
  · rename_i old hold
    simp only [hold] at hpurged
    split at hpurged
    all_goals simp [Open.after, Open.isPurged] at hpurged

end calls

/-- A step that is no call into the store leaves it. -/
theorem step_memory {E : Deployment} {s : State} (op : Op) (i : Input) :
    ((State.step E op i s).2.memory = s.memory ∧ ∀ actor c, op ≠ .memory actor c) ∨
      ∃ actor c, op = .memory actor c ∧ (State.step E op i s).2.memory =
        s.memory.after ((c.call (E.uuid s.drawn) i).perform E.backend s.memory) := by
  cases op with
  | memory actor c => exact .inr ⟨actor, c, rfl, rfl⟩
  | candidates actor c =>
    refine .inl ⟨?_, fun _ _ h => (by cases h)⟩
    change (s.callCandidates E c).2.memory = s.memory
    cases c <;> simp only [State.callCandidates, State.withCandidates]
    all_goals first | rfl | (split <;> rfl)
  | flags c => exact .inl ⟨by cases c <;> rfl, fun _ _ h => (by cases h)⟩
  | _ => exact .inl ⟨rfl, fun _ _ h => (by cases h)⟩

/-! ### What a step does to a candidate -/

/-- How the row of a candidate gets on by a step. -/
structure CandidateStep (op : Op) (id : String) (old new : Option Candidate) : Prop where
  stays : ∀ x, old = some x → ∃ y, new = some y ∧ CandidateStore.Succeeds x y ∧
    (y.state = .adopted → x.state ≠ .adopted →
      ∃ actor m now, op = .candidates actor (.transition id .adopted m now))
  fresh : ∀ y, old = none → new = some y → y.state = .gathering ∧
    ∃ actor c evidence now, op = .candidates actor (.observe c evidence now) ∧
      y.dedupKey = c.dedupKey

theorem CandidateStep.same (op : Op) (id : String) (x : Option Candidate) :
    CandidateStep op id x x where
  stays y hy := ⟨y, hy, .refl y, fun h hne => absurd h hne⟩
  fresh y hnone hsome := by
    rw [hnone] at hsome
    cases hsome

theorem candidate_step {E : Deployment} {s : State} (op : Op) (i : Input) (id : String) :
    CandidateStep op id (s.candidates.candidates.find? id)
      ((State.step E op i s).2.candidates.candidates.find? id) := by
  cases op with
  | candidates actor c =>
    change CandidateStep _ id _ ((s.callCandidates E c).2.candidates.candidates.find? id)
    cases c with
    | observe candidate evidence now =>
      simp only [State.callCandidates, State.withCandidates]
      split
      · exact .same _ _ _
      · rename_i x t hx
        obtain ⟨hkey, hfind⟩ := CandidateStore.observe_found hx
        change CandidateStep _ id _ (t.candidates.find? id)
        rw [hfind]
        split
        · rename_i hid
          subst hid
          rcases CandidateStore.observe_succeeds hx with ⟨y, hy, hsucc, hstate⟩ | ⟨hnone, hstate⟩
          · have hy' : s.candidates.candidates.find? x.id = some y := hy
            rw [hy']
            refine ⟨fun z hz => ?_, fun z hz => by cases hz⟩
            cases hz
            exact ⟨x, rfl, hsucc, fun h hne => absurd (hstate.symm.trans h) hne⟩
          · have hnone' : s.candidates.candidates.find? x.id = none := hnone
            rw [hnone']
            refine ⟨fun z hz => (by cases hz), fun z _ hz => ?_⟩
            cases hz
            exact ⟨hstate, actor, candidate, evidence, now, rfl, hkey⟩
        · exact .same _ _ _
    | transition k target m now =>
      simp only [State.callCandidates, State.withCandidates]
      split
      · exact .same _ _ _
      · rename_i x t hx
        obtain ⟨y, hy, -, rfl, hfind⟩ := CandidateStore.transition_found hx
        change CandidateStep _ id _ (t.candidates.find? id)
        rw [hfind]
        split
        · rename_i hid
          subst hid
          rw [hy]
          refine ⟨fun z hz => ?_, fun z hz => by cases hz⟩
          cases hz
          refine ⟨_, rfl, CandidateStore.moved_succeeds .., fun h _ => ?_⟩
          rw [CandidateStore.moved_state] at h
          rw [h]
          exact ⟨actor, m, now, rfl⟩
        · exact .same _ _ _
    | expireDue now =>
      change CandidateStep _ id _ ((s.candidates.expireDue now).candidates.find? id)
      rw [CandidateStore.find_expire]
      refine ⟨fun x hx => ?_, fun y hnone hsome => ?_⟩
      · rw [hx, Option.map_some]
        split
        · exact ⟨_, rfl, CandidateStore.expired_succeeds x now, fun h => by cases h⟩
        · exact ⟨_, rfl, .refl x, fun h hne => absurd h hne⟩
      · rw [hnone] at hsome
        cases hsome
    | _ => exact .same _ _ _
  | flags c => cases c <;> exact .same _ _ _
  | _ => exact .same _ _ _

/-! ### The ids that are in use -/

/-- The id was drawn before the count got to `n`. -/
def Drawn (E : Deployment) (n : Nat) (id : String) : Prop := ∃ k < n, E.uuid k = id

theorem Drawn.mono {E : Deployment} {n m : Nat} {id : String} (h : Drawn E n id) (hnm : n ≤ m) :
    Drawn E m id := by
  obtain ⟨k, hk, he⟩ := h
  exact ⟨k, hk.trans_le hnm, he⟩

theorem not_drawn {E : Deployment} {n : Nat} (hfresh : E.Fresh) : ¬ Drawn E n (E.uuid n) := by
  rintro ⟨k, hk, he⟩
  rw [hfresh.injective he] at hk
  exact Nat.lt_irrefl n hk

/-- Ids are drawn and never given back. -/
theorem step_drawn {E : Deployment} {s : State} (op : Op) (i : Input) :
    s.drawn ≤ (State.step E op i s).2.drawn := by
  cases op with
  | memory actor c => exact Nat.le_succ _
  | candidates actor c =>
    change s.drawn ≤ (s.callCandidates E c).2.drawn
    cases c <;> simp only [State.callCandidates, State.withCandidates]
    all_goals first
      | exact Nat.le_refl _
      | (split <;> first | exact Nat.le_refl _ | exact Nat.le_succ _)
  | flags c => cases c <;> exact Nat.le_refl _
  | _ => exact Nat.le_refl _

end Solvio.Memory
