import Solvio.Memory.Store

namespace Solvio.Memory
open Solvio.Lib

/-! ### Tombstones -/

def Files.Tombstoned (f : Files) (id : String) : Prop := hashId id ∈ f.ledger

instance (f : Files) (id : String) : Decidable (f.Tombstoned id) :=
  inferInstanceAs (Decidable (hashId id ∈ f.ledger))

theorem mem_ledger {f : Files} {cs : List Commit} {h : String} :
    h ∈ (f.commits cs).ledger ↔ h ∈ f.ledger ∨ .tombstone h ∈ cs := by
  induction cs generalizing f with
  | nil => simp [Files.commits]
  | cons c cs ih =>
    change h ∈ ((f.commit c).commits cs).ledger ↔ _
    rw [ih]
    cases c with
    | tombstone k =>
      simp only [Files.commit, List.mem_cons, Commit.tombstone.injEq]
      split
      · rename_i hk
        constructor
        · rintro (h' | h')
          · exact Or.inl h'
          · exact Or.inr (Or.inr h')
        · rintro (h' | rfl | h')
          · exact Or.inl h'
          · exact Or.inl hk
          · exact Or.inr h'
      · simp only [List.mem_append, List.mem_singleton]
        tauto
    | memory db => simp [Files.commit]
    | snapshot db => simp [Files.commit]

/-- Whatever is committed, a tombstone stays. -/
theorem Files.Tombstoned.commits {f : Files} {id : String} (h : f.Tombstoned id)
    (cs : List Commit) : (f.commits cs).Tombstoned id := Iff.mpr mem_ledger (Or.inl h)

/-- The deny cache knows every tombstone. -/
def Store.Sound (s : Store) : Prop := ∀ purged ∈ s.purged, ∀ h ∈ s.files.ledger, h ∈ purged

/-- What an operation leaves in the cache covers what it leaves in the ledger. -/
def Outcome.Covers (s : Open) (o : Outcome) : Prop :=
  ∀ h ∈ (s.files.commits o.commits).ledger, h ∈ o.purged

section covers
variable {B : Backend} {s : Open}

/-- Nearly every operation leaves the cache and the ledger alone. -/
theorem Outcome.covers_kept {o : Outcome} (hs : ∀ h ∈ s.files.ledger, h ∈ s.purged)
    (hp : o.purged = s.purged) (hc : ∀ h, .tombstone h ∉ o.commits) : o.Covers s := by
  intro h hh
  rcases Iff.mp mem_ledger hh with hh | hh
  · rw [hp]
    exact hs h hh
  · exact absurd hh (hc h)

theorem no_tombstone_reconciled {force : Bool} (h : String) :
    .tombstone h ∉ s.reconciled B force := by
  unfold Open.reconciled
  split
  · simp
  · split <;> simp

theorem no_tombstone_open {f : Files} (h : String) : .tombstone h ∉ openCommits B f :=
  no_tombstone_reconciled h

theorem purge_covers (hs : ∀ h ∈ s.files.ledger, h ∈ s.purged) (id : String) (deletes : Bool) :
    (s.purge B id deletes).Covers s := by
  unfold Open.purge
  split
  · exact Outcome.covers_kept hs rfl (by simp [Open.answer])
  · split
    · intro h hh
      rcases Iff.mp mem_ledger hh with hh | hh
      · exact List.mem_cons_of_mem _ (hs h hh)
      · simp only [List.mem_cons, Commit.tombstone.injEq, reduceCtorEq, List.not_mem_nil,
          or_false] at hh
        exact hh ▸ List.mem_cons_self ..
    · intro h hh
      rcases Iff.mp mem_ledger hh with hh | hh
      · exact List.mem_cons_of_mem _ (hs h hh)
      · simp only [List.mem_cons, Commit.tombstone.injEq, List.not_mem_nil, or_false] at hh
        exact hh ▸ List.mem_cons_self ..

theorem retention_covers (hs : ∀ h ∈ s.files.ledger, h ∈ s.purged) (now : Int) :
    (s.applyRetention B now).Covers s := by
  intro h hh
  simp only [Open.applyRetention] at hh ⊢
  rcases Iff.mp mem_ledger hh with hh | hh
  · exact List.mem_append_right _ (hs h hh)
  · simp only [List.mem_append, List.mem_singleton, reduceCtorEq, or_false] at hh
    exact List.mem_append_left _ (List.mem_filterMap.mpr ⟨_, hh, rfl⟩)

/-- A restore is refused, or puts what it has staged in place. -/
theorem restore_cases (s : Open) (number : Nat) (ledgerFault : Option String)
    (backupFaults : List String) :
    (∃ reasons, s.restore B number ledgerFault backupFaults =
      s.refuse (.restoreRefused reasons)) ∨
    ∃ staged, s.restore B number ledgerFault backupFaults =
      ⟨.ok .done, .memory staged :: openCommits B { s.files with db := staged },
        s.files.ledger⟩ := by
  unfold Open.restore
  split
  · exact Or.inl ⟨_, rfl⟩
  · split
    · exact Or.inl ⟨_, rfl⟩
    · split
      · exact Or.inl ⟨_, rfl⟩
      · exact Or.inr ⟨_, rfl⟩

theorem restore_covers (hs : ∀ h ∈ s.files.ledger, h ∈ s.purged) (number : Nat)
    (ledgerFault : Option String) (backupFaults : List String) :
    (s.restore B number ledgerFault backupFaults).Covers s := by
  rcases restore_cases (B := B) s number ledgerFault backupFaults with ⟨rs, hr⟩ | ⟨staged, hr⟩
  · rw [hr]
    exact Outcome.covers_kept hs rfl (by simp [Open.refuse])
  · rw [hr]
    intro h hh
    rcases Iff.mp mem_ledger hh with hh | hh
    · exact hh
    · rcases List.mem_cons.mp hh with hh | hh
      · cases hh
      · exact absurd hh (no_tombstone_open h)

/-- The three ways in which the other operations end. -/
inductive Outcome.Plain (s : Open) : Outcome → Prop
  | answer (r : Reply) : Plain s (s.answer r)
  | refuse (e : Fault) : Plain s (s.refuse e)
  | write (r : Reply) (db : Db) : Plain s (s.write r db)

theorem Outcome.Plain.covers {o : Outcome} (h : o.Plain s)
    (hs : ∀ h ∈ s.files.ledger, h ∈ s.purged) : o.Covers s := by
  cases h with
  | answer r => exact covers_kept hs rfl (by simp [Open.answer])
  | refuse e => exact covers_kept hs rfl (by simp [Open.refuse])
  | write r db => exact covers_kept hs rfl (by simp [Open.write])

theorem remember_plain (record : MemoryRecord) (uuid : String) :
    (s.remember B record uuid).Plain s := by
  unfold Open.remember
  simp only
  split
  · exact .refuse _
  · exact .write _ _

theorem update_plain (id : String) (changes : List Change) (now : Int) :
    (s.update B id changes now).Plain s := by
  unfold Open.update
  split
  · exact .refuse _
  · split
    · exact .refuse _
    · exact .refuse _
    · exact .write _ _

theorem supersede_plain (oldId : String) (new : MemoryRecord) (uuid : String) (now : Int) :
    (s.supersede B oldId new uuid now).Plain s := by
  unfold Open.supersede
  split
  · exact .refuse _
  · split
    · exact .refuse _
    · simp only
      split
      · exact .refuse _
      · exact .write _ _

theorem forget_plain (id reason : String) : (s.forget B id reason).Plain s := by
  unfold Open.forget
  split
  · exact .answer _
  · exact .write _ _

theorem reinforce_plain (id : String) (entry : ProvenanceEntry) (now : Int) :
    (s.reinforce B id entry now).Plain s := by
  unfold Open.reinforce
  split
  · exact .answer _
  · split
    · exact .answer _
    · split
      · exact .refuse _
      · split
        · exact .refuse _
        · exact .write _ _

theorem get_plain (id : String) : (s.get id).Plain s := by
  unfold Open.get
  split <;> exact .answer _

theorem provenance_plain (id : String) : (s.getProvenance id).Plain s := by
  unfold Open.getProvenance
  split <;> exact .answer _

theorem visible_plain (id : String) (now : Int) : (s.getVisible id now).Plain s := by
  unfold Open.getVisible
  split <;> exact .answer _

/-- Every operation keeps the cache ahead of the ledger. -/
theorem perform_covers (hs : ∀ h ∈ s.files.ledger, h ∈ s.purged) (c : Call) :
    (c.perform B s).Covers s := by
  cases c with
  | remember record uuid => exact (remember_plain record uuid).covers hs
  | get id => exact (get_plain id).covers hs
  | «recall» query types subject limit now => exact (Outcome.Plain.answer _).covers hs
  | search query includeSuperseded limit => exact (Outcome.Plain.answer _).covers hs
  | update id changes now => exact (update_plain id changes now).covers hs
  | supersede oldId new uuid now => exact (supersede_plain oldId new uuid now).covers hs
  | forget id reason => exact (forget_plain id reason).covers hs
  | purge id deletes => exact purge_covers hs id deletes
  | history subject => exact (Outcome.Plain.answer _).covers hs
  | listRelated id => exact (Outcome.Plain.answer _).covers hs
  | getProvenance id => exact (provenance_plain id).covers hs
  | getVisible id now => exact (visible_plain id now).covers hs
  | activeRecords now => exact (Outcome.Plain.answer _).covers hs
  | activeIds now => exact (Outcome.Plain.answer _).covers hs
  | reinforce id entry now => exact (reinforce_plain id entry now).covers hs
  | applyRetention now => exact retention_covers hs now
  | reconcile => exact Outcome.covers_kept hs rfl no_tombstone_reconciled
  | backup => exact Outcome.covers_kept hs rfl (by simp [Call.perform, Open.backup])
  | restore number ledgerFault backupFaults =>
    exact restore_covers hs number ledgerFault backupFaults

end covers

section runs
variable {B : Backend} {s : Store}

theorem take_sound (a : Action) (h : s.Sound) : (a.take B s).2.Sound := by
  cases a with
  | call c =>
    simp only [Action.take]
    split
    · exact h
    · rename_i purged hp
      intro q hq
      cases hq
      exact perform_covers (s := ⟨s.files, purged⟩) (h purged hp) c
  | crash c n =>
    simp only [Action.take]
    split
    · exact h
    · exact fun q hq => by cases hq
  | close => exact fun q hq => by cases hq
  | reopen =>
    intro q hq k hk
    cases hq
    rcases mem_ledger.mp hk with hk | hk
    · exact hk
    · exact absurd hk (no_tombstone_open k)
  | crashReopen n => exact fun q hq => by cases hq

/-- No action takes a tombstone away. -/
theorem take_tombstoned (a : Action) {id : String} (h : s.files.Tombstoned id) :
    (a.take B s).2.files.Tombstoned id := by
  cases a with
  | call c =>
    simp only [Action.take]
    split
    · exact h
    · exact h.commits _
  | crash c n =>
    simp only [Action.take]
    split
    · exact h
    · exact h.commits _
  | close => exact h
  | reopen => exact h.commits _
  | crashReopen n => exact h.commits _

end runs

/-! ### Reading -/

/-- A reply carries the record. -/
def Reply.shows (id : String) : Reply → Prop
  | found r => ∃ a ∈ r, a.id = id
  | records rs => ∃ a ∈ rs, a.id = id
  | ids is => id ∈ is
  | _ => False

/-- A read returns the record, or the provenance of it. -/
def Call.returns (id : String) (r : Reply) : Call → Prop
  | getProvenance k => k = id ∧ ∃ p ps, r = .entries (p :: ps)
  | get _ | «recall» .. | search .. | history _ | listRelated _ | getVisible .. | activeRecords _
  | activeIds _ => r.shows id
  | _ => False

/-- The record that a mutation is about. -/
def Call.about : Call → Option String
  | update id _ _ => some id
  | supersede oldId _ _ _ => some oldId
  | forget id _ => some id
  | reinforce id _ _ => some id
  | _ => none

section reads
variable {B : Backend} {s : Open} {id : String}

theorem get_record_id {db : Db} {k : String} {r : MemoryRecord} (h : getRecord db k = some r) :
    r.id = k := by
  obtain ⟨row, hrow, rfl⟩ := Option.map_eq_some_iff.mp h
  exact Table.key_of_find hrow

theorem get_visible_id {db : Db} {k : String} {now : Int} {r : MemoryRecord}
    (h : getVisibleRecord db k now = some r) : r.id = k := by
  obtain ⟨row, hrow, rfl⟩ := Option.map_eq_some_iff.mp h
  exact Table.key_of_find (Option.eq_some_of_filter_eq_some hrow)

theorem deny_filter_hides (hp : s.isPurged id = true) (rs : List MemoryRecord) :
    ¬ (Reply.records (s.denyFilter rs)).shows id := by
  rintro ⟨a, ha, rfl⟩
  have hopen := (List.mem_filter.mp ha).2
  simp [hp] at hopen

/-- What the cache denies is in no answer. -/
theorem perform_hides (hp : s.isPurged id = true) {c : Call} {r : Reply}
    (hr : (c.perform B s).reply = .ok r) : ¬ c.returns id r := by
  cases c with
  | get k =>
    simp only [Call.perform, Open.get] at hr
    split at hr
    · cases hr
      rintro ⟨a, ha, -⟩
      cases ha
    · rename_i hk
      cases hr
      rintro ⟨a, ha, rfl⟩
      exact hk (get_record_id ha ▸ hp)
  | getVisible k now =>
    simp only [Call.perform, Open.getVisible] at hr
    split at hr
    · cases hr
      rintro ⟨a, ha, -⟩
      cases ha
    · rename_i hk
      cases hr
      rintro ⟨a, ha, rfl⟩
      exact hk (get_visible_id ha ▸ hp)
  | getProvenance k =>
    simp only [Call.perform, Open.getProvenance] at hr
    rintro ⟨rfl, p, ps, rfl⟩
    rw [if_pos hp] at hr
    cases hr
  | activeIds now =>
    cases hr
    intro h
    have hopen := (List.mem_filter.mp h).2
    simp [hp] at hopen
  | «recall» query types subject limit now =>
    cases hr
    exact deny_filter_hides hp _
  | search query includeSuperseded limit =>
    cases hr
    exact deny_filter_hides hp _
  | history subject =>
    cases hr
    exact deny_filter_hides hp _
  | listRelated k =>
    cases hr
    exact deny_filter_hides hp _
  | activeRecords now =>
    cases hr
    exact deny_filter_hides hp _
  | _ => exact fun h => h

/-- A mutation of what the cache denies commits nothing. -/
theorem perform_idle (hp : s.isPurged id = true) {c : Call} (hc : c.about = some id) :
    (c.perform B s).commits = [] := by
  cases c with
  | update k changes now =>
    cases hc
    simp only [Call.perform, Open.update, if_pos hp, Open.refuse]
  | supersede k new uuid now =>
    cases hc
    simp only [Call.perform, Open.supersede, if_pos hp, Open.refuse]
  | forget k reason =>
    cases hc
    simp only [Call.perform, Open.forget, if_pos hp, Open.answer]
  | reinforce k entry now =>
    cases hc
    simp only [Call.perform, Open.reinforce, if_pos hp, Open.answer]
  | _ => cases hc

end reads

/-! ### Opening and restoring -/

/-- No table holds a row of the record. -/
structure Db.Free (B : Backend) (db : Db) (id : String) : Prop where
  memories : db.memories.find? id = none
  provenance : ∀ p ∈ db.provenance, p.memoryId ≠ id
  relations : ∀ r ∈ db.relations, r.memoryId ≠ id
  fts : B.hasFts = true → ∀ f ∈ db.fts, f.id ≠ id

section free
variable {B : Backend} {id : String}

theorem delete_rows_find {db : Db} {p : String → Bool} (hp : p id = true) :
    (db.deleteRows p).memories.find? id = none := by
  change (db.memories.filter (fun row => !p row.id)).find? id = none
  rw [find_kept, if_pos hp]

theorem reconcile_free (db : Db) {isPurged : String → Bool} (hp : isPurged id = true) :
    (reconcilePurged B db isPurged).Free B id := by
  have hm : (reconcilePurged B db isPurged).memories = (db.deleteRows isPurged).memories := by
    unfold reconcilePurged
    simp only
    split <;> rfl
  have hps : (reconcilePurged B db isPurged).provenance = (db.deleteRows isPurged).provenance := by
    unfold reconcilePurged
    simp only
    split <;> rfl
  have hrs : (reconcilePurged B db isPurged).relations = (db.deleteRows isPurged).relations := by
    unfold reconcilePurged
    simp only
    split <;> rfl
  refine ⟨hm ▸ delete_rows_find hp, ?_, ?_, ?_⟩
  · rw [hps]
    rintro p hq rfl
    simpa [hp] using (List.mem_filter.mp hq).2
  · rw [hrs]
    rintro r hr rfl
    simpa [hp] using (List.mem_filter.mp hr).2
  · intro hfts f hf he
    simp only [reconcilePurged, if_pos hfts, pruneOrphanFts, Db.setFts] at hf
    have hfound := (List.mem_filter.mp hf).2
    rw [he, delete_rows_find hp] at hfound
    cases hfound

/-- The opening removes what the ledger names. -/
theorem open_free {f : Files} (h : f.Tombstoned id) :
    (f.commits (openCommits B f)).db.Free B id := by
  have hne : f.ledger ≠ [] := List.ne_nil_of_mem h
  simp only [openCommits, Open.reconciled, if_pos hne, Files.commits, List.foldl_cons,
    List.foldl_nil, Files.commit]
  exact reconcile_free f.db (decide_eq_true h)

theorem restore_free {s : Open} (h : s.files.Tombstoned id) {number : Nat}
    {ledgerFault : Option String} {backupFaults : List String} {r : Reply}
    (hr : (s.restore B number ledgerFault backupFaults).reply = .ok r) :
    (s.files.commits (s.restore B number ledgerFault backupFaults).commits).db.Free B id := by
  rcases restore_cases (B := B) s number ledgerFault backupFaults with ⟨rs, he⟩ | ⟨staged, he⟩
  · rw [he] at hr
    cases hr
  · rw [he]
    exact open_free (B := B) (f := { s.files with db := staged }) h

/-- A refused restore commits nothing. -/
theorem restore_refused {s : Open} {number : Nat} {ledgerFault : Option String}
    {backupFaults : List String} {e : Fault}
    (hr : (s.restore B number ledgerFault backupFaults).reply = .error e) :
    (s.restore B number ledgerFault backupFaults).commits = [] ∧
      (s.restore B number ledgerFault backupFaults).purged = s.purged := by
  rcases restore_cases (B := B) s number ledgerFault backupFaults with ⟨rs, he⟩ | ⟨staged, he⟩
  · rw [he]
    exact ⟨rfl, rfl⟩
  · rw [he] at hr
    cases hr

end free

/-! ### Runs -/

/-- The operation that an action makes, to its end or to a crash. -/
def Action.makes : Action → Option Call
  | call c => some c
  | crash c _ => some c
  | _ => none

section actions
variable {B : Backend} {s : Store} {id : String}

theorem take_hides (hs : s.Sound) (ht : s.files.Tombstoned id) {c : Call} {r : Reply}
    (hr : ((Action.call c).take B s).1 = .ok r) : ¬ c.returns id r := by
  simp only [Action.take] at hr
  split at hr
  · cases hr
  · rename_i purged hp
    exact perform_hides (decide_eq_true (hs purged hp _ ht)) hr

theorem take_idle (hs : s.Sound) (ht : s.files.Tombstoned id) {a : Action} {c : Call}
    (ha : a.makes = some c) (hc : c.about = some id) : (a.take B s).2.files = s.files := by
  cases a with
  | call d =>
    cases ha
    simp only [Action.take]
    split
    · rfl
    · rename_i purged hp
      rw [perform_idle (decide_eq_true (hs purged hp _ ht)) hc]
      rfl
  | crash d n =>
    cases ha
    simp only [Action.take]
    split
    · rfl
    · rename_i purged hp
      rw [perform_idle (decide_eq_true (hs purged hp _ ht)) hc]
      simp [Files.commits]
  | _ => cases ha

theorem take_restore_free (ht : s.files.Tombstoned id) {number : Nat} {ledgerFault : Option String}
    {backupFaults : List String} {r : Reply}
    (hr : ((Action.call (.restore number ledgerFault backupFaults)).take B s).1 = .ok r) :
    ((Action.call (.restore number ledgerFault backupFaults)).take B s).2.files.db.Free B id := by
  simp only [Action.take] at hr ⊢
  split at hr
  · cases hr
  · rename_i purged hp
    exact restore_free (s := ⟨s.files, purged⟩) ht hr

theorem take_refused {number : Nat} {ledgerFault : Option String} {backupFaults : List String}
    {e : Fault}
    (hr : ((Action.call (.restore number ledgerFault backupFaults)).take B s).1 = .error e) :
    ((Action.call (.restore number ledgerFault backupFaults)).take B s).2 = s := by
  obtain ⟨files, cache⟩ := s
  cases cache with
  | none => rfl
  | some purged =>
    simp only [Action.take] at hr ⊢
    obtain ⟨hc, hp⟩ := restore_refused (s := ⟨files, purged⟩) hr
    simp only [Call.perform, hc, hp]
    rfl

end actions

theorem run_sound {B : Backend} {h : List (machine B).Entry} {s : Store}
    {permits : List (machine B).Entry → Action → Prop} (hrun : (machine B).Run permits h s) :
    s.Sound :=
  hrun.invariant Store.Sound (fun q hq => by cases hq) (fun _ _ a _ hs => take_sound a hs)

/-- A step that opens the store, or completes a restore. -/
def Opens {B : Backend} (e : (machine B).Entry) : Prop :=
  e.call = Action.reopen ∨ ∃ number ledgerFault backupFaults r,
    e.call = Action.call (.restore number ledgerFault backupFaults) ∧ e.reply = Except.ok r

/-- Once a record has a tombstone, no read returns it, no mutation of it
changes a file, and every opening and restore leaves no row of it. A restore
that is refused leaves everything as it was. -/
theorem purged_never_returns {B : Backend} {h : List (machine B).Entry} {s : Store}
    (hrun : (machine B).Run (fun _ _ => True) h s) :
    (∀ newer e older id, h = newer ++ e :: older → e.post.files.Tombstoned id → ∀ n ∈ newer,
      (∀ c r, n.call = Action.call c → n.reply = Except.ok r → ¬ c.returns id r) ∧
      (∀ c, Action.makes n.call = some c → c.about = some id → n.post.files = n.pre.files) ∧
      (Opens n → n.post.files.db.Free B id)) ∧
    (∀ e ∈ h, ∀ number ledgerFault backupFaults fault,
      e.call = Action.call (.restore number ledgerFault backupFaults) →
      e.reply = Except.error fault → e.post = e.pre) := by
  constructor
  · rintro newer e older id rfl he n hn
    have ht : n.pre.files.Tombstoned id :=
      (hrun.since (fun s => s.files.Tombstoned id) he
        (fun _ _ a _ _ hs => take_tombstoned a hs)).2 n hn
    obtain ⟨_, _, -, hbefore, -⟩ := hrun.of_mem (List.mem_append_left (e :: older) hn)
    have hs : n.pre.Sound := run_sound hbefore
    obtain ⟨pre, a⟩ := n
    refine ⟨?_, ?_, ?_⟩
    · rintro c r rfl hr
      exact take_hides hs ht hr
    · intro c hc habout
      exact take_idle hs ht hc habout
    · rintro (rfl | ⟨number, ledgerFault, backupFaults, r, rfl, hr⟩)
      · exact open_free ht
      · exact take_restore_free ht hr
  · rintro ⟨pre, a⟩ - number ledgerFault backupFaults fault rfl hr
    exact take_refused hr

namespace Sample

/-- One-word texts, which a query matches if it is the same word. -/
def backend : Backend where
  hasFts := true
  credential _ := false
  matched rows query := (rows.filter (fun f => f.content = query)).map FtsRow.id
  like rows query := (rows.filter (fun r => r.content = query)).map MemoryRow.id

def coffee : MemoryRecord where
  id := ""
  memoryType := .preference
  content := "kaffee"
  subject := "kaffee"
  source := "voice"
  sourceType := .userDirect
  createdAt := 0
  updatedAt := 0
  trustLevel := .userDirect

/-- The process dies between the tombstone and the delete; later the backup
from before is restored. -/
def actions : List Action := [.reopen, .call (.remember coffee "m1"), .call .backup,
  .crash (.purge "m1" true) 1, .reopen, .call (.search "kaffee" true 20),
  .call (.restore 0 none [])]

theorem actions_run : (machine backend).Run (fun _ _ => True)
    ((machine backend).history [] (machine backend).init actions)
    ((machine backend).after (machine backend).init actions) :=
  Machine.Run.history .start (fun _ _ _ => trivial)

end Sample

/-- The restored store of the sample run has no row of the purged record. -/
theorem purged_never_returns_sample :
    ((machine Sample.backend).after (machine Sample.backend).init
      Sample.actions).files.db.Free Sample.backend "m1" := by
  have h := (purged_never_returns Sample.actions_run).1
    (((machine Sample.backend).history [] (machine Sample.backend).init Sample.actions).take 3) _
    (((machine Sample.backend).history [] (machine Sample.backend).init Sample.actions).drop 4)
    "m1" rfl (by decide +kernel) _ (List.mem_cons_self ..)
  exact h.2.2 (Or.inr ⟨0, none, [], .done, rfl, rfl⟩)

end Solvio.Memory
