import Solvio.Memory.Purged

namespace Solvio.Memory.Retention
open Solvio.Lib

/-! ### What is kept under an id -/

/-- A record with all that belongs to it. -/
structure Slot where
  row : Option MemoryRow
  provenance : List ProvenanceEntry
  relations : List Relation
deriving DecidableEq

def Slot.empty : Slot := ⟨none, [], []⟩

def slot (db : Db) (id : String) : Slot :=
  ⟨db.memories.find? id, db.provenanceOf id, db.relationsOf id⟩

/-- The time of a policy is over. -/
def expired (row : MemoryRow) (now : Int) : Bool :=
  row.retentionPolicy.mode = .ttl &&
    row.retentionPolicy.ttlDays.any (fun days => row.createdAt + days * 86400 ≤ now)

/-- The row of a forgotten record. -/
def lapsed (row : MemoryRow) : MemoryRow :=
  { row with forgotten := true, forgottenReason := "ttl_expiry_forget" }

/-- `WHERE forgotten=0`. -/
def lapse (row : MemoryRow) : MemoryRow := if row.forgotten then row else lapsed row

theorem lapse_id (row : MemoryRow) : (lapse row).id = row.id := by
  unfold lapse
  split <;> rfl

/-- What the sweep makes of a current record whose time is over. -/
def Slot.retired (x : Slot) (purge : Bool) : Slot :=
  if purge then .empty
  else { x with row := x.row.map lapse }

/-- What the sweep leaves of a record. -/
def Slot.swept (now : Int) (x : Slot) : Slot :=
  match x.row with
  | none => x
  | some row =>
    if row.current && expired row now then x.retired row.retentionPolicy.purgeOnExpiry else x

theorem retired_twice (x : Slot) (purge : Bool) : (x.retired purge).retired purge = x.retired purge := by
  cases purge with
  | true => rfl
  | false =>
    obtain ⟨row, ps, rs⟩ := x
    cases row with
    | none => rfl
    | some row =>
      cases h : row.forgotten <;> simp [Slot.retired, lapse, h, lapsed]

theorem swept_twice (now : Int) (x : Slot) : (x.swept now).swept now = x.swept now := by
  obtain ⟨row, ps, rs⟩ := x
  cases row with
  | none => rfl
  | some row =>
    by_cases hdue : (row.current && expired row now) = true
    · have hkept : row.forgotten = false := by
        simp only [MemoryRow.current, Bool.and_eq_true, Bool.not_eq_true'] at hdue
        exact hdue.1.1
      have hswept : Slot.swept now ⟨some row, ps, rs⟩ =
          Slot.retired ⟨some row, ps, rs⟩ row.retentionPolicy.purgeOnExpiry := if_pos hdue
      rw [hswept]
      cases row.retentionPolicy.purgeOnExpiry with
      | true => rfl
      | false =>
        simp [Slot.retired, lapse, hkept, lapsed, Slot.swept, MemoryRow.current]
    · have hswept : Slot.swept now ⟨some row, ps, rs⟩ = ⟨some row, ps, rs⟩ := if_neg hdue
      rw [hswept, hswept]

/-! ### One statement -/

section statements
variable {B : Backend} {db : Db} {id : String}

theorem slot_none (h : db.memories.find? id = none) : slot db id = .empty := by
  have hps : db.provenanceOf id = [] := by
    rw [Db.provenanceOf, List.map_eq_nil_iff, List.filter_eq_nil_iff]
    intro p hp heq
    have hown := db.owned p hp
    rw [of_decide_eq_true heq, h] at hown
    cases hown
  have hrs : db.relationsOf id = [] := by
    have hnone : db.relations.filter (fun r => r.memoryId = id) = [] := by
      rw [List.filter_eq_nil_iff]
      intro r hr heq
      have hlink := db.linked r hr
      rw [of_decide_eq_true heq, h] at hlink
      cases hlink
    rw [Db.relationsOf, hnone]
    rfl
  rw [slot, h, hps, hrs]
  rfl

@[simp] theorem slot_fts (db : Db) (k id : String) : slot (ftsDelete B db k) id = slot db id := by
  unfold ftsDelete
  split <;> rfl

theorem slot_delete (db : Db) (p : String → Bool) (id : String) :
    slot (db.deleteRows p) id = if p id then .empty else slot db id := by
  split
  · rename_i hp
    exact slot_none (delete_rows_find hp)
  · rename_i hp
    have hfind : (db.deleteRows p).memories.find? id = db.memories.find? id := by
      change (db.memories.filter (fun row => !p row.id)).find? id = _
      rw [find_kept, if_neg hp]
    have hps : (db.deleteRows p).provenanceOf id = db.provenanceOf id := by
      simp only [Db.provenanceOf, Db.deleteRows, List.filter_filter]
      congr 1
      apply List.filter_congr
      intro q _
      by_cases hq : q.memoryId = id
      · simp [hq, hp]
      · simp [hq]
    have hrs : (db.deleteRows p).relationsOf id = db.relationsOf id := by
      simp only [Db.relationsOf, Db.deleteRows, List.filter_filter]
      congr 2
      apply List.filter_congr
      intro q _
      by_cases hq : q.memoryId = id
      · simp [hq, hp]
      · simp [hq]
    rw [slot, hfind, hps, hrs, slot]

theorem slot_hard_delete (db : Db) (k id : String) :
    slot (hardDelete B db k) id = if id = k then .empty else slot db id := by
  rw [hardDelete, slot_fts, slot_delete]
  simp only [decide_eq_true_eq]

theorem slot_forgotten (db : Db) (k id : String) :
    slot (setForgotten B db k "ttl_expiry_forget").2 id =
      if id = k then (slot db id).retired false else slot db id := by
  unfold setForgotten
  cases hrow : db.memories.find? k with
  | none =>
    dsimp only
    split
    · rename_i heq
      rw [heq, slot_none hrow]
      rfl
    · rfl
  | some row =>
    dsimp only
    by_cases hforgotten : row.forgotten = true
    · rw [if_pos hforgotten]
      split
      · rename_i heq
        simp [heq, slot, hrow, Slot.retired, lapse, hforgotten]
      · rfl
    · rw [if_neg hforgotten, slot_fts]
      have hfind : (db.updateRow k lapsed (fun _ => rfl)).memories.find? id =
          if id = k then (db.memories.find? k).map lapsed else db.memories.find? id :=
        Table.find_modify db.memories k id lapsed (fun _ => rfl)
      change slot (db.updateRow k lapsed (fun _ => rfl)) id = _
      split
      · rename_i heq
        rw [slot, hfind, if_pos heq, heq, hrow]
        simp only [Slot.retired, slot, hrow, Bool.false_eq_true, if_false, Option.map_some, lapse,
          hforgotten]
        rfl
      · rename_i hne
        rw [slot, hfind, if_neg hne]
        rfl

end statements

/-! ### The whole sweep -/

section sweep
variable {B : Backend} {db : Db} {now : Int} {id : String}

/-- A record that the sweep takes out, and whether for good. -/
def Due (db : Db) (now : Int) (id : String) (purge : Bool) : Prop :=
  ∃ row, db.memories.find? id = some row ∧ row.current = true ∧ expired row now = true ∧
    row.retentionPolicy.purgeOnExpiry = purge

theorem mem_expired {purge : Bool} : (id, purge) ∈ expiredActive db now ↔ Due db now id purge := by
  unfold expiredActive
  simp only [List.mem_filterMap, List.mem_filter, Bool.and_eq_true, decide_eq_true_eq,
    Option.bind_eq_some_iff, Option.ite_none_right_eq_some, Option.some.injEq, Prod.mk.injEq]
  constructor
  · rintro ⟨row, ⟨hrow, hmode, hcurrent⟩, days, hdays, hover, rfl, rfl⟩
    exact ⟨row, Table.find_of_mem hrow, hcurrent, by simp [expired, hmode, hdays, hover], rfl⟩
  · rintro ⟨row, hfind, hcurrent, hexpired, rfl⟩
    simp only [expired, Bool.and_eq_true, decide_eq_true_eq, Option.any_eq_true] at hexpired
    obtain ⟨hmode, days, hdays, hover⟩ := hexpired
    exact ⟨row, ⟨Table.mem_of_find hfind, hmode, hcurrent⟩, days, hdays, hover,
      Table.key_of_find hfind, rfl⟩

theorem due_unique {purge purge' : Bool} (h : Due db now id purge) (h' : Due db now id purge') :
    purge = purge' := by
  obtain ⟨row, hfind, -, -, rfl⟩ := h
  obtain ⟨row', hfind', -, -, rfl⟩ := h'
  rw [Option.some.inj (hfind.symm.trans hfind')]

theorem swept_due {purge : Bool} (h : Due db now id purge) :
    (slot db id).swept now = (slot db id).retired purge := by
  obtain ⟨row, hfind, hcurrent, hexpired, rfl⟩ := h
  simp [Slot.swept, slot, hfind, hcurrent, hexpired]

theorem swept_kept (h : ∀ purge, ¬ Due db now id purge) : (slot db id).swept now = slot db id := by
  cases hfind : db.memories.find? id with
  | none => simp [Slot.swept, slot, hfind]
  | some row =>
    have hnot : ¬ (row.current && expired row now) = true := fun hdue =>
      h _ ⟨row, hfind, ((Bool.and_eq_true _ _).mp hdue).1, ((Bool.and_eq_true _ _).mp hdue).2, rfl⟩
    simp only [Slot.swept, slot, hfind]
    exact if_neg hnot

/-- One round takes out the record it is about. -/
theorem slot_retire (acc : List Commit × Db) (e : String × Bool) :
    slot (Open.retire B acc e).2 id =
      if id = e.1 then (slot acc.2 id).retired e.2 else slot acc.2 id := by
  obtain ⟨k, purge⟩ := e
  cases purge with
  | false => exact slot_forgotten acc.2 k id
  | true =>
    simp only [Open.retire, if_true]
    cases hget : getRecord acc.2 k with
    | some r => exact slot_hard_delete acc.2 k id
    | none =>
      dsimp only
      split
      · rename_i heq
        have hnone : acc.2.memories.find? k = none := Option.map_eq_none_iff.mp hget
        rw [heq, slot_none hnone]
        rfl
      · rfl

/-- The rounds for one record agree, so that one of them counts. -/
theorem slot_rounds {σ : Type} (view : σ → Db) (step : σ → String × Bool → σ)
    (hstep : ∀ acc e, slot (view (step acc e)) id =
      if id = e.1 then (slot (view acc) id).retired e.2 else slot (view acc) id)
    (purge : Bool) (rounds : List (String × Bool)) :
    ∀ acc : σ, (∀ e ∈ rounds, e.1 = id → e.2 = purge) → slot (view (rounds.foldl step acc)) id =
      if (id, purge) ∈ rounds then (slot (view acc) id).retired purge else slot (view acc) id := by
  induction rounds with
  | nil => simp
  | cons e rounds ih =>
    intro acc hagree
    rw [List.foldl_cons, ih _ (fun e' he' => hagree e' (List.mem_cons_of_mem _ he')), hstep]
    by_cases heq : id = e.1
    · have hpurge : e.2 = purge := hagree e (List.mem_cons_self ..) heq.symm
      have hmem : (id, purge) ∈ e :: rounds := by
        rw [heq, ← hpurge]
        exact List.mem_cons_self ..
      rw [if_pos heq, if_pos hmem, hpurge]
      split
      · exact retired_twice _ _
      · rfl
    · have hmem : (id, purge) ∈ e :: rounds ↔ (id, purge) ∈ rounds := by
        rw [List.mem_cons, or_iff_right]
        rintro rfl
        exact heq rfl
      rw [if_neg heq]
      simp only [hmem]

/-- All rounds for what is due sweep every record. -/
theorem slot_expired {σ : Type} (view : σ → Db) (step : σ → String × Bool → σ)
    (hstep : ∀ acc e, slot (view (step acc e)) id =
      if id = e.1 then (slot (view acc) id).retired e.2 else slot (view acc) id) {acc : σ}
    (hview : view acc = db) :
    slot (view ((expiredActive db now).foldl step acc)) id = (slot db id).swept now := by
  by_cases hdue : ∃ purge, Due db now id purge
  · obtain ⟨purge, hdue⟩ := hdue
    rw [slot_rounds view step hstep purge, if_pos (Iff.mpr mem_expired hdue), swept_due hdue, hview]
    rintro ⟨k, purge'⟩ he rfl
    exact due_unique (Iff.mp mem_expired he) hdue
  · have hkept : ∀ purge, ¬ Due db now id purge := fun purge h => hdue ⟨purge, h⟩
    rw [slot_rounds view step hstep true, if_neg (fun h => hkept _ (Iff.mp mem_expired h)),
      swept_kept hkept, hview]
    rintro ⟨k, purge'⟩ he rfl
    exact absurd (Iff.mp mem_expired he) (hkept _)

theorem find_retire (acc : List Commit × Db) (e : String × Bool) :
    ((Open.retire B acc e).2.memories.find? id).isSome =
      ((acc.2.memories.find? id).isSome && !(id = e.1 && e.2)) := by
  have hretire : slot (Open.retire B acc e).2 id = _ := slot_retire acc e
  have h := congrArg (fun x => x.row.isSome) hretire
  change ((Open.retire B acc e).2.memories.find? id).isSome = _ at h
  rw [h]
  split
  · rename_i heq
    cases e.2 <;> simp [Slot.retired, Slot.empty, slot, heq]
  · rename_i hne
    simp [slot, hne]

/-- The tombstones of a sweep. -/
theorem mem_rounds {h : String} (rounds : List (String × Bool)) : ∀ acc : List Commit × Db,
    (.tombstone h ∈ (rounds.foldl (Open.retire B) acc).1 ↔ .tombstone h ∈ acc.1 ∨
      ∃ id, (id, true) ∈ rounds ∧ (acc.2.memories.find? id).isSome = true ∧ hashId id = h) := by
  induction rounds with
  | nil => simp
  | cons e rounds ih =>
    intro acc
    obtain ⟨k, purge⟩ := e
    rw [List.foldl_cons, ih]
    cases purge with
    | false =>
      have hcommits : (Open.retire B acc (k, false)).1 = acc.1 := rfl
      simp only [hcommits, find_retire, Bool.and_false, Bool.not_false, Bool.and_true,
        List.mem_cons, Prod.mk.injEq, Bool.true_eq_false, and_false, false_or]
    | true =>
      cases hfind : acc.2.memories.find? k with
      | none =>
        have hsame : Open.retire B acc (k, true) = acc := by
          simp [Open.retire, getRecord, hfind]
        rw [hsame]
        constructor
        · rintro (hleft | ⟨id, hid, hrest⟩)
          · exact .inl hleft
          · exact .inr ⟨id, List.mem_cons_of_mem _ hid, hrest⟩
        · rintro (hleft | ⟨id, hid, hsome, hhash⟩)
          · exact .inl hleft
          · rcases List.mem_cons.mp hid with heq | hid
            · cases heq
              rw [hfind] at hsome
              cases hsome
            · exact .inr ⟨id, hid, hsome, hhash⟩
      | some row =>
        have hcommits : (Open.retire B acc (k, true)).1 = acc.1 ++ [.tombstone (hashId k)] := by
          simp [Open.retire, getRecord, hfind]
        simp only [hcommits, find_retire, List.mem_append, List.mem_singleton,
          Commit.tombstone.injEq, Bool.and_true]
        constructor
        · rintro ((hleft | rfl) | ⟨id, hid, hsome, hhash⟩)
          · exact .inl hleft
          · exact .inr ⟨k, List.mem_cons_self .., by rw [hfind]; rfl, rfl⟩
          · exact .inr ⟨id, List.mem_cons_of_mem _ hid, ((Bool.and_eq_true _ _).mp hsome).1, hhash⟩
        · rintro (hleft | ⟨id, hid, hsome, hhash⟩)
          · exact .inl (.inl hleft)
          · by_cases heq : id = k
            · exact .inl (.inr (by rw [← hhash, heq]))
            · rcases List.mem_cons.mp hid with he | hid
              · cases he
                exact absurd rfl heq
              · exact .inr ⟨id, hid, by simp [hsome, heq], hhash⟩

end sweep

/-! ### What a sweep leaves -/

/-- The files behind a sweep. -/
def sweptFiles (B : Backend) (s : Open) (now : Int) : Files :=
  s.files.commits (s.applyRetention B now).commits

section after
variable {B : Backend} {s : Open} {now : Int} {id : String}

theorem swept_db : (sweptFiles B s now).db =
    ((expiredActive s.files.db now).foldl (Open.retire B) ([], s.files.db)).2 := by
  simp only [sweptFiles, Open.applyRetention, Files.commits, List.foldl_append, List.foldl_cons,
    List.foldl_nil, Files.commit]

theorem swept_slot : slot (sweptFiles B s now).db id = (slot s.files.db id).swept now := by
  rw [swept_db]
  exact slot_expired Prod.snd (Open.retire B) slot_retire rfl

theorem swept_ledger {h : String} : h ∈ (sweptFiles B s now).ledger ↔
    h ∈ s.files.ledger ∨ ∃ id, Due s.files.db now id true ∧ hashId id = h := by
  rw [sweptFiles, mem_ledger]
  refine or_congr_right ?_
  simp only [Open.applyRetention, List.mem_append, List.mem_singleton, reduceCtorEq, or_false,
    mem_rounds, List.not_mem_nil, false_or, mem_expired]
  refine exists_congr fun id => and_congr_right fun hdue => and_iff_right ?_
  obtain ⟨row, hfind, -⟩ := hdue
  rw [hfind]
  rfl

/-- Nothing is due any more in a swept record. -/
theorem not_due_of_swept {db db' : Db} (h : slot db' id = (slot db id).swept now) (purge : Bool) :
    ¬ Due db' now id purge := by
  intro hdue
  have hsame := swept_due hdue
  rw [h, swept_twice, ← h] at hsame
  obtain ⟨row, hfind, hcurrent, -⟩ := hdue
  have hrow : ((slot db' id).retired purge).row = some row := by
    rw [← hsame]
    exact hfind
  cases purge with
  | true => cases hrow
  | false =>
    obtain ⟨old, -, hold⟩ := Option.map_eq_some_iff.mp hrow
    have hforgotten : row.forgotten = true := by
      rw [← hold, lapse]
      split
      · assumption
      · rfl
    simp [MemoryRow.current, hforgotten] at hcurrent

theorem swept_not_due (purge : Bool) : ¬ Due (sweptFiles B s now).db now id purge :=
  not_due_of_swept swept_slot purge

theorem swept_again (purged : List String) :
    sweptFiles B ⟨sweptFiles B s now, purged⟩ now = sweptFiles B s now := by
  have hnone : expiredActive (sweptFiles B s now).db now = [] := by
    rw [List.eq_nil_iff_forall_not_mem]
    rintro ⟨id, purge⟩ he
    exact swept_not_due purge (mem_expired.mp he)
  generalize sweptFiles B s now = f at hnone
  simp only [sweptFiles, Open.applyRetention, hnone, List.foldl_nil, List.nil_append,
    Files.commits, List.foldl_cons, Files.commit]

end after

/-! ### A sweep that does not come to its end -/

/-- The single effects of the loop. -/
inductive Part where
  | tombstone (id : String)
  | deny (id : String)
  | deleteRow (id : String)
  | deleteFts (id : String)
  | forget (id : String)

def Part.apply (B : Backend) (s : Open) : Part → Open
  | tombstone id => { s with files := s.files.commit (.tombstone (hashId id)) }
  | deny id => { s with purged := hashId id :: s.purged }
  | deleteRow id => { s with files.db := s.files.db.deleteRows (· = id) }
  | deleteFts id => { s with files.db := ftsDelete B s.files.db id }
  | forget id => { s with files.db := s.files.db.updateRow id lapse lapse_id }

/-- A round: the tombstone stands before the row goes. -/
def parts (e : String × Bool) : List Part :=
  if e.2 then [.tombstone e.1, .deny e.1, .deleteRow e.1, .deleteFts e.1]
  else [.forget e.1, .deleteFts e.1]

/-- What a process sees that goes on behind a sweep which has raised. -/
def halted (B : Backend) (s : Open) (now : Int) (n : Nat) : Open :=
  (((expiredActive s.files.db now).flatMap parts).take n).foldl (Part.apply B) s

/-- Some of the records are swept already, and none without its tombstone. -/
structure Between (s t : Open) (now : Int) : Prop where
  slots : ∀ id, slot t.files.db id = slot s.files.db id ∨
    slot t.files.db id = (slot s.files.db id).swept now
  kept : ∀ h ∈ s.files.ledger, h ∈ t.files.ledger
  new : ∀ h ∈ t.files.ledger, h ∈ s.files.ledger ∨
    ∃ id, Due s.files.db now id true ∧ hashId id = h
  first : ∀ id, Due s.files.db now id true → slot t.files.db id = .empty →
    hashId id ∈ t.files.ledger

section between
variable {B : Backend} {s t : Open} {now : Int} {id : String}

theorem Between.refl (s : Open) (now : Int) : Between s s now where
  slots := fun _ => .inl rfl
  kept := fun _ h => h
  new := fun _ h => .inl h
  first := by
    rintro id ⟨row, hfind, -⟩ hempty
    have hnone : s.files.db.memories.find? id = none := congrArg Slot.row hempty
    rw [hfind] at hnone
    cases hnone

theorem mem_tombstone {f : Files} {h k : String} :
    k ∈ (f.commit (.tombstone h)).ledger ↔ k ∈ f.ledger ∨ k = h := by
  change k ∈ (f.commits [.tombstone h]).ledger ↔ _
  rw [mem_ledger]
  simp

theorem Between.tombstone (h : Between s t now) (hdue : Due s.files.db now id true) :
    Between s (Part.apply B t (.tombstone id)) now where
  slots := h.slots
  kept := fun k hk => Iff.mpr mem_tombstone (.inl (h.kept k hk))
  new := fun k hk => by
    rcases Iff.mp mem_tombstone hk with hk | rfl
    · exact h.new k hk
    · exact .inr ⟨id, hdue, rfl⟩
  first := fun k hk hempty => Iff.mpr mem_tombstone (.inl (h.first k hk hempty))

/-- A change of one record to its swept form. -/
theorem Between.change (h : Between s t now) {t' : Open} {purge : Bool}
    (hdue : Due s.files.db now id purge) (hledger : t'.files.ledger = t.files.ledger)
    (htomb : purge = true → hashId id ∈ t.files.ledger)
    (hslot : ∀ k, slot t'.files.db k =
      if k = id then (slot t.files.db k).retired purge else slot t.files.db k) :
    Between s t' now where
  slots := fun k => by
    rw [hslot]
    split
    · rename_i heq
      right
      rw [heq, swept_due hdue]
      rcases h.slots id with hs | hs
      · rw [hs]
      · rw [hs, swept_due hdue, retired_twice]
    · exact h.slots k
  kept := by
    rw [hledger]
    exact h.kept
  new := by
    rw [hledger]
    exact h.new
  first := fun k hk hempty => by
    rw [hledger]
    rw [hslot] at hempty
    split at hempty
    · rename_i heq
      subst heq
      exact htomb (due_unique hdue hk)
    · exact h.first k hk hempty

theorem Between.fts (h : Between s t now) (k : String) :
    Between s (Part.apply B t (.deleteFts k)) now := by
  have hslot : ∀ id, slot (Part.apply B t (.deleteFts k)).files.db id = slot t.files.db id :=
    fun id => slot_fts t.files.db k id
  exact {
    slots := fun id => by
      rw [hslot]
      exact h.slots id
    kept := h.kept
    new := h.new
    first := fun id hdue hempty => h.first id hdue (hslot id ▸ hempty) }

theorem Between.deleteRow (h : Between s t now) (hdue : Due s.files.db now id true)
    (htomb : hashId id ∈ t.files.ledger) :
    Between s (Part.apply B t (.deleteRow id)) now := by
  refine h.change hdue rfl (fun _ => htomb) fun k => ?_
  change slot (t.files.db.deleteRows (· = id)) k = _
  rw [slot_delete]
  simp only [decide_eq_true_eq]
  rfl

theorem Between.forget (h : Between s t now) (hdue : Due s.files.db now id false) :
    Between s (Part.apply B t (.forget id)) now := by
  refine h.change hdue rfl (fun he => by cases he) fun k => ?_
  have hfind : (Part.apply B t (.forget id)).files.db.memories.find? k =
      if k = id then (t.files.db.memories.find? id).map lapse else t.files.db.memories.find? k :=
    Table.find_modify t.files.db.memories id k lapse lapse_id
  split
  · rename_i heq
    rw [slot, hfind, if_pos heq, heq]
    rfl
  · rename_i hne
    rw [slot, hfind, if_neg hne]
    rfl

/-- A round, or a part of one. -/
theorem Between.round (h : Between s t now) {e : String × Bool}
    (he : Due s.files.db now e.1 e.2) (n : Nat) :
    Between s (((parts e).take n).foldl (Part.apply B) t) now := by
  obtain ⟨id, purge⟩ := e
  cases purge with
  | false =>
    have h₁ : Between s (Part.apply B t (.forget id)) now := h.forget he
    have h₂ : Between s (Part.apply B (Part.apply B t (.forget id)) (.deleteFts id)) now := h₁.fts id
    match n with
    | 0 => exact h
    | 1 => exact h₁
    | n + 2 =>
      rw [List.take_of_length_le (Nat.le_add_left 2 n)]
      exact h₂
  | true =>
    have h₁ : Between s (Part.apply B t (.tombstone id)) now := h.tombstone he
    have htomb : hashId id ∈ (Part.apply B t (.tombstone id)).files.ledger :=
      Iff.mpr mem_tombstone (.inr rfl)
    have h₂ : Between s (Part.apply B (Part.apply B t (.tombstone id)) (.deny id)) now :=
      ⟨h₁.slots, h₁.kept, h₁.new, h₁.first⟩
    have h₃ := h₂.deleteRow (B := B) he htomb
    have h₄ := h₃.fts (B := B) id
    match n with
    | 0 => exact h
    | 1 => exact h₁
    | 2 => exact h₂
    | 3 => exact h₃
    | n + 4 =>
      rw [List.take_of_length_le (Nat.le_add_left 4 n)]
      exact h₄

theorem Between.rounds {rounds : List (String × Bool)}
    (hdue : ∀ e ∈ rounds, Due s.files.db now e.1 e.2) :
    ∀ (t : Open) (n : Nat), Between s t now →
      Between s (((rounds.flatMap parts).take n).foldl (Part.apply B) t) now := by
  induction rounds with
  | nil =>
    intro t n h
    simpa using h
  | cons e rounds ih =>
    intro t n h
    rw [List.flatMap_cons, List.take_append, List.foldl_append]
    exact ih (fun e' he' => hdue e' (List.mem_cons_of_mem _ he')) _ _
      (h.round (hdue e (List.mem_cons_self ..)) n)

theorem halted_between (n : Nat) : Between s (halted B s now n) now :=
  Between.rounds (fun _ he => mem_expired.mp he) s n (.refl s now)

/-- What is left to do behind a part of a sweep. -/
theorem Between.due (h : Between s t now) {purge : Bool} (hdue : Due t.files.db now id purge) :
    Due s.files.db now id purge := by
  rcases h.slots id with hs | hs
  · obtain ⟨row, hfind, hrest⟩ := hdue
    have hrow : s.files.db.memories.find? id = some row := by
      rw [← hfind]
      exact (congrArg Slot.row hs).symm
    exact ⟨row, hrow, hrest⟩
  · exact absurd hdue (not_due_of_swept hs purge)

/-- Run again, the sweep comes to the same. -/
theorem Between.again (h : Between s t now) :
    (∀ id, slot (sweptFiles B t now).db id = slot (sweptFiles B s now).db id) ∧
    ∀ k, k ∈ (sweptFiles B t now).ledger ↔ k ∈ (sweptFiles B s now).ledger := by
  refine ⟨fun id => ?_, fun k => ?_⟩
  · rw [swept_slot, swept_slot]
    rcases h.slots id with hs | hs
    · rw [hs]
    · rw [hs, swept_twice]
  · rw [swept_ledger, swept_ledger]
    constructor
    · rintro (hk | ⟨id, hdue, rfl⟩)
      · exact h.new k hk
      · exact .inr ⟨id, h.due hdue, rfl⟩
    · rintro (hk | ⟨id, hdue, rfl⟩)
      · exact .inl (h.kept k hk)
      · rcases h.slots id with hs | hs
        · obtain ⟨row, hfind, hrest⟩ := hdue
          have hrow : t.files.db.memories.find? id = some row := by
            rw [← hfind]
            exact congrArg Slot.row hs
          exact .inr ⟨id, ⟨row, hrow, hrest⟩, rfl⟩
        · rw [swept_due hdue] at hs
          exact .inl (h.first id hdue hs)

/-- All parts together are the sweep. -/
theorem halted_whole {n : Nat} (hn : ((expiredActive s.files.db now).flatMap parts).length ≤ n) :
    slot (halted B s now n).files.db id = (slot s.files.db id).swept now := by
  rw [halted, List.take_of_length_le hn, List.foldl_flatMap]
  refine slot_expired (fun t : Open => t.files.db) _ ?_ rfl
  rintro t ⟨k, purge⟩
  cases purge with
  | false =>
    have hfind : (Part.apply B t (.forget k)).files.db.memories.find? id =
        if id = k then (t.files.db.memories.find? k).map lapse else t.files.db.memories.find? id :=
      Table.find_modify t.files.db.memories k id lapse lapse_id
    change slot (ftsDelete B (Part.apply B t (.forget k)).files.db k) id = _
    rw [slot_fts]
    split
    · rename_i heq
      rw [slot, hfind, if_pos heq, heq]
      rfl
    · rename_i hne
      rw [slot, hfind, if_neg hne]
      rfl
  | true =>
    change slot (ftsDelete B (t.files.db.deleteRows (· = k)) k) id = _
    rw [slot_fts, slot_delete]
    simp only [decide_eq_true_eq]
    rfl

/-! ### A process that stops -/

theorem commits_tombstones {cs : List Commit} (hcs : ∀ c ∈ cs, ∃ h, c = .tombstone h) (f : Files) :
    (f.commits cs).db = f.db := by
  induction cs generalizing f with
  | nil => rfl
  | cons c cs ih =>
    obtain ⟨h, rfl⟩ := hcs c (List.mem_cons_self ..)
    exact ih (fun c' hc' => hcs c' (List.mem_cons_of_mem _ hc')) (f.commit (.tombstone h))

theorem rounds_tombstones (rounds : List (String × Bool)) : ∀ acc : List Commit × Db,
    (∀ c ∈ acc.1, ∃ h, c = .tombstone h) →
      ∀ c ∈ (rounds.foldl (Open.retire B) acc).1, ∃ h, c = .tombstone h := by
  induction rounds with
  | nil => exact fun _ h => h
  | cons e rounds ih =>
    intro acc h
    refine ih _ ?_
    obtain ⟨k, purge⟩ := e
    cases purge with
    | false => exact h
    | true =>
      simp only [Open.retire, if_true]
      cases getRecord acc.2 k with
      | none => exact h
      | some r =>
        intro c hc
        rcases List.mem_append.mp hc with hc | hc
        · exact h c hc
        · exact ⟨_, List.mem_singleton.mp hc⟩

/-- A process that stops keeps some of the tombstones, or all of the sweep. -/
theorem stopped_between (n : Nat) (purged : List String) :
    Between s ⟨s.files.commits ((s.applyRetention B now).commits.take n), purged⟩ now := by
  have hledger : ∀ h ∈ (s.files.commits ((s.applyRetention B now).commits.take n)).ledger,
      h ∈ s.files.ledger ∨ ∃ id, Due s.files.db now id true ∧ hashId id = h := by
    intro h hh
    rw [← swept_ledger (B := B), sweptFiles, mem_ledger]
    rcases mem_ledger.mp hh with hh | hh
    · exact .inl hh
    · exact .inr (List.mem_of_mem_take hh)
  have hkept : ∀ h ∈ s.files.ledger,
      h ∈ (s.files.commits ((s.applyRetention B now).commits.take n)).ledger :=
    fun h hh => mem_ledger.mpr (.inl hh)
  rcases Nat.lt_or_ge n (s.applyRetention B now).commits.length with hlt | hge
  · have hsame : (s.files.commits ((s.applyRetention B now).commits.take n)).db = s.files.db := by
      apply commits_tombstones
      intro c hc
      have htake : (s.applyRetention B now).commits.take n =
          ((expiredActive s.files.db now).foldl (Open.retire B) ([], s.files.db)).1.take n := by
        simp only [Open.applyRetention, List.length_append, List.length_singleton] at hlt ⊢
        exact List.take_append_of_le_length (by omega)
      rw [htake] at hc
      exact rounds_tombstones _ _ (by simp) c (List.mem_of_mem_take hc)
    refine ⟨fun id => .inl (by rw [hsame]), hkept, hledger, ?_⟩
    rintro id ⟨row, hfind, -⟩ hempty
    rw [hsame] at hempty
    have hnone : s.files.db.memories.find? id = none := congrArg Slot.row hempty
    rw [hfind] at hnone
    cases hnone
  · rw [List.take_of_length_le hge] at hkept hledger ⊢
    exact ⟨fun id => .inr swept_slot, hkept, hledger,
      fun id hdue _ => swept_ledger.mpr (.inr ⟨id, hdue, rfl⟩)⟩

theorem reopened_slot (f : Files) (id : String) : slot (f.commits (openCommits B f)).db id =
    if hashId id ∈ f.ledger then .empty else slot f.db id := by
  unfold openCommits Open.reconciled
  dsimp only
  split
  · change slot (reconcilePurged B f.db _) id = _
    have hrows : slot (reconcilePurged B f.db (Open.isPurged ⟨f, f.ledger⟩)) id =
        slot (f.db.deleteRows (Open.isPurged ⟨f, f.ledger⟩)) id := by
      unfold reconcilePurged
      dsimp only
      split <;> rfl
    rw [hrows, slot_delete]
    simp [Open.isPurged]
  · rename_i hnone
    have hledger : f.ledger = [] := not_not.mp hnone
    simp [hledger, Files.commits]

theorem reopened_ledger (f : Files) (h : String) :
    h ∈ (f.commits (openCommits B f)).ledger ↔ h ∈ f.ledger := by
  rw [mem_ledger, or_iff_left (no_tombstone_open h)]

/-- Opened and run again, the sweep comes to the same, but for records that
have a tombstone and are never read. -/
theorem Between.reopened (h : Between s t now) (purged : List String) :
    (∀ k, k ∈ (sweptFiles B ⟨t.files.commits (openCommits B t.files), purged⟩ now).ledger ↔
      k ∈ (sweptFiles B s now).ledger) ∧
    ∀ id, hashId id ∈ (sweptFiles B s now).ledger ∨
      slot (sweptFiles B ⟨t.files.commits (openCommits B t.files), purged⟩ now).db id =
        slot (sweptFiles B s now).db id := by
  have hsub : ∀ k ∈ t.files.ledger, k ∈ (sweptFiles B s now).ledger :=
    fun k hk => swept_ledger.mpr (h.new k hk)
  constructor
  · intro k
    rw [swept_ledger, reopened_ledger]
    constructor
    · rintro (hk | ⟨id, hdue, rfl⟩)
      · exact hsub k hk
      · obtain ⟨row, hfind, hrest⟩ := hdue
        have hslot := congrArg Slot.row (reopened_slot (B := B) t.files id)
        rw [show (slot (t.files.commits (openCommits B t.files)).db id).row = some row from hfind]
          at hslot
        split at hslot
        · cases hslot
        · exact swept_ledger.mpr (.inr ⟨id, h.due ⟨row, hslot.symm, hrest⟩, rfl⟩)
    · intro hk
      rcases swept_ledger.mp hk with hk | ⟨id, hdue, rfl⟩
      · exact .inl (h.kept k hk)
      · by_cases htomb : hashId id ∈ t.files.ledger
        · exact .inl htomb
        · right
          rcases h.slots id with hs | hs
          · obtain ⟨row, hfind, hrest⟩ := hdue
            have hslot := (reopened_slot (B := B) t.files id).trans (if_neg htomb)
            have hrow : (t.files.commits (openCommits B t.files)).db.memories.find? id =
                some row := by
              rw [← hfind]
              exact congrArg Slot.row (hslot.trans hs)
            exact ⟨id, ⟨row, hrow, hrest⟩, rfl⟩
          · rw [swept_due hdue] at hs
            exact absurd (h.first id hdue hs) htomb
  · intro id
    by_cases htomb : hashId id ∈ t.files.ledger
    · exact .inl (hsub _ htomb)
    · right
      rw [swept_slot, swept_slot, (reopened_slot (B := B) t.files id).trans (if_neg htomb)]
      rcases h.slots id with hs | hs
      · rw [hs]
      · rw [hs, swept_twice]

end between

/-- Retention does what the policy of a current record says, and a sweep that
has raised or stopped is completed by the next one. -/
theorem retention_sweeps (B : Backend) (s : Open) (now : Int) :
    (∀ id row, s.files.db.memories.find? id = some row → row.current = true →
      expired row now = true → row.retentionPolicy.purgeOnExpiry = true →
        slot (sweptFiles B s now).db id = .empty ∧ hashId id ∈ (sweptFiles B s now).ledger) ∧
    (∀ id row row', s.files.db.memories.find? id = some row → expired row now = true →
      (sweptFiles B s now).db.memories.find? id = some row' → row'.current = false) ∧
    (∀ id row, s.files.db.memories.find? id = some row → expired row now = false →
      slot (sweptFiles B s now).db id = slot s.files.db id) ∧
    (∀ purged, sweptFiles B ⟨sweptFiles B s now, purged⟩ now = sweptFiles B s now) ∧
    (∀ n, (∀ id, slot (sweptFiles B (halted B s now n) now).db id =
        slot (sweptFiles B s now).db id) ∧
      ∀ k, k ∈ (sweptFiles B (halted B s now n) now).ledger ↔ k ∈ (sweptFiles B s now).ledger) ∧
    ∀ n again, again = ((Action.call (.applyRetention now)).take B (Action.reopen.take B
        ((Action.crash (.applyRetention now) n).take B ⟨s.files, some s.purged⟩).2).2).2 →
      (∀ k, k ∈ again.files.ledger ↔ k ∈ (sweptFiles B s now).ledger) ∧
      ∀ id, hashId id ∈ (sweptFiles B s now).ledger ∨
        slot again.files.db id = slot (sweptFiles B s now).db id := by
  refine ⟨?_, ?_, ?_, swept_again, fun n => (halted_between n).again, ?_⟩
  · intro id row hfind hcurrent hexpired hpurge
    have hdue : Due s.files.db now id true := ⟨row, hfind, hcurrent, hexpired, hpurge⟩
    refine ⟨?_, swept_ledger.mpr (.inr ⟨id, hdue, rfl⟩)⟩
    rw [swept_slot, swept_due hdue]
    rfl
  · intro id row row' hfind hexpired hafter
    by_contra hcurrent
    have hswept : slot (sweptFiles B s now).db id = _ := swept_slot
    have hslot := congrArg Slot.row hswept
    rw [show (slot (sweptFiles B s now).db id).row = some row' from hafter] at hslot
    by_cases hbefore : row.current = true
    · have hdue : Due s.files.db now id _ := ⟨row, hfind, hbefore, hexpired, rfl⟩
      rw [swept_due hdue] at hslot
      cases hp : row.retentionPolicy.purgeOnExpiry with
      | true =>
        rw [hp] at hslot
        cases hslot
      | false =>
        rw [hp] at hslot
        obtain ⟨old, -, rfl⟩ := Option.map_eq_some_iff.mp hslot.symm
        refine hcurrent ?_
        unfold lapse
        split
        · rename_i hforgotten
          simp [MemoryRow.current, hforgotten]
        · rfl
    · have hkept : ∀ purge, ¬ Due s.files.db now id purge := by
        rintro purge ⟨old, hold, hcurrent', -⟩
        rw [Option.some.inj (hfind.symm.trans hold)] at hbefore
        exact hbefore hcurrent'
      rw [swept_kept hkept] at hslot
      have hsame := Option.some.inj (hslot.trans (show (slot s.files.db id).row = _ from hfind))
      rw [hsame] at hcurrent
      exact hbefore (by simpa using hcurrent)
  · intro id row hfind hexpired
    rw [swept_slot]
    apply swept_kept
    rintro purge ⟨old, hold, -, hover, -⟩
    rw [← Option.some.inj (hfind.symm.trans hold), hexpired] at hover
    cases hover
  · rintro n again rfl
    exact (stopped_between n []).reopened _

/-- A record that was forgotten before its time is over. -/
def forgottenRow : MemoryRow where
  id := "m1"
  memoryType := .preference
  content := "kaffee"
  subject := "kaffee"
  source := "voice"
  sourceType := .userDirect
  createdAt := 0
  updatedAt := 0
  trustLevel := .userDirect
  sensitivity := .personal
  retentionPolicy := ⟨.ttl, some 1, true⟩
  validFrom := none
  validUntil := none
  supersedes := none
  supersededBy := none
  forgotten := true
  forgottenReason := "user"
  tags := []

def forgottenDb : Db where
  memories := ⟨[forgottenRow], by decide⟩
  provenance := []
  relations := []
  fts := []
  owned := by simp
  linked := by simp

/-- It stays, although it is to be purged. -/
theorem forgotten_stays : ¬ ∀ (B : Backend) (s : Open) (now : Int) (id : String) (row : MemoryRow),
    s.files.db.memories.find? id = some row → expired row now = true →
      row.retentionPolicy.purgeOnExpiry = true →
        (sweptFiles B s now).db.memories.find? id = none := by
  intro hall
  have hgone := hall Sample.backend ⟨⟨forgottenDb, [], []⟩, []⟩ 86400 "m1" forgottenRow rfl
    (by decide) rfl
  have hslot : slot (sweptFiles Sample.backend ⟨⟨forgottenDb, [], []⟩, []⟩ 86400).db "m1" =
      (slot forgottenDb "m1").swept 86400 := swept_slot
  have hrow := congrArg Slot.row hslot
  rw [show (slot (sweptFiles Sample.backend ⟨⟨forgottenDb, [], []⟩, []⟩ 86400).db "m1").row = none
    from hgone] at hrow
  cases hrow

end Solvio.Memory.Retention
