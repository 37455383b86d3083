import Solvio.Memory.Asked
import Solvio.Memory.Effects

namespace Solvio.Memory.Chains
open Solvio.Lib

/-! ### Chains of records -/

/-- A stored record that names another one as what it replaces. -/
def Replaces (db : Db) (old new : String) : Prop :=
  (db.memories.find? old).isSome ∧
    ∃ row, db.memories.find? new = some row ∧ row.supersedes = some old

/-- Neither forgotten nor replaced. -/
def Head (db : Db) (id : String) : Prop :=
  ∃ row, db.memories.find? id = some row ∧ row.forgotten = false ∧ row.supersededBy = none

/-- From every record at most one current record is reachable by following
`supersedes` backwards, and `superseded_by` names the one record that names it. -/
structure Chained (db : Db) : Prop where
  oneHead : ∀ r a b, Relation.ReflTransGen (Replaces db) r a →
    Relation.ReflTransGen (Replaces db) r b → Head db a → Head db b → a = b
  named : ∀ r row y, db.memories.find? r = some row → row.supersededBy = some y →
    ∀ z, Replaces db r z ↔ z = y

/-- What the operations keep. -/
structure Linked (db : Db) : Prop where
  forward : ∀ id row y, db.memories.find? id = some row → row.supersededBy = some y →
    Replaces db id y
  backward : ∀ id row y, db.memories.find? id = some row → Replaces db id y →
    row.supersededBy = some y

section
variable {db : Db}

theorem Linked.unique (h : Linked db) : Relator.RightUnique (Replaces db) := by
  intro x y z hy hz
  obtain ⟨row, hrow⟩ := Option.isSome_iff_exists.mp hy.1
  have hsy := h.backward x row y hrow hy
  have hsz := h.backward x row z hrow hz
  exact Option.some.inj (hsy.symm.trans hsz)

/-- Nothing replaces a head. -/
theorem Linked.head_last (h : Linked db) {a b : String} (ha : Head db a)
    (hab : Relation.ReflTransGen (Replaces db) a b) : a = b := by
  rcases hab.cases_head with rfl | ⟨y, hy, -⟩
  · rfl
  · obtain ⟨row, hrow, -, hnone⟩ := ha
    have hsome := h.backward a row y hrow hy
    rw [hnone] at hsome
    cases hsome

theorem Linked.chained (h : Linked db) : Chained db where
  oneHead r a b hra hrb ha hb := by
    rcases Relation.ReflTransGen.total_of_right_unique h.unique hra hrb with hab | hba
    · exact h.head_last ha hab
    · exact (h.head_last hb hba).symm
  named r row y hrow hy z := by
    refine ⟨fun hz => h.unique hz (h.forward r row y hrow hy), fun hz => ?_⟩
    rw [hz]
    exact h.forward r row y hrow hy

end

/-! ### The ids that are in use -/

section
variable {E : Deployment} {db : Db} {n : Nat}

/-- Rows have drawn ids, and replace what had one. -/
structure Issued (E : Deployment) (n : Nat) (db : Db) : Prop where
  row : ∀ id row, db.memories.find? id = some row → Drawn E n id
  replaced : ∀ id row x, db.memories.find? id = some row → row.supersedes = some x → Drawn E n x

theorem Issued.mono {m : Nat} (h : Issued E n db) (hnm : n ≤ m) : Issued E m db where
  row id row hrow := (h.row id row hrow).mono hnm
  replaced id row x hrow hx := (h.replaced id row x hrow hx).mono hnm

end

/-! ### What each kind of write keeps -/

section
variable {E : Deployment} {db db' : Db} {n : Nat}

/-- Rows keep their links, and only what replaces nothing is deleted. -/
theorem Linked.kept (h : Linked db)
    (rows : ∀ id row', db'.memories.find? id = some row' → ∃ row,
      db.memories.find? id = some row ∧ row'.supersedes = row.supersedes ∧
        row'.supersededBy = row.supersededBy)
    (deleted : ∀ id, (db.memories.find? id).isSome → db'.memories.find? id = none →
      ∀ k row, db.memories.find? k = some row → row.supersededBy ≠ some id) : Linked db' where
  forward id row' y hrow' hy := by
    obtain ⟨row, hrow, -, hby⟩ := rows id row' hrow'
    rw [hby] at hy
    obtain ⟨-, w, hw, hwid⟩ := h.forward id row y hrow hy
    refine ⟨by simp [hrow'], ?_⟩
    cases hfind : db'.memories.find? y with
    | none => exact absurd hy (deleted y (by simp [hw]) hfind id row hrow)
    | some w' =>
      obtain ⟨w₀, hw₀, hsup, -⟩ := rows y w' hfind
      rw [hw] at hw₀
      cases hw₀
      exact ⟨w', rfl, hsup.trans hwid⟩
  backward id row' y hrow' hy := by
    obtain ⟨row, hrow, -, hby⟩ := rows id row' hrow'
    obtain ⟨-, w', hw', hwid⟩ := hy
    obtain ⟨w, hw, hsup, -⟩ := rows y w' hw'
    rw [hby]
    exact h.backward id row y hrow ⟨by simp [hrow], w, hw, hsup.symm.trans hwid⟩

theorem Issued.kept (h : Issued E n db)
    (rows : ∀ id row', db'.memories.find? id = some row' → ∃ row,
      db.memories.find? id = some row ∧ row'.supersedes = row.supersedes ∧
        row'.supersededBy = row.supersededBy) : Issued E n db' where
  row id row' hrow' := by
    obtain ⟨row, hrow, -⟩ := rows id row' hrow'
    exact h.row id row hrow
  replaced id row' x hrow' hx := by
    obtain ⟨row, hrow, hsup, -⟩ := rows id row' hrow'
    exact h.replaced id row x hrow (hsup.symm.trans hx)

/-- A record is stored that replaces nothing. -/
theorem Linked.stored (h : Linked db) {new : String} {row : MemoryRow}
    (hnone : row.supersedes = none) (hcurrent : row.supersededBy = none)
    (hunnamed : ∀ id w, db.memories.find? id = some w → w.supersedes ≠ some new)
    (hfree : db.memories.find? new = none)
    (hfind : ∀ k, db'.memories.find? k = if k = new then some row else db.memories.find? k) :
    Linked db' where
  forward id w y hw hy := by
    rw [hfind] at hw
    split at hw
    · cases hw
      rw [hcurrent] at hy
      cases hy
    · obtain ⟨-, v, hv, hvid⟩ := h.forward id w y hw hy
      have hne : y ≠ new := fun he => by
        rw [he, hfree] at hv
        cases hv
      rename_i hid
      exact ⟨by simp [hfind, hid, hw], v, by rw [hfind, if_neg hne, hv], hvid⟩
  backward id w y hw hy := by
    obtain ⟨-, v, hv, hvid⟩ := hy
    rw [hfind] at hw hv
    split at hv
    · cases hv
      rw [hnone] at hvid
      cases hvid
    · split at hw
      · rename_i hid
        rw [hid] at hvid
        exact absurd hvid (hunnamed y v hv)
      · exact h.backward id w y hw ⟨by simp [hw], v, hv, hvid⟩

/-- A record is stored in the place of one that nothing has replaced. -/
theorem Linked.replaced (h : Linked db) {old new : String} {row row' next : MemoryRow}
    (hold : db.memories.find? old = some row) (hlast : row.supersededBy = none)
    (hsup : row'.supersedes = row.supersedes) (hby : row'.supersededBy = some new)
    (hnext : next.supersedes = some old) (hcurrent : next.supersededBy = none)
    (hunnamed : ∀ id w, db.memories.find? id = some w → w.supersedes ≠ some new)
    (hfree : db.memories.find? new = none)
    (hfind : ∀ k, db'.memories.find? k =
      if k = old then some row' else if k = new then some next else db.memories.find? k) :
    Linked db' := by
  have hne : old ≠ new := fun he => by
    rw [he, hfree] at hold
    cases hold
  -- a row keeps what it replaces
  have hkept : ∀ y v, db.memories.find? y = some v →
      ∃ v', db'.memories.find? y = some v' ∧ v'.supersedes = v.supersedes := by
    intro y v hv
    rw [hfind]
    split
    · rename_i hy
      rw [hy, hold] at hv
      cases hv
      exact ⟨row', rfl, hsup⟩
    · split
      · rename_i hy
        rw [hy, hfree] at hv
        cases hv
      · exact ⟨v, hv, rfl⟩
  have hback : ∀ y v', db'.memories.find? y = some v' →
      (y = new ∧ v' = next) ∨
        ∃ v, db.memories.find? y = some v ∧ v'.supersedes = v.supersedes := by
    intro y v' hv'
    rw [hfind] at hv'
    split at hv'
    · rename_i hy
      cases hv'
      exact .inr ⟨row, by rw [hy, hold], hsup⟩
    · split at hv'
      · rename_i hy
        cases hv'
        exact .inl ⟨hy, rfl⟩
      · exact .inr ⟨v', hv', rfl⟩
  refine ⟨fun id w y hw hy => ?_, fun id w y hw hy => ?_⟩
  · have hid : (db'.memories.find? id).isSome := by simp [hw]
    rw [hfind] at hw
    split at hw
    · rename_i he
      cases hw
      rw [hby] at hy
      cases hy
      exact ⟨hid, next, by rw [hfind, if_neg hne.symm, if_pos rfl], he ▸ hnext⟩
    · split at hw
      · cases hw
        rw [hcurrent] at hy
        cases hy
      · obtain ⟨-, v, hv, hvid⟩ := h.forward id w y hw hy
        obtain ⟨v', hv', hsame⟩ := hkept y v hv
        exact ⟨hid, v', hv', hsame.trans hvid⟩
  · obtain ⟨-, v', hv', hvid⟩ := hy
    rcases hback y v' hv' with ⟨rfl, rfl⟩ | ⟨v, hv, hsame⟩
    · rw [hnext] at hvid
      cases hvid
      rw [hfind, if_pos rfl] at hw
      cases hw
      exact hby
    · rw [hsame] at hvid
      rw [hfind] at hw
      split at hw
      · rename_i he
        rw [he] at hvid
        have hsome := h.backward old row y hold ⟨by simp [hold], v, hv, hvid⟩
        rw [hlast] at hsome
        cases hsome
      · split at hw
        · rename_i he
          rw [he] at hvid
          exact absurd hvid (hunnamed y v hv)
        · exact h.backward id w y hw ⟨by simp [hw], v, hv, hvid⟩

/-- A new row has the id that was drawn, and replaces nothing or a stored record. -/
theorem Issued.stored (h : Issued E n db) (next : MemoryRow)
    (hnext : ∀ x, next.supersedes = some x → (db.memories.find? x).isSome)
    (rows : ∀ id row', db'.memories.find? id = some row' → (id = E.uuid n ∧ row' = next) ∨
      ∃ row, db.memories.find? id = some row ∧ row'.supersedes = row.supersedes) :
    Issued E (n + 1) db' := by
  have hlt : Drawn E (n + 1) (E.uuid n) := ⟨n, Nat.lt_succ_self n, rfl⟩
  refine ⟨fun id row' hrow' => ?_, fun id row' x hrow' hx => ?_⟩
  · rcases rows id row' hrow' with ⟨rfl, -⟩ | ⟨row, hrow, -⟩
    · exact hlt
    · exact (h.row id row hrow).mono (Nat.le_succ n)
  · rcases rows id row' hrow' with ⟨-, rfl⟩ | ⟨row, hrow, hsame⟩
    · obtain ⟨w, hw⟩ := Option.isSome_iff_exists.mp (hnext x hx)
      exact (h.row x w hw).mono (Nat.le_succ n)
    · exact (h.replaced id row x hrow (hsame.symm.trans hx)).mono (Nat.le_succ n)

theorem Issued.unnamed (hfresh : E.Fresh) (h : Issued E n db) :
    ∀ id w, db.memories.find? id = some w → w.supersedes ≠ some (E.uuid n) :=
  fun id w hw he => not_drawn hfresh (h.replaced id w _ hw he)

end

/-! ### The calls of the process -/

section
variable {E : Deployment} {init : State} {s : State} {i : Input}

theorem find_view (db : Db) (id : String) : db.memories.find? id = (db.view id).map Prod.fst := by
  simp [Db.view, Function.comp_def]

theorem asked_remember {side actor : Actor} {record : MemoryRecord}
    (h : Asked E side (.memory actor (.remember record))) :
    record.id = "" ∧ record.supersedes = none ∧ record.supersededBy = none := by
  cases h with
  | read _ _ _ h => exact h.elim
  | remembered content intent now => exact ⟨rfl, rfl, rfl⟩
  | adopted c proposal decision moment => exact ⟨rfl, rfl, rfl⟩
  | confirmed c via moment => exact ⟨rfl, rfl, rfl⟩

theorem asked_supersede {side actor : Actor} {oldId : String} {new : MemoryRecord} (uuid : String)
    (h : Asked E side (.memory actor (.supersede oldId new))) :
    (Open.successor oldId new uuid).id = uuid ∧
      (Open.successor oldId new uuid).supersedes = some oldId ∧ new.supersededBy = none := by
  have hown : ∀ x : Option String, x = none ∨ x = some oldId →
      (if x.all (· = "") then some oldId else x) = some oldId := by
    rintro x (rfl | rfl)
    · rfl
    · split <;> rfl
  cases h with
  | read _ _ _ h => exact h.elim
  | replaced content intent now => exact ⟨rfl, hown _ (.inl rfl), rfl⟩
  | relearned target c proposal decision moment => exact ⟨rfl, hown _ (.inr rfl), rfl⟩
  | settled c via moment => exact ⟨rfl, hown _ (.inr rfl), rfl⟩
  | corrected old memoryId statement now => exact ⟨rfl, hown _ (.inr rfl), rfl⟩

/-- A supersede finds its target unreplaced, and no record is purged that
replaces a stored one. -/
def meets (e : Entry E init) : Bool :=
  match e.call.op with
  | .memory _ (.supersede oldId _) => e.pre.memory.isPurged oldId ||
    (e.pre.memory.files.db.memories.find? oldId).all (fun row => row.supersededBy.isNone)
  | .memory _ (.purge id) => !e.call.input.deletes ||
    e.pre.memory.files.db.memories.rows.all (fun row => row.supersededBy ≠ some id)
  | _ => true

/-- The links and the ids of a state. -/
structure Sound (E : Deployment) (s : State) : Prop where
  linked : Linked s.memory.files.db
  issued : Issued E s.drawn s.memory.files.db

/-- A call that stores nothing keeps the links of the rows that it leaves. -/
theorem call_keeps_links {c : MemoryCall} {uuid : String} {B : Backend} {o : Open}
    (hnone : c.inserted uuid = none) (id : String) (row' : MemoryRow)
    (h : (o.after ((c.call uuid i).perform B o)).files.db.memories.find? id = some row') :
    ∃ row, o.files.db.memories.find? id = some row ∧ row'.supersedes = row.supersedes ∧
      row'.supersededBy = row.supersededBy := by
  have hev := call_evolves (B := B) (s := o) (i := i) uuid c id
  rw [find_view] at h
  obtain ⟨⟨row₁, ps⟩, hv, rfl⟩ := Option.map_eq_some_iff.mp h
  rw [hv] at hev
  rw [find_view]
  generalize o.files.db.view id = old at hev
  cases hev with
  | same => exact ⟨row₁, rfl, rfl, rfl⟩
  | inserted hins => rw [hnone] at hins; cases hins
  | updated changes hc horigin => exact ⟨_, rfl, horigin.supersedes, horigin.supersededBy⟩
  | superseded new now hc => subst hc; cases hnone
  | forgotten reason hc hf => exact ⟨_, rfl, rfl, rfl⟩
  | reinforced entry now hc hs => exact ⟨_, rfl, rfl, rfl⟩

/-- A record that is gone after a call was purged by it. -/
theorem call_deletes {c : MemoryCall} {uuid : String} {B : Backend} {o : Open} {id : String}
    (hsome : (o.files.db.memories.find? id).isSome)
    (h : (o.after ((c.call uuid i).perform B o)).files.db.memories.find? id = none) :
    c = .purge id := by
  have hev := call_evolves (B := B) (s := o) (i := i) uuid c id
  rw [find_view] at h hsome
  rw [Option.map_eq_none_iff.mp h] at hev
  generalize o.files.db.view id = old at hev hsome
  cases hev with
  | same => cases hsome
  | deleted hc => exact hc

theorem kept_sound {c : MemoryCall} (h : Sound E s) (hnone : c.inserted (E.uuid s.drawn) = none)
    (hdeleted : ∀ id, c = .purge id → i.deletes = true →
      ∀ k row, s.memory.files.db.memories.find? k = some row → row.supersededBy ≠ some id) :
    Linked (s.memory.after ((c.call (E.uuid s.drawn) i).perform E.backend s.memory)).files.db ∧
      Issued E (s.drawn + 1)
        (s.memory.after ((c.call (E.uuid s.drawn) i).perform E.backend s.memory)).files.db := by
  have hrows := call_keeps_links (i := i) (B := E.backend) (o := s.memory) hnone
  refine ⟨h.linked.kept hrows (fun id hsome hgone => ?_),
    (h.issued.kept hrows).mono (Nat.le_succ _)⟩
  have hc := call_deletes hsome hgone
  subst hc
  refine hdeleted id rfl ?_
  by_contra hfails
  simp only [MemoryCall.call, Call.perform, Bool.not_eq_true _ ▸ hfails, purge_undeleted] at hgone
  rw [hgone] at hsome
  cases hsome

/-- A call that leaves every row. -/
theorem same_sound {db : Db} (h : Sound E s)
    (hsame : ∀ k, db.view k = s.memory.files.db.view k) :
    Linked db ∧ Issued E (s.drawn + 1) db := by
  have hfind : ∀ k, db.memories.find? k = s.memory.files.db.memories.find? k := fun k => by
    rw [find_view, find_view, hsame]
  have hrows : ∀ id row', db.memories.find? id = some row' → ∃ row,
      s.memory.files.db.memories.find? id = some row ∧ row'.supersedes = row.supersedes ∧
        row'.supersededBy = row.supersededBy := by
    intro id row' hrow'
    exact ⟨row', (hfind id).symm.trans hrow', rfl, rfl⟩
  refine ⟨h.linked.kept hrows (fun id hsome hgone => ?_), (h.issued.kept hrows).mono (Nat.le_succ _)⟩
  rw [← hfind, hgone] at hsome
  cases hsome

theorem remember_sound (hfresh : E.Fresh) {record : MemoryRecord} (h : Sound E s)
    (hid : record.id = "") (hnone : record.supersedes = none)
    (hcurrent : record.supersededBy = none) :
    Linked (s.memory.after (s.memory.remember E.backend record (E.uuid s.drawn))).files.db ∧
      Issued E (s.drawn + 1)
        (s.memory.after (s.memory.remember E.backend record (E.uuid s.drawn))).files.db := by
  rcases remember_view (B := E.backend) (s := s.memory) (E.uuid s.drawn) record with
    hsame | ⟨stored, hins, hfree, hview⟩
  · exact same_sound h hsame
  · simp only [MemoryCall.inserted, hid, if_true, Option.some.injEq] at hins
    subst hins
    have hfind := fun k => (find_view _ k).trans (congrArg (Option.map Prod.fst) (hview k))
    simp only [apply_ite (Option.map Prod.fst), Option.map_some, ← find_view] at hfind
    refine ⟨h.linked.stored ?_ ?_ (h.issued.unnamed hfresh) (Db.view_none.mp hfree) hfind,
      h.issued.stored { record.row with id := E.uuid s.drawn } (fun x hx => ?_)
        (fun id row' hrow' => ?_)⟩
    · exact hnone
    · exact hcurrent
    · rw [show record.supersedes = some x from hx] at hnone
      cases hnone
    · rw [hfind] at hrow'
      split at hrow'
      · rename_i he
        cases hrow'
        exact .inl ⟨he, rfl⟩
      · exact .inr ⟨row', hrow', rfl⟩

theorem supersede_sound (hfresh : E.Fresh) {oldId : String} {new : MemoryRecord} {now : Int}
    (h : Sound E s) (hid : (Open.successor oldId new (E.uuid s.drawn)).id = E.uuid s.drawn)
    (hsup : (Open.successor oldId new (E.uuid s.drawn)).supersedes = some oldId)
    (hcurrent : new.supersededBy = none)
    (hlast : s.memory.isPurged oldId = true ∨ ∀ row,
      s.memory.files.db.memories.find? oldId = some row → row.supersededBy = none) :
    Linked (s.memory.after (s.memory.supersede E.backend oldId new (E.uuid s.drawn) now)).files.db ∧
      Issued E (s.drawn + 1)
        (s.memory.after (s.memory.supersede E.backend oldId new (E.uuid s.drawn) now)).files.db := by
  rcases supersede_view (B := E.backend) (s := s.memory) (E.uuid s.drawn) oldId new now with
    hsame | ⟨row, ps, hpurged, hold, hfree, hview⟩
  · exact same_sound h hsame
  · rw [hid] at hfree hview
    have hold' : s.memory.files.db.memories.find? oldId = some row := by
      rw [find_view, hold]
      rfl
    have hfind := fun k => (find_view _ k).trans (congrArg (Option.map Prod.fst) (hview k))
    simp only [apply_ite (Option.map Prod.fst), Option.map_some, ← find_view] at hfind
    have hlast' : row.supersededBy = none := by
      rcases hlast with hp | hlast
      · rw [hpurged] at hp
        cases hp
      · exact hlast row hold'
    refine ⟨h.linked.replaced hold' hlast' ?_ ?_ ?_ ?_ (h.issued.unnamed hfresh)
      (Db.view_none.mp hfree) hfind, h.issued.stored
        (Open.successor oldId new (E.uuid s.drawn)).row (fun x hx => ?_)
        (fun id row' hrow' => ?_)⟩
    · rfl
    · rfl
    · exact hsup
    · exact hcurrent
    · cases hsup.symm.trans hx
      simp [hold']
    · rw [hfind] at hrow'
      split at hrow'
      · rename_i he
        cases hrow'
        exact .inr ⟨row, he ▸ hold', rfl⟩
      · split at hrow'
        · rename_i he
          cases hrow'
          exact .inl ⟨he, rfl⟩
        · exact .inr ⟨row', hrow', rfl⟩


theorem call_sound (hfresh : E.Fresh) {side actor : Actor} {c : MemoryCall}
    {task : Nat} (h : Sound E s) (hasked : Asked E side (.memory actor c))
    (hmeets : meets (⟨s, ⟨task, .memory actor c, i⟩⟩ : Entry E init) = true) :
    Linked (s.memory.after ((c.call (E.uuid s.drawn) i).perform E.backend s.memory)).files.db ∧
      Issued E (s.drawn + 1)
        (s.memory.after ((c.call (E.uuid s.drawn) i).perform E.backend s.memory)).files.db := by
  cases c with
  | remember record =>
    obtain ⟨hid, hnone, hcurrent⟩ := asked_remember hasked
    exact remember_sound hfresh h hid hnone hcurrent
  | supersede oldId new =>
    obtain ⟨hid, hsup, hcurrent⟩ := asked_supersede (E.uuid s.drawn) hasked
    refine supersede_sound hfresh h hid hsup hcurrent ?_
    rcases Bool.or_eq_true_iff.mp hmeets with hp | hall
    · exact .inl hp
    · refine .inr (fun row hrow => ?_)
      change (Option.all _ (s.memory.files.db.memories.find? oldId)) = true at hall
      rw [hrow] at hall
      simpa using hall
  | purge id =>
    refine kept_sound h rfl (fun k hk hdeletes w row hrow => ?_)
    cases hk
    rcases Bool.or_eq_true_iff.mp hmeets with hfails | hall
    · simp [hdeletes] at hfails
    · simpa using List.all_eq_true.mp hall row (Table.mem_of_find hrow)
  | _ => exact kept_sound h rfl (fun id hc => by cases hc)

theorem step_sound (hfresh : E.Fresh) {side : Actor} {a : (runtime E init).Act} (h : Sound E s)
    (hasked : Asked E side a.op) (hmeets : meets (⟨s, a⟩ : Entry E init) = true) :
    Sound E (State.step E a.op a.input s).2 := by
  obtain ⟨task, op, i⟩ := a
  rcases step_memory (E := E) (s := s) op i with ⟨hsame, -⟩ | ⟨actor, c, rfl, hafter⟩
  · refine ⟨?_, ?_⟩
    · rw [hsame]
      exact h.linked
    · rw [hsame]
      exact h.issued.mono (step_drawn op i)
  · obtain ⟨hlinked, hissued⟩ := call_sound hfresh h hasked hmeets
    exact ⟨hlinked, hissued⟩

theorem start_sound (E : Deployment) : Sound E .start where
  linked := ⟨fun _ _ _ h => (by cases h), fun _ _ _ h => (by cases h)⟩
  issued := ⟨fun _ _ h => (by cases h), fun _ _ _ h => (by cases h)⟩

end

/-- In every run of the callers whose supersedes find their target unreplaced,
and in which no replacement of a stored record is purged, the records form
chains with one current end each. -/
theorem one_current_truth {E : Deployment} (hfresh : E.Fresh) {W : (runtime E .start).World}
    (hreach : Shared.World.Reach (Launched E) W)
    (hcond : Machine.Each (fun _ e => meets e = true) W.log) :
    Chained W.state.memory.files.db := by
  have hdisc : W.Disciplined (fun _ a => ∃ side, Asked E side a.op) :=
    hreach.disciplined (fun p hp task => by
      obtain ⟨side, hasks⟩ := launched_asks hp
      exact .of_asks hasks (fun _ _ hop => ⟨side, hop⟩))
  have hsound : Sound E W.state := by
    refine hdisc.run.induct (fun log s => Machine.Each (fun _ e => meets e = true) log → Sound E s)
      (fun _ => start_sound E) (fun log s a _ ⟨_, hasked⟩ ih hcond => ?_) hcond
    exact step_sound hfresh (ih hcond.2) hasked hcond.1
  exact hsound.linked.chained

/-! ### A record that is corrected twice -/

abbrev Sample : Shared State := runtime plainDeployment .start

/-- The user's own statement, stored as `uuu`, and corrections of it. -/
def sampleWorld (corrections : List String) (acts : List (Nat × Input)) : Sample.World :=
  .play Sample ((do let _ ← Service.remember plainDeployment { payload := "likes tea", marker := "" } 1) ::
    corrections.map (fun statement =>
      (do let _ ← Capabilities.correct plainDeployment "uuu" statement 2))) acts

theorem sample_reach (corrections : List String) (acts : List (Nat × Input)) :
    Shared.World.Reach (Launched plainDeployment) (sampleWorld corrections acts) := by
  refine @Shared.World.Reach.play _ Sample _ _ (fun p hp => ?_) acts
  rcases List.mem_cons.mp hp with rfl | hp
  · exact .remembered _ _
  · obtain ⟨statement, -, rfl⟩ := List.mem_map.mp hp
    exact .corrected ..

/-- Each task is run to its end before the next one starts. -/
def inTurn (tasks : Nat) : List (Nat × Input) :=
  (List.range tasks).flatMap (fun task => List.replicate 24 (task, {}))

/-- A current row that replaces a stored one. -/
def replacesNow (db : Db) (old new : String) : Bool :=
  (db.memories.find? old).isSome && (db.memories.find? new).any (fun row =>
    row.supersedes = some old && !row.forgotten && row.supersededBy.isNone)

theorem replaces_now {db : Db} {old new : String} (h : replacesNow db old new = true) :
    Replaces db old new ∧ Head db new := by
  obtain ⟨hold, hnew⟩ := Bool.and_eq_true_iff.mp h
  obtain ⟨row, hrow, hall⟩ := Option.any_eq_true _ _ |>.mp hnew
  simp only [Bool.and_eq_true, decide_eq_true_eq, Bool.not_eq_true', Option.isNone_iff_eq_none]
    at hall
  exact ⟨⟨hold, row, hrow, hall.1.1⟩, row, hrow, hall.1.2, hall.2⟩

theorem corrections_reached : ∃ W : Sample.World, Shared.World.Reach (Launched plainDeployment) W ∧
    replacesNow W.state.memory.files.db "uuu" "uuuuuu" = true ∧
    replacesNow W.state.memory.files.db "uuu" "uuuuuuuu" = true :=
  ⟨sampleWorld ["likes coffee", "likes water"] (inTurn 3), sample_reach _ _, by decide +kernel, by
    decide +kernel⟩

/-- Two corrections of one record leave two current truths. -/
theorem corrected_twice : ¬ ∀ E : Deployment, E.Fresh → ∀ W : (runtime E .start).World,
    Shared.World.Reach (Launched E) W → Chained W.state.memory.files.db := by
  intro h
  obtain ⟨W, hreach, hcoffee, hwater⟩ := corrections_reached
  have hsame := (h plainDeployment plain_fresh W hreach).oneHead "uuu" _ _
    (.single (replaces_now hcoffee).1) (.single (replaces_now hwater).1) (replaces_now hcoffee).2
    (replaces_now hwater).2
  exact absurd hsame (by decide)

theorem correction_reached : ∃ W : Sample.World, Shared.World.Reach (Launched plainDeployment) W ∧
    Machine.Each (fun _ e => meets e = true) W.log ∧
    replacesNow W.state.memory.files.db "uuu" "uuuuuu" = true :=
  ⟨sampleWorld ["likes coffee"] (inTurn 2), sample_reach _ _, by decide +kernel, by
    decide +kernel⟩

/-- One correction leaves one current truth. -/
theorem one_current_truth_sample : ∃ W : Sample.World,
    replacesNow W.state.memory.files.db "uuu" "uuuuuu" = true ∧
      Chained W.state.memory.files.db := by
  obtain ⟨W, hreach, hcond, hcoffee⟩ := correction_reached
  exact ⟨W, hcoffee, one_current_truth plain_fresh hreach hcond⟩

end Solvio.Memory.Chains
