import Mathlib.Data.List.Nodup

namespace Solvio.Lib

/-- A row type with its primary key. -/
class Keyed (α : Type u) (κ : outParam (Type v)) where
  key : α → κ

/-- A table carries the uniqueness of its primary key, so a second row with
the same key cannot be built. -/
structure Table (α : Type u) {κ : Type v} [Keyed α κ] where
  rows : List α
  distinct : (rows.map Keyed.key).Nodup

namespace Table

variable {α : Type u} {κ : Type v} [Keyed α κ]

instance : Membership α (Table α) := ⟨fun t a => a ∈ t.rows⟩

instance [DecidableEq α] : DecidableEq (Table α) := fun s t =>
  decidable_of_iff (s.rows = t.rows) (by cases s; cases t; simp)

theorem mem_rows {t : Table α} {a : α} : a ∈ t ↔ a ∈ t.rows := Iff.rfl

def empty : Table α := ⟨[], by simp⟩

@[simp] theorem not_mem_empty (a : α) : ¬ a ∈ (empty : Table α) := by
  simp [mem_rows, empty]

theorem eq_of_key {t : Table α} {a b : α} (ha : a ∈ t) (hb : b ∈ t)
    (h : Keyed.key a = Keyed.key b) : a = b :=
  List.inj_on_of_nodup_map t.distinct ha hb h

section find
variable [DecidableEq κ]

def find? (t : Table α) (k : κ) : Option α :=
  t.rows.find? (fun a => decide (Keyed.key a = k))

theorem find_some {t : Table α} {k : κ} {a : α} :
    t.find? k = some a ↔ a ∈ t ∧ Keyed.key a = k := by
  constructor
  · intro h
    exact ⟨List.mem_of_find?_eq_some h, by simpa using List.find?_some h⟩
  · rintro ⟨ha, rfl⟩
    cases hf : t.find? (Keyed.key a) with
    | none => simpa using List.find?_eq_none.mp hf a ha
    | some b =>
      have hb : b ∈ t := List.mem_of_find?_eq_some hf
      have hk : Keyed.key b = Keyed.key a := by simpa using List.find?_some hf
      rw [eq_of_key hb ha hk]

theorem find_none {t : Table α} {k : κ} :
    t.find? k = none ↔ ∀ a ∈ t, Keyed.key a ≠ k := by
  simp [find?, List.find?_eq_none, mem_rows]

@[simp] theorem find_empty (k : κ) : (empty : Table α).find? k = none := rfl

theorem mem_of_find {t : Table α} {k : κ} {a : α} (h : t.find? k = some a) : a ∈ t :=
  (Iff.mp find_some h).1

theorem key_of_find {t : Table α} {k : κ} {a : α} (h : t.find? k = some a) :
    Keyed.key a = k := (Iff.mp find_some h).2

theorem find_of_mem {t : Table α} {a : α} (h : a ∈ t) : t.find? (Keyed.key a) = some a :=
  Iff.mpr find_some ⟨h, rfl⟩

/-- A keyed insert; `none` is the violated uniqueness constraint. -/
def insert? (t : Table α) (a : α) : Option (Table α) :=
  if h : Keyed.key a ∈ t.rows.map Keyed.key then none
  else some ⟨t.rows ++ [a], by
    rw [List.map_append, List.nodup_append]
    refine ⟨t.distinct, by simp, ?_⟩
    intro k hk k' hk' he
    simp only [List.map_cons, List.map_nil, List.mem_singleton] at hk'
    exact h (hk' ▸ he ▸ hk)⟩

theorem insert_none {t : Table α} {a : α} :
    t.insert? a = none ↔ ∃ b, t.find? (Keyed.key a) = some b := by
  simp only [insert?, List.mem_map]
  split
  · rename_i h
    obtain ⟨b, hb, hk⟩ := h
    exact ⟨fun _ => ⟨b, Iff.mpr find_some ⟨hb, hk⟩⟩, fun _ => rfl⟩
  · rename_i h
    refine ⟨fun hn => by simp at hn, ?_⟩
    rintro ⟨b, hb⟩
    exact absurd ⟨b, (Iff.mp find_some hb).1, (Iff.mp find_some hb).2⟩ h

/-- A successful insert adds exactly one row, under a key that was free. -/
theorem insert_some {t t' : Table α} {a : α} (h : t.insert? a = some t') :
    t.find? (Keyed.key a) = none ∧ ∀ b, b ∈ t' ↔ b ∈ t ∨ b = a := by
  simp only [insert?] at h
  split at h
  · simp at h
  · rename_i hk
    simp only [Option.some.injEq] at h
    subst h
    refine ⟨Iff.mpr find_none (fun b hb he => hk (List.mem_map.mpr ⟨b, hb, he⟩)), ?_⟩
    intro b
    simp [mem_rows]

theorem find_insert {t t' : Table α} {a : α} (h : t.insert? a = some t') (k : κ) :
    t'.find? k = if Keyed.key a = k then some a else t.find? k := by
  obtain ⟨hfree, hmem⟩ := insert_some h
  by_cases hk : Keyed.key a = k
  · rw [if_pos hk]
    exact Iff.mpr find_some ⟨(hmem a).mpr (Or.inr rfl), hk⟩
  · rw [if_neg hk]
    cases hf : t.find? k with
    | none =>
      refine Iff.mpr find_none (fun b hb => ?_)
      rcases (hmem b).mp hb with hb | rfl
      · exact Iff.mp find_none hf b hb
      · exact hk
    | some b =>
      exact Iff.mpr find_some ⟨(hmem b).mpr (Or.inl (mem_of_find hf)), key_of_find hf⟩

end find

/-- `UPDATE ... SET f WHERE p`. The key column is never assigned. -/
def update (t : Table α) (p : α → Bool) (f : α → α)
    (hf : ∀ a, Keyed.key (f a) = Keyed.key a) : Table α :=
  ⟨t.rows.map (fun a => if p a then f a else a), by
    have hk : (Keyed.key : α → κ) ∘ (fun a => if p a then f a else a) = Keyed.key := by
      funext a
      simp only [Function.comp_apply]
      split <;> simp [hf]
    rw [List.map_map, hk]
    exact t.distinct⟩

/-- The number of rows an `UPDATE ... WHERE p` reports. -/
def rowcount (t : Table α) (p : α → Bool) : Nat := t.rows.countP p

theorem mem_update {t : Table α} {p : α → Bool} {f : α → α} {hf} {b : α} :
    b ∈ t.update p f hf ↔ ∃ a ∈ t, b = if p a then f a else a := by
  simp only [mem_rows, update, List.mem_map]
  exact exists_congr (fun a => and_congr_right (fun _ => eq_comm))

theorem mem_update_of_mem {t : Table α} {p : α → Bool} {f : α → α} (hf) {a : α} (h : a ∈ t) :
    (if p a then f a else a) ∈ t.update p f hf := Iff.mpr mem_update ⟨a, h, rfl⟩

theorem find_update [DecidableEq κ] (t : Table α) (p : α → Bool) (f : α → α) (hf) (k : κ) :
    (t.update p f hf).find? k = (t.find? k).map (fun a => if p a then f a else a) := by
  cases h : t.find? k with
  | none =>
    refine find_none.mpr (fun b hb => ?_)
    obtain ⟨a, ha, rfl⟩ := Iff.mp mem_update hb
    have hne := find_none.mp h a ha
    split
    · rwa [hf]
    · exact hne
  | some a =>
    refine find_some.mpr ⟨mem_update_of_mem hf (mem_of_find h), ?_⟩
    have hk := key_of_find h
    show Keyed.key (if p a then f a else a) = k
    split
    · rwa [hf]
    · exact hk

/-- No row answers the predicate, so nothing is written. -/
theorem update_of_rowcount_zero {t : Table α} {p : α → Bool} {f : α → α} {hf}
    (h : t.rowcount p = 0) : t.update p f hf = t := by
  have hn : ∀ a ∈ t.rows, ¬ p a = true := List.countP_eq_zero.mp h
  have he : t.rows.map (fun a => if p a then f a else a) = t.rows := by
    rw [List.map_congr_left (g := id)]
    · simp
    · intro a ha
      simp [hn a ha]
  cases t
  simp only [update, mk.injEq]
  exact he

/-- A predicate that fixes the key meets at most one row. -/
theorem rowcount_key [DecidableEq κ] (t : Table α) (k : κ) (q : α → Bool) :
    t.rowcount (fun a => decide (Keyed.key a = k) && q a) =
      match t.find? k with
      | some a => if q a then 1 else 0
      | none => 0 := by
  cases h : t.find? k with
  | none =>
    refine List.countP_eq_zero.mpr (fun a ha => ?_)
    simp [find_none.mp h a ha]
  | some a =>
    obtain ⟨ha, hk⟩ := find_some.mp h
    have hone : t.rows.countP (fun b => decide (Keyed.key b = k)) ≤ 1 := by
      have := List.nodup_iff_count_le_one.mp t.distinct k
      rw [List.count, List.countP_map] at this
      refine Nat.le_trans (List.countP_mono_left (fun b _ hb => ?_)) this
      simpa using hb
    by_cases hq : q a = true
    · simp only [hq, if_true]
      refine Nat.le_antisymm (Nat.le_trans (List.countP_mono_left (fun b _ hb => ?_)) hone) ?_
      · simp only [Bool.and_eq_true] at hb
        exact hb.1
      · exact List.countP_pos_iff.mpr ⟨a, ha, by simp [hk, hq]⟩
    · simp only [hq]
      refine List.countP_eq_zero.mpr (fun b hb hp => ?_)
      simp only [Bool.and_eq_true, decide_eq_true_eq] at hp
      exact hq (eq_of_key hb ha (hp.1.trans hk.symm) ▸ hp.2)

/-- The single row an `UPDATE` on the key has changed. -/
theorem rowcount_key_one [DecidableEq κ] {t : Table α} {k : κ} {q : α → Bool} :
    t.rowcount (fun a => decide (Keyed.key a = k) && q a) = 1 ↔
      ∃ a, t.find? k = some a ∧ q a = true := by
  rw [rowcount_key]
  cases t.find? k with
  | none => simp
  | some a => by_cases hq : q a = true <;> simp [hq]

/-- An `UPDATE` on the key leaves every other row as it was. -/
theorem find_update_key [DecidableEq κ] (t : Table α) (k k' : κ) (q : α → Bool) (f : α → α)
    (hf) : (t.update (fun a => decide (Keyed.key a = k) && q a) f hf).find? k' =
      if k' = k then (t.find? k).map (fun a => if q a then f a else a) else t.find? k' := by
  rw [find_update]
  by_cases hk : k' = k
  · subst hk
    rw [if_pos rfl]
    cases h : t.find? k' with
    | none => rfl
    | some a => simp [key_of_find h]
  · rw [if_neg hk]
    cases h : t.find? k' with
    | none => rfl
    | some a => simp [key_of_find h, hk]

/-- The row under a key, changed. -/
def modify [DecidableEq κ] (t : Table α) (k : κ) (f : α → α)
    (hf : ∀ a, Keyed.key (f a) = Keyed.key a) : Table α :=
  t.update (fun a => decide (Keyed.key a = k)) f hf

@[simp] theorem find_modify [DecidableEq κ] (t : Table α) (k k' : κ) (f : α → α) (hf) :
    (t.modify k f hf).find? k' = if k' = k then (t.find? k).map f else t.find? k' := by
  have h := find_update_key t k k' (fun _ => true) f hf
  simpa [modify] using h

theorem mem_modify [DecidableEq κ] {t : Table α} {k : κ} {f : α → α} {hf} {b : α} :
    b ∈ t.modify k f hf ↔ ∃ a ∈ t, b = if Keyed.key a = k then f a else a := by
  simp [modify, mem_update]

/-- `DELETE` of the row under a key. -/
def delete [DecidableEq κ] (t : Table α) (k : κ) : Table α :=
  ⟨t.rows.filter (fun a => Keyed.key a ≠ k), t.distinct.sublist (List.filter_sublist.map _)⟩

theorem mem_delete [DecidableEq κ] {t : Table α} {k : κ} {a : α} :
    a ∈ t.delete k ↔ a ∈ t ∧ Keyed.key a ≠ k := by
  simp [mem_rows, delete]

@[simp] theorem find_delete [DecidableEq κ] (t : Table α) (k k' : κ) :
    (t.delete k).find? k' = if k' = k then none else t.find? k' := by
  split
  · rename_i hk
    exact find_none.mpr (fun a ha => hk ▸ (Iff.mp mem_delete ha).2)
  · rename_i hk
    cases h : t.find? k' with
    | none => exact find_none.mpr (fun a ha => find_none.mp h a (Iff.mp mem_delete ha).1)
    | some a =>
      have hak := key_of_find h
      exact find_some.mpr ⟨Iff.mpr mem_delete ⟨mem_of_find h, fun he => hk (hak ▸ he)⟩, hak⟩

/-- The rows that satisfy a condition. -/
def filter (t : Table α) (p : α → Bool) : Table α :=
  ⟨t.rows.filter p, t.distinct.sublist (List.filter_sublist.map _)⟩

theorem mem_filter {t : Table α} {p : α → Bool} {a : α} : a ∈ t.filter p ↔ a ∈ t ∧ p a = true := by
  simp [mem_rows, filter]

/-- A condition on the key keeps or drops the row under it. -/
theorem find_filter_key [DecidableEq κ] (q : κ → Bool) (t : Table α) (k : κ) :
    (t.filter (fun a => q (Keyed.key a))).find? k = if q k then t.find? k else none := by
  cases h : (t.filter (fun a => q (Keyed.key a))).find? k with
  | some a =>
    obtain ⟨ha, hk⟩ := find_some.mp h
    obtain ⟨ha, hq⟩ := Iff.mp mem_filter ha
    rw [hk] at hq
    rw [if_pos hq]
    exact (find_some.mpr ⟨ha, hk⟩).symm
  | none =>
    split
    · rename_i hq
      refine (find_none.mpr (fun a ha hk => ?_)).symm
      exact find_none.mp h a (Iff.mpr mem_filter ⟨ha, by rw [hk]; exact hq⟩) hk
    · rfl

/-- `INSERT ... ON CONFLICT DO UPDATE` of the whole row. -/
def put [DecidableEq κ] (t : Table α) (a : α) : Table α :=
  ⟨a :: (t.delete (Keyed.key a)).rows, by
    rw [List.map_cons, List.nodup_cons]
    refine ⟨fun h => ?_, (t.delete _).distinct⟩
    obtain ⟨b, hb, hk⟩ := List.mem_map.mp h
    exact (Iff.mp mem_delete (mem_rows.mpr hb)).2 hk⟩

theorem mem_put [DecidableEq κ] {t : Table α} {a b : α} :
    b ∈ t.put a ↔ b = a ∨ (b ∈ t ∧ Keyed.key b ≠ Keyed.key a) := by
  rw [← mem_delete, mem_rows, mem_rows, put, List.mem_cons]

@[simp] theorem find_put [DecidableEq κ] (t : Table α) (a : α) (k : κ) :
    (t.put a).find? k = if k = Keyed.key a then some a else t.find? k := by
  split
  · rename_i hk
    exact find_some.mpr ⟨Iff.mpr mem_put (Or.inl rfl), hk.symm⟩
  · rename_i hk
    have h := find_delete t (Keyed.key a) k
    rw [if_neg hk] at h
    rw [← h]
    simp [find?, put, Ne.symm hk]

end Table

end Solvio.Lib
