import Solvio.Lib.Table

namespace Solvio.Lib.Table

/-! A table as a dict, which keeps the order of its keys. -/

variable {α : Type u} {κ : Type v} [Keyed α κ]

/-- `len(d)`. -/
def size (t : Table α) : Nat := t.rows.length

@[simp] theorem size_empty : (empty : Table α).size = 0 := rfl

theorem size_zero {t : Table α} (h : ∀ a, a ∉ t) : t.size = 0 :=
  List.length_eq_zero_iff.mpr (List.eq_nil_iff_forall_not_mem.mpr h)

variable [DecidableEq κ]

theorem replaced_keys (rows : List α) (a : α) :
    (rows.map (fun b => if Keyed.key b = Keyed.key a then a else b)).map Keyed.key =
      rows.map (Keyed.key : α → κ) := by
  rw [List.map_map]
  apply List.map_congr_left
  intro b _
  simp only [Function.comp_apply]
  split
  · rename_i h
    exact h.symm
  · rfl

omit [DecidableEq κ] in
theorem appended_keys {t : Table α} {a : α} (h : Keyed.key a ∉ t.rows.map Keyed.key) :
    ((t.rows ++ [a]).map Keyed.key).Nodup := by
  rw [List.map_append, List.nodup_append]
  refine ⟨t.distinct, by simp, fun k hk k' hk' he => ?_⟩
  simp only [List.map_cons, List.map_nil, List.mem_singleton] at hk'
  exact h (hk' ▸ he ▸ hk)

/-- `d[key] = value`: a key that is there keeps its place. -/
def assign (t : Table α) (a : α) : Table α :=
  if h : Keyed.key a ∈ t.rows.map Keyed.key then
    ⟨t.rows.map (fun b => if Keyed.key b = Keyed.key a then a else b), by
      rw [replaced_keys]
      exact t.distinct⟩
  else
    ⟨t.rows ++ [a], appended_keys h⟩

theorem mem_assign {t : Table α} {a b : α} :
    b ∈ t.assign a ↔ b = a ∨ (b ∈ t ∧ Keyed.key b ≠ Keyed.key a) := by
  unfold assign
  split
  · rename_i hkey
    obtain ⟨c, hc, hck⟩ := List.mem_map.mp hkey
    simp only [mem_rows, List.mem_map]
    constructor
    · rintro ⟨d, hd, rfl⟩
      split
      · exact .inl rfl
      · rename_i hne
        exact .inr ⟨hd, hne⟩
    · rintro (rfl | ⟨hb, hne⟩)
      · exact ⟨c, hc, if_pos hck⟩
      · exact ⟨b, hb, if_neg hne⟩
  · rename_i hkey
    simp only [mem_rows, List.mem_append, List.mem_singleton]
    constructor
    · rintro (hb | rfl)
      · exact .inr ⟨hb, fun he => hkey (List.mem_map.mpr ⟨b, hb, he⟩)⟩
      · exact .inl rfl
    · rintro (rfl | ⟨hb, -⟩)
      · exact .inr rfl
      · exact .inl hb

@[simp] theorem find_assign (t : Table α) (a : α) (k : κ) :
    (t.assign a).find? k = if k = Keyed.key a then some a else t.find? k := by
  split
  · rename_i hk
    exact find_some.mpr ⟨Iff.mpr mem_assign (.inl rfl), hk.symm⟩
  · rename_i hk
    cases h : t.find? k with
    | none =>
      refine find_none.mpr (fun b hb hbk => ?_)
      rcases Iff.mp mem_assign hb with rfl | ⟨hb, -⟩
      · exact hk hbk.symm
      · exact find_none.mp h b hb hbk
    | some b =>
      obtain ⟨hb, hbk⟩ := find_some.mp h
      exact find_some.mpr ⟨Iff.mpr mem_assign (.inr ⟨hb, fun he => hk (hbk.symm.trans he)⟩), hbk⟩

theorem size_assign (t : Table α) (a : α) : (t.assign a).size ≤ t.size + 1 := by
  unfold assign size
  split
  · simp
  · simp

/-- A value under a key that is there takes no further place. -/
theorem size_assign_mem {t : Table α} {a b : α} (hb : b ∈ t) (hk : Keyed.key b = Keyed.key a) :
    (t.assign a).size = t.size := by
  unfold assign size
  rw [dif_pos (List.mem_map.mpr ⟨b, hb, hk⟩)]
  exact List.length_map ..

theorem size_delete (t : Table α) (k : κ) : (t.delete k).size ≤ t.size := List.length_filter_le ..

/-- A key that was there is gone, and its place with it. -/
theorem size_delete_mem {t : Table α} {a : α} (h : a ∈ t) :
    (t.delete (Keyed.key a)).size + 1 ≤ t.size := by
  apply List.length_filter_lt_length_iff_exists.mpr
  exact ⟨a, h, by simp⟩

end Solvio.Lib.Table
