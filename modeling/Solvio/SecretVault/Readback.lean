import Solvio.SecretVault.Admin

namespace Solvio.SecretVault
open Solvio.Lib

/-! ### Sorted sets -/

theorem mem_sorted_set {xs : List String} {x : String} : x ∈ sortedSet xs ↔ x ∈ xs := by
  simp [sortedSet, List.mem_insertionSort]

theorem sorted_set_sorted (xs : List String) : (sortedSet xs).Pairwise (· < ·) := by
  have hle : (sortedSet xs).Pairwise (· ≤ ·) := List.pairwise_insertionSort _ _
  have hnd : (sortedSet xs).Nodup :=
    (List.perm_insertionSort (· ≤ ·) xs.dedup).nodup_iff.mpr xs.nodup_dedup
  exact (hle.and hnd).imp (fun h => lt_of_le_of_ne h.1 h.2)

theorem sorted_set_of_sorted {xs : List String} (h : xs.Pairwise (· < ·)) : sortedSet xs = xs := by
  have hnd : xs.Nodup := h.imp (fun h => ne_of_lt h)
  rw [sortedSet, hnd.dedup]
  exact (h.imp le_of_lt).insertionSort_eq

@[simp] theorem sorted_set_idem (xs : List String) : sortedSet (sortedSet xs) = sortedSet xs :=
  sorted_set_of_sorted (sorted_set_sorted xs)

theorem sorted_set_congr {xs ys : List String} (h : ∀ x, x ∈ xs ↔ x ∈ ys) :
    sortedSet xs = sortedSet ys :=
  (sorted_set_sorted xs).eq_of_mem_iff (sorted_set_sorted ys)
    (fun x => by rw [mem_sorted_set, mem_sorted_set, h])

theorem sorted_set_eq_nil {xs : List String} : sortedSet xs = [] ↔ xs = [] := by
  simp only [List.eq_nil_iff_forall_not_mem, mem_sorted_set]

/-! ### Columns -/

/-- The lines of a text that are not empty. -/
def linesOf (x : String) : List String :=
  ((x.toList.splitOn '\n').filter (· ≠ [])).map String.ofList

/-- A text that one line of a column can hold. -/
def IsLine (x : String) : Prop := '\n' ∉ x.toList ∧ x ≠ ""

instance (x : String) : Decidable (IsLine x) := inferInstanceAs (Decidable (_ ∧ _))

theorem lines_of_line {x : String} (h : IsLine x) : linesOf x = [x] := by
  have hne : x.toList ≠ [] := fun he => h.2 (String.toList_inj.mp (by rw [he]; rfl))
  rw [linesOf, List.splitOn_eq_singleton h.1]
  simp [hne]

theorem not_mem_split {c : Char} {cs ds : List Char} (h : ds ∈ cs.splitOn c) : c ∉ ds := by
  induction cs generalizing ds with
  | nil =>
    rw [List.splitOn_nil, List.mem_singleton] at h
    simp [h]
  | cons x cs ih =>
    rw [List.splitOn_cons_eq_if_modifyHead] at h
    split at h
    · rcases List.mem_cons.mp h with rfl | h
      · simp
      · exact ih h
    · rename_i hx
      cases hs : cs.splitOn c with
      | nil => exact absurd hs (List.splitOn_ne_nil c cs)
      | cons y ys =>
        rw [hs] at h ih
        rcases List.mem_cons.mp h with rfl | h
        · simp only [List.mem_cons, not_or]
          exact ⟨fun he => hx (by simp [he]), ih (by simp)⟩
        · exact ih (List.mem_cons_of_mem _ h)

theorem split_lines (xs : List (List Char)) (hx : xs ≠ []) :
    (['\n'].intercalate xs).splitOn '\n' = xs.flatMap (·.splitOn '\n') := by
  induction xs with
  | nil => exact absurd rfl hx
  | cons x xs ih =>
    cases xs with
    | nil => simp [List.intercalate]
    | cons y ys =>
      have hrest := ih (by simp)
      have hcons : ['\n'].intercalate (x :: y :: ys) =
          x ++ '\n' :: ['\n'].intercalate (y :: ys) := by
        simp [List.intercalate, List.intersperse]
      rw [hcons, List.splitOn_append_cons_self, hrest]
      rfl

/-- A column holds the lines of what was joined. -/
theorem parts_join (xs : List String) : (Column.text (joinLines xs)).parts = xs.flatMap linesOf := by
  cases xs with
  | nil => rfl
  | cons x xs =>
    have hne : (x :: xs).map String.toList ≠ [] := by simp
    rw [Column.parts, joinLines, String.toList_ofList, split_lines _ hne]
    simp only [List.flatMap_map, List.filter_flatMap, List.map_flatMap]
    rfl

theorem flat_map_lines {xs : List String} (h : ∀ x ∈ xs, IsLine x) : xs.flatMap linesOf = xs := by
  induction xs with
  | nil => rfl
  | cons x xs ih =>
    rw [List.flatMap_cons, lines_of_line (h x (by simp)),
      ih (fun y hy => h y (List.mem_cons_of_mem _ hy))]
    rfl

theorem parts_join_lines {xs : List String} (h : ∀ x ∈ xs, IsLine x) :
    (Column.text (joinLines xs)).parts = xs := by
  rw [parts_join, flat_map_lines h]

theorem decimal_is_line (n : Nat) : IsLine (String.ofList (Json.decimal n)) := by
  obtain ⟨c, ds, hd, -⟩ := Json.decimal_head n
  refine ⟨fun h => ?_, fun h => ?_⟩
  · rw [String.toList_ofList] at h
    have := Json.decimal_digits n _ h
    simp [Json.isDigit] at this
  · have := congrArg String.toList h
    rw [String.toList_ofList, hd] at this
    simp at this

/-- Whatever stands in a column, each part of it is a line. -/
theorem parts_lines (c : Column) : ∀ x ∈ c.parts, IsLine x := by
  intro x hx
  cases c with
  | text s =>
    obtain ⟨cs, hcs, rfl⟩ := List.mem_map.mp hx
    obtain ⟨hm, hne⟩ := List.mem_filter.mp hcs
    refine ⟨?_, fun he => ?_⟩
    · rw [String.toList_ofList]
      exact not_mem_split hm
    · simp only [ne_eq, decide_not, Bool.not_eq_eq_eq_not, Bool.not_true, decide_eq_false_iff_not] at hne
      exact hne (by simpa using congrArg String.toList he)
  | blob b =>
    obtain ⟨n, _, rfl⟩ := List.mem_map.mp hx
    exact decimal_is_line _

/-! ### Executors -/

theorem ExecutorId.of_value (e : ExecutorId) : ExecutorId.ofValue? e.value = some e := by
  cases e <;> rfl

theorem ExecutorId.value_injective {a b : ExecutorId} (h : a.value = b.value) : a = b := by
  have := ExecutorId.of_value a
  rw [h, ExecutorId.of_value] at this
  exact (Option.some.inj this).symm

theorem ExecutorId.value_line (e : ExecutorId) : IsLine e.value := by
  cases e <;> decide

theorem SecretKind.of_value (k : SecretKind) : SecretKind.ofValue? k.value = some k := by
  cases k <;> rfl

theorem Status.of_value (s : Status) : Status.ofValue? s.value = some s := by
  cases s <;> rfl

/-- Sorting executors sorts their names. -/
theorem sorted_executors_values (es : List ExecutorId) :
    (sortedExecutors es).map ExecutorId.value = sortedSet (es.map ExecutorId.value) := by
  rw [sortedExecutors, sortedSet, List.map_insertionSort (s := (· ≤ ·)) _ _ _ (by simp),
    List.dedup_map_of_injective (fun _ _ => ExecutorId.value_injective)]

theorem executors_read (es : List ExecutorId) :
    (es.map ExecutorId.value).mapM ExecutorId.ofValue? = some es := by
  induction es with
  | nil => rfl
  | cons e es ih => simp [ExecutorId.of_value, ih]

theorem mem_sorted_executors {es : List ExecutorId} {e : ExecutorId} :
    e ∈ sortedExecutors es ↔ e ∈ es := by
  simp [sortedExecutors, List.mem_insertionSort]

@[simp] theorem sorted_executors_idem (es : List ExecutorId) :
    sortedExecutors (sortedExecutors es) = sortedExecutors es := by
  apply List.map_injective_iff.mpr (fun _ _ => ExecutorId.value_injective)
  rw [sorted_executors_values, sorted_executors_values, sorted_set_idem]

/-! ### What a row says that was put -/

theorem authority_fields_some {T : TextTables} {p : SecretPolicy} {a : Authority}
    (h : p.authorityFields T = some a) :
    ∃ targets, p.allowedTargets.mapM (normalizeTarget T) = some targets ∧
      a = { secretRef := p.secretRef, kind := p.kind.value, version := p.version
            status := p.status.value
            allowedCapabilities := sortedSet p.allowedCapabilities
            allowedTargets := sortedSet targets
            allowedExecutors := sortedSet (p.allowedExecutors.map ExecutorId.value)
            allowBackground := p.allowBackground
            requiresUserPresence := p.requiresUserPresence } := by
  unfold SecretPolicy.authorityFields at h
  obtain ⟨targets, ht, he⟩ := Option.bind_eq_some_iff.mp h
  exact ⟨targets, ht, (Option.some.inj he).symm⟩

/-- Every text of a scope that is read is a line. -/
theorem from_row_lines {row : Row} {p : SecretPolicy} (h : fromRow row = some p) :
    (∀ x ∈ p.allowedCapabilities, IsLine x) ∧ ∀ x ∈ p.allowedTargets, IsLine x := by
  simp only [fromRow, Option.bind_eq_bind, Option.bind_eq_some_iff] at h
  obtain ⟨kind, _, status, _, executors, _, he⟩ := h
  obtain rfl := Option.some.inj he
  exact ⟨parts_lines _, parts_lines _⟩

theorem clean_targets_normal {T : TextTables} {targets cleaned : List String}
    (h : targets.mapM (cleanTarget T) = .ok cleaned) :
    targets.mapM (normalizeTarget T) = some cleaned ∧ ∀ x ∈ cleaned, x ≠ "" := by
  rw [map_m_ok] at h
  induction h with
  | nil => exact ⟨rfl, by simp⟩
  | cons hx _ ih =>
    obtain ⟨hn, hne⟩ := clean_target_ok hx
    refine ⟨by simp [hn, ih.1], fun x hx => ?_⟩
    rcases List.mem_cons.mp hx with rfl | hx
    · exact hne
    · exact ih.2 x hx

/-- A scope that `_check_scope` leaves as it is stands in the digest as it is. -/
theorem settled_authority {T : TextTables} {p : SecretPolicy} {a : Authority}
    (hscope : checkScope T p.scope = .ok p.scope) (h : p.authorityFields T = some a) :
    a.allowedCapabilities = p.allowedCapabilities ∧ a.allowedTargets = p.allowedTargets ∧
      sortedExecutors p.allowedExecutors = p.allowedExecutors := by
  obtain ⟨cleaned, hc, he, -⟩ := check_scope_ok hscope
  obtain ⟨targets, ht, rfl⟩ := authority_fields_some h
  have hn := (clean_targets_normal hc).1
  simp only [SecretPolicy.scope, Scope.mk.injEq] at he hn
  rw [ht] at hn
  obtain rfl := Option.some.inj hn
  refine ⟨?_, he.2.1.symm, he.2.2.symm⟩
  rw [he.1, cleanCapabilities, sorted_set_idem]

/-- The policy a row gives back after `put`. -/
def readBack (old : Option Row) (p : SecretPolicy) (a : Authority) (now : String) : SecretPolicy :=
  { p with
    allowedCapabilities := a.allowedCapabilities.flatMap linesOf
    allowedTargets := a.allowedTargets.flatMap linesOf
    allowedExecutors := sortedExecutors p.allowedExecutors
    createdAt := (old.map (·.createdAt)).getD (if p.createdAt = "" then now else p.createdAt)
    lastUsedAt := (old.map (·.lastUsedAt)).getD p.lastUsedAt }

theorem from_row_put {T : TextTables} {p : SecretPolicy} {a : Authority}
    (h : p.authorityFields T = some a) (old : Option Row) (s : Sealed) (now : String) :
    fromRow (putRow old p a s now) = some (readBack old p a now) := by
  obtain ⟨targets, ht, rfl⟩ := authority_fields_some h
  have hexe : ((sortedSet (p.allowedExecutors.map ExecutorId.value)).flatMap linesOf).mapM
      ExecutorId.ofValue? = some (sortedExecutors p.allowedExecutors) := by
    rw [← parts_join, parts_join_lines, ← sorted_executors_values, executors_read]
    intro x hx
    obtain ⟨e, _, rfl⟩ := List.mem_map.mp (mem_sorted_set.mp hx)
    exact e.value_line
  cases old with
  | none =>
    simp only [fromRow, putRow, freshRow, SecretKind.of_value, Status.of_value, parts_join, hexe,
      Option.bind_eq_bind, Option.bind_some]
    rfl
  | some row =>
    simp only [fromRow, putRow, freshRow, SecretKind.of_value, Status.of_value, parts_join, hexe,
      Option.bind_eq_bind, Option.bind_some]
    rfl

/-- The policy that is read back for a reference. -/
def policyAt (t : Vault) (ref : String) : Option SecretPolicy := (t.find? ref).bind fromRow

theorem policy_at_of_known {t : Vault} {ref : String} {p : SecretPolicy}
    (h : knownPolicy t ref = .ok p) : policyAt t ref = some p ∧ p.secretRef = ref := by
  obtain ⟨-, row, hrow, hp⟩ := known_policy_ok h
  refine ⟨by rw [policyAt, hrow, Option.bind_some, hp], ?_⟩
  rw [from_row_ref hp]
  exact Table.key_of_find hrow

theorem policy_at_of_read {t : Vault} {ref : String} {found : Option SecretPolicy}
    (h : readPolicy t ref = .ok found) : policyAt t ref = found := by
  rcases read_policy_ok h with ⟨hn, rfl⟩ | ⟨row, p, hrow, hp, rfl⟩
  · rw [policyAt, hn, Option.bind_none]
  · rw [policyAt, hrow, Option.bind_some, hp]

theorem policy_at_stored {V : Site} (s : Sealing V) (t : Vault) (now : String) (ref : String) :
    policyAt ((Effect.stored s).apply now t) ref =
      if ref = s.policy.secretRef then
        some (readBack (t.find? s.policy.secretRef) s.policy s.authority now)
      else policyAt t ref := by
  rw [policyAt, Effect.apply, find_put]
  split
  · rw [Option.bind_some, from_row_put s.authority_eq]
  · rfl

theorem policy_at_removed {V : Site} (t : Vault) (now removed ref : String) :
    policyAt ((Effect.removed (V := V) removed).apply now t) ref =
      if ref = removed then none else policyAt t ref := by
  rw [policyAt, Effect.apply, Table.find_delete]
  split <;> rfl

end Solvio.SecretVault
