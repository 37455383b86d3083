import Solvio.Lib.Json

namespace Solvio.Lib

/-- Which value of a duplicate key counts. -/
inductive Wins where
  | first
  | last
deriving DecidableEq

namespace Wins

variable {α β γ : Type} [DecidableEq α]

def lookup : Wins → List (α × β) → α → Option β
  | _, [], _ => none
  | first, (k', v) :: kvs, k => if k' = k then some v else lookup first kvs k
  | last, (k', v) :: kvs, k => (lookup last kvs k).or (if k' = k then some v else none)

/-- The pairs that are left when every key keeps one value. -/
def keep : Wins → List (α × β) → List (α × β)
  | _, [] => []
  | first, (k, v) :: kvs => (k, v) :: (keep first kvs).filter (fun p => p.1 ≠ k)
  | last, (k, v) :: kvs => if k ∈ (keep last kvs).map Prod.fst then keep last kvs
    else (k, v) :: keep last kvs

theorem lookup_filter (w : Wins) (kvs : List (α × β)) {k k' : α} (h : k ≠ k') :
    w.lookup (kvs.filter (fun p => p.1 ≠ k)) k' = w.lookup kvs k' := by
  induction kvs with
  | nil => rfl
  | cons p kvs ih =>
    obtain ⟨a, v⟩ := p
    by_cases ha : a = k
    · subst ha
      rw [List.filter_cons_of_neg (by simp), ih]
      cases w <;> simp [lookup, h]
    · rw [List.filter_cons_of_pos (by simpa using ha)]
      cases w <;> simp only [lookup, ih]

theorem lookup_none (w : Wins) {kvs : List (α × β)} {k : α} (h : k ∉ kvs.map Prod.fst) :
    w.lookup kvs k = none := by
  induction kvs with
  | nil => cases w <;> rfl
  | cons p kvs ih =>
    simp only [List.map_cons, List.mem_cons, not_or] at h
    have hne : p.1 ≠ k := fun he => h.1 he.symm
    cases w <;> simp [lookup, hne, ih h.2]

theorem lookup_some (w : Wins) {kvs : List (α × β)} {k : α} (h : k ∈ kvs.map Prod.fst) :
    (w.lookup kvs k).isSome := by
  induction kvs with
  | nil => cases h
  | cons p kvs ih =>
    by_cases hk : p.1 = k
    · cases w <;> simp [lookup, hk]
    · have htail : k ∈ kvs.map Prod.fst := by
        simp only [List.map_cons, List.mem_cons] at h
        exact h.resolve_left (fun he => hk he.symm)
      cases w <;> simp [lookup, hk, ih htail]

/-- Once every key has one value, any way to read them is the same. -/
theorem lookup_keep (w w' : Wins) (kvs : List (α × β)) (k : α) :
    w'.lookup (w.keep kvs) k = w.lookup kvs k := by
  induction kvs with
  | nil => cases w <;> cases w' <;> rfl
  | cons p kvs ih =>
    obtain ⟨a, v⟩ := p
    cases w with
    | first =>
      by_cases ha : a = k
      · subst ha
        have hgone : w'.lookup ((keep first kvs).filter (fun p => p.1 ≠ a)) a = none :=
          lookup_none w' (by simp)
        cases w' <;> simp only [keep, lookup, hgone, ↓reduceIte, Option.none_or]
      · have hrest := lookup_filter w' (keep first kvs) ha
        rw [ih] at hrest
        cases w' <;> simp only [keep, lookup, ha, hrest, ↓reduceIte, Option.or_none]
    | last =>
      by_cases hmem : a ∈ (keep last kvs).map Prod.fst
      · simp only [keep, if_pos hmem, lookup, ih]
        by_cases ha : a = k
        · subst ha
          have hsome := lookup_some w' hmem
          rw [ih] at hsome
          rw [Option.or_of_isSome hsome]
        · simp [ha]
      · simp only [keep, if_neg hmem, lookup]
        by_cases ha : a = k
        · subst ha
          have hnone := lookup_none w' hmem
          have hlast := hnone
          rw [ih] at hlast
          cases w' <;> simp [lookup, hlast, hnone]
        · cases w' <;> simp [lookup, ha, ih]

theorem lookup_mem {w : Wins} {kvs : List (α × β)} {k : α} {v : β}
    (h : w.lookup kvs k = some v) : (k, v) ∈ kvs := by
  induction kvs with
  | nil => cases w <;> cases h
  | cons p kvs ih =>
    obtain ⟨a, u⟩ := p
    cases w with
    | first =>
      simp only [lookup] at h
      split at h
      · rename_i ha
        cases h
        exact ha ▸ List.mem_cons_self ..
      · exact List.mem_cons_of_mem _ (ih h)
    | last =>
      simp only [lookup] at h
      rcases Option.or_eq_some_iff.mp h with h | ⟨-, h⟩
      · exact List.mem_cons_of_mem _ (ih h)
      · split at h
        · rename_i ha
          cases h
          exact ha ▸ List.mem_cons_self ..
        · cases h

/-- A key with one value has it under any reading. -/
theorem lookup_single (w : Wins) {kvs : List (α × β)} {k : α} {v : β}
    (h : kvs.filter (fun p => p.1 = k) = [(k, v)]) : w.lookup kvs k = some v := by
  have hmem : (k, v) ∈ kvs := List.mem_of_mem_filter (h ▸ List.mem_singleton_self _)
  have hsome := w.lookup_some (List.mem_map_of_mem (f := Prod.fst) hmem)
  obtain ⟨u, hu⟩ := Option.isSome_iff_exists.mp hsome
  have hin : (k, u) ∈ kvs.filter (fun p => p.1 = k) :=
    List.mem_filter.mpr ⟨lookup_mem hu, by simp⟩
  rw [h, List.mem_singleton] at hin
  cases hin
  exact hu

end Wins

/-- A parser that settles duplicate keys, object by object. -/
abbrev Reader : Type := List Nat → Wins

namespace Json

mutual

/-- The document as the parser sees it; the path names the object. -/
def read (r : Reader) (path : List Nat) : Json → Json
  | .arr xs => .arr (readElements r path 0 xs)
  | .obj kvs => .obj ((r path).keep (readMembers r path 0 kvs))
  | v => v

def readElements (r : Reader) (path : List Nat) : Nat → List Json → List Json
  | _, [] => []
  | i, x :: xs => read r (i :: path) x :: readElements r path (i + 1) xs

def readMembers (r : Reader) (path : List Nat) : Nat → List (Text × Json) → List (Text × Json)
  | _, [] => []
  | i, (k, v) :: kvs => (k, read r (i :: path) v) :: readMembers r path (i + 1) kvs

end

/-- A parser in which one value of a duplicate key always wins. -/
def Reader.always (w : Wins) : Reader := fun _ => w

theorem lookup_members (r : Reader) (path : List Nat) (w : Wins) (i : Nat)
    (kvs : List (Text × Json)) (k : Text) :
    ∃ j, w.lookup (readMembers r path i kvs) k = (w.lookup kvs k).map (read r (j :: path)) := by
  induction kvs generalizing i with
  | nil => exact ⟨0, by cases w <;> rfl⟩
  | cons p kvs ih =>
    obtain ⟨a, v⟩ := p
    obtain ⟨j, hj⟩ := ih (i + 1)
    cases w with
    | first =>
      by_cases ha : a = k
      · exact ⟨i, by simp [readMembers, Wins.lookup, ha]⟩
      · exact ⟨j, by simpa [readMembers, Wins.lookup, ha] using hj⟩
    | last =>
      cases hl : Wins.last.lookup kvs k with
      | some u => exact ⟨j, by simp [readMembers, Wins.lookup, hj, hl]⟩
      | none => exact ⟨i, by by_cases ha : a = k <;> simp [readMembers, Wins.lookup, hj, hl, ha]⟩

theorem get_lookup (kvs : List (Text × Json)) (k : String) :
    (Json.obj kvs).get? k = Wins.last.lookup kvs (Text.ofString k) := by
  simp only [get?]
  induction kvs with
  | nil => rfl
  | cons p kvs ih =>
    rw [List.reverse_cons, List.find?_append, Wins.lookup, ← ih]
    by_cases hp : p.1 = Text.ofString k
    · simp [hp]
    · simp [hp]

/-- The value that the parser finds at a key. -/
theorem get_read (r : Reader) (path : List Nat) (kvs : List (Text × Json)) (k : String) :
    ∃ j, (read r path (.obj kvs)).get? k =
      ((r path).lookup kvs (Text.ofString k)).map (read r (j :: path)) := by
  obtain ⟨j, hj⟩ := lookup_members r path (r path) 0 kvs (Text.ofString k)
  exact ⟨j, by rw [read, get_lookup, Wins.lookup_keep, hj]⟩

theorem mem_elements {r : Reader} {path : List Nat} {i : Nat} {xs : List Json} {y : Json} :
    y ∈ readElements r path i xs → ∃ x ∈ xs, ∃ j, y = read r (j :: path) x := by
  induction xs generalizing i with
  | nil => intro h; cases h
  | cons x xs ih =>
    intro h
    rcases List.mem_cons.mp h with rfl | h
    · exact ⟨x, List.mem_cons_self .., i, rfl⟩
    · obtain ⟨x', hx', j, hj⟩ := ih h
      exact ⟨x', List.mem_cons_of_mem _ hx', j, hj⟩

theorem elements_mem (r : Reader) (path : List Nat) (i : Nat) {xs : List Json} {x : Json}
    (h : x ∈ xs) : ∃ j, read r (j :: path) x ∈ readElements r path i xs := by
  induction xs generalizing i with
  | nil => cases h
  | cons x' xs ih =>
    rcases List.mem_cons.mp h with rfl | h
    · exact ⟨i, List.mem_cons_self ..⟩
    · obtain ⟨j, hj⟩ := ih (i + 1) h
      exact ⟨j, List.mem_cons_of_mem _ hj⟩

end Json

end Solvio.Lib
