import Solvio.Lib.PyString
import Solvio.Memory.Store

namespace Solvio.Memory
open Solvio.Lib

abbrev Vector := List Rat

/-! ### What is embedded -/

/-- `_norm_tags`. -/
def normTags (lower : String → String) (tags : List String) : List String :=
  (((tags.map (fun t => lower (stripped t))).filter (· ≠ "")).eraseDups).insertionSort (· ≤ ·)

/-- `embedding_text`. -/
def embeddingText (lower : String → String) (record : MemoryRecord) : String :=
  let content := stripped record.content
  let tags := normTags lower record.tags
  "\n".intercalate (["subject: " ++ stripped record.subject] ++
    (if record.sensitivity ≠ .secretReference ∧ content ≠ "" then [content] else []) ++
    (if tags ≠ [] then ["tags: " ++ ", ".intercalate tags] else []))

/-- `content_hash`. -/
def contentHash (text : String) : String :=
  toHex (sha256 (encodeUtf8 ("solvio-emb-v1:" ++ text)))

/-! ### The index -/

/-- A row of `memory_embeddings`. -/
structure IndexRow where
  memoryId : String
  profileKey : String
  contentHash : String
  vector : Vector
deriving DecidableEq

instance : Keyed IndexRow (String × String) := ⟨fun r => (r.memoryId, r.profileKey)⟩

/-- `semantic_index.sqlite3`. -/
structure SemanticIndex where
  rows : Table IndexRow
  activeProfile : Option String

/-- How vectors are ranked against the vector of a query. -/
abbrev Ranking : Type := List (String × Vector) → Vector → List (String × Rat)

inductive IndexCall where
  | contentHashOf (id profile : String)
  | upsert (id profile hash : String) (vector : Vector)
  | delete (id : String) (profile : Option String)
  | deleteIds (ids : List String) (profile : String)
  | idsForProfile (profile : String)
  | search (query : Vector) (profile : String) (topK : Nat)
  | count (profile : String)
  | activeProfile
  | setActiveProfile (profile : String)

inductive IndexReply where
  | done
  | text (t : Option String)
  | ids (ids : List String)
  | hits (hits : List (String × Rat))
  | number (n : Nat)

namespace SemanticIndex

def empty : SemanticIndex := ⟨.empty, none⟩

def Has (x : SemanticIndex) (id profile : String) : Prop :=
  ∃ row ∈ x.rows, row.memoryId = id ∧ row.profileKey = profile

variable (x : SemanticIndex)

def ofProfile (profile : String) : List IndexRow :=
  x.rows.rows.filter (fun r => r.profileKey = profile)

/-- `upsert`. -/
def upsert (id profile hash : String) (vector : Vector) : SemanticIndex :=
  { x with rows := x.rows.put ⟨id, profile, hash, vector⟩ }

/-- `delete`, from one profile or from all. -/
def delete (id : String) (profile : Option String) : SemanticIndex :=
  { x with rows := x.rows.filter (fun r => !(r.memoryId = id && profile.all (r.profileKey = ·))) }

/-- `delete_ids`. -/
def deleteIds (ids : List String) (profile : String) : SemanticIndex :=
  { x with rows := x.rows.filter (fun r => !(r.memoryId ∈ ids && r.profileKey = profile)) }

/-- `search`, over the vectors of the profile that have the dimension of the
query. -/
def search (rank : Ranking) (query : Vector) (profile : String) (topK : Nat) :
    List (String × Rat) :=
  (rank (((x.ofProfile profile).filter (fun r => r.vector.length = query.length)).map
    (fun r => (r.memoryId, r.vector))) query).take topK

def run (rank : Ranking) : IndexCall → IndexReply × SemanticIndex
  | .contentHashOf id profile => (.text ((x.rows.find? (id, profile)).map IndexRow.contentHash), x)
  | .upsert id profile hash vector => (.done, x.upsert id profile hash vector)
  | .delete id profile => (.done, x.delete id profile)
  | .deleteIds ids profile => (.done, x.deleteIds ids profile)
  | .idsForProfile profile => (.ids ((x.ofProfile profile).map IndexRow.memoryId), x)
  | .search query profile topK => (.hits (x.search rank query profile topK), x)
  | .count profile => (.number (x.ofProfile profile).length, x)
  | .activeProfile => (.text x.activeProfile, x)
  | .setActiveProfile profile => (.done, { x with activeProfile := some profile })

/-- A vector that a call leaves was there, or the call has written it. -/
theorem has_run {rank : Ranking} {c : IndexCall} {id profile : String}
    (h : (x.run rank c).2.Has id profile) :
    (x.Has id profile ∧ c ≠ .delete id none) ∨ ∃ hash v, c = .upsert id profile hash v := by
  obtain ⟨row, hrow, hid, hprofile⟩ := h
  cases c with
  | upsert k p hash v =>
    rcases Table.mem_put.mp hrow with rfl | ⟨hrow, -⟩
    · cases hid
      cases hprofile
      exact .inr ⟨hash, v, rfl⟩
    · exact .inl ⟨⟨row, hrow, hid, hprofile⟩, fun h => (by cases h)⟩
  | delete k p =>
    obtain ⟨hrow, hkept⟩ := Table.mem_filter.mp hrow
    refine .inl ⟨⟨row, hrow, hid, hprofile⟩, fun h => ?_⟩
    cases h
    simp [hid] at hkept
  | deleteIds ids p =>
    exact .inl ⟨⟨row, (Table.mem_filter.mp hrow).1, hid, hprofile⟩, fun h => (by cases h)⟩
  | _ => exact .inl ⟨⟨row, hrow, hid, hprofile⟩, fun h => (by cases h)⟩

end SemanticIndex

end Solvio.Memory
