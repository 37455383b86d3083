import Solvio.Lib.Raises
import Solvio.Lib.Table

namespace Solvio.Memory
open Solvio.Lib

inductive MemoryType where
  | working | user | people | episodic | semantic | preference | rule | project | standingIntent
deriving DecidableEq

/-- How much the content needs protection. -/
inductive Sensitivity where
  | publicContent | personal | sensitive | secretReference
deriving DecidableEq

/-- Where a fact comes from. -/
inductive SourceType where
  | userDirect | homeAssistant | codexResult | solvioInference | systemObservation
  | gmailMessage | webPage
deriving DecidableEq

inductive TrustLevel where
  | systemTrusted | userDirect | localTrustedTool | memoryCurated | externalToolResult
  | untrustedEmail | untrustedWeb | untrustedDocument | untrustedMessage | agentGenerated
deriving DecidableEq

inductive RetentionMode where
  | standard | auditOnly | ttl
deriving DecidableEq

structure RetentionPolicy where
  mode : RetentionMode := .standard
  ttlDays : Option Int := none
  purgeOnExpiry : Bool := false
deriving DecidableEq

/-- One link of the chain a record was derived by. -/
structure ProvenanceEntry where
  sourceType : SourceType
  source : String
  trustLevel : TrustLevel
  takenAt : Int
  note : String := ""
deriving DecidableEq

structure Relation where
  kind : String
  targetId : String
deriving DecidableEq

structure MemoryRecord where
  id : String
  memoryType : MemoryType
  content : String
  subject : String
  source : String
  sourceType : SourceType
  createdAt : Int
  updatedAt : Int
  trustLevel : TrustLevel
  sensitivity : Sensitivity := .personal
  retentionPolicy : RetentionPolicy := {}
  validFrom : Option Int := none
  validUntil : Option Int := none
  provenance : List ProvenanceEntry := []
  supersedes : Option String := none
  supersededBy : Option String := none
  tags : List String := []
  relations : List Relation := []
deriving DecidableEq

/-- What the store raises. -/
inductive Fault where
  | unknownId (id : String)
  | duplicateId (id : String)
  | credential (place : String)
  | notUpdatable (field : String)
  | reinforceRefused (id : String)
  | restoreRefused (reasons : List String)
  | deleteFailed
  | closed
deriving DecidableEq

/-! ### Rows -/

/-- A row of `memories`. -/
structure MemoryRow where
  id : String
  memoryType : MemoryType
  content : String
  subject : String
  source : String
  sourceType : SourceType
  createdAt : Int
  updatedAt : Int
  trustLevel : TrustLevel
  sensitivity : Sensitivity
  retentionPolicy : RetentionPolicy
  validFrom : Option Int
  validUntil : Option Int
  supersedes : Option String
  supersededBy : Option String
  forgotten : Bool
  forgottenReason : String
  tags : List String
deriving DecidableEq

instance : Keyed MemoryRow String := ⟨MemoryRow.id⟩

/-- Not forgotten and not superseded. -/
def MemoryRow.current (row : MemoryRow) : Bool := !row.forgotten && row.supersededBy.isNone

/-- `_valid_now`. -/
def MemoryRow.validNow (row : MemoryRow) (now : Int) : Bool :=
  row.validFrom.all (· ≤ now) && row.validUntil.all (now < ·)

/-- A row of `provenance`; the rows of a record stand in the order of `seq`. -/
structure ProvenanceRow where
  memoryId : String
  entry : ProvenanceEntry
deriving DecidableEq

structure RelationRow where
  memoryId : String
  relation : Relation
deriving DecidableEq

structure FtsRow where
  id : String
  content : String
  subject : String
  tags : List String
deriving DecidableEq

/-- The row that `insert_record` writes. -/
def MemoryRecord.row (r : MemoryRecord) : MemoryRow where
  id := r.id
  memoryType := r.memoryType
  content := r.content
  subject := r.subject
  source := r.source
  sourceType := r.sourceType
  createdAt := r.createdAt
  updatedAt := r.updatedAt
  trustLevel := r.trustLevel
  sensitivity := r.sensitivity
  retentionPolicy := r.retentionPolicy
  validFrom := r.validFrom
  validUntil := r.validUntil
  supersedes := r.supersedes
  supersededBy := r.supersededBy
  forgotten := false
  forgottenReason := ""
  tags := r.tags

/-- `_record_from_row`. -/
def recordFromRow (row : MemoryRow) (provenance : List ProvenanceEntry)
    (relations : List Relation) : MemoryRecord where
  id := row.id
  memoryType := row.memoryType
  content := row.content
  subject := row.subject
  source := row.source
  sourceType := row.sourceType
  createdAt := row.createdAt
  updatedAt := row.updatedAt
  trustLevel := row.trustLevel
  sensitivity := row.sensitivity
  retentionPolicy := row.retentionPolicy
  validFrom := row.validFrom
  validUntil := row.validUntil
  provenance := provenance
  supersedes := row.supersedes
  supersededBy := row.supersededBy
  tags := row.tags
  relations := relations

@[simp] theorem record_from_row_id (row : MemoryRow) (ps : List ProvenanceEntry)
    (rs : List Relation) : (recordFromRow row ps rs).id = row.id := rfl

/-! ### Changes -/

/-- One entry of the dictionary that `update` takes. -/
inductive Change where
  | content (s : String)
  | subject (s : String)
  | sensitivity (v : Sensitivity)
  | trustLevel (v : TrustLevel)
  | validFrom (t : Option Int)
  | validUntil (t : Option Int)
  | tags (ts : List String)
  | other (field : String)
deriving DecidableEq

/-- The columns a change sets. A field outside the list is refused. -/
def Change.apply (row : MemoryRow) : Change → Except Fault MemoryRow
  | content s => .ok { row with content := s }
  | subject s => .ok { row with subject := s }
  | sensitivity v => .ok { row with sensitivity := v }
  | trustLevel v => .ok { row with trustLevel := v }
  | validFrom t => .ok { row with validFrom := t }
  | validUntil t => .ok { row with validUntil := t }
  | tags ts => .ok { row with tags := ts }
  | other field => .error (.notUpdatable field)

/-- What an update leaves alone, whatever it is asked to change. -/
structure MemoryRow.SameOrigin (row row' : MemoryRow) : Prop where
  id : row'.id = row.id
  memoryType : row'.memoryType = row.memoryType
  source : row'.source = row.source
  sourceType : row'.sourceType = row.sourceType
  createdAt : row'.createdAt = row.createdAt
  supersedes : row'.supersedes = row.supersedes
  supersededBy : row'.supersededBy = row.supersededBy
  forgotten : row'.forgotten = row.forgotten

namespace MemoryRow.SameOrigin

variable {a b c : MemoryRow}

theorem refl (a : MemoryRow) : SameOrigin a a := ⟨rfl, rfl, rfl, rfl, rfl, rfl, rfl, rfl⟩

theorem trans (h : SameOrigin a b) (h' : SameOrigin b c) : SameOrigin a c where
  id := h'.id.trans h.id
  memoryType := h'.memoryType.trans h.memoryType
  source := h'.source.trans h.source
  sourceType := h'.sourceType.trans h.sourceType
  createdAt := h'.createdAt.trans h.createdAt
  supersedes := h'.supersedes.trans h.supersedes
  supersededBy := h'.supersededBy.trans h.supersededBy
  forgotten := h'.forgotten.trans h.forgotten

end MemoryRow.SameOrigin

theorem Change.apply_origin {row row' : MemoryRow} {c : Change} (h : c.apply row = .ok row') :
    row.SameOrigin row' := by
  cases c with
  | other field => cases h
  | _ =>
    simp only [Change.apply, Except.ok.injEq] at h
    subst h
    exact ⟨rfl, rfl, rfl, rfl, rfl, rfl, rfl, rfl⟩

/-- The columns of all changes, and the time of the update. -/
def applyChanges (row : MemoryRow) (changes : List Change) (now : Int) : Except Fault MemoryRow :=
  (changes.foldlM Change.apply row).map (fun row => { row with updatedAt := now })

theorem changes_origin {changes : List Change} {row row' : MemoryRow}
    (h : changes.foldlM Change.apply row = .ok row') : row.SameOrigin row' := by
  induction changes generalizing row with
  | nil =>
    cases h
    exact .refl _
  | cons c changes ih =>
    rw [List.foldlM_cons, bind_ok] at h
    obtain ⟨mid, hmid, h⟩ := h
    exact (Change.apply_origin hmid).trans (ih h)

theorem apply_changes_origin {changes : List Change} {row row' : MemoryRow} {now : Int}
    (h : applyChanges row changes now = .ok row') : row.SameOrigin row' := by
  rw [applyChanges, map_ok] at h
  obtain ⟨mid, hmid, rfl⟩ := h
  exact (changes_origin hmid).trans ⟨rfl, rfl, rfl, rfl, rfl, rfl, rfl, rfl⟩

end Solvio.Memory
