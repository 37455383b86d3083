import Solvio.Lib.Codec
import Solvio.Lib.Dict
import Solvio.Lib.Lines
import Solvio.Lib.Sha256
import Solvio.Lib.Url

namespace Solvio.Communication
open Solvio.Lib

/-! ### Texts -/

/-- Every run of white space becomes one blank. -/
def squeezed : List Char → List Char
  | [] => []
  | [c] => if isSpace c then [' '] else [c]
  | c :: d :: cs =>
    if isSpace c then if isSpace d then squeezed (d :: cs) else ' ' :: squeezed (d :: cs)
    else c :: squeezed (d :: cs)

/-- `" ".join(s.split())`. -/
def collapsed (s : String) : String := String.ofList (squeezed (strip isSpace s.toList))

/-- What `str.maketrans` of `normalize_alias` makes of a letter. -/
def spelledOut (c : Char) : List Char :=
  if c = 'ä' then ['a', 'e'] else if c = 'ö' then ['o', 'e'] else if c = 'ü' then ['u', 'e']
  else if c = 'ß' then ['s', 's'] else [c]

/-- `s.strip().lower()`. -/
def lowerStripped (T : TextTables) (s : String) : String :=
  String.ofList (T.lowered (strip isSpace s.toList))

/-- `normalize_alias`. -/
@[irreducible] def normalizeAlias (T : TextTables) (s : String) : String :=
  String.ofList ((collapsed (lowerStripped T s)).toList.flatMap spelledOut)

/-- Tables with which doing it twice is doing it once. -/
structure Writing extends TextTables where
  lower_again : ∀ s, lowerStripped toTextTables (lowerStripped toTextTables s) =
    lowerStripped toTextTables s
  norm_again : ∀ s, normalizeAlias toTextTables (normalizeAlias toTextTables s) =
    normalizeAlias toTextTables s
  norm_collapsed : ∀ s, normalizeAlias toTextTables (collapsed s) = normalizeAlias toTextTables s

/-! ### Contact ways -/

structure Handle where
  channel : String
  value : String
deriving DecidableEq

variable {T : Writing}

def Handle.clean (T : Writing) (h : Handle) : Handle :=
  ⟨lowerStripped T.toTextTables h.channel, stripped h.value⟩

/-- `clean_handles`. -/
def cleanHandles (T : Writing) (hs : List Handle) : List Handle := hs.map (Handle.clean T)

def Handle.full (h : Handle) : Bool := h.channel ≠ "" && h.value ≠ ""

@[simp] theorem clean_again (h : Handle) : (h.clean T).clean T = h.clean T := by
  simp [Handle.clean, T.lower_again]

@[simp] theorem clean_handles_again (hs : List Handle) :
    cleanHandles T (cleanHandles T hs) = cleanHandles T hs := by
  simp [cleanHandles]

/-! ### The store -/

/-- A confirmed binding, which names somebody and a way to reach them. -/
structure Row (T : Writing) where
  aliasNorm : String
  aliasName : String
  displayName : String
  handles : List Handle
  confirmedAt : Nat
  source : String
  version : Nat
  named : displayName ≠ ""
  reachable : handles ≠ []
  full : handles.all Handle.full = true
  settled : cleanHandles T handles = handles
deriving DecidableEq

instance : Keyed (Row T) String := ⟨Row.aliasNorm⟩

abbrev Store (T : Writing) : Type := Table (Row T)

/-- `get`. -/
def Store.get (s : Store T) (name : String) : Option (Row T) :=
  s.find? (normalizeAlias T.toTextTables name)

def handleJson (h : Handle) : Json :=
  .obj [Json.field "channel" (Json.string h.channel), Json.field "value" (Json.string h.value)]

/-- What is hashed of a binding. -/
def Row.bytes (row : Row T) : Bytes :=
  encodeUtf8 (String.ofList (Json.arr [Json.string row.aliasNorm, Json.string row.displayName,
    .arr ((cleanHandles T row.handles).map handleJson), .int row.version]).render)

/-- `fingerprint`; `ABSENT` is no hash. -/
@[irreducible] def fingerprint : Option (Row T) → String
  | none => "absent"
  | some row => toHex (sha256 row.bytes)

/-- The same pairs, in any order and number. -/
def sameHandles (hs hs' : List Handle) : Bool := hs.all (hs'.contains ·) && hs'.all (hs.contains ·)

/-- `same_binding`. -/
def sameBinding (row : Option (Row T)) (displayName : String) (handles : List Handle) : Bool :=
  row.any (fun row => stripped row.displayName = stripped displayName &&
    sameHandles (cleanHandles T row.handles) (cleanHandles T handles))

/-- What a caller wants written. -/
structure Wanted where
  aliasName : String
  displayName : String
  handles : List Handle
  source : String
deriving DecidableEq

/-- The row that `confirm` inserts or replaces, if nothing is missing. -/
def Wanted.row (T : Writing) (w : Wanted) (now version : Nat) : Option (Row T) :=
  let clean := cleanHandles T w.handles
  let displayName := stripped w.displayName
  if h : displayName ≠ "" ∧ clean ≠ [] ∧ clean.all Handle.full = true then
    some {
      aliasNorm := normalizeAlias T.toTextTables (collapsed w.aliasName)
      aliasName := collapsed w.aliasName
      displayName := displayName
      handles := clean
      confirmedAt := now
      source := stripped w.source
      version := version
      named := h.1
      reachable := h.2.1
      full := h.2.2
      settled := clean_handles_again _ }
  else none

/-- What becomes of a `confirm`. -/
inductive Outcome where
  | incomplete
  | changed
  | written
deriving DecidableEq

/-- `confirm` against a fingerprint, in one transaction. -/
def Store.confirm (s : Store T) (w : Wanted) (expected : String) (now : Nat) : Outcome × Store T :=
  let aliasNorm := normalizeAlias T.toTextTables (collapsed w.aliasName)
  let current := s.get aliasNorm
  if aliasNorm = "" then (.incomplete, s)
  else match w.row T now ((current.map Row.version).getD 0 + 1) with
    | none => (.incomplete, s)
    | some row =>
      if fingerprint current ≠ expected then (.changed, s) else (.written, s.assign row)

theorem row_some {w : Wanted} {now version : Nat} {row : Row T}
    (h : w.row T now version = some row) :
    row.aliasNorm = normalizeAlias T.toTextTables (collapsed w.aliasName) ∧
      row.version = version := by
  unfold Wanted.row at h
  simp only at h
  split at h
  · cases h
    exact ⟨rfl, rfl⟩
  · cases h

/-- What is confirmed met the fingerprint, and is there with the next version. -/
theorem confirm_written {s : Store T} {w : Wanted} {expected : String} {now : Nat}
    (h : (s.confirm w expected now).1 = .written) : ∃ row,
    (s.confirm w expected now).2 = s.assign row ∧
    row.aliasNorm = normalizeAlias T.toTextTables (collapsed w.aliasName) ∧
    row.version = ((s.get row.aliasNorm).map Row.version).getD 0 + 1 ∧
    fingerprint (s.get row.aliasNorm) = expected := by
  unfold Store.confirm at h ⊢
  simp only at h ⊢
  by_cases hnorm : normalizeAlias T.toTextTables (collapsed w.aliasName) = ""
  · rw [if_pos hnorm] at h
    cases h
  · rw [if_neg hnorm] at h ⊢
    cases hrow : w.row T now ((Option.map Row.version
        (s.get (normalizeAlias T.toTextTables (collapsed w.aliasName)))).getD 0 + 1) with
    | none =>
      simp only [hrow] at h
      cases h
    | some row =>
      simp only [hrow] at h ⊢
      obtain ⟨hkey, hversion⟩ := row_some hrow
      split at h
      · cases h
      · rename_i hexpected
        rw [if_neg hexpected]
        exact ⟨row, rfl, hkey, hkey ▸ hversion, hkey ▸ not_not.mp hexpected⟩

/-- What is complete and meets the fingerprint is written. -/
theorem confirm_writes {s : Store T} {w : Wanted} {now : Nat} {current : Option (Row T)}
    {row : Row T} (hnorm : normalizeAlias T.toTextTables (collapsed w.aliasName) ≠ "")
    (hcurrent : s.get (normalizeAlias T.toTextTables (collapsed w.aliasName)) = current)
    (hrow : w.row T now ((current.map Row.version).getD 0 + 1) = some row) :
    s.confirm w (fingerprint current) now = (.written, s.assign row) := by
  unfold Store.confirm
  simp only [hcurrent, hrow]
  rw [if_neg hnorm, if_neg (not_not.mpr rfl)]

theorem confirm_same {s : Store T} {w : Wanted} {expected : String} {now : Nat}
    (h : (s.confirm w expected now).1 ≠ .written) : (s.confirm w expected now).2 = s := by
  unfold Store.confirm at h ⊢
  simp only at h ⊢
  by_cases hnorm : normalizeAlias T.toTextTables (collapsed w.aliasName) = ""
  · rw [if_pos hnorm]
  · rw [if_neg hnorm] at h ⊢
    cases hrow : w.row T now ((Option.map Row.version
        (s.get (normalizeAlias T.toTextTables (collapsed w.aliasName)))).getD 0 + 1) with
    | none => rfl
    | some row =>
      simp only [hrow] at h ⊢
      split
      · rfl
      · rename_i hexpected
        rw [if_neg hexpected] at h
        exact absurd rfl h

/-! ### What a fingerprint says -/

theorem handle_json_injective {h h' : Handle} (heq : handleJson h = handleJson h') : h = h' := by
  obtain ⟨c, v⟩ := h
  obtain ⟨c', v'⟩ := h'
  simp only [handleJson, Json.field, Json.obj.injEq, List.cons.injEq, Prod.mk.injEq, true_and,
    and_true] at heq
  obtain rfl := text_injective (Json.str.inj heq.1)
  obtain rfl := text_injective (Json.str.inj heq.2)
  rfl

theorem handles_plain (hs : List Handle) : Json.PlainElements (hs.map handleJson) := by
  induction hs with
  | nil => trivial
  | cons h hs ih =>
    have hs := Json.spelled_of_string
    exact ⟨⟨hs _, hs _, hs _, hs _, trivial⟩, ih⟩

/-- What is hashed determines the key, the name, the ways and the version. -/
theorem row_bytes {row row' : Row T} (h : row.bytes = row'.bytes) :
    row.aliasNorm = row'.aliasNorm ∧ row.displayName = row'.displayName ∧
      row.handles = row'.handles ∧ row.version = row'.version := by
  have hs := Json.spelled_of_string
  have hjson := Json.render_injective
    (by exact ⟨hs _, hs _, handles_plain _, trivial, trivial⟩)
    (by exact ⟨hs _, hs _, handles_plain _, trivial, trivial⟩)
    (String.ofList_injective (encode_utf8_injective h))
  simp only [Json.arr.injEq, List.cons.injEq, and_true, row.settled, row'.settled] at hjson
  obtain ⟨hnorm, hname, hhandles, hversion⟩ := hjson
  exact ⟨text_injective (Json.str.inj hnorm), text_injective (Json.str.inj hname),
    List.map_injective_iff.mpr (fun _ _ => handle_json_injective) hhandles,
    Int.ofNat.inj (Json.int.inj hversion)⟩

/-- What is hashed of what is stored. -/
def hashed : Option (Row T) → List Bytes
  | none => []
  | some row => [row.bytes]

theorem hash_not_absent (b : Bytes) : toHex (sha256 b) ≠ "absent" := by
  intro h
  have hhex := from_hex_to_hex (sha256 b)
  rw [h] at hhex
  cases hhex

/-- What a fingerprint is of. -/
def Row.print (row : Row T) : String × String × List Handle × Nat :=
  (row.aliasNorm, row.displayName, row.handles, row.version)

/-- Without a collision, a fingerprint determines what it is of. -/
theorem fingerprint_same {a b : Option (Row T)}
    (hsha : ∀ x ∈ hashed a, ∀ y ∈ hashed b, sha256 x = sha256 y → x = y)
    (h : fingerprint a = fingerprint b) : a.map Row.print = b.map Row.print := by
  unfold fingerprint at h
  match a, b with
  | none, none => rfl
  | none, some row => exact absurd h.symm (hash_not_absent _)
  | some row, none => exact absurd h (hash_not_absent _)
  | some row, some row' =>
    have hbytes := hsha _ (List.mem_singleton.mpr rfl) _ (List.mem_singleton.mpr rfl)
      (to_hex_injective h)
    obtain ⟨hnorm, hname, hhandles, hversion⟩ := row_bytes hbytes
    simp [Row.print, hnorm, hname, hhandles, hversion]

end Solvio.Communication
