import Solvio.SecretVault.Envelope

namespace Solvio.SecretVault
open Solvio.Lib

/-- A cell of the lists of a scope: a text, or bytes somebody has put there. -/
inductive Column where
  | text (s : String)
  | blob (b : Bytes)
deriving DecidableEq

/-- `_tuple`. -/
def Column.parts : Column → List String
  | text s => ((s.toList.splitOn '\n').filter (· ≠ [])).map String.ofList
  | blob b => (b.filter (· ≠ 0)).map (fun n => String.ofList (Json.decimal n.toNat))

/-- `_join`. -/
def joinLines (values : List String) : String :=
  String.ofList (['\n'].intercalate (values.map String.toList))

/-- A row of `secrets`, each cell as its readers convert it. -/
structure Row where
  secretRef : String
  kind : String
  version : Int
  status : String
  allowedCapabilities : Column
  allowedTargets : Column
  allowedExecutors : Column
  allowBackground : Bool
  requiresUserPresence : Bool
  displayName : String
  serviceLabel : String
  accountLabel : String
  note : String
  createdAt : String
  rotatedAt : String
  lastUsedAt : String
  envelopeVersion : Int
  wrappedDek : Bytes
  ciphertext : Bytes
  policySha256 : String
deriving DecidableEq

instance : Keyed Row String := ⟨Row.secretRef⟩

abbrev Vault := Table Row

/-- `from_row`, of which `none` is a `ValueError`. -/
def fromRow (row : Row) : Option SecretPolicy := do
  let kind ← SecretKind.ofValue? row.kind
  let status ← Status.ofValue? row.status
  let executors ← row.allowedExecutors.parts.mapM ExecutorId.ofValue?
  return { secretRef := row.secretRef, kind := kind, version := row.version, status := status
           allowedCapabilities := row.allowedCapabilities.parts
           allowedTargets := row.allowedTargets.parts
           allowedExecutors := executors
           allowBackground := row.allowBackground
           requiresUserPresence := row.requiresUserPresence
           displayName := row.displayName, serviceLabel := row.serviceLabel
           accountLabel := row.accountLabel, createdAt := row.createdAt
           rotatedAt := row.rotatedAt, lastUsedAt := row.lastUsedAt, note := row.note }

def Row.sealed (row : Row) : Sealed := ⟨row.envelopeVersion, row.wrappedDek, row.ciphertext⟩

/-- What `put` inserts under a key that is free. -/
def freshRow (p : SecretPolicy) (a : Authority) (s : Sealed) (now : String) : Row :=
  { secretRef := p.secretRef, kind := p.kind.value, version := p.version, status := p.status.value
    allowedCapabilities := .text (joinLines a.allowedCapabilities)
    allowedTargets := .text (joinLines a.allowedTargets)
    allowedExecutors := .text (joinLines a.allowedExecutors)
    allowBackground := p.allowBackground, requiresUserPresence := p.requiresUserPresence
    displayName := p.displayName, serviceLabel := p.serviceLabel, accountLabel := p.accountLabel
    note := p.note, createdAt := if p.createdAt = "" then now else p.createdAt
    rotatedAt := p.rotatedAt, lastUsedAt := p.lastUsedAt
    envelopeVersion := s.envelopeVersion, wrappedDek := s.wrappedDek, ciphertext := s.ciphertext
    policySha256 := policyDigest a }

/-- The row `put` leaves. An update keeps the day of creation and of the last use. -/
def putRow (old : Option Row) (p : SecretPolicy) (a : Authority) (s : Sealed) (now : String) :
    Row :=
  match old with
  | none => freshRow p a s now
  | some row =>
    { freshRow p a s now with createdAt := row.createdAt, lastUsedAt := row.lastUsedAt }

/-- `put`. -/
def put (t : Vault) (p : SecretPolicy) (a : Authority) (s : Sealed) (now : String) : Vault :=
  Table.put t (putRow (t.find? p.secretRef) p a s now)

@[simp] theorem fresh_row_key (p : SecretPolicy) (a : Authority) (s : Sealed) (now : String) :
    Keyed.key (freshRow p a s now) = p.secretRef := rfl

@[simp] theorem put_row_key (old : Option Row) (p : SecretPolicy) (a : Authority) (s : Sealed)
    (now : String) : Keyed.key (putRow old p a s now) = p.secretRef := by
  cases old <;> rfl

@[simp] theorem find_put (t : Vault) (p : SecretPolicy) (a : Authority) (s : Sealed)
    (now : String) (ref : String) :
    (put t p a s now).find? ref =
      if ref = p.secretRef then some (putRow (t.find? p.secretRef) p a s now) else t.find? ref := by
  simp [put]

end Solvio.SecretVault
