import Solvio.Approval.Execution
import Solvio.Lib.PyString

namespace Solvio.Approval
open Solvio.Lib

/-- Full SHA-256 of a public key: the identity of an approval key. -/
def fingerprint (data : Bytes) : String := hexdigest data

/-- Short, non-secret key identifier. -/
def keyId (x963 : Bytes) : String := textPrefix 16 (hexdigest x963)

theorem fingerprint_ne_empty (data : Bytes) : fingerprint data ≠ "" := hexdigest_ne_empty data

/-- The security identity of an App Attest key: the canonical spelling of its
thirty-two bytes. `none` is `AppAttestIdentityError`. -/
def canonicalAppAttestKeyId (value : String) : Option String :=
  let text := strip isSpace value.toList
  if text = [] ∨ text ≠ strip (fun c => c.toNat = 0) value.toList then none
  else do
    let raw ← b64decodeChars text
    if raw.length = 32 then some (b64encode raw) else none

theorem canonical_encode {raw : Bytes} (h : raw.length = 32) :
    canonicalAppAttestKeyId (b64encode raw) = some (b64encode raw) := by
  have hp := b64_encode_printable raw
  have hs : strip isSpace (b64encodeChars raw) = b64encodeChars raw := by
    apply strip_none
    intro c hc
    obtain ⟨hl, hu⟩ := hp c hc
    simp only [isSpace, Bool.or_eq_false_iff, Bool.and_eq_false_iff, decide_eq_false_iff_not]
    omega
  have hz : strip (fun c => c.toNat = 0) (b64encodeChars raw) = b64encodeChars raw := by
    apply strip_none
    intro c hc
    have := (hp c hc).1
    simp only [decide_eq_false_iff_not]
    omega
  have hn : b64encodeChars raw ≠ [] := by
    intro he
    have hd := b64_decode_encode_chars raw
    rw [he] at hd
    cases hd
    simp at h
  simp only [canonicalAppAttestKeyId, b64encode, String.toList_ofList, hs, hz, hn, ne_eq,
    not_true_eq_false, or_self, if_false, b64_decode_encode_chars, Option.bind_eq_bind,
    Option.bind_some, h, if_true]

theorem canonical_shape {value c : String} (h : canonicalAppAttestKeyId value = some c) :
    ∃ raw : Bytes, raw.length = 32 ∧ c = b64encode raw := by
  simp only [canonicalAppAttestKeyId, Option.bind_eq_bind] at h
  split at h
  · simp at h
  · obtain ⟨raw, _, hr⟩ := Option.bind_eq_some_iff.mp h
    split at hr
    · rename_i hl
      exact ⟨raw, hl, (Option.some.inj hr).symm⟩
    · simp at hr

theorem canonical_idempotent {value c : String} (h : canonicalAppAttestKeyId value = some c) :
    canonicalAppAttestKeyId c = some c := by
  obtain ⟨raw, hl, rfl⟩ := canonical_shape h
  exact canonical_encode hl

theorem canonical_ne_empty {value c : String} (h : canonicalAppAttestKeyId value = some c) :
    c ≠ "" := by
  intro he
  subst he
  have := canonical_idempotent h
  simp [canonicalAppAttestKeyId, strip] at this

/-- The identity derived from the key that was verified. -/
def appAttestIdentityFromPublicKey (x963 : Bytes) : Option String :=
  canonicalAppAttestKeyId (b64encode (sha256 x963))

theorem derived_identity (x963 : Bytes) :
    appAttestIdentityFromPublicKey x963 = some (b64encode (sha256 x963)) :=
  canonical_encode (sha256_length x963)

/-- `_same_app_attest_key`: by identity, never by spelling. -/
def sameAppAttestKey (stored : Option String) (canonical : String) : Bool :=
  match stored with
  | none => false
  | some text => text ≠ "" && canonicalAppAttestKeyId text = some canonical

def deviceIdMax : Nat := 128

def deviceIdAllowed (c : Char) : Bool :=
  let n := c.toNat
  (97 ≤ n && n ≤ 122) || (65 ≤ n && n ≤ 90) || (48 ≤ n && n ≤ 57) ||
    c = '.' || c = '_' || c = ':' || c = '-'

/-- An allowlist: the identifier is taken exactly as given or refused. -/
def canonicalDeviceId (value : String) : Option String :=
  if value = "" ∨ deviceIdMax < value.length ∨ ¬ value.toList.all deviceIdAllowed then none
  else some value

end Solvio.Approval
