import Solvio.Lib.Codec
import Solvio.SecretVault.Policy

namespace Solvio.SecretVault
open Solvio.Lib

/-- `ENVELOPE_VERSION`. -/
def envelopeVersion : Int := 1

/-- `NONCE_BYTES`. -/
def nonceBytes : Nat := 12

/-- What `secrets.token_bytes(NONCE_BYTES)` returns. -/
structure Nonce where
  bytes : Bytes
  length_eq : bytes.length = nonceBytes
deriving DecidableEq

/-- `AESGCM`, as far as the code relies on it. -/
structure Aead where
  encrypt : (key nonce plaintext aad : Bytes) → Bytes
  decrypt : (key nonce body aad : Bytes) → Option Bytes
  decrypt_encrypt : ∀ key nonce plaintext aad,
    decrypt key nonce (encrypt key nonce plaintext aad) aad = some plaintext
  encrypt_length : ∀ key nonce plaintext aad,
    (encrypt key nonce plaintext aad).length = plaintext.length + 16

/-! ### The associated data -/

inductive Domain where
  | wrap
  | secret
  | file
deriving DecidableEq

def Domain.bytes : Domain → Bytes
  | wrap => encodeUtf8 "solvio-vault-kek-v1"
  | secret => encodeUtf8 "solvio-vault-secret-v1"
  | file => encodeUtf8 "solvio-vault-file-v1"

/-- `_aad`. -/
def aad (domain : Domain) (parts : List String) : Bytes :=
  domain.bytes ++ 0 :: [0].intercalate (parts.map encodeUtf8)

/-- `str` of a whole number. -/
def strInt (n : Int) : String := String.ofList (Json.renderInt n)

/-- What the wrapped key of a secret is bound to. -/
def wrapAad (ref : String) (version : Int) : Bytes :=
  aad .wrap [ref, strInt version, strInt envelopeVersion]

/-- What the value of a secret is bound to. -/
def secretAad (ref : String) (version : Int) (policySha256 : String) : Bytes :=
  aad .secret [ref, strInt version, strInt envelopeVersion, policySha256]

def fileAad (purpose : String) : Bytes := aad .file [purpose, strInt envelopeVersion]

theorem domain_injective {d d' : Domain} (h : d.bytes = d'.bytes) : d = d' := by
  cases d <;> cases d' <;> first | rfl | exact absurd (encode_utf8_injective h) (by decide)

theorem domain_zero (d : Domain) : (0 : UInt8) ∉ d.bytes := by
  intro hz
  cases d <;> exact absurd (zero_encode_utf8 hz) (by decide)

/-- Data of one domain are never those of another. -/
theorem aad_domain {d d' : Domain} {ps qs : List String} (h : aad d ps = aad d' qs) : d = d' := by
  have hs := congrArg (List.splitOn 0) h
  rw [aad, aad, List.splitOn_append_cons_self_of_not_mem (domain_zero d),
    List.splitOn_append_cons_self_of_not_mem (domain_zero d')] at hs
  exact domain_injective (List.cons.inj hs).1

/-- The data of two tuples are the same only if the tuples are, as no part has a
separator inside. -/
theorem aad_injective {d d' : Domain} {ps qs : List String} (hp : ∀ s ∈ ps, '\x00' ∉ s.toList)
    (hq : ∀ s ∈ qs, '\x00' ∉ s.toList) (hps : ps ≠ []) (hqs : qs ≠ [])
    (h : aad d ps = aad d' qs) : d = d' ∧ ps = qs := by
  have hsplit : ∀ {d : Domain} {ps : List String}, (∀ s ∈ ps, '\x00' ∉ s.toList) → ps ≠ [] →
      (aad d ps).splitOn 0 = d.bytes :: ps.map encodeUtf8 := by
    intro d ps hp hps
    have hparts : ∀ l ∈ ps.map encodeUtf8, (0 : UInt8) ∉ l := by
      intro l hl hz
      obtain ⟨s, hs, rfl⟩ := List.mem_map.mp hl
      exact hp s hs (zero_encode_utf8 hz)
    rw [aad, List.splitOn_append_cons_self_of_not_mem (domain_zero d),
      List.splitOn_intercalate 0 hparts (by simpa using hps)]
  have hs := hsplit hp hps (d := d)
  rw [h, hsplit hq hqs] at hs
  obtain ⟨hdom, hparts⟩ := List.cons.inj hs
  exact ⟨(domain_injective hdom).symm,
    (List.map_injective_iff.mpr (fun _ _ => encode_utf8_injective) hparts).symm⟩

theorem str_int_injective {n m : Int} (h : strInt n = strInt m) : n = m :=
  Json.render_int_injective (String.ofList_injective h)

theorem zero_not_in_str_int (n : Int) : '\x00' ∉ (strInt n).toList := by
  intro h
  rw [strInt, String.toList_ofList] at h
  rcases Json.render_int_chars n _ h with h | h
  · cases h
  · simp [Json.isDigit] at h

/-- `policy_digest`. -/
def policyDigest (a : Authority) : String :=
  toHex (sha256 (encodeUtf8 (String.ofList a.canonical)))

theorem secret_aad_injective {ref ref' : String} {version version' : Int} {a a' : Authority}
    (href : '\x00' ∉ ref.toList) (href' : '\x00' ∉ ref'.toList)
    (h : secretAad ref version (policyDigest a) = secretAad ref' version' (policyDigest a')) :
    ref = ref' ∧ version = version' ∧ policyDigest a = policyDigest a' := by
  have hparts : ∀ {r : String} {v : Int} {b : Authority}, '\x00' ∉ r.toList →
      ∀ s ∈ [r, strInt v, strInt envelopeVersion, policyDigest b], '\x00' ∉ s.toList := by
    intro r v b hr s hs
    simp only [List.mem_cons, List.not_mem_nil, or_false] at hs
    rcases hs with rfl | rfl | rfl | rfl
    · exact hr
    · exact zero_not_in_str_int v
    · exact zero_not_in_str_int envelopeVersion
    · exact zero_not_in_hex _
  obtain ⟨-, hlist⟩ := aad_injective (hparts href) (hparts href') (by simp) (by simp) h
  simp only [List.cons.injEq, and_true, true_and] at hlist
  exact ⟨hlist.1, str_int_injective hlist.2.1, hlist.2.2⟩

/-- `digest`. -/
def SecretPolicy.digest (T : TextTables) (p : SecretPolicy) : Option String :=
  (p.authorityFields T).map policyDigest

/-! ### Sealing -/

/-- `_encrypt`. -/
def Aead.encryptBlob (C : Aead) (key : Bytes) (nonce : Nonce) (plaintext aad : Bytes) : Bytes :=
  nonce.bytes ++ C.encrypt key nonce.bytes plaintext aad

/-- `_decrypt`, of which `none` is an `EnvelopeError`. -/
def Aead.decryptBlob (C : Aead) (key blob aad : Bytes) : Option Bytes :=
  if blob.length ≤ nonceBytes + 16 then none
  else C.decrypt key (blob.take nonceBytes) (blob.drop nonceBytes) aad

/-- What is encrypted opens again, unless it was empty. -/
theorem Aead.decrypt_encrypt_blob (C : Aead) (key : Bytes) (nonce : Nonce) {plaintext : Bytes} (aad : Bytes)
    (h : plaintext ≠ []) : C.decryptBlob key (C.encryptBlob key nonce plaintext aad) aad = some plaintext := by
  have hlen : (C.encryptBlob key nonce plaintext aad).length = nonceBytes + (plaintext.length + 16) := by
    rw [Aead.encryptBlob, List.length_append, nonce.length_eq, C.encrypt_length]
  have hpos := List.length_pos_iff.mpr h
  rw [Aead.decryptBlob, if_neg (by omega), Aead.encryptBlob, List.take_left' nonce.length_eq,
    List.drop_left' nonce.length_eq, C.decrypt_encrypt]

structure Sealed where
  envelopeVersion : Int
  wrappedDek : Bytes
  ciphertext : Bytes
deriving DecidableEq

/-- What `seal` draws: a fresh key for the value, and two nonces. -/
structure Fresh where
  dek : Bytes
  dek_length : dek.length = 32
  wrapNonce : Nonce
  nonce : Nonce

/-- `seal`, of which `none` is an `EnvelopeError`. -/
def Aead.seal (C : Aead) (kek : Bytes) (fresh : Fresh) (ref : String) (version : Int)
    (policySha256 : String) (plaintext : Bytes) : Option Sealed :=
  if plaintext = [] then none
  else some
    { envelopeVersion := envelopeVersion
      wrappedDek := C.encryptBlob kek fresh.wrapNonce fresh.dek (wrapAad ref version)
      ciphertext := C.encryptBlob fresh.dek fresh.nonce plaintext (secretAad ref version policySha256) }

/-- `unseal`, of which `none` is an `EnvelopeError`. -/
def Aead.unseal (C : Aead) (kek : Bytes) (ref : String) (version : Int) (policySha256 : String)
    (s : Sealed) : Option Bytes :=
  if s.envelopeVersion ≠ envelopeVersion then none
  else do
    let dek ← C.decryptBlob kek s.wrappedDek
      (aad .wrap [ref, strInt version, strInt s.envelopeVersion])
    C.decryptBlob dek s.ciphertext
      (aad .secret [ref, strInt version, strInt s.envelopeVersion, policySha256])

theorem seal_some {C : Aead} {kek : Bytes} {fresh : Fresh} {ref : String} {version : Int}
    {digest : String} {plaintext : Bytes} {s : Sealed}
    (h : C.seal kek fresh ref version digest plaintext = some s) :
    plaintext ≠ [] ∧ s = ⟨envelopeVersion, C.encryptBlob kek fresh.wrapNonce fresh.dek (wrapAad ref version),
      C.encryptBlob fresh.dek fresh.nonce plaintext (secretAad ref version digest)⟩ := by
  unfold Aead.seal at h
  split at h
  · simp at h
  · rename_i hne
    exact ⟨hne, (Option.some.inj h).symm⟩

theorem unseal_seal {C : Aead} {kek : Bytes} {fresh : Fresh} {ref : String} {version : Int}
    {digest : String} {plaintext : Bytes} {s : Sealed}
    (h : C.seal kek fresh ref version digest plaintext = some s) :
    C.unseal kek ref version digest s = some plaintext := by
  obtain ⟨hne, rfl⟩ := seal_some h
  have hdek : fresh.dek ≠ [] := by
    intro he
    have := fresh.dek_length
    simp [he] at this
  have hwrap := C.decrypt_encrypt_blob kek fresh.wrapNonce (wrapAad ref version) hdek
  have hbody := C.decrypt_encrypt_blob fresh.dek fresh.nonce (secretAad ref version digest) hne
  simp only [wrapAad] at hwrap
  simp only [secretAad] at hbody
  simp only [Aead.unseal, ne_eq, not_true_eq_false, if_false, wrapAad, secretAad, hwrap, hbody,
    Option.bind_eq_bind, Option.bind_some]

/-- Two keys have opened a value, each under what it is bound to. -/
theorem unseal_some {C : Aead} {kek : Bytes} {ref : String} {version : Int} {digest : String}
    {s : Sealed} {plaintext : Bytes} (h : C.unseal kek ref version digest s = some plaintext) :
    ∃ dek, C.decryptBlob kek s.wrappedDek (wrapAad ref version) = some dek ∧
      C.decryptBlob dek s.ciphertext (secretAad ref version digest) = some plaintext := by
  unfold Aead.unseal at h
  split at h
  · simp at h
  · rename_i hver
    have hv : s.envelopeVersion = envelopeVersion := not_not.mp hver
    rw [hv] at h
    obtain ⟨dek, hd, hp⟩ := Option.bind_eq_some_iff.mp h
    exact ⟨dek, hd, hp⟩

end Solvio.SecretVault
