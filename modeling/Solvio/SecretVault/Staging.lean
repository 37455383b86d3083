import Solvio.Lib.Table
import Solvio.SecretVault.Admin

namespace Solvio.SecretVault
open Solvio.Lib

/-! ### Nonces -/

/-- `NONCE_TTL`, in milliseconds as all readings of the clock. -/
def nonceTtl : Int := 60000

structure Issued where
  nonce : String
  deviceId : String
  issuedAt : Int
deriving DecidableEq

instance : Keyed Issued String := ⟨Issued.nonce⟩

/-- `SessionNonces`. -/
abbrev SessionNonces := Table Issued

namespace SessionNonces

/-- `_expire`. -/
def expire (t : SessionNonces) (now : Int) : SessionNonces :=
  t.filter (fun i => decide (now - i.issuedAt ≤ nonceTtl))

/-- `issue`, of a nonce that was drawn. -/
def issue (t : SessionNonces) (nonce deviceId : String) (now : Int) : SessionNonces :=
  Table.put (expire t now) ⟨nonce, deviceId, now⟩

/-- `consume`. A nonce is gone even if it was another device's. -/
def consume (t : SessionNonces) (nonce deviceId : String) (now : Int) : Bool × SessionNonces :=
  let alive := expire t now
  (match Table.find? alive nonce with
    | none => false
    | some i => i.deviceId = deviceId, Table.delete alive nonce)

theorem mem_expire {t : SessionNonces} {now : Int} {i : Issued} (h : i ∈ expire t now) : i ∈ t :=
  (Table.mem_filter.mp h).1

theorem mem_issue {t : SessionNonces} {nonce deviceId : String} {now : Int} {i : Issued}
    (h : i ∈ issue t nonce deviceId now) : i = ⟨nonce, deviceId, now⟩ ∨ i ∈ t := by
  rcases Table.mem_put.mp h with rfl | ⟨h, -⟩
  · exact Or.inl rfl
  · exact Or.inr (mem_expire h)

/-- What is left was there before, and is not the nonce that was consumed. -/
theorem mem_consume {t : SessionNonces} {nonce deviceId : String} {now : Int} {i : Issued}
    (h : i ∈ (consume t nonce deviceId now).2) : i ∈ t ∧ i.nonce ≠ nonce :=
  ⟨mem_expire (Table.mem_delete.mp h).1, (Table.mem_delete.mp h).2⟩

/-- A nonce that counts was issued to the device. -/
theorem consume_true {t : SessionNonces} {nonce deviceId : String} {now : Int}
    (h : (consume t nonce deviceId now).1 = true) :
    ∃ i ∈ t, i.nonce = nonce ∧ i.deviceId = deviceId := by
  unfold consume at h
  simp only at h
  split at h
  · cases h
  · rename_i i hi
    exact ⟨i, mem_expire (Table.mem_of_find hi), Table.key_of_find hi, of_decide_eq_true h⟩

end SessionNonces

/-! ### Values that wait -/

/-- `DEFAULT_TTL`. -/
def stagingTtl : Int := 300000

/-- `MAX_PENDING`. -/
def maxPending : Nat := 8

inductive StagingError where
  | nothingToStage
  | tooManyPendingSecrets
  | vaultUnavailable
  | vaultNotInitialised
  | unknownOrExpiredStaging
  | stagingBelongsToAnotherDevice
  | stagedValueDidNotOpen
deriving DecidableEq

/-- `_Slot`. -/
structure Slot where
  stagingId : String
  blob : Bytes
  deviceId : String
  payloadSha256 : String
  issuedAt : Int
  ttl : Int
  spent : Bool
deriving DecidableEq

instance : Keyed Slot String := ⟨Slot.stagingId⟩

def Slot.expired (s : Slot) (now : Int) : Bool := decide (now - s.issuedAt > s.ttl)

/-- `SecretStaging`. -/
abbrev SecretStaging := Table Slot

/-- What `stage` draws, next to the key it reads. -/
structure Draw where
  keychain : Keychain
  nonce : Nonce
  stagingId : String

def Keychain.staging : Keychain → Except StagingError Unit
  | locked => .error .vaultUnavailable
  | missing => .error .vaultNotInitialised
  | ready => .ok ()

/-- What a staged value is bound to. -/
def stagingAad : Bytes := fileAad "vault-staging"

namespace SecretStaging

section values
variable (V : Site)

/-- `_sweep`. -/
def sweep (t : SecretStaging) (now : Int) : SecretStaging :=
  t.filter (fun s => !s.expired now && !s.spent)

/-- `stage`. The sweep stays when what follows it raises. -/
def stage (t : SecretStaging) (plaintext : Bytes) (deviceId payloadSha256 : String) (now : Int)
    (d : Draw) : Except StagingError Slot × SecretStaging :=
  if plaintext = [] then (.error .nothingToStage, t)
  else
    let alive := sweep t now
    if maxPending ≤ alive.rows.length then (.error .tooManyPendingSecrets, alive)
    else match d.keychain.staging with
      | .error e => (.error e, alive)
      | .ok _ =>
        let slot : Slot :=
          { stagingId := d.stagingId
            blob := V.cipher.encryptBlob V.kek d.nonce plaintext stagingAad
            deviceId := deviceId, payloadSha256 := payloadSha256, issuedAt := now
            ttl := stagingTtl, spent := false }
        (.ok slot, Table.put alive slot)

/-- The slot an id stands for, while it does. -/
def open? (t : SecretStaging) (stagingId deviceId : String) (now : Int) :
    Except StagingError Slot :=
  match Table.find? t stagingId with
  | none => .error .unknownOrExpiredStaging
  | some s =>
    if s.spent ∨ s.expired now then .error .unknownOrExpiredStaging
    else if s.deviceId ≠ deviceId then .error .stagingBelongsToAnotherDevice
    else .ok s

/-- `peek`. -/
def peek (t : SecretStaging) (stagingId deviceId : String) (now : Int) :
    Except StagingError String :=
  (open? t stagingId deviceId now).map (·.payloadSha256)

/-- `take`. The id is dead as soon as its slot is found. -/
def take (t : SecretStaging) (stagingId deviceId : String) (now : Int) (keychain : Keychain) :
    Except StagingError Bytes × SecretStaging :=
  let alive := sweep t now
  match open? alive stagingId deviceId now with
  | .error e => (.error e, alive)
  | .ok slot =>
    (match keychain.staging with
      | .error e => .error e
      | .ok _ =>
        match V.cipher.decryptBlob V.kek slot.blob stagingAad with
        | none => .error .stagedValueDidNotOpen
        | some plaintext => .ok plaintext, Table.delete alive stagingId)

end values

section facts
variable {V : Site} {t : SecretStaging}

theorem mem_sweep {now : Int} {s : Slot} (h : s ∈ sweep t now) : s ∈ t :=
  (Table.mem_filter.mp h).1

/-- A slot is old, or it is the one that `stage` returns. -/
theorem mem_stage {plaintext : Bytes} {deviceId payloadSha256 : String} {now : Int} {d : Draw}
    {s : Slot} (h : s ∈ (stage V t plaintext deviceId payloadSha256 now d).2) :
    s ∈ t ∨ (stage V t plaintext deviceId payloadSha256 now d).1 = .ok s := by
  unfold stage at h ⊢
  split at h
  · exact Or.inl h
  · rename_i hne
    rw [if_neg hne]
    dsimp only at h ⊢
    split at h
    · exact Or.inl (mem_sweep h)
    · rename_i hfull
      rw [if_neg hfull]
      split at h
      · exact Or.inl (mem_sweep h)
      · rcases Table.mem_put.mp h with rfl | ⟨h, -⟩
        · exact Or.inr rfl
        · exact Or.inl (mem_sweep h)

theorem stage_ok {plaintext : Bytes} {deviceId payloadSha256 : String} {now : Int} {d : Draw}
    {s : Slot} (h : (stage V t plaintext deviceId payloadSha256 now d).1 = .ok s) :
    plaintext ≠ [] ∧ s.stagingId = d.stagingId ∧ s.deviceId = deviceId ∧
      s.payloadSha256 = payloadSha256 ∧
      s.blob = V.cipher.encryptBlob V.kek d.nonce plaintext stagingAad := by
  unfold stage at h
  split at h
  · cases h
  · rename_i hne
    dsimp only at h
    split at h
    · cases h
    · split at h
      · cases h
      · obtain rfl := Except.ok.inj h
        exact ⟨hne, rfl, rfl, rfl, rfl⟩

theorem open_ok {stagingId deviceId : String} {now : Int} {s : Slot}
    (h : open? t stagingId deviceId now = .ok s) :
    s ∈ t ∧ s.stagingId = stagingId ∧ s.deviceId = deviceId := by
  unfold open? at h
  split at h
  · cases h
  · rename_i slot hslot
    split at h
    · cases h
    · split at h
      · cases h
      · rename_i hdev
        obtain rfl := Except.ok.inj h
        exact ⟨Table.mem_of_find hslot, Table.key_of_find hslot, not_not.mp hdev⟩

theorem mem_take {stagingId deviceId : String} {now : Int} {keychain : Keychain} {s : Slot}
    (h : s ∈ (take V t stagingId deviceId now keychain).2) : s ∈ t := by
  unfold take at h
  dsimp only at h
  split at h
  · exact mem_sweep h
  · exact mem_sweep (Table.mem_delete.mp h).1

/-- What is taken was in the slot of the device, and the slot is gone. -/
theorem take_ok {stagingId deviceId : String} {now : Int} {keychain : Keychain} {plaintext : Bytes}
    (h : (take V t stagingId deviceId now keychain).1 = .ok plaintext) :
    (∃ slot ∈ t, slot.stagingId = stagingId ∧ slot.deviceId = deviceId ∧
      V.cipher.decryptBlob V.kek slot.blob stagingAad = some plaintext) ∧
    ∀ s ∈ (take V t stagingId deviceId now keychain).2, s.stagingId ≠ stagingId := by
  unfold take at h ⊢
  dsimp only at h ⊢
  split at h
  · cases h
  · rename_i slot hslot
    obtain ⟨hmem, hid, hdev⟩ := open_ok hslot
    refine ⟨⟨slot, mem_sweep hmem, hid, hdev, ?_⟩, fun s hs => (Table.mem_delete.mp hs).2⟩
    dsimp only at h
    split at h
    · cases h
    · split at h
      · cases h
      · rename_i p hp
        rw [hp, Except.ok.inj h]

end facts

end SecretStaging

end Solvio.SecretVault
