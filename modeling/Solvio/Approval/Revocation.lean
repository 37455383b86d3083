import Solvio.Approval.Tables

namespace Solvio.Approval
open Solvio.Lib

/-- `_identities`: every durable identity that a device row carries. -/
def Device.identities (d : Device) : List IdentityRef :=
  [(.device, d.deviceId)] ++
    (if d.publicKeyX963 = "" then []
      else match fromHex d.publicKeyX963 with
        | some key => [(.approvalKey, fingerprint key)]
        | none => []) ++
    (match d.appAttestKeyId with
      | some aakid => if aakid = "" then [] else [(.appAttestKey, aakid)]
      | none => [])

/-- `_approval_fingerprint`. -/
def Device.approvalFingerprint (d : Device) : Option String :=
  if d.publicKeyX963 = "" then none else (fromHex d.publicKeyX963).map fingerprint

/-! ### Statements -/

namespace Tables

/-- `ON CONFLICT DO NOTHING`: a revocation that is already there stays. -/
def insertRevocation (s : Tables) (row : Revocation) : Tables :=
  { s with revocations := (s.revocations.insert? row).getD s.revocations }

def revokeDeviceRow (s : Tables) (deviceId : String) : Tables :=
  { s with
    devices := s.devices.update (fun d => decide (d.deviceId = deviceId))
      (fun d => { d with status := .revoked }) (fun _ => rfl) }

def revokeAll (s : Tables) (now : Time) (reason : Option String) (entries : List IdentityRef)
    (doomed : List String) : Tables :=
  doomed.foldl revokeDeviceRow
    (entries.foldl (fun s e => s.insertRevocation ⟨e.1, e.2, reason, now⟩) s)

end Tables

namespace Store

/-! ### The transaction -/

structure RevocationResult where
  operation : String
  committed : Bool
  newlyRevoked : List IdentityRef
  alreadyRevoked : List IdentityRef
  affectedDevices : List String

def RevocationResult.identities (r : RevocationResult) : List IdentityRef :=
  r.newlyRevoked ++ r.alreadyRevoked

/-- Which identities to revoke and which devices to close, decided from the
rows under the write lock. -/
abbrev RevocationPlan := List Device → List IdentityBinding → List IdentityRef × List String

def writeRevocation (now : Time) (reason deviceId : Option String)
    (acc : List IdentityRef × List IdentityRef × Store) (entry : IdentityRef) :
    List IdentityRef × List IdentityRef × Store :=
  let (newly, already, s) := acc
  let identity := entry.1.text ++ ":" ++ entry.2
  if s.isRevoked entry then
    (newly, already ++ [entry],
      s.audited now "revocation_reaffirmed" none deviceId reason (some identity))
  else
    (newly ++ [entry], already,
      (s.write (·.insertRevocation ⟨entry.1, entry.2, reason, now⟩)).audited now entry.1.event
        none deviceId reason (some identity))

def closeDevice (now : Time) (s : Store) (deviceId : String) : Store :=
  (s.write (·.revokeDeviceRow deviceId)).audited now "device_status" none (some deviceId)
    (some DeviceStatus.revoked.text) (some (RevokeKind.device.text ++ ":" ++ deviceId))

/-- `_revoke_planned`. -/
def revokePlanned (s : Store) (now : Time) (plan : RevocationPlan) (reason deviceId : Option String)
    (operation : String) : Tx RevocationResult :=
  let (entries, doomed) := plan s.devices.rows s.identityHistory.rows
  if entries.any (fun e => e.2 = "") then
    .error (.valueError "revocation value must not be empty")
  else
    let (newly, already, s) := entries.foldl (writeRevocation now reason deviceId) ([], [], s)
    .ok (⟨operation, true, newly, already, doomed⟩, doomed.foldl (closeDevice now) s)

/-- The plan of `_revoke_identities`: fixed identities, and the devices that
match. -/
def identitiesPlan (entries : List IdentityRef) (matches_ : Device → Bool) : RevocationPlan :=
  fun rows _ => (entries,
    (rows.filter (fun d => d.status ≠ .revoked && matches_ d)).map Device.deviceId)

/-- The device, its current binding and every binding it was ever trusted
with. -/
def deviceEntries (deviceId : String) (rows : List Device) (history : List IdentityBinding) :
    List IdentityRef :=
  let current := ((rows.find? (fun d => d.deviceId = deviceId)).map Device.identities).getD []
  let past := (history.filter (fun h => h.deviceId = deviceId)).flatMap (fun h =>
    (if h.approvalKeySha256 = "" then [] else [(RevokeKind.approvalKey, h.approvalKeySha256)]) ++
    (if h.appAttestKeyId = "" then [] else [(RevokeKind.appAttestKey, h.appAttestKeyId)]))
  ((.device, deviceId) :: current.filter (fun e => e.1 ≠ .device && e.2 ≠ "") ++ past).eraseDups

/-- The plan of `revoke_device`. -/
def devicePlan (deviceId : String) : RevocationPlan :=
  fun rows history =>
    let entries := deviceEntries deviceId rows history
    (entries, (rows.filter (fun d => d.status ≠ .revoked &&
      d.identities.any (fun i => entries.any (fun e => e.2 = i.2)))).map Device.deviceId)

def approvalKeyPlan (approvalPubkeySha256 : String) : RevocationPlan :=
  identitiesPlan [(.approvalKey, approvalPubkeySha256)]
    (fun d => d.approvalFingerprint = some approvalPubkeySha256)

def appAttestKeyPlan (canonical : String) : RevocationPlan :=
  identitiesPlan [(.appAttestKey, canonical)]
    (fun d => sameAppAttestKey d.appAttestKeyId canonical)

/-- `_revoked_identities`: the first revoked kind. -/
def revokedIdentities (s : Tables) (identities : List IdentityRef) : Option RevokeKind :=
  (identities.find? (fun i => i.2 ≠ "" && s.isRevoked i)).map Prod.fst

end Store

/-! ### What a revocation leaves -/

namespace Tables

theorem insert_revocation_revoked (s : Tables) (row : Revocation) (i : IdentityRef) :
    (s.insertRevocation row).isRevoked i = true ↔
      s.isRevoked i = true ∨ i = (row.kind, row.value) := by
  unfold insertRevocation
  cases h : s.revocations.insert? row with
  | none =>
    obtain ⟨b, hb⟩ := Table.insert_none.mp h
    simp only [Option.getD_none]
    constructor
    · exact Or.inl
    · rintro (hi | rfl)
      · exact hi
      · exact Option.isSome_iff_exists.mpr ⟨b, hb⟩
  | some revocations =>
    simp only [isRevoked, Option.getD_some, Table.find_insert h]
    split
    · rename_i hk
      exact ⟨fun _ => Or.inr hk.symm, fun _ => rfl⟩
    · rename_i hk
      exact ⟨Or.inl, fun hi => hi.resolve_right (fun he => hk he.symm)⟩

theorem insert_revocations_revoked (now : Time) (reason : Option String)
    (entries : List IdentityRef) (s : Tables) (i : IdentityRef) :
    (entries.foldl (fun s e => s.insertRevocation ⟨e.1, e.2, reason, now⟩) s).isRevoked i = true ↔
      s.isRevoked i = true ∨ i ∈ entries := by
  induction entries generalizing s with
  | nil => simp
  | cons e entries ih =>
    rw [List.foldl_cons, ih, insert_revocation_revoked, List.mem_cons, or_assoc]

theorem insert_revocations_frame (now : Time) (reason : Option String)
    (entries : List IdentityRef) (s : Tables) :
    ∃ revocations, entries.foldl (fun s e => s.insertRevocation ⟨e.1, e.2, reason, now⟩) s =
      { s with revocations } := by
  induction entries generalizing s with
  | nil => exact ⟨s.revocations, rfl⟩
  | cons e entries ih =>
    obtain ⟨revocations, h⟩ := ih (s.insertRevocation ⟨e.1, e.2, reason, now⟩)
    exact ⟨revocations, h⟩

theorem revoke_rows_frame (doomed : List String) (s : Tables) :
    ∃ devices, doomed.foldl revokeDeviceRow s = { s with devices } := by
  induction doomed generalizing s with
  | nil => exact ⟨s.devices, rfl⟩
  | cons d doomed ih =>
    obtain ⟨devices, h⟩ := ih (s.revokeDeviceRow d)
    exact ⟨devices, h⟩

/-- A revocation writes the block list and the device rows only. -/
theorem revoke_all_frame (s : Tables) (now : Time) (reason : Option String)
    (entries : List IdentityRef) (doomed : List String) :
    ∃ devices revocations, s.revokeAll now reason entries doomed =
      { s with devices, revocations } := by
  obtain ⟨revocations, hr⟩ := insert_revocations_frame now reason entries s
  obtain ⟨devices, hd⟩ := revoke_rows_frame doomed { s with revocations }
  exact ⟨devices, revocations, by rw [revokeAll, hr, hd]⟩

theorem revoke_all_revoked (s : Tables) (now : Time) (reason : Option String)
    (entries : List IdentityRef) (doomed : List String) (i : IdentityRef) :
    (s.revokeAll now reason entries doomed).isRevoked i = true ↔
      s.isRevoked i = true ∨ i ∈ entries := by
  obtain ⟨devices, hd⟩ := revoke_rows_frame doomed
    (entries.foldl (fun s e => s.insertRevocation ⟨e.1, e.2, reason, now⟩) s)
  rw [← insert_revocations_revoked now reason, revokeAll, hd]
  rfl

def closed (doomed : List String) (d : Device) : Device :=
  if d.deviceId ∈ doomed then { d with status := .revoked } else d

theorem revoke_rows_find (doomed : List String) (s : Tables) (k : String) :
    (doomed.foldl revokeDeviceRow s).devices.find? k = (s.devices.find? k).map (closed doomed) := by
  induction doomed generalizing s with
  | nil =>
    cases h : s.devices.find? k <;> simp [h, closed]
  | cons e doomed ih =>
    rw [List.foldl_cons, ih]
    simp only [revokeDeviceRow, Table.find_update, Option.map_map]
    congr 1
    funext d
    simp only [Function.comp_apply, closed, List.mem_cons]
    by_cases h1 : d.deviceId = e <;> by_cases h2 : d.deviceId ∈ doomed <;> simp [h1, h2]

theorem revoke_all_find (s : Tables) (now : Time) (reason : Option String)
    (entries : List IdentityRef) (doomed : List String) (k : String) :
    (s.revokeAll now reason entries doomed).devices.find? k =
      (s.devices.find? k).map (closed doomed) := by
  obtain ⟨revocations, hr⟩ := insert_revocations_frame now reason entries s
  rw [revokeAll, hr, revoke_rows_find]

end Tables

namespace Store

theorem close_devices_tables (now : Time) (doomed : List String) (s : Store) :
    (doomed.foldl (closeDevice now) s).toTables = doomed.foldl Tables.revokeDeviceRow s.toTables := by
  induction doomed generalizing s with
  | nil => rfl
  | cons d doomed ih =>
    rw [List.foldl_cons, ih]
    rfl

theorem write_revocation_tables (now : Time) (reason deviceId : Option String)
    (newly already : List IdentityRef) (s : Store) (e : IdentityRef) :
    (writeRevocation now reason deviceId (newly, already, s) e).2.2.toTables =
      s.toTables.insertRevocation ⟨e.1, e.2, reason, now⟩ := by
  unfold writeRevocation
  dsimp only
  split
  · rename_i h
    obtain ⟨b, hb⟩ := Option.isSome_iff_exists.mp h
    have hn : s.revocations.insert? ⟨e.1, e.2, reason, now⟩ = none :=
      Table.insert_none.mpr ⟨b, hb⟩
    simp [Tables.insertRevocation, hn]
  · rfl

/-- The result splits the entries by what the table held before. -/
theorem write_revocations_cases (now : Time) (reason deviceId : Option String)
    (entries : List IdentityRef) (newly already : List IdentityRef) (s : Store) :
    (entries.foldl (writeRevocation now reason deviceId) (newly, already, s)).2.2.toTables =
        entries.foldl (fun s e => s.insertRevocation ⟨e.1, e.2, reason, now⟩) s.toTables ∧
      (entries.Nodup →
        (entries.foldl (writeRevocation now reason deviceId) (newly, already, s)).1 =
            newly ++ entries.filter (fun e => !s.toTables.isRevoked e) ∧
          (entries.foldl (writeRevocation now reason deviceId) (newly, already, s)).2.1 =
            already ++ entries.filter (fun e => s.toTables.isRevoked e)) := by
  induction entries generalizing newly already s with
  | nil => simp
  | cons e entries ih =>
    rw [List.foldl_cons, List.foldl_cons]
    rcases hw : writeRevocation now reason deviceId (newly, already, s) e with ⟨n, a, u⟩
    have hu := write_revocation_tables now reason deviceId newly already s e
    rw [hw] at hu
    dsimp only at hu
    obtain ⟨ht, hl⟩ := ih n a u
    refine ⟨by rw [ht, hu], fun hnd => ?_⟩
    obtain ⟨hne, hnd⟩ := List.nodup_cons.mp hnd
    obtain ⟨h1, h2⟩ := hl hnd
    -- the entry just written is not met again, so the table of the rest is the one before
    have hsame : ∀ i ∈ entries, u.toTables.isRevoked i = s.toTables.isRevoked i := by
      intro i hi
      rw [Bool.eq_iff_iff, hu, Tables.insert_revocation_revoked]
      refine ⟨fun h => h.resolve_right (fun he => hne ?_), Or.inl⟩
      rwa [show e = i from he.symm]
    rw [h1, h2]
    rw [List.filter_congr (fun i hi => by rw [hsame i hi]),
      List.filter_congr (p := fun e => u.toTables.isRevoked e) (fun i hi => hsame i hi)]
    unfold writeRevocation at hw
    dsimp only at hw
    split at hw
    · rename_i hr
      cases hw
      simp [hr]
    · rename_i hr
      cases hw
      simp [hr]

theorem nodup_erase_dups [BEq α] [LawfulBEq α] (l : List α) : l.eraseDups.Nodup := by
  induction hn : l.length using Nat.strong_induction_on generalizing l with
  | _ n ih =>
    cases l with
    | nil => simp
    | cons a l =>
      rw [List.eraseDups_cons, List.nodup_cons]
      refine ⟨by simp, ih _ ?_ _ rfl⟩
      rw [← hn, List.length_cons]
      exact Nat.lt_succ_of_le (List.length_filter_le _ l)

theorem device_entries_nodup (deviceId : String) (rows : List Device)
    (history : List IdentityBinding) : (deviceEntries deviceId rows history).Nodup :=
  nodup_erase_dups _

theorem revoke_planned_cases {s s' : Store} {plan : RevocationPlan}
    (h : s.revokePlanned now plan reason deviceId operation = .ok (result, s')) :
    ∃ entries doomed, plan s.devices.rows s.identityHistory.rows = (entries, doomed) ∧
      (∀ e ∈ entries, e.2 ≠ "") ∧ result.affectedDevices = doomed ∧
      (entries.Nodup →
        result.newlyRevoked = entries.filter (fun e => !s.toTables.isRevoked e) ∧
          result.alreadyRevoked = entries.filter (fun e => s.toTables.isRevoked e)) ∧
      s'.toTables = s.toTables.revokeAll now reason entries doomed := by
  unfold revokePlanned at h
  rcases hp : plan s.devices.rows s.identityHistory.rows with ⟨entries, doomed⟩
  rw [hp] at h
  dsimp only at h
  split at h
  · cases h
  rename_i hne
  obtain ⟨ht, hl⟩ := write_revocations_cases now reason deviceId entries [] [] s
  rcases hw : entries.foldl (writeRevocation now reason deviceId) ([], [], s) with
    ⟨newly, already, u⟩
  rw [hw] at h ht hl
  cases h
  refine ⟨entries, doomed, rfl, ?_, rfl, ?_, ?_⟩
  · intro e he hv
    exact hne (List.any_eq_true.mpr ⟨e, he, by simpa using hv⟩)
  · simpa using hl
  · rw [close_devices_tables, ht, Tables.revokeAll]

end Store

end Solvio.Approval
