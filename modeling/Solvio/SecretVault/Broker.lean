import Solvio.SecretVault.Readback

namespace Solvio.SecretVault
open Solvio.Lib

/-- How a borrower is turned away. -/
inductive Refusal where
  | denied (reason : Denied)
  | unavailable
  | valueError
  | unicodeError
deriving DecidableEq

/-- `_deny`. What it writes down names the target, so that a target without a
readable port is a `ValueError` here. -/
def deny (T : TextTables) (request : UseRequest) (reason : Denied) : Refusal :=
  match normalizeTarget T request.target with
  | none => .valueError
  | some _ => .denied reason

section
variable (V : Site)

/-- The policy of a reference, if it allows the request. -/
def judged (t : Vault) (ref : String) (request : UseRequest) :
    Except Refusal SecretPolicy :=
  match t.find? ref with
  | none => .error (deny V.tables request .unknownSecret)
  | some row =>
    match fromRow row with
    | none => .error .valueError
    | some p =>
      match evaluate V.tables (some p) request with
      | none => .error .valueError
      | some (.deny reason) => .error (deny V.tables request reason)
      | some .allow => .ok p

/-- The plaintext under a policy, from a row that carries its digest. -/
def unsealed (keychain : Keychain) (t : Vault) (ref : String) (p : SecretPolicy)
    (request : UseRequest) : Except Refusal Bytes :=
  match t.find? ref, p.digest V.tables with
  | none, _ => .error (deny V.tables request .unknownSecret)
  | some _, none => .error .valueError
  | some row, some digest =>
    if row.policySha256 ≠ digest then .error (deny V.tables request .envelopeRejected)
    else match keychain with
      | .locked =>
        .error (if normalizeTarget V.tables request.target = none then .valueError
          else .unavailable)
      | .missing => .error (deny V.tables request .vaultUnavailable)
      | .ready =>
        match V.cipher.unseal V.kek ref p.version digest row.sealed with
        | none => .error (deny V.tables request .envelopeRejected)
        | some plaintext => .ok plaintext

/-- `_open`. It reads the row for the policy, and reads it again for the envelope. -/
def openSecret (keychain : Keychain) (t t' : Vault) (secretRef : String) (request : UseRequest) :
    Except Refusal String :=
  match SecretRef.parse V.tables secretRef with
  | none => .error (deny V.tables request .unknownSecret)
  | some ref => do
    let p ← judged V t ref.text request
    let plaintext ← unsealed V keychain t' ref.text p request
    match decodeUtf8 plaintext with
    | none => throw .unicodeError
    | some value => return value

end

/-- `touch_used`. -/
def touchUsed (t : Vault) (ref : String) (now : String) : Vault :=
  Table.modify t ref (fun row => { row with lastUsedAt := now }) (fun _ => rfl)

theorem mem_touched {t : Vault} {ref now : String} {row : Row} (h : row ∈ touchUsed t ref now) :
    ∃ old ∈ t, row = old ∨ row = { old with lastUsedAt := now } := by
  unfold touchUsed at h
  obtain ⟨old, hold, he⟩ := Table.mem_modify.mp h
  refine ⟨old, hold, ?_⟩
  split at he
  · exact Or.inr he
  · exact Or.inl he

theorem find_touched {t : Vault} {ref : String} {row : Row} (h : t.find? ref = some row)
    (now : String) : (touchUsed t ref now).find? ref = some { row with lastUsedAt := now } := by
  rw [touchUsed, Table.find_modify, if_pos rfl, h]
  rfl

/-! ### What a verdict and an opening rest on -/

theorem status_value_injective {a b : Status} (h : a.value = b.value) : a = b := by
  have := Status.of_value a
  rw [h, Status.of_value] at this
  exact (Option.some.inj this).symm

theorem authority_capabilities {T : TextTables} {p q : SecretPolicy} {a : Authority}
    (hp : p.authorityFields T = some a) (hq : q.authorityFields T = some a) (c : String) :
    c ∈ p.allowedCapabilities ↔ c ∈ q.allowedCapabilities := by
  obtain ⟨_, -, ha⟩ := authority_fields_some hp
  obtain ⟨_, -, he⟩ := authority_fields_some hq
  have hcaps : sortedSet p.allowedCapabilities = sortedSet q.allowedCapabilities :=
    congrArg Authority.allowedCapabilities (ha.symm.trans he)
  rw [← mem_sorted_set, hcaps, mem_sorted_set]

/-- A policy is judged by its authority. -/
theorem evaluate_authority {T : TextTables} {p q : SecretPolicy} {a : Authority}
    (hp : p.authorityFields T = some a) (hq : q.authorityFields T = some a) (request : UseRequest) :
    evaluate T (some p) request = evaluate T (some q) request := by
  have hcap := authority_capabilities hp hq request.capability
  obtain ⟨ptargets, hpt, rfl⟩ := authority_fields_some hp
  obtain ⟨qtargets, hqt, he⟩ := authority_fields_some hq
  simp only [Authority.mk.injEq] at he
  obtain ⟨-, -, -, hstatus, -, htargets, hexes, hbackground, hpresence⟩ := he
  have hstatus := status_value_injective hstatus
  have hexe : request.executor ∈ p.allowedExecutors ↔ request.executor ∈ q.allowedExecutors := by
    have hmem : ∀ r : SecretPolicy, request.executor ∈ r.allowedExecutors ↔
        request.executor.value ∈ sortedSet (r.allowedExecutors.map ExecutorId.value) := by
      intro r
      rw [mem_sorted_set, List.mem_map]
      exact ⟨fun h => ⟨_, h, rfl⟩, fun ⟨e, h, hv⟩ => ExecutorId.value_injective hv ▸ h⟩
    rw [hmem, hexes, ← hmem]
  have htarget : ∀ x, x ∈ ptargets ↔ x ∈ qtargets := fun x => by
    rw [← mem_sorted_set, htargets, mem_sorted_set]
  simp only [evaluate, hstatus, hbackground, hpresence, hcap, hexe, hpt, hqt,
    Option.bind_eq_bind, Option.bind_some, List.mem_filter, htarget]

theorem judged_ok {V : Site} {t : Vault} {ref : String} {request : UseRequest} {p : SecretPolicy}
    (h : judged V t ref request = .ok p) :
    (∃ row, t.find? ref = some row ∧ fromRow row = some p) ∧
      evaluate V.tables (some p) request = some .allow := by
  unfold judged at h
  split at h
  · simp at h
  · rename_i row hrow
    split at h
    · simp at h
    · rename_i q hq
      split at h
      · simp at h
      · simp at h
      · rename_i hallow
        obtain rfl := Except.ok.inj h
        exact ⟨⟨row, hrow, hq⟩, hallow⟩

theorem unsealed_ok {V : Site} {keychain : Keychain} {t : Vault} {ref : String} {p : SecretPolicy}
    {request : UseRequest} {plaintext : Bytes}
    (h : unsealed V keychain t ref p request = .ok plaintext) :
    ∃ row, t.find? ref = some row ∧ p.digest V.tables = some row.policySha256 ∧
      V.cipher.unseal V.kek ref p.version row.policySha256 row.sealed = some plaintext := by
  unfold unsealed at h
  split at h
  · simp at h
  · simp at h
  · rename_i row digest hrow hdigest
    split at h
    · simp at h
    · rename_i hsame
      have hsame : row.policySha256 = digest := not_not.mp hsame
      subst hsame
      split at h
      · simp at h
      · simp at h
      · split at h
        · simp at h
        · rename_i hopen
          obtain rfl := Except.ok.inj h
          exact ⟨row, hrow, hdigest, hopen⟩

/-- A value that comes out was allowed by the policy of one row, and came out of
the envelope of another that carries the digest of that policy. -/
theorem open_secret_ok {V : Site} {keychain : Keychain} {t t' : Vault} {secretRef value : String}
    {request : UseRequest} (h : openSecret V keychain t t' secretRef request = .ok value) :
    ∃ ref p row row' plaintext, SecretRef.parse V.tables secretRef = some ref ∧
      t.find? ref.text = some row ∧ fromRow row = some p ∧
      evaluate V.tables (some p) request = some .allow ∧
      t'.find? ref.text = some row' ∧ p.digest V.tables = some row'.policySha256 ∧
      V.cipher.unseal V.kek ref.text p.version row'.policySha256 row'.sealed = some plaintext ∧
      decodeUtf8 plaintext = some value := by
  unfold openSecret at h
  split at h
  · simp at h
  · rename_i ref href
    simp only [bind_ok] at h
    obtain ⟨p, hp, plaintext, hplain, h⟩ := h
    obtain ⟨⟨row, hrow, hfrom⟩, hallow⟩ := judged_ok hp
    obtain ⟨row', hrow', hdigest, hopen⟩ := unsealed_ok hplain
    split at h
    · simp [throw_ok] at h
    · rename_i v hv
      obtain rfl := pure_ok.mp h
      exact ⟨ref, p, row, row', plaintext, href, hrow, hfrom, hallow, hrow', hdigest, hopen, hv⟩

end Solvio.SecretVault
