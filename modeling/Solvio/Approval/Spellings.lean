import Mathlib.Data.List.TakeWhile
import Solvio.Approval.Identity
import Solvio.Approval.Tables

namespace Solvio.Approval
open Solvio.Lib

/-! ### The spellings of a key -/

theorem strip_split (p : Char → Bool) (cs : List Char) :
    ∃ a b, cs = a ++ strip p cs ++ b ∧ (∀ c ∈ a, p c = true) ∧ ∀ c ∈ b, p c = true := by
  have hsplit : ∀ ds : List Char, ds = ds.takeWhile p ++ ds.dropWhile p :=
    fun ds => List.takeWhile_append_dropWhile.symm
  have hall : ∀ ds : List Char, ∀ c ∈ ds.takeWhile p, p c = true :=
    fun ds c hc => List.mem_takeWhile_imp hc
  refine ⟨cs.takeWhile p, ((cs.dropWhile p).reverse.takeWhile p).reverse, ?_, hall cs, ?_⟩
  · rw [strip, List.append_assoc, ← List.reverse_append, ← hsplit, List.reverse_reverse]
    exact hsplit cs
  · intro c hc
    exact hall _ c (List.mem_reverse.mp hc)

/-- Two kinds of characters that leave the same text leave it whole. -/
theorem strip_two {p q : Char → Bool} (hpq : ∀ c, p c = true → q c = false) {cs : List Char}
    (hne : strip p cs ≠ []) (h : strip p cs = strip q cs) : strip p cs = cs := by
  obtain ⟨a, b, hp, ha, hb⟩ := strip_split p cs
  obtain ⟨a', b', hq, ha', hb'⟩ := strip_split q cs
  rw [← h] at hq
  obtain ⟨x, xs, hs⟩ := List.exists_cons_of_ne_nil hne
  obtain ⟨ys, y, hl⟩ : ∃ ys y, strip p cs = ys ++ [y] :=
    ⟨_, _, (List.dropLast_concat_getLast hne).symm⟩
  have hx : p x = false := strip_head x (by rw [hs]; rfl)
  have hy : p y = false := strip_last y (by rw [hl]; simp)
  have ha0 : a = [] := by
    cases a with
    | nil => rfl
    | cons c a =>
      have hc := ha c (List.mem_cons_self ..)
      cases a' with
      | nil =>
        have hhead := congrArg List.head? (hp.symm.trans hq)
        rw [hs] at hhead
        obtain rfl : c = x := by simpa using hhead
        exact absurd hc (by simp [hx])
      | cons d a' =>
        have hhead := congrArg List.head? (hp.symm.trans hq)
        obtain rfl : c = d := by simpa using hhead
        exact absurd (ha' c (List.mem_cons_self ..)) (by simp [hpq c hc])
  have hb0 : b = [] := by
    rcases List.eq_nil_or_concat b with rfl | ⟨bs, c, rfl⟩
    · rfl
    · have hc := hb c (by simp)
      rcases List.eq_nil_or_concat b' with rfl | ⟨ds, d, rfl⟩
      · have hlast := congrArg List.getLast? (hp.symm.trans hq)
        rw [hl] at hlast
        obtain rfl : c = y := by simpa [← List.append_assoc] using hlast
        exact absurd hc (by simp [hy])
      · have hlast := congrArg List.getLast? (hp.symm.trans hq)
        obtain rfl : c = d := by simpa [← List.append_assoc] using hlast
        exact absurd (hb' c (by simp)) (by simp [hpq c hc])
  rw [ha0, hb0] at hp
  simpa using hp.symm

/-- A text that is accepted decodes as it stands, and its identity is the
spelling that its bytes are encoded as. -/
theorem canonical_decodes {value c : String} (h : canonicalAppAttestKeyId value = some c) :
    ∃ raw, b64decode value = some raw ∧ raw.length = 32 ∧ c = b64encode raw := by
  simp only [canonicalAppAttestKeyId, Option.bind_eq_bind] at h
  split at h
  · simp at h
  · rename_i hboth
    rw [not_or, not_not] at hboth
    have hwhole : strip isSpace value.toList = value.toList := by
      refine strip_two (fun c hc => ?_) hboth.1 hboth.2
      simp only [isSpace, Bool.or_eq_true, Bool.and_eq_true, decide_eq_true_eq] at hc
      simp only [decide_eq_false_iff_not]
      omega
    rw [hwhole] at h
    obtain ⟨raw, hraw, hr⟩ := Option.bind_eq_some_iff.mp h
    split at hr
    · rename_i hlen
      exact ⟨raw, hraw, hlen, (Option.some.inj hr).symm⟩
    · cases hr

theorem b64_encode_injective {a b : Bytes} (h : b64encode a = b64encode b) : a = b := by
  have hd := congrArg b64decode h
  rw [b64_decode_encode, b64_decode_encode] at hd
  exact Option.some.inj hd

theorem canonical_eq_iff {v w c d : String} (hv : canonicalAppAttestKeyId v = some c)
    (hw : canonicalAppAttestKeyId w = some d) :
    c = d ↔ ∃ raw : Bytes, raw.length = 32 ∧ b64decode v = some raw ∧ b64decode w = some raw := by
  obtain ⟨a, ha, hlen, rfl⟩ := canonical_decodes hv
  obtain ⟨b, hb, -, rfl⟩ := canonical_decodes hw
  constructor
  · intro h
    obtain rfl := b64_encode_injective h
    exact ⟨a, hlen, ha, hb⟩
  · rintro ⟨raw, -, hva, hwb⟩
    rw [Option.some.inj (ha.symm.trans hva), Option.some.inj (hb.symm.trans hwb)]

/-! ### The migration -/

/-- `canon`, with a text that no key has left as it is. -/
def canonicalText (v : String) : String := (canonicalAppAttestKeyId v).getD v

theorem canonical_text_idem (v : String) : canonicalText (canonicalText v) = canonicalText v := by
  cases h : canonicalAppAttestKeyId v with
  | none => simp [canonicalText, h]
  | some c => simp [canonicalText, h, canonical_idempotent h]

/-- What decodes after all is its own identity. -/
theorem canonical_text_fixed {v c : String} (h : canonicalAppAttestKeyId (canonicalText v) = some c) :
    c = canonicalText v := by
  have hidem := canonical_text_idem v
  rw [canonicalText, h] at hidem
  exact hidem

def canonicalRef : IdentityRef → IdentityRef
  | (.appAttestKey, v) => (.appAttestKey, canonicalText v)
  | k => k

theorem canonical_ref_idem (k : IdentityRef) : canonicalRef (canonicalRef k) = canonicalRef k := by
  obtain ⟨kind, v⟩ := k
  cases kind with
  | appAttestKey => simp [canonicalRef, canonical_text_idem]
  | device => rfl
  | approvalKey => rfl

def Device.canonicalised (d : Device) : Device :=
  { d with appAttestKeyId := d.appAttestKeyId.map canonicalText }

theorem Device.canonicalised_self {d : Device}
    (h : d.appAttestKeyId.map canonicalText = d.appAttestKeyId) : d.canonicalised = d := by
  unfold Device.canonicalised
  rw [h]

/-- One row of the loop over `devices`. -/
def canonicaliseDevice (t : Table Device) (row : Device) : Table Device :=
  match row.appAttestKeyId with
  | none => t
  | some v =>
    match canonicalAppAttestKeyId v with
    | none => t
    | some c =>
      if c ≠ "" ∧ c ≠ v then
        t.modify row.deviceId (fun d => { d with appAttestKeyId := some c }) (fun _ => rfl)
      else t

/-- One row of the loop over `revocations`: the canonical row is there
afterwards, and the stale text is dropped. -/
def collapse (t : Table Revocation) (row : Revocation) : Table Revocation :=
  match canonicalAppAttestKeyId row.value with
  | none => t
  | some c =>
    if c = "" ∨ c = row.value then t
    else
      let kept := (t.insert? ⟨.appAttestKey, c, row.reason, row.revokedAt⟩).getD t
      kept.delete (.appAttestKey, row.value)

/-- `_canonicalise_app_attest_ids`. -/
def Store.canonicaliseAppAttestIds (s : Store) : Store :=
  let rows := s.revocations.rows.filter (fun r => r.kind = .appAttestKey)
  { s with
    devices := s.devices.rows.foldl canonicaliseDevice s.devices
    revocations := rows.foldl collapse s.revocations }

/-! ### Devices -/

theorem find_canonicalise_device {t : Table Device} {row : Device} (hrow : row ∈ t) (id : String) :
    (canonicaliseDevice t row).find? id =
      if id = row.deviceId then some row.canonicalised else t.find? id := by
  have hfound : t.find? row.deviceId = some row := Table.find_of_mem hrow
  have hself : ∀ (_ : row.appAttestKeyId.map canonicalText = row.appAttestKeyId),
      t.find? id = if id = row.deviceId then some row.canonicalised else t.find? id := by
    intro hsame
    split
    · rename_i hid
      rw [hid, hfound, Device.canonicalised_self hsame]
    · rfl
  unfold canonicaliseDevice
  split
  · rename_i hnone
    exact hself (by simp [hnone])
  · rename_i v hv
    split
    · rename_i hc
      exact hself (by simp [hv, canonicalText, hc])
    · rename_i c hc
      split
      · rw [Table.find_modify, hfound]
        simp [Device.canonicalised, hv, canonicalText, hc]
      · rename_i hsame
        rw [not_and_or, not_not, not_not] at hsame
        have hcv : c = v := hsame.resolve_left (canonical_ne_empty hc)
        exact hself (by simp [hv, canonicalText, hc, hcv])

/-- The rows that the loop has not come to are as they were. -/
theorem find_canonicalise_devices (rows : List Device) (t : Table Device)
    (hrows : ∀ r ∈ rows, r ∈ t) (hdistinct : (rows.map Device.deviceId).Nodup) (id : String) :
    (rows.foldl canonicaliseDevice t).find? id =
      if id ∈ rows.map Device.deviceId then (t.find? id).map Device.canonicalised
      else t.find? id := by
  induction rows generalizing t with
  | nil => simp
  | cons row rows ih =>
    obtain ⟨hrow, hrest⟩ := List.forall_mem_cons.mp hrows
    rw [List.map_cons, List.nodup_cons] at hdistinct
    have hstep := find_canonicalise_device hrow
    rw [List.foldl_cons, ih _ (fun r hr => ?_) hdistinct.2, hstep id]
    · have hfound : t.find? row.deviceId = some row := Table.find_of_mem hrow
      by_cases hid : id = row.deviceId
      · rw [if_neg (hid ▸ hdistinct.1), if_pos hid, if_pos (by simp [hid]), hid, hfound]
        rfl
      · simp [hid]
    · have hne : r.deviceId ≠ row.deviceId := fun he =>
        hdistinct.1 (he ▸ List.mem_map_of_mem hr)
      have hfound := hstep r.deviceId
      rw [if_neg hne] at hfound
      exact Table.mem_of_find (hfound.trans (Table.find_of_mem (hrest r hr)))

theorem find_canonicalised_devices (s : Store) (id : String) :
    s.canonicaliseAppAttestIds.devices.find? id =
      (s.devices.find? id).map Device.canonicalised := by
  change (s.devices.rows.foldl canonicaliseDevice s.devices).find? id = _
  rw [find_canonicalise_devices _ _ (fun _ h => h) s.devices.distinct]
  split
  · rfl
  · rename_i hnone
    rw [Table.find_none.mpr (fun d hd he => hnone (List.mem_map.mpr ⟨d, hd, he⟩))]
    rfl

/-! ### Revocations -/

/-- One row of the loop exchanges the row's identity for the canonical one. -/
theorem collapse_revoked {t : Table Revocation} {row : Revocation} (hkind : row.kind = .appAttestKey)
    (hrow : (t.find? (row.kind, row.value)).isSome) (k : IdentityRef) :
    ((collapse t row).find? k).isSome ↔
      k = canonicalRef (row.kind, row.value) ∨
        (k ≠ (row.kind, row.value) ∧ (t.find? k).isSome) := by
  have hself : ∀ (_ : canonicalText row.value = row.value), (t.find? k).isSome ↔
      k = canonicalRef (row.kind, row.value) ∨
        (k ≠ (row.kind, row.value) ∧ (t.find? k).isSome) := by
    intro hsame
    rw [hkind, canonicalRef, hsame, ← hkind]
    by_cases hk : k = (row.kind, row.value)
    · simp [hk, hrow]
    · simp [hk]
  unfold collapse
  split
  · rename_i hc
    exact hself (by simp [canonicalText, hc])
  · rename_i c hc
    split
    · rename_i hsame
      have hcv : c = row.value := hsame.resolve_left (canonical_ne_empty hc)
      exact hself (by simp [canonicalText, hc, hcv])
    · rename_i hstale
      rw [not_or] at hstale
      have hcanon : canonicalRef (row.kind, row.value) = (.appAttestKey, c) := by
        rw [hkind, canonicalRef, canonicalText, hc, Option.getD_some]
      have hne : canonicalRef (row.kind, row.value) ≠ (row.kind, row.value) := by
        rw [hcanon, hkind]
        exact fun he => hstale.2 (congrArg Prod.snd he)
      have hkept : ∀ k, (((t.insert? ⟨.appAttestKey, c, row.reason, row.revokedAt⟩).getD t).find?
          k).isSome ↔ k = (.appAttestKey, c) ∨ (t.find? k).isSome := by
        intro k
        cases hi : t.insert? ⟨.appAttestKey, c, row.reason, row.revokedAt⟩ with
        | none =>
          obtain ⟨b, hb⟩ := Table.insert_none.mp hi
          rw [Option.getD_none]
          refine ⟨.inr, ?_⟩
          rintro (rfl | h)
          · exact Option.isSome_iff_exists.mpr ⟨b, hb⟩
          · exact h
        | some t' =>
          rw [Option.getD_some, Table.find_insert hi k]
          split
          · rename_i hk
            simp [← hk, Keyed.key]
          · rename_i hk
            have : k ≠ (.appAttestKey, c) := fun he => hk he.symm
            simp [this]
      dsimp only
      rw [Table.find_delete, hcanon]
      split
      · rename_i hk
        rw [hkind]
        simp only [hk, ne_eq, not_true_eq_false, false_and, or_false, Option.isSome_none,
          Bool.false_eq_true, false_iff]
        exact fun he => hstale.2 (congrArg Prod.snd he).symm
      · rename_i hk
        rw [hkept, hkind]
        simp [hk]

theorem collapse_all_revoked (rows : List Revocation) (t : Table Revocation)
    (hkind : ∀ r ∈ rows, r.kind = .appAttestKey)
    (hrows : ∀ r ∈ rows, (t.find? (r.kind, r.value)).isSome)
    (hdistinct : (rows.map (Keyed.key : Revocation → IdentityRef)).Nodup) (k : IdentityRef) :
    ((rows.foldl collapse t).find? k).isSome ↔
      (∃ r ∈ rows, k = canonicalRef (r.kind, r.value)) ∨
        ((∀ r ∈ rows, k ≠ (r.kind, r.value)) ∧ (t.find? k).isSome) := by
  induction rows generalizing t with
  | nil => simp
  | cons row rows ih =>
    obtain ⟨hk, hkinds⟩ := List.forall_mem_cons.mp hkind
    obtain ⟨hrow, hrest⟩ := List.forall_mem_cons.mp hrows
    rw [List.map_cons, List.nodup_cons] at hdistinct
    have hstep := collapse_revoked hk hrow
    have hthere : ∀ r ∈ rows, ((collapse t row).find? (r.kind, r.value)).isSome := by
      intro r hr
      rw [hstep]
      exact .inr ⟨fun he => hdistinct.1 (List.mem_map.mpr ⟨r, hr, he⟩), hrest r hr⟩
    rw [List.foldl_cons, ih _ hkinds hthere hdistinct.2, hstep]
    simp only [List.exists_mem_cons_iff, List.forall_mem_cons]
    constructor
    · rintro (h | ⟨hnone, rfl | ⟨hne, ht⟩⟩)
      · exact .inl (.inr h)
      · exact .inl (.inl rfl)
      · exact .inr ⟨⟨hne, hnone⟩, ht⟩
    · rintro ((rfl | h) | ⟨⟨hne, hnone⟩, ht⟩)
      · by_cases hlater : ∃ r ∈ rows, canonicalRef (row.kind, row.value) = (r.kind, r.value)
        · -- the canonical row itself comes later, and stays
          obtain ⟨r, hr, he⟩ := hlater
          exact .inl ⟨r, hr, by rw [← he, canonical_ref_idem]⟩
        · exact .inr ⟨fun r hr he => hlater ⟨r, hr, he⟩, .inl rfl⟩
      · exact .inl h
      · exact .inr ⟨hnone, .inr ⟨hne, ht⟩⟩

/-- What is revoked after the migration are the canonical identities of what
was revoked before. -/
theorem canonicalised_revoked (s : Store) (k : IdentityRef) :
    s.canonicaliseAppAttestIds.isRevoked k = true ↔
      ∃ k', s.isRevoked k' = true ∧ k = canonicalRef k' := by
  change ((List.foldl collapse s.revocations _).find? k).isSome ↔ _
  have hfind : ∀ r ∈ s.revocations, s.revocations.find? (r.kind, r.value) = some r :=
    fun r hr => Table.find_of_mem hr
  have hmem : ∀ k', s.isRevoked k' = true ↔ ∃ r ∈ s.revocations, (r.kind, r.value) = k' := by
    intro k'
    rw [Tables.is_revoked_iff]
    constructor
    · rintro ⟨r, hr, h1, h2⟩
      exact ⟨r, hr, Prod.ext h1 h2⟩
    · rintro ⟨r, hr, rfl⟩
      exact ⟨r, hr, rfl, rfl⟩
  rw [collapse_all_revoked]
  · constructor
    · rintro (⟨r, hr, rfl⟩ | ⟨hother, hthere⟩)
      · exact ⟨_, (hmem _).mpr ⟨r, (List.mem_filter.mp hr).1, rfl⟩, rfl⟩
      · refine ⟨k, hthere, ?_⟩
        obtain ⟨r, hr, hrk⟩ := (hmem k).mp hthere
        obtain ⟨kind, v⟩ := k
        cases kind with
        | device => rfl
        | approvalKey => rfl
        | appAttestKey =>
          refine absurd hrk.symm (hother r (List.mem_filter.mpr ⟨hr, ?_⟩))
          simpa using congrArg Prod.fst hrk
    · rintro ⟨k', hthere, rfl⟩
      obtain ⟨r, hr, rfl⟩ := (hmem k').mp hthere
      by_cases hkind : r.kind = .appAttestKey
      · exact .inl ⟨r, List.mem_filter.mpr ⟨hr, by simpa using hkind⟩, rfl⟩
      · have hself : canonicalRef (r.kind, r.value) = (r.kind, r.value) := by
          cases hk : r.kind with
          | device => rfl
          | approvalKey => rfl
          | appAttestKey => exact absurd hk hkind
        rw [hself]
        refine .inr ⟨fun q hq he => hkind ?_, by rw [hfind r hr]; rfl⟩
        have hq : q.kind = .appAttestKey := by simpa using (List.mem_filter.mp hq).2
        exact (congrArg Prod.fst he).trans hq
  · intro r hr
    simpa using (List.mem_filter.mp hr).2
  · intro r hr
    rw [hfind r (List.mem_filter.mp hr).1]
    rfl
  · exact s.revocations.distinct.sublist (List.filter_sublist.map _)

/-- A row whose identity is its own canonical one is left alone. -/
theorem collapse_keeps {t : Table Revocation} {row r : Revocation} (hr : r ∈ t)
    (hcanon : canonicalRef (r.kind, r.value) = (r.kind, r.value)) : r ∈ collapse t row := by
  unfold collapse
  split
  · exact hr
  · rename_i c hc
    split
    · exact hr
    · rename_i hstale
      rw [not_or] at hstale
      refine Table.mem_delete.mpr ⟨?_, fun hkey => hstale.2 ?_⟩
      · cases hi : t.insert? ⟨.appAttestKey, c, row.reason, row.revokedAt⟩ with
        | none => exact hr
        | some t' => exact ((Table.insert_some hi).2 r).mpr (.inl hr)
      · have hkey : (r.kind, r.value) = (RevokeKind.appAttestKey, row.value) := hkey
        rw [hkey, canonicalRef, canonicalText, hc] at hcanon
        exact congrArg Prod.snd hcanon

theorem canonicalised_keeps {s : Store} {r : Revocation} (hr : r ∈ s.revocations)
    (hcanon : canonicalRef (r.kind, r.value) = (r.kind, r.value)) :
    r ∈ s.canonicaliseAppAttestIds.revocations := by
  change r ∈ List.foldl collapse s.revocations _
  have hall : ∀ (rows : List Revocation) (t : Table Revocation), r ∈ t →
      r ∈ rows.foldl collapse t := by
    intro rows
    induction rows with
    | nil => exact fun _ h => h
    | cons q rows ih => exact fun t ht => ih _ (collapse_keeps ht hcanon)
  exact hall _ _ hr

/-! ### Running the migration again -/

theorem foldl_fixed {α β : Type} {f : α → β → α} {a : α} {bs : List β}
    (h : ∀ b ∈ bs, f a b = a) : bs.foldl f a = a := by
  induction bs with
  | nil => rfl
  | cons b bs ih =>
    rw [List.foldl_cons, h b (List.mem_cons_self ..)]
    exact ih (fun c hc => h c (List.mem_cons_of_mem b hc))

/-- Every id of the store that decodes is spelled canonically. -/
structure Store.Canonical (s : Store) : Prop where
  devices : ∀ d ∈ s.devices, ∀ v ∈ d.appAttestKeyId, ∀ c ∈ canonicalAppAttestKeyId v, c = v
  revocations : ∀ r ∈ s.revocations, r.kind = .appAttestKey →
    ∀ c ∈ canonicalAppAttestKeyId r.value, c = r.value

theorem canonicalised_canonical (s : Store) : s.canonicaliseAppAttestIds.Canonical where
  devices := by
    intro d hd v hv c hc
    have hfound := Table.find_of_mem hd
    rw [find_canonicalised_devices] at hfound
    obtain ⟨d₀, -, rfl⟩ := Option.map_eq_some_iff.mp hfound
    obtain ⟨v₀, -, rfl⟩ := Option.map_eq_some_iff.mp hv
    exact canonical_text_fixed hc
  revocations := by
    intro r hr hkind c hc
    obtain ⟨⟨kind, v⟩, -, he⟩ := (canonicalised_revoked s (r.kind, r.value)).mp
      (Tables.is_revoked_iff.mpr ⟨r, hr, rfl, rfl⟩)
    cases kind with
    | device => exact absurd (hkind.symm.trans (congrArg Prod.fst he)) (by simp [canonicalRef])
    | approvalKey => exact absurd (hkind.symm.trans (congrArg Prod.fst he)) (by simp [canonicalRef])
    | appAttestKey =>
      have hv : r.value = canonicalText v := congrArg Prod.snd he
      rw [hv] at hc ⊢
      exact canonical_text_fixed hc

theorem Store.Canonical.migrated {s : Store} (h : s.Canonical) : s.canonicaliseAppAttestIds = s := by
  have hdevices : s.devices.rows.foldl canonicaliseDevice s.devices = s.devices := by
    apply foldl_fixed
    intro d hd
    unfold canonicaliseDevice
    split
    · rfl
    · rename_i v hv
      split
      · rfl
      · rename_i c hc
        exact if_neg (fun hne => hne.2 (h.devices d hd v hv c hc))
  have hrevocations : (s.revocations.rows.filter (fun r => r.kind = .appAttestKey)).foldl collapse
      s.revocations = s.revocations := by
    apply foldl_fixed
    intro r hr
    obtain ⟨hr, hkind⟩ := List.mem_filter.mp hr
    unfold collapse
    split
    · rfl
    · rename_i c hc
      exact if_pos (.inr (h.revocations r hr (by simpa using hkind) c hc))
  unfold Store.canonicaliseAppAttestIds
  dsimp only
  rw [hdevices, hrevocations]

/-- An App Attest key has one identity: two texts have the same canonical one
if and only if they decode to the same bytes; the migration brings every id
onto it, keeps exactly the revoked keys revoked, leaves alone what does not
decode, and changes nothing when it runs again. -/
theorem one_key_one_identity :
    (∀ v w c d, canonicalAppAttestKeyId v = some c → canonicalAppAttestKeyId w = some d →
      (c = d ↔ ∃ raw : Bytes, raw.length = 32 ∧ b64decode v = some raw ∧ b64decode w = some raw)) ∧
    (∀ v c, canonicalAppAttestKeyId v = some c → canonicalAppAttestKeyId c = some c) ∧
    ∀ s : Store,
      s.canonicaliseAppAttestIds.Canonical ∧
      (∀ c, canonicalAppAttestKeyId c = some c →
        (s.canonicaliseAppAttestIds.isRevoked (.appAttestKey, c) = true ↔
          ∃ v, canonicalAppAttestKeyId v = some c ∧ s.isRevoked (.appAttestKey, v) = true)) ∧
      (∀ id, s.canonicaliseAppAttestIds.devices.find? id =
        (s.devices.find? id).map Device.canonicalised) ∧
      (∀ r ∈ s.revocations, r.kind ≠ .appAttestKey ∨ canonicalAppAttestKeyId r.value = none →
        r ∈ s.canonicaliseAppAttestIds.revocations) ∧
      s.canonicaliseAppAttestIds.canonicaliseAppAttestIds = s.canonicaliseAppAttestIds := by
  refine ⟨fun _ _ _ _ hv hw => canonical_eq_iff hv hw, fun _ _ h => canonical_idempotent h,
    fun s => ⟨canonicalised_canonical s, fun c hc => ?_, find_canonicalised_devices s,
      fun r hr hleft => canonicalised_keeps hr ?_, (canonicalised_canonical s).migrated⟩⟩
  · rw [canonicalised_revoked]
    constructor
    · rintro ⟨⟨kind, v⟩, hrevoked, he⟩
      cases kind with
      | device => cases he
      | approvalKey => cases he
      | appAttestKey =>
        have hcv : c = canonicalText v := congrArg Prod.snd he
        refine ⟨v, ?_, hrevoked⟩
        cases hv : canonicalAppAttestKeyId v with
        | some d => rw [hcv, canonicalText, hv, Option.getD_some]
        | none =>
          rw [canonicalText, hv, Option.getD_none] at hcv
          rw [hcv, hv] at hc
          cases hc
    · rintro ⟨v, hv, hrevoked⟩
      exact ⟨_, hrevoked, by rw [canonicalRef, canonicalText, hv, Option.getD_some]⟩
  · obtain ⟨kind, value, reason, revokedAt⟩ := r
    cases kind with
    | device => rfl
    | approvalKey => rfl
    | appAttestKey =>
      have hnone := hleft.resolve_left (fun h => h rfl)
      simp only [canonicalRef, canonicalText, hnone, Option.getD_none]

section sample

def sampleSpelling (last : Char) : String :=
  String.ofList (List.replicate 42 'A' ++ [last, '='])

/-- A key was revoked under a spelling that is not its canonical one. -/
def sampleSpelled : Store :=
  { Store.fresh with revocations := ⟨[⟨.appAttestKey, sampleSpelling 'B', none, 0⟩], by simp⟩ }

theorem sample_spelling_revoked :
    sampleSpelled.isRevoked (.appAttestKey, sampleSpelling 'A') = false ∧
    sampleSpelled.canonicaliseAppAttestIds.isRevoked (.appAttestKey, sampleSpelling 'A') = true :=
  ⟨by decide, ((one_key_one_identity.2.2 sampleSpelled).2.1 _ (by decide)).mpr
    ⟨sampleSpelling 'B', by decide, by decide⟩⟩

end sample

end Solvio.Approval
