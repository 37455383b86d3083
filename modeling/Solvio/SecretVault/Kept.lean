import Solvio.Lib.Runs
import Solvio.SecretVault.Broker

namespace Solvio.SecretVault
open Solvio.Lib

/-! ### Scopes that are read back as they were given -/

theorem normalize_line {T : TextTables} {value clean : String}
    (h : normalizeTarget T value = some clean) : '\n' ∉ clean.toList := by
  have hempty : '\n' ∉ ("" : String).toList := by simp
  unfold normalizeTarget at h
  simp only at h
  split at h
  · exact Option.some.inj h ▸ hempty
  split at h
  · exact Option.some.inj h ▸ hempty
  split at h
  · exact Option.some.inj h ▸ hempty
  rename_i parts hparts
  split at h
  · exact Option.some.inj h ▸ hempty
  split at h
  · simp at h
  rename_i port _
  obtain ⟨hscheme, hnetloc⟩ := Url.split_line hparts
  rw [← Option.some.inj h, String.toList_ofList]
  simp only [List.mem_append, not_or]
  refine ⟨⟨⟨hscheme, by decide⟩, Url.hostname_line hnetloc⟩, ?_⟩
  split
  · intro hm
    rcases List.mem_cons.mp hm with hm | hm
    · cases hm
    · have := Json.decimal_digits _ _ hm
      simp [Json.isDigit] at this
  · simp

/-- No capability has a line break inside, and every target is normal after one
normalisation. -/
structure Scope.Writable (T : TextTables) (s : Scope) : Prop where
  capabilities : ∀ c ∈ s.capabilities, '\n' ∉ (stripped c).toList
  targets : ∀ t ∈ s.targets, ∀ u, normalizeTarget T t = some u → normalizeTarget T u = some u

/-- A policy whose scope is in the form in which the table holds it. -/
structure SecretPolicy.Settled (T : TextTables) (p : SecretPolicy) : Prop where
  capabilities : ∀ c ∈ p.allowedCapabilities, IsLine c ∧ stripped c = c
  targets : ∀ t ∈ p.allowedTargets, normalizeTarget T t = some t ∧ t ≠ ""

theorem check_scope_settled {T : TextTables} {s scope : Scope} (h : checkScope T s = .ok scope)
    (hw : s.Writable T) :
    (∀ c ∈ scope.capabilities, IsLine c ∧ stripped c = c) ∧
      ∀ t ∈ scope.targets, normalizeTarget T t = some t ∧ t ≠ "" := by
  obtain ⟨cleaned, hc, rfl, -⟩ := check_scope_ok h
  constructor
  · intro c hmem
    obtain ⟨hmem, hne⟩ := List.mem_filter.mp (mem_sorted_set.mp hmem)
    obtain ⟨raw, hraw, rfl⟩ := List.mem_map.mp hmem
    exact ⟨⟨hw.capabilities raw hraw, by simpa using hne⟩, stripped_idem raw⟩
  · intro t hmem
    have hmem := mem_sorted_set.mp hmem
    have hall := map_m_ok.mp hc
    obtain ⟨i, hi, rfl⟩ := List.getElem_of_mem hmem
    have hlen := hall.length_eq
    have hcl := hall.get (by omega) hi
    obtain ⟨hn, hne⟩ := clean_target_ok hcl
    exact ⟨hw.targets _ (List.getElem_mem _) _ hn, hne⟩

theorem SecretPolicy.Settled.writable {T : TextTables} {p : SecretPolicy} (h : p.Settled T) :
    p.scope.Writable T where
  capabilities := fun c hc => by
    rw [(h.capabilities c hc).2]
    exact (h.capabilities c hc).1.1
  targets := fun t ht u hu => by
    have := (h.targets t ht).1
    rw [this] at hu
    rw [← Option.some.inj hu, this]

theorem settled_targets {T : TextTables} {p : SecretPolicy} (h : p.Settled T) :
    p.allowedTargets.mapM (normalizeTarget T) = some p.allowedTargets := by
  have hall : ∀ xs : List String, (∀ x ∈ xs, normalizeTarget T x = some x) →
      xs.mapM (normalizeTarget T) = some xs := by
    intro xs
    induction xs with
    | nil => exact fun _ => rfl
    | cons x xs ih =>
      intro hx
      simp [hx x (by simp), ih (fun y hy => hx y (List.mem_cons_of_mem _ hy))]
  exact hall _ (fun x hx => (h.targets x hx).1)

/-- What is read back from a settled policy has its authority, and is settled. -/
theorem read_back_settled {T : TextTables} {p : SecretPolicy} {a : Authority} (hs : p.Settled T)
    (h : p.authorityFields T = some a) (old : Option Row) (now : String) :
    (readBack old p a now).authorityFields T = some a ∧ (readBack old p a now).Settled T := by
  obtain ⟨targets, ht, ha⟩ := authority_fields_some h
  obtain rfl : p.allowedTargets = targets := Option.some.inj ((settled_targets hs).symm.trans ht)
  have hcaps : ∀ c ∈ a.allowedCapabilities, IsLine c ∧ stripped c = c := by
    rw [ha]
    exact fun c hc => hs.capabilities c (mem_sorted_set.mp hc)
  have htgts : ∀ t ∈ a.allowedTargets, normalizeTarget T t = some t ∧ t ≠ "" := by
    rw [ha]
    exact fun t ht => hs.targets t (mem_sorted_set.mp ht)
  have hcl : (readBack old p a now).allowedCapabilities = a.allowedCapabilities :=
    flat_map_lines (fun c hc => (hcaps c hc).1)
  have htl : (readBack old p a now).allowedTargets = a.allowedTargets :=
    flat_map_lines (fun t ht => ⟨normalize_line (htgts t ht).1, (htgts t ht).2⟩)
  have hsettled : (readBack old p a now).Settled T :=
    ⟨fun c hc => hcaps c (hcl ▸ hc), fun t ht => htgts t (htl ▸ ht)⟩
  refine ⟨?_, hsettled⟩
  rw [SecretPolicy.authorityFields, settled_targets hsettled, hcl, htl, ha]
  simp only [readBack, Option.bind_eq_bind, Option.bind_some, Option.pure_def, sorted_set_idem,
    sorted_executors_values]

/-! ### Rows that open -/

/-- A row that is read back as this policy, and that opens to this plaintext. -/
structure Kept (V : Site) (row : Row) (p : SecretPolicy) (plaintext : Bytes) : Prop where
  read : fromRow row = some p
  settled : p.Settled V.tables
  digest : p.digest V.tables = some row.policySha256
  opens : V.cipher.unseal V.kek p.secretRef p.version row.policySha256 row.sealed = some plaintext

section rows
variable {V : Site}

theorem digest_of_authority {T : TextTables} {p : SecretPolicy} {a : Authority}
    (h : p.authorityFields T = some a) : p.digest T = some (policyDigest a) := by
  rw [SecretPolicy.digest, h, Option.map_some]

theorem put_row_sealed (old : Option Row) (p : SecretPolicy) (a : Authority) (s : Sealed)
    (now : String) : (putRow old p a s now).sealed = s ∧
      (putRow old p a s now).policySha256 = policyDigest a := by
  cases old <;> exact ⟨rfl, rfl⟩

theorem put_row_blobs (old : Option Row) (p : SecretPolicy) (a : Authority) (s : Sealed)
    (now : String) : (putRow old p a s now).wrappedDek = s.wrappedDek ∧
      (putRow old p a s now).ciphertext = s.ciphertext := by
  cases old <;> exact ⟨rfl, rfl⟩

theorem put_kept {s : Sealing V} (hs : s.policy.Settled V.tables) (old : Option Row)
    (now : String) : Kept V (putRow old s.policy s.authority s.sealed now)
      (readBack old s.policy s.authority now) s.plaintext := by
  obtain ⟨hauth, hsettled⟩ := read_back_settled hs s.authority_eq old now
  obtain ⟨hsealed, hdigest⟩ := put_row_sealed old s.policy s.authority s.sealed now
  refine ⟨from_row_put s.authority_eq old s.sealed now, hsettled, ?_, ?_⟩
  · rw [hdigest]
    exact digest_of_authority hauth
  · rw [hsealed, hdigest]
    exact unseal_seal s.seal_eq

/-- A checked scope is read back as it is. -/
theorem read_back_scope {s : Sealing V} (hs : s.policy.Settled V.tables)
    (hscope : checkScope V.tables s.policy.scope = .ok s.policy.scope) (old : Option Row)
    (now : String) : (readBack old s.policy s.authority now).scope = s.policy.scope := by
  obtain ⟨hcaps, htargets, hexes⟩ := settled_authority hscope s.authority_eq
  have hcl := flat_map_lines (fun c hc => (hs.capabilities c hc).1)
  have htl := flat_map_lines (fun t ht => (⟨normalize_line (hs.targets t ht).1, (hs.targets t ht).2⟩ :
    IsLine t))
  simp only [SecretPolicy.scope, readBack, hcaps, htargets, hexes, hcl, htl]

/-- The day of the last use is no part of the authority. -/
theorem Kept.touch {row : Row} {p : SecretPolicy} {plaintext : Bytes} (h : Kept V row p plaintext)
    (now : String) : Kept V { row with lastUsedAt := now } { p with lastUsedAt := now } plaintext := by
  refine ⟨?_, ⟨h.settled.capabilities, h.settled.targets⟩, h.digest, h.opens⟩
  have hread := h.read
  simp only [fromRow, Option.bind_eq_bind, Option.bind_eq_some_iff] at hread ⊢
  obtain ⟨kind, hk, status, hs, executors, he, hp⟩ := hread
  refine ⟨kind, hk, status, hs, executors, he, ?_⟩
  rw [← Option.some.inj hp]
  rfl

/-- What is kept comes out for every request its policy allows. -/
theorem Kept.open {t : Vault} {row : Row} {p : SecretPolicy} {plaintext : Bytes} {value : String}
    {secretRef : String} {ref : SecretRef} {request : UseRequest} (h : Kept V row p plaintext)
    (hrow : t.find? ref.text = some row) (href : SecretRef.parse V.tables secretRef = some ref)
    (hallow : evaluate V.tables (some p) request = some .allow)
    (hvalue : decodeUtf8 plaintext = some value) :
    openSecret V .ready t t secretRef request = .ok value := by
  have hkey : p.secretRef = ref.text := (from_row_ref h.read).trans (Table.key_of_find hrow)
  have hopens := h.opens
  rw [hkey] at hopens
  have hjudged : judged V t ref.text request = .ok p := by
    simp only [judged, hrow, h.read, hallow]
  have hunsealed : unsealed V .ready t ref.text p request = .ok plaintext := by
    simp only [unsealed, hrow, h.digest, ne_eq, not_true_eq_false, if_false, hopens]
  simp only [openSecret, href, hjudged, hunsealed, hvalue, bind, Except.bind]
  rfl

/-- What is kept is sealed again under another policy. -/
theorem Kept.reseal {t : Vault} {row : Row} {p following : SecretPolicy} {plaintext : Bytes}
    {m : Moment} {a : Authority} (h : Kept V row p plaintext) (hrow : t.find? p.secretRef = some row)
    (hready : m.keychain = .ready) (ha : following.authorityFields V.tables = some a)
    (hne : plaintext ≠ []) : ∃ s, reseal V m t p following = .ok s := by
  obtain ⟨s, hs⟩ := Sealing.make_returns m.fresh ha hne
  refine ⟨s, ?_⟩
  have hkek : m.kekOrRaise = .ok () := by rw [Moment.kekOrRaise, hready]
  have hsame : ¬ row.policySha256 ≠ row.policySha256 := not_not.mpr rfl
  simp only [SecretVault.reseal, hrow, h.digest, raise_if_passes _ hsame, hkek, bind, Except.bind, resealUnder,
    h.opens, hs]

theorem Kept.known {t : Vault} {row : Row} {p : SecretPolicy} {plaintext : Bytes}
    (h : Kept V row p plaintext) (hrow : t.find? p.secretRef = some row) :
    readPolicy t p.secretRef = .ok (some p) ∧ knownPolicy t p.secretRef = .ok p := by
  have hread : readPolicy t p.secretRef = .ok (some p) := by simp only [readPolicy, hrow, h.read]
  refine ⟨hread, ?_⟩
  simp only [knownPolicy, hread, bind, Except.bind]
  rfl

theorem SecretPolicy.Settled.authority {T : TextTables} {p : SecretPolicy} (h : p.Settled T) :
    ∃ a, p.authorityFields T = some a := by
  rw [SecretPolicy.authorityFields, settled_targets h]
  exact ⟨_, rfl⟩

/-- The status of a kept entry can be set. -/
theorem Kept.status {t : Vault} {row : Row} {p : SecretPolicy} {plaintext : Bytes} {m : Moment}
    (status : Status) (h : Kept V row p plaintext) (hrow : t.find? p.secretRef = some row)
    (href : parseRef V.tables p.secretRef = .ok p.secretRef) (hready : m.keychain = .ready)
    (hne : plaintext ≠ []) (hnew : p.status ≠ status) :
    ∃ s, setStatus V m t t p.secretRef status = .ok (.stored s) ∧
      s.policy = { p with status := status, version := p.version + 1 } ∧
      s.policy.Settled V.tables := by
  have hfollowing : ({ p with status := status, version := p.version + 1 } :
      SecretPolicy).Settled V.tables := ⟨h.settled.capabilities, h.settled.targets⟩
  obtain ⟨a, ha⟩ := hfollowing.authority
  obtain ⟨s, hs⟩ := h.reseal hrow hready ha hne
  obtain ⟨_, _, _, _, _, hp, _⟩ := reseal_ok hs
  refine ⟨s, ?_, hp, hp ▸ hfollowing⟩
  simp only [setStatus, href, (h.known hrow).2, bind, Except.bind, if_neg hnew, hs]
  rfl

/-- The value of a kept entry with a checked scope is replaced, whatever its status. -/
theorem Kept.replace {t : Vault} {row : Row} {p : SecretPolicy} {plaintext : Bytes}
    {m : Moment} (value : Bytes) (h : Kept V row p plaintext) (hrow : t.find? p.secretRef = some row)
    (href : parseRef V.tables p.secretRef = .ok p.secretRef)
    (hscope : checkScope V.tables p.scope = .ok p.scope)
    (hkind : checkKind p.kind.value = .ok p.kind) (hready : m.keychain = .ready)
    (hne : value ≠ []) (hlong : value.length ≤ maxSecretBytes) :
    ∃ s, replaceValue V m t t p.secretRef value = .ok s ∧ s.policy.secretRef = p.secretRef ∧
      s.policy.status = .active := by
  obtain ⟨hread, hknown⟩ := h.known hrow
  have hpolicy : ((p.again p.secretRef value).policy p.secretRef p.kind p.scope (some p)
      m.now).Settled V.tables := ⟨h.settled.capabilities, h.settled.targets⟩
  obtain ⟨a, ha⟩ := hpolicy.authority
  obtain ⟨s, hs⟩ := add_returns (V := V) (m := m) (t := t) (a := p.again p.secretRef value) href hne
    hlong hread (Or.inr rfl) hscope hkind hready ha
  obtain ⟨ref, kind, scope, existing, href', -, -, -, -, -, -, hp, -⟩ := add_ok hs
  refine ⟨s, ?_, ?_, by rw [hp]; rfl⟩
  · simp only [replaceValue, href, hknown, bind, Except.bind]
    exact hs
  · rw [hp]
    exact Except.ok.inj (href'.symm.trans href)

theorem Kept.unique {row : Row} {p q : SecretPolicy} {plaintext : Bytes} (h : Kept V row p plaintext)
    (hq : fromRow row = some q) : p = q := Option.some.inj (h.read.symm.trans hq)

end rows

/-! ### The vault and its borrowers -/

inductive Act where
  | call (c : Call)
  | use (secretRef : String) (request : UseRequest)

inductive Answer (V : Site) where
  | effect (e : Except Fault (Effect V))
  | value (v : Except Refusal String)

/-- The table after a use. What was decrypted was used. -/
def afterUse (V : Site) (t : Vault) (secretRef now : String) : Except Refusal String → Vault
  | .ok _ | .error .unicodeError =>
    match SecretRef.parse V.tables secretRef with
    | some ref => touchUsed t ref.text now
    | none => t
  | .error _ => t

/-- The vault with its operations and its one way out. -/
def desk (V : Site) : Machine Vault where
  Call := Moment × Act
  Reply := fun _ => Answer V
  step := fun c t =>
    match c.2 with
    | .call op =>
      match op.effect V c.1 t t with
      | .ok e => (.effect (.ok e), e.apply c.1.now t)
      | .error f => (.effect (.error f), t)
    | .use secretRef request =>
      let v := openSecret V c.1.keychain t t secretRef request
      (.value v, afterUse V t secretRef c.1.now v)
  init := Table.empty

/-- What a call that returned leaves as the value of a reference, if it is about it. -/
def Call.leaves (V : Site) (ref : String) : Call → Option (Option Bytes)
  | .add a _ => if parseRef V.tables a.secretRef = .ok ref then some (some a.plaintext) else none
  | .replaceValue r value => if parseRef V.tables r = .ok ref then some (some value) else none
  | .delete r => if parseRef V.tables r = .ok ref then some none else none
  | _ => none

/-- What a step leaves as the value of a reference. -/
def leaves (V : Site) (ref : String) (e : (desk V).Entry) : Option (Option Bytes) :=
  match e.call.2, e.reply with
  | .call c, .effect (.ok _) => c.leaves V ref
  | _, _ => none

/-- The plaintext that was stored last for a reference. -/
def lastStored (V : Site) (ref : String) : List (desk V).Entry → Option Bytes
  | [] => none
  | e :: h => (leaves V ref e).getD (lastStored V ref h)

/-- A call whose scope is read back as it was given, and whose value is a text. -/
def Call.Sound (T : TextTables) : Call → Prop
  | .add a _ => a.scope.Writable T ∧ (decodeUtf8 a.plaintext).isSome
  | .replaceValue _ value => (decodeUtf8 value).isSome
  | .rescope _ r => (∀ cs, r.capabilities = some cs → ∀ c ∈ cs, '\n' ∉ (stripped c).toList) ∧
      ∀ ts, r.targets = some ts → ∀ t ∈ ts, ∀ u, normalizeTarget T t = some u →
        normalizeTarget T u = some u
  | _ => True

section runs
variable {V : Site} {h : List (desk V).Entry} {t : Vault}

/-- Every row opens to what was stored last for it. -/
def Opens (V : Site) (h : List (desk V).Entry) (t : Vault) : Prop :=
  ∀ ref row, t.find? ref = some row → ∃ p plaintext, Kept V row p plaintext ∧
    lastStored V ref h = some plaintext ∧ (decodeUtf8 plaintext).isSome

theorem settled_of_scope {T : TextTables} {p : SecretPolicy} {s scope : Scope}
    (h : checkScope T s = .ok scope) (hw : s.Writable T)
    (hc : p.allowedCapabilities = scope.capabilities) (ht : p.allowedTargets = scope.targets) :
    p.Settled T := by
  obtain ⟨hcaps, htargets⟩ := check_scope_settled h hw
  exact ⟨fun c hm => hcaps c (hc ▸ hm), fun t hm => htargets t (ht ▸ hm)⟩

theorem Rescoping.writable {T : TextTables} {r : Rescoping} {p : SecretPolicy} {ref : String}
    (h : (Call.rescope ref r).Sound T) (hp : p.Settled T) : (r.scope p).Writable T := by
  obtain ⟨hcaps, htargets⟩ := h
  constructor
  · intro c hc
    cases hr : r.capabilities with
    | none =>
      rw [Rescoping.scope, hr, Option.getD_none] at hc
      exact hp.writable.capabilities c hc
    | some cs =>
      rw [Rescoping.scope, hr, Option.getD_some] at hc
      exact hcaps cs hr c hc
  · intro t ht
    cases hr : r.targets with
    | none =>
      rw [Rescoping.scope, hr, Option.getD_none] at ht
      exact hp.writable.targets t ht
    | some ts =>
      rw [Rescoping.scope, hr, Option.getD_some] at ht
      exact htargets ts hr t ht

/-- What a sound call stores is settled, and it is the value that was stored last. -/
theorem stored_sound {m : Moment} {c : Call} {s : Sealing V} (hi : Opens V h t)
    (hc : c.Sound V.tables) (he : c.effect V m t t = .ok (.stored s)) :
    s.policy.Settled V.tables ∧ (decodeUtf8 s.plaintext).isSome ∧
      (c.leaves V s.policy.secretRef).getD (lastStored V s.policy.secretRef h) =
        some s.plaintext ∧
      ∀ ref, ref ≠ s.policy.secretRef → c.leaves V ref = none := by
  have hadd : ∀ {a : Addition} {replace : Bool}, add V m t a replace = .ok s →
      ∃ scope, parseRef V.tables a.secretRef = .ok s.policy.secretRef ∧
        checkScope V.tables a.scope = .ok scope ∧
        s.policy.allowedCapabilities = scope.capabilities ∧
        s.policy.allowedTargets = scope.targets ∧ s.plaintext = a.plaintext := by
    intro a replace ha
    obtain ⟨ref, kind, scope, existing, href, -, -, hscope, -, -, -, hp, htext, -⟩ := add_ok ha
    exact ⟨scope, by rw [hp]; exact href, hscope, by rw [hp]; rfl, by rw [hp]; rfl, htext⟩
  have hkept : ∀ {p : SecretPolicy} {ref : String}, knownPolicy t ref = .ok p →
      p.secretRef = ref ∧ ∃ row plaintext, t.find? ref = some row ∧ Kept V row p plaintext ∧
        lastStored V ref h = some plaintext ∧ (decodeUtf8 plaintext).isSome := by
    intro p ref hp
    obtain ⟨-, row, hrow, hread⟩ := known_policy_ok hp
    obtain ⟨q, plaintext, hq, hlast, hdec⟩ := hi ref row hrow
    obtain rfl := hq.unique hread
    exact ⟨(policy_at_of_known hp).2, row, plaintext, hrow, hq, hlast, hdec⟩
  have hresealed : ∀ {p following : SecretPolicy} {ref : String}, knownPolicy t ref = .ok p →
      reseal V m t p following = .ok s → following.secretRef = p.secretRef →
      s.policy = following ∧ (decodeUtf8 s.plaintext).isSome ∧
        lastStored V s.policy.secretRef h = some s.plaintext := by
    intro p following ref hp hs hsame
    obtain ⟨hkey, row, plaintext, hrow, hq, hlast, hdec⟩ := hkept hp
    obtain ⟨row', hrow', -, -, hopens, hpol, -⟩ := reseal_ok hs
    rw [hkey, hrow] at hrow'
    obtain rfl := Option.some.inj hrow'
    obtain rfl := Option.some.inj (hq.opens.symm.trans hopens)
    refine ⟨hpol, hdec, ?_⟩
    rw [hpol, hsame, hkey, hlast]
  cases c with
  | add a replace =>
    obtain ⟨s', hs, he'⟩ := map_ok.mp he
    obtain rfl := Effect.stored.inj he'
    obtain ⟨scope, href, hscope, hcaps, htargets, htext⟩ := hadd hs
    refine ⟨settled_of_scope hscope hc.1 hcaps htargets, htext ▸ hc.2, ?_, ?_⟩
    · rw [Call.leaves, if_pos href, htext]
      rfl
    · intro ref hne
      rw [Call.leaves, if_neg (fun hr => hne (Except.ok.inj (hr.symm.trans href)))]
  | replaceValue r value =>
    obtain ⟨s', hs, he'⟩ := map_ok.mp he
    obtain rfl := Effect.stored.inj he'
    obtain ⟨ref, p, href, hp, ha⟩ := replace_value_ok hs
    obtain ⟨-, row, plaintext, -, hq, -⟩ := hkept hp
    obtain ⟨scope, href', hscope, hcaps, htargets, htext⟩ := hadd ha
    have hsame : s'.policy.secretRef = ref :=
      Except.ok.inj (href'.symm.trans (parse_ref_ok href))
    refine ⟨settled_of_scope hscope hq.settled.writable hcaps htargets, htext ▸ hc, ?_, ?_⟩
    · rw [Call.leaves, if_pos (hsame ▸ href), htext]
      rfl
    · intro ref' hne
      rw [Call.leaves, if_neg (fun hr => hne (hsame ▸ Except.ok.inj (hr.symm.trans href)))]
  | setStatus r status =>
    obtain ⟨ref, p, -, hp, ⟨-, he'⟩ | ⟨s', -, he', hs⟩⟩ := set_status_ok he
    · cases he'
    · obtain rfl := Effect.stored.inj he'
      obtain ⟨hpol, hdec, hlast⟩ := hresealed hp hs rfl
      obtain ⟨-, row, plaintext, -, hq, -⟩ := hkept hp
      refine ⟨?_, hdec, hlast, fun _ _ => rfl⟩
      rw [hpol]
      exact ⟨hq.settled.capabilities, hq.settled.targets⟩
  | rescope r scope =>
    obtain ⟨result, hs, he'⟩ := map_ok.mp he
    obtain rfl := Effect.stored.inj he'
    obtain ⟨ref, p, checked, -, hp, hscope, -, hreseal⟩ := rescope_ok hs
    obtain ⟨hpol, hdec, hlast⟩ := hresealed hp hreseal rfl
    obtain ⟨-, row, plaintext, -, hq, -⟩ := hkept hp
    refine ⟨?_, hdec, hlast, fun _ _ => rfl⟩
    exact settled_of_scope hscope (Rescoping.writable hc hq.settled) (by rw [hpol]; rfl)
      (by rw [hpol]; rfl)
  | delete r =>
    obtain ⟨ref, -, he'⟩ := map_ok.mp he
    cases he'

theorem stored_find (s : Sealing V) (now ref : String) :
    ((Effect.stored s).apply now t).find? ref =
      if ref = s.policy.secretRef then
        some (putRow (t.find? s.policy.secretRef) s.policy s.authority s.sealed now)
      else t.find? ref := by
  rw [Effect.apply, find_put]

/-- A call that returns keeps every row open. -/
theorem effect_opens {m : Moment} {c : Call} {e : Effect V} (hi : Opens V h t)
    (hc : c.Sound V.tables) (he : c.effect V m t t = .ok e) {entry : (desk V).Entry}
    (hleaves : ∀ ref, leaves V ref entry = c.leaves V ref) :
    Opens V (entry :: h) (e.apply m.now t) := by
  intro ref row hrow
  simp only [lastStored, hleaves]
  cases e with
  | kept p =>
    cases c with
    | setStatus r status =>
      obtain ⟨p, plaintext, hk⟩ := hi ref row hrow
      exact ⟨p, plaintext, hk⟩
    | add a replace =>
      obtain ⟨s, -, he'⟩ := map_ok.mp he
      cases he'
    | replaceValue r value =>
      obtain ⟨s, -, he'⟩ := map_ok.mp he
      cases he'
    | rescope r scope =>
      obtain ⟨s, -, he'⟩ := map_ok.mp he
      cases he'
    | delete r =>
      obtain ⟨s, -, he'⟩ := map_ok.mp he
      cases he'
  | stored s =>
    obtain ⟨hsettled, hdec, hlast, hother⟩ := stored_sound hi hc he
    rw [stored_find] at hrow
    split at hrow
    · rename_i hsame
      obtain rfl := Option.some.inj hrow
      subst hsame
      exact ⟨_, s.plaintext, put_kept hsettled _ _, hlast, hdec⟩
    · rename_i hne
      rw [hother ref hne]
      exact hi ref row hrow
  | removed gone =>
    have hdel : c.leaves V ref = if gone = ref then some none else none := by
      cases c with
      | delete r =>
        obtain ⟨s, hs, he'⟩ := map_ok.mp he
        obtain rfl := Effect.removed.inj he'
        simp only [Call.leaves, hs, Except.ok.injEq]
      | setStatus r status =>
        obtain ⟨_, _, _, _, ⟨-, he'⟩ | ⟨_, -, he', _⟩⟩ := set_status_ok he <;> cases he'
      | add a replace =>
        obtain ⟨s, -, he'⟩ := map_ok.mp he
        cases he'
      | replaceValue r value =>
        obtain ⟨s, -, he'⟩ := map_ok.mp he
        cases he'
      | rescope r scope =>
        obtain ⟨s, -, he'⟩ := map_ok.mp he
        cases he'
    rw [Effect.apply, Table.find_delete] at hrow
    split at hrow
    · cases hrow
    · rename_i hne
      rw [hdel, if_neg (fun hg => hne hg.symm)]
      exact hi ref row hrow

theorem touched_opens (hi : Opens V h t) (ref now : String) : Opens V h (touchUsed t ref now) := by
  intro ref' row hrow
  rw [touchUsed, Table.find_modify] at hrow
  split at hrow
  · rename_i hsame
    subst hsame
    obtain ⟨row', hrow', rfl⟩ := Option.map_eq_some_iff.mp hrow
    obtain ⟨p, plaintext, hk, hrest⟩ := hi ref' row' hrow'
    exact ⟨_, plaintext, hk.touch now, hrest⟩
  · exact hi ref' row hrow

/-- The calls of a history are sound. -/
def SoundCalls (V : Site) (h : List (desk V).Entry) : Prop :=
  ∀ e ∈ h, ∀ c, e.call.2 = .call c → c.Sound V.tables

theorem opens_run (hrun : (desk V).Run (fun _ _ => True) h t) (hsound : SoundCalls V h) :
    Opens V h t := by
  refine hrun.induct (fun h t => SoundCalls V h → Opens V h t) ?_ ?_ hsound
  · intro _ ref row hrow
    simp [desk] at hrow
  · rintro h t ⟨m, act⟩ - - ih hs
    have hi := ih (fun e he => hs e (List.mem_cons_of_mem _ he))
    cases act with
    | call c =>
      have hc := hs _ (List.mem_cons_self ..) c rfl
      cases he : c.effect V m t t with
      | ok e =>
        have hl : ∀ ref, leaves V ref ⟨t, (m, .call c)⟩ = c.leaves V ref := by
          intro ref
          simp only [leaves, Machine.Entry.reply, desk, he]
        have hstep : ((desk V).step (m, .call c) t).2 = e.apply m.now t := by
          simp only [desk, he]
        rw [hstep]
        exact effect_opens hi hc he hl
      | error f =>
        have hl : ∀ ref, leaves V ref ⟨t, (m, .call c)⟩ = none := by
          intro ref
          simp only [leaves, Machine.Entry.reply, desk, he]
        have hstep : ((desk V).step (m, .call c) t).2 = t := by
          simp only [desk, he]
        rw [hstep]
        intro ref row hrow
        simp only [lastStored, hl]
        exact hi ref row hrow
    | use secretRef request =>
      have hl : ∀ ref, leaves V ref ⟨t, (m, .use secretRef request)⟩ = none := fun _ => rfl
      have hsame : Opens V (⟨t, (m, .use secretRef request)⟩ :: h) t := by
        intro ref row hrow
        simp only [lastStored, hl]
        exact hi ref row hrow
      show Opens V _ (afterUse V t secretRef m.now _)
      unfold afterUse
      split
      · split
        · exact touched_opens hsame _ _
        · exact hsame
      · split
        · exact touched_opens hsame _ _
        · exact hsame
      · exact hsame

theorem desk_call {e : (desk V).Entry} {c : Call} {effect : Effect V} (hcall : e.call.2 = .call c)
    (hreply : e.reply = .effect (.ok effect)) :
    c.effect V e.call.1 e.pre e.pre = .ok effect ∧ e.post = effect.apply e.call.1.now e.pre := by
  obtain ⟨pre, m, act⟩ := e
  simp only at hcall
  subst hcall
  cases he : c.effect V m pre pre with
  | error f => simp [Machine.Entry.reply, desk, he] at hreply
  | ok e =>
    simp only [Machine.Entry.reply, desk, he, Answer.effect.injEq, Except.ok.injEq] at hreply
    subst hreply
    exact ⟨rfl, by simp only [Machine.Entry.post, desk, he]⟩

/-- The row of a policy that was returned, and the policy it is read back as. -/
theorem returned_row {e : (desk V).Entry} {c : Call} {effect : Effect V} {p : SecretPolicy}
    (hi : Opens V h e.pre) (hsound : c.Sound V.tables) (hcall : e.call.2 = .call c)
    (hreply : e.reply = .effect (.ok effect)) (hp : effect.policy? = some p) :
    ∃ row q a, e.post.find? p.secretRef = some row ∧ fromRow row = some q ∧
      p.authorityFields V.tables = some a ∧ q.authorityFields V.tables = some a := by
  obtain ⟨he, hpost⟩ := desk_call hcall hreply
  rw [hpost]
  cases effect with
  | removed ref => cases hp
  | stored s =>
    obtain rfl := Option.some.inj hp
    obtain ⟨hsettled, -⟩ := stored_sound hi hsound he
    refine ⟨_, _, s.authority, by rw [stored_find, if_pos rfl],
      from_row_put s.authority_eq _ _ _, s.authority_eq, ?_⟩
    exact (read_back_settled hsettled s.authority_eq _ _).1
  | kept q =>
    obtain rfl := Option.some.inj hp
    have hknown : ∃ ref, knownPolicy e.pre ref = .ok q := by
      cases c with
      | setStatus r status =>
        obtain ⟨ref, p, -, hp, ⟨-, he'⟩ | ⟨s, -, he', -⟩⟩ := set_status_ok he
        · obtain rfl := Effect.kept.inj he'
          exact ⟨ref, hp⟩
        · cases he'
      | add a replace =>
        obtain ⟨s, -, he'⟩ := map_ok.mp he
        cases he'
      | replaceValue r value =>
        obtain ⟨s, -, he'⟩ := map_ok.mp he
        cases he'
      | rescope r scope =>
        obtain ⟨s, -, he'⟩ := map_ok.mp he
        cases he'
      | delete r =>
        obtain ⟨s, -, he'⟩ := map_ok.mp he
        cases he'
    obtain ⟨ref, hknown⟩ := hknown
    obtain ⟨-, row, hrow, hread⟩ := known_policy_ok hknown
    obtain ⟨p, plaintext, hkept, -⟩ := hi ref row hrow
    obtain rfl := hkept.unique hread
    obtain ⟨a, ha, -⟩ := Option.map_eq_some_iff.mp hkept.digest
    rw [← (policy_at_of_known hknown).2] at hrow
    exact ⟨row, p, a, hrow, hread, ha, ha⟩

/-- What a policy that was returned says of the table: the policy that is read
back has its authority, the stored digest is its digest, and every request it
allows gets the plaintext that was stored last. -/
def Opened (V : Site) (h : List (desk V).Entry) (t : Vault) (p : SecretPolicy) : Prop :=
  ∃ row q plaintext, t.find? p.secretRef = some row ∧ fromRow row = some q ∧
    (∃ a, p.authorityFields V.tables = some a ∧ q.authorityFields V.tables = some a) ∧
    p.digest V.tables = some row.policySha256 ∧
    lastStored V p.secretRef h = some plaintext ∧
    ∀ request, evaluate V.tables (some p) request = some .allow → ∀ secretRef,
      parseRef V.tables secretRef = .ok p.secretRef →
        ∃ value, openSecret V .ready t t secretRef request = .ok value ∧
          encodeUtf8 value = plaintext

/-- As long as every call is sound, what was accepted opens. -/
theorem accepted_opens {e : (desk V).Entry} {c : Call} {effect : Effect V} {p : SecretPolicy}
    (hrun : (desk V).Run (fun _ _ => True) (e :: h) t) (hsound : SoundCalls V (e :: h))
    (hcall : e.call.2 = .call c) (hreply : e.reply = .effect (.ok effect))
    (hp : effect.policy? = some p) :
    Opened V (e :: h) t p := by
  obtain ⟨hrun', -, rfl⟩ := hrun.cons_inv
  have hbefore := opens_run hrun' (fun n hn => hsound n (List.mem_cons_of_mem _ hn))
  obtain ⟨row, q, a, hrow, hread, hpa, hqa⟩ :=
    returned_row hbefore (hsound e (List.mem_cons_self ..) c hcall) hcall hreply hp
  obtain ⟨q', plaintext, hkept, hlast, hdec⟩ := opens_run hrun hsound _ row hrow
  obtain rfl := hkept.unique hread
  obtain ⟨value, hvalue⟩ := Option.isSome_iff_exists.mp hdec
  refine ⟨row, q', plaintext, hrow, hread, ⟨a, hpa, hqa⟩, ?_, hlast, ?_⟩
  · rw [digest_of_authority hpa, ← digest_of_authority hqa]
    exact hkept.digest
  · intro request hallow secretRef href
    refine ⟨value, ?_, encode_of_decode_utf8 hvalue⟩
    rw [evaluate_authority hpa hqa] at hallow
    unfold parseRef at href
    split at href
    · cases href
    · rename_i ref hparse
      have hkey : ref.text = p.secretRef := Except.ok.inj href
      exact hkept.open (hkey ▸ hrow) hparse hallow hvalue

end runs

/-! ### A site without secrets -/

namespace Sample

def tables : TextTables where
  lower := id
  bracketed := fun _ => true
  compatible := fun _ => true
  lower_break := fun _ h => h
  lower_last := fun _ h => h

/-- A cipher that hides nothing. -/
def cipher : Aead where
  encrypt := fun _ _ plaintext _ => plaintext ++ List.replicate 16 0
  decrypt := fun _ _ body _ => some (body.take (body.length - 16))
  decrypt_encrypt := by simp
  encrypt_length := by simp

/-- The site under a cipher. -/
abbrev siteUnder (C : Aead) : Site := ⟨tables, C, List.replicate 32 7⟩

abbrev site : Site := siteUnder cipher

def nonce : Nonce := ⟨List.replicate 12 1, by decide⟩

def moment : Moment := ⟨.ready, ⟨List.replicate 32 3, by decide, nonce, nonce⟩, "2026-09-01"⟩

def mail : String := "secret://mail/olaf"

def scope : Scope := ⟨["portal_login"], ["https://mail.example"], [.browser]⟩

def addition (s : Scope) : Addition :=
  { secretRef := mail, kind := "password", plaintext := [104, 105], scope := s }

/-- The policy the addition of a checked scope returns. -/
def policy (s : Scope) : SecretPolicy :=
  (addition s).policy mail .password s none moment.now

def website : String := "https://mail.example"

/-- The checks of the vault on the sample. -/
theorem sample_checks : checkScope tables scope = .ok scope ∧ parseRef tables mail = .ok mail ∧
    checkKind "password" = .ok .password ∧ normalizeTarget tables website = some website ∧
    ((policy scope).authorityFields tables).isSome = true ∧
    (∀ c ∈ scope.capabilities, '\n' ∉ (stripped c).toList) ∧
    (decodeUtf8 (addition scope).plaintext).isSome = true := by
  decide +kernel

theorem scope_checked : checkScope tables scope = .ok scope := sample_checks.1

theorem mail_parsed : parseRef tables mail = .ok mail := sample_checks.2.1

theorem kind_checked : checkKind "password" = .ok .password := sample_checks.2.2.1

theorem authority_written : ((policy scope).authorityFields tables).isSome = true :=
  sample_checks.2.2.2.2.1

theorem scope_writable : scope.Writable tables where
  capabilities := sample_checks.2.2.2.2.2.1
  targets := by
    have hnormal : normalizeTarget tables website = some website := sample_checks.2.2.2.1
    intro t ht u hu
    obtain rfl := List.mem_singleton.mp ht
    obtain rfl := Option.some.inj (hnormal.symm.trans hu)
    exact hnormal

theorem policy_settled : (policy scope).Settled tables :=
  settled_of_scope scope_checked scope_writable rfl rfl

theorem added {C : Aead} {s : Scope} (hs : checkScope tables s = .ok s)
    (ha : ((policy s).authorityFields tables).isSome = true) :
    ∃ sealing, add (siteUnder C) moment Table.empty (addition s) false = .ok sealing ∧
      sealing.policy = policy s ∧ sealing.plaintext = [104, 105] ∧
        sealing.fresh = moment.fresh := by
  obtain ⟨a, ha⟩ := Option.isSome_iff_exists.mp ha
  have hadd : ∃ sealing, add (siteUnder C) moment Table.empty (addition s) false = .ok sealing :=
    add_returns mail_parsed (List.cons_ne_nil _ _) (Nat.le_of_ble_eq_true rfl) rfl (Or.inl rfl) hs
      kind_checked rfl ha
  obtain ⟨sealing, hadd⟩ := hadd
  obtain ⟨ref, kind, scope, existing, href', hread, -, hscope, hkind', -, -, hp, htext, hfresh⟩ :=
    add_ok hadd
  obtain rfl := Except.ok.inj (mail_parsed.symm.trans href')
  obtain rfl := Except.ok.inj (kind_checked.symm.trans hkind')
  obtain rfl := Except.ok.inj (hs.symm.trans hscope)
  obtain rfl : none = existing := Except.ok.inj hread
  exact ⟨sealing, hadd, hp, htext, hfresh⟩

def adding (s : Scope) : (desk site).Entry := ⟨Table.empty, moment, .call (.add (addition s) false)⟩

theorem run (s : Scope) : (desk site).Run (fun _ _ => True) [adding s] (adding s).post :=
  Machine.Run.start.step trivial

theorem reply {s : Scope} {sealing : Sealing site}
    (h : add site moment Table.empty (addition s) false = .ok sealing) :
    (adding s).reply = .effect (.ok (.stored sealing)) := by
  have he : (Call.add (addition s) false).effect site moment Table.empty Table.empty =
    .ok (.stored sealing) := map_ok.mpr ⟨sealing, h, rfl⟩
  simp only [Machine.Entry.reply, adding, desk, he]

end Sample

theorem accepted_opens_sample :
    Opened Sample.site [Sample.adding Sample.scope] (Sample.adding Sample.scope).post
      (Sample.policy Sample.scope) := by
  obtain ⟨sealing, hadd, hp, -⟩ := Sample.added (s := Sample.scope) Sample.scope_checked
    Sample.authority_written
  refine accepted_opens (Sample.run _) ?_ rfl (Sample.reply hadd) (congrArg some hp)
  intro e he c hc
  obtain rfl := List.mem_singleton.mp he
  obtain rfl := Act.call.inj hc
  exact ⟨Sample.scope_writable, Sample.sample_checks.2.2.2.2.2.2⟩

/-- The sample with a capability of two lines. -/
def Sample.brokenScope : Scope := { Sample.scope with capabilities := ["read\nwrite"] }

theorem Sample.broken_checks : checkScope Sample.tables Sample.brokenScope = .ok Sample.brokenScope ∧
    ((Sample.policy Sample.brokenScope).authorityFields Sample.tables).isSome = true ∧
    (policyAt (Sample.adding Sample.brokenScope).post Sample.mail).map (·.allowedCapabilities) =
      some ["read", "write"] := by
  decide +kernel

/-- A capability with a line break inside is accepted, and is read back as two. -/
theorem line_break_splits : ¬ ∀ (V : Site) (h : List (desk V).Entry) (t : Vault)
    (e : (desk V).Entry) (c : Call) (effect : Effect V) (p : SecretPolicy),
    (desk V).Run (fun _ _ => True) (e :: h) t → e.call.2 = .call c →
      e.reply = .effect (.ok effect) → effect.policy? = some p → Opened V (e :: h) t p := by
  intro hall
  obtain ⟨hchecked, hfields, hcaps⟩ := Sample.broken_checks
  obtain ⟨sealing, hadd, hp, -⟩ := Sample.added hchecked hfields
  obtain ⟨row, q, -, hrow, hread, ⟨a, hpa, hqa⟩, -⟩ := hall _ _ _ _ _ _ _
    (Sample.run Sample.brokenScope) rfl (Sample.reply hadd) (congrArg some hp)
  have hback : policyAt (Sample.adding Sample.brokenScope).post Sample.mail = some q := by
    rw [policyAt, show (Sample.adding Sample.brokenScope).post.find? Sample.mail = some row from hrow,
      Option.bind_some, hread]
  rw [hback, Option.map_some] at hcaps
  have hq := Option.some.inj hcaps
  have hset := authority_capabilities hpa hqa "read"
  rw [hq] at hset
  have hmem : "read" ∈ ["read\nwrite"] := hset.mpr (List.mem_cons_self ..)
  simp at hmem

end Solvio.SecretVault
