import Mathlib.Data.Set.Function
import Solvio.SecretVault.Kept

namespace Solvio.SecretVault
open Solvio.Lib

/-- One use of the cipher: what was encrypted, under which key, bound to what. -/
structure Encryption where
  key : Bytes
  plaintext : Bytes
  aad : Bytes
deriving DecidableEq

/-- What `seal` encrypts. -/
def Sealing.encryptions {V : Site} (s : Sealing V) : List Encryption :=
  [⟨V.kek, s.fresh.dek, wrapAad s.policy.secretRef s.policy.version⟩,
    ⟨s.fresh.dek, s.plaintext,
      secretAad s.policy.secretRef s.policy.version (policyDigest s.authority)⟩]

/-- The vault in the open, with all that was sealed so far: values, and files. -/
structure Exposed (V : Site) where
  table : Vault
  sealings : List (Sealing V)
  files : List Encryption

namespace Exposed

variable {V : Site}

def encryptions (s : Exposed V) : List Encryption :=
  s.sealings.flatMap Sealing.encryptions ++ s.files

/-- The state after an operation that returned, with the table that it leaves. -/
def after (s : Exposed V) (e : Effect V) (table : Vault) : Exposed V :=
  match e with
  | .stored sealing => { s with table := table, sealings := sealing :: s.sealings }
  | _ => { s with table := table }

/-- The keys nobody outside has: the master key, and those drawn for a value. -/
def Secret (s : Exposed V) (key : Bytes) : Prop := key = V.kek ∨ ∃ σ ∈ s.sealings, key = σ.fresh.dek

/-- The cipher is ideal: no stored bytes open under a secret key, unless the
plaintext was encrypted under it and bound to the same data. -/
def Ideal (s : Exposed V) : Prop :=
  ∀ row ∈ s.table, ∀ blob ∈ [row.wrappedDek, row.ciphertext], ∀ key aad plaintext, s.Secret key →
    V.cipher.decryptBlob key blob aad = some plaintext → ⟨key, plaintext, aad⟩ ∈ s.encryptions

end Exposed

/-- The first reading of an operation may be of any table, as the adversary
writes what it likes in between. -/
inductive Step (V : Site) : Exposed V → Exposed V → Prop
  | operation {s : Exposed V} {m : Moment} {c : Call} {seen : Vault} {e : Effect V} :
    c.effect V m seen s.table = .ok e → Step V s (s.after e (e.apply m.now s.table))
  | unwritten {s : Exposed V} {m : Moment} {c : Call} {seen : Vault} {e : Effect V} :
    c.effect V m seen s.table = .ok e → Step V s (s.after e s.table)
  | file (s : Exposed V) (key plaintext : Bytes) (purpose : String) :
    Step V s { s with files := ⟨key, plaintext, fileAad purpose⟩ :: s.files }
  | tamper (s : Exposed V) (table : Vault) : Step V s { s with table := table }

/-- The runs in which the cipher stays ideal. -/
inductive Reach (V : Site) : Exposed V → Prop
  | start : Reach V ⟨Table.empty, [], []⟩
  | step {s s' : Exposed V} : Reach V s → Step V s s' → s'.Ideal → Reach V s'

section reach
variable {V : Site} {s : Exposed V}

theorem effect_ref {m : Moment} {t t' : Vault} {c : Call} {σ : Sealing V}
    (h : c.effect V m t t' = .ok (.stored σ)) :
    ∃ text, parseRef V.tables text = .ok σ.policy.secretRef := by
  cases c with
  | add a replace =>
    obtain ⟨s, hs, he⟩ := map_ok.mp h
    obtain rfl := Effect.stored.inj he
    obtain ⟨ref, kind, scope, existing, href, -, -, -, -, -, -, hp, -⟩ := add_ok hs
    exact ⟨_, by rw [hp]; exact href⟩
  | replaceValue r value =>
    obtain ⟨s, hs, he⟩ := map_ok.mp h
    obtain rfl := Effect.stored.inj he
    obtain ⟨ref, p, -, -, hadd⟩ := replace_value_ok hs
    obtain ⟨ref', kind, scope, existing, href, -, -, -, -, -, -, hp, -⟩ := add_ok hadd
    exact ⟨_, by rw [hp]; exact href⟩
  | setStatus r status =>
    obtain ⟨ref, p, href, hp, ⟨-, he⟩ | ⟨s, -, he, hs⟩⟩ := set_status_ok h
    · cases he
    · obtain rfl := Effect.stored.inj he
      obtain ⟨_, _, _, _, _, hpol, _⟩ := reseal_ok hs
      refine ⟨_, href.trans ?_⟩
      rw [hpol]
      exact congrArg Except.ok (policy_at_of_known hp).2.symm
  | rescope r scope =>
    obtain ⟨result, hs, he⟩ := map_ok.mp h
    obtain rfl := Effect.stored.inj he
    obtain ⟨ref, p, checked, href, hp, -, -, hreseal⟩ := rescope_ok hs
    obtain ⟨_, _, _, _, _, hpol, _⟩ := reseal_ok hreseal
    refine ⟨_, href.trans ?_⟩
    rw [hpol]
    exact congrArg Except.ok (policy_at_of_known hp).2.symm
  | delete r =>
    obtain ⟨ref, -, he⟩ := map_ok.mp h
    cases he

theorem ref_zero {T : TextTables} {text ref : String} (h : parseRef T text = .ok ref) :
    '\x00' ∉ ref.toList := by
  unfold parseRef at h
  split at h
  · cases h
  · rename_i r _
    obtain rfl := Except.ok.inj h
    rw [SecretRef.text_list]
    intro hz
    simp only [List.mem_append, List.mem_cons] at hz
    have hpart : ∀ cs : List Char, isPart cs = true → '\x00' ∉ cs := by
      intro cs hcs hz
      rcases (is_part_chars hcs).2 _ hz with h | h
      · exact absurd h (by decide)
      · cases h
    rcases hz with (hz | hz) | hz | hz
    · exact absurd hz (by decide)
    · exact hpart _ r.service_ok hz
    · cases hz
    · exact hpart _ r.account_ok hz

/-- Values are sealed under references, and files under purposes. -/
structure Logged (s : Exposed V) : Prop where
  refs : ∀ σ ∈ s.sealings, '\x00' ∉ σ.policy.secretRef.toList
  files : ∀ e ∈ s.files, ∃ purpose, e.aad = fileAad purpose

theorem after_logged {e : Effect V} {table : Vault} (h : Logged s)
    (href : ∀ σ, e = .stored σ → '\x00' ∉ σ.policy.secretRef.toList) : Logged (s.after e table) := by
  cases e with
  | stored σ =>
    refine ⟨fun τ hτ => ?_, h.files⟩
    rcases List.mem_cons.mp hτ with rfl | hτ
    · exact href τ rfl
    · exact h.refs τ hτ
  | kept p => exact ⟨h.refs, h.files⟩
  | removed ref => exact ⟨h.refs, h.files⟩

theorem step_logged {s' : Exposed V} (h : Logged s) (hstep : Step V s s') : Logged s' := by
  cases hstep with
  | operation he =>
    refine after_logged h (fun σ hσ => ?_)
    subst hσ
    obtain ⟨text, hp⟩ := effect_ref he
    exact ref_zero hp
  | unwritten he =>
    refine after_logged h (fun σ hσ => ?_)
    subst hσ
    obtain ⟨text, hp⟩ := effect_ref he
    exact ref_zero hp
  | file key plaintext purpose =>
    refine ⟨h.refs, fun e he => ?_⟩
    rcases List.mem_cons.mp he with rfl | he
    · exact ⟨purpose, rfl⟩
    · exact h.files e he
  | tamper table => exact ⟨h.refs, h.files⟩

theorem reach_logged (h : Reach V s) : Logged s := by
  induction h with
  | start => exact ⟨by simp, by simp⟩
  | step _ hstep _ ih => exact step_logged ih hstep

theorem reach_ideal (h : Reach V s) : s.Ideal := by
  cases h with
  | start => exact fun row hrow => absurd hrow (Table.not_mem_empty row)
  | step _ _ hi => exact hi

/-- What was bound as a wrapped key is the key of a sealing. -/
theorem wrapped_dek {key plaintext : Bytes} {ref : String} {version : Int} (hl : Logged s)
    (h : ⟨key, plaintext, wrapAad ref version⟩ ∈ s.encryptions) :
    ∃ σ ∈ s.sealings, plaintext = σ.fresh.dek := by
  rcases List.mem_append.mp h with h | h
  · obtain ⟨σ, hσ, h⟩ := List.mem_flatMap.mp h
    simp only [Sealing.encryptions, List.mem_cons, List.not_mem_nil, or_false,
      Encryption.mk.injEq] at h
    rcases h with ⟨-, hp, -⟩ | ⟨-, -, ha⟩
    · exact ⟨σ, hσ, hp⟩
    · exact absurd (aad_domain ha) (by decide)
  · obtain ⟨purpose, ha⟩ := hl.files _ h
    exact absurd (aad_domain ha) (by decide)

/-- What was bound as a value is the value of a sealing, under its reference,
its version and its digest. -/
theorem sealed_value {key plaintext : Bytes} {ref : String} {version : Int} {a : Authority}
    (hl : Logged s) (href : '\x00' ∉ ref.toList)
    (h : ⟨key, plaintext, secretAad ref version (policyDigest a)⟩ ∈ s.encryptions) :
    ∃ σ ∈ s.sealings, σ.plaintext = plaintext ∧ σ.policy.secretRef = ref ∧
      policyDigest σ.authority = policyDigest a := by
  rcases List.mem_append.mp h with h | h
  · obtain ⟨σ, hσ, h⟩ := List.mem_flatMap.mp h
    simp only [Sealing.encryptions, List.mem_cons, List.not_mem_nil, or_false,
      Encryption.mk.injEq] at h
    rcases h with ⟨-, -, ha⟩ | ⟨-, hp, ha⟩
    · exact absurd (aad_domain ha) (by decide)
    · obtain ⟨hr, -, hd⟩ := secret_aad_injective href (hl.refs σ hσ) ha
      exact ⟨σ, hσ, hp.symm, hr.symm, hd.symm⟩
  · obtain ⟨purpose, ha⟩ := hl.files _ h
    exact absurd (aad_domain ha) (by decide)

/-- The text whose SHA-256 is the digest of an authority. -/
def digestText (a : Authority) : Bytes := encodeUtf8 (String.ofList a.canonical)

/-- The authorities that meet: those that were sealed, and those a reader reads. -/
def Meeting (s : Exposed V) (seen : Vault) : Set Authority :=
  {a | (∃ σ ∈ s.sealings, σ.authority = a) ∨
    ∃ row ∈ seen, ∃ p, fromRow row = some p ∧ p.authorityFields V.tables = some a}

theorem same_authority {seen : Vault} {a b : Authority}
    (hsha : Set.InjOn sha256 (digestText '' Meeting s seen)) (ha : a ∈ Meeting s seen)
    (hb : b ∈ Meeting s seen) (h : policyDigest a = policyDigest b) : a = b := by
  have htext : digestText a = digestText b :=
    hsha (Set.mem_image_of_mem _ ha) (Set.mem_image_of_mem _ hb) (to_hex_injective h)
  exact Authority.canonical_injective (String.ofList_injective (encode_utf8_injective htext))

/-- A value that comes out was sealed as it is, under its reference and under a
policy with the authority of the row that was read; and that policy allows the
request. -/
theorem opened_was_sealed (hreach : Reach V s) {keychain : Keychain} {seen : Vault}
    {secretRef value : String} {request : UseRequest}
    (hsha : Set.InjOn sha256 (digestText '' Meeting s seen))
    (h : openSecret V keychain seen s.table secretRef request = .ok value) :
    ∃ σ ∈ s.sealings, ∃ row p, parseRef V.tables secretRef = .ok σ.policy.secretRef ∧
      σ.plaintext = encodeUtf8 value ∧ seen.find? σ.policy.secretRef = some row ∧
      fromRow row = some p ∧ p.authorityFields V.tables = σ.policy.authorityFields V.tables ∧
      evaluate V.tables (some σ.policy) request = some .allow := by
  obtain ⟨ref, p, row, row', plaintext, href, hrow, hread, hallow, hrow', hdigest, hopen, hvalue⟩ :=
    open_secret_ok h
  have hl := reach_logged hreach
  have hideal := reach_ideal hreach row' (Table.mem_of_find hrow')
  have hparse : parseRef V.tables secretRef = .ok ref.text := by rw [parseRef, href]
  obtain ⟨a, ha, hd⟩ := Option.map_eq_some_iff.mp hdigest
  obtain ⟨dek, hwrap, hbody⟩ := unseal_some hopen
  rw [← hd] at hbody
  obtain ⟨σ, hσ, rfl⟩ := wrapped_dek hl
    (hideal row'.wrappedDek (by simp) V.kek _ dek (Or.inl rfl) hwrap)
  obtain ⟨τ, hτ, hplain, hkey, hsame⟩ := sealed_value hl (ref_zero hparse)
    (hideal row'.ciphertext (by simp) σ.fresh.dek _ plaintext (Or.inr ⟨σ, hσ, rfl⟩) hbody)
  obtain rfl := same_authority hsha (Or.inl ⟨τ, hτ, rfl⟩)
    (Or.inr ⟨row, Table.mem_of_find hrow, p, hread, ha⟩) hsame
  refine ⟨τ, hτ, row, p, by rw [hkey, hparse], ?_, by rw [hkey, hrow], hread,
    ha.trans τ.authority_eq.symm, ?_⟩
  · rw [hplain, encode_of_decode_utf8 hvalue]
  · rw [evaluate_authority τ.authority_eq ha]
    exact hallow

end reach

/-! ### A cipher that knows what was encrypted -/

section tagged
variable (known : List Encryption)

/-- A tag that only the known encryptions have. -/
def tag (key plaintext aad : Bytes) : Bytes :=
  List.replicate 16 (if ⟨key, plaintext, aad⟩ ∈ known then 0 else 1)

def taggedCipher : Aead where
  encrypt := fun key _ plaintext aad => plaintext ++ tag known key plaintext aad
  decrypt := fun key _ body aad =>
    let plaintext := body.take (body.length - 16)
    if body.drop (body.length - 16) = tag known key plaintext aad then some plaintext else none
  decrypt_encrypt := by
    intro key nonce plaintext aad
    simp [tag]
  encrypt_length := by
    intro key nonce plaintext aad
    simp [tag]

variable {known}

theorem tag_known {key key' plaintext plaintext' aad aad' : Bytes}
    (h : tag known key plaintext aad = tag known key' plaintext' aad')
    (hk : ⟨key, plaintext, aad⟩ ∈ known) : ⟨key', plaintext', aad'⟩ ∈ known := by
  by_contra hn
  rw [tag, tag, if_pos hk, if_neg hn] at h
  exact absurd h (by decide)

/-- The bytes of a known encryption open to what is known only. -/
theorem tagged_open {key key' plaintext plaintext' aad aad' : Bytes} {nonce : Nonce}
    (hk : ⟨key, plaintext, aad⟩ ∈ known)
    (h : (taggedCipher known).decryptBlob key' ((taggedCipher known).encryptBlob key nonce plaintext
      aad) aad' = some plaintext') : ⟨key', plaintext', aad'⟩ ∈ known := by
  unfold Aead.decryptBlob at h
  split at h
  · cases h
  · rw [Aead.encryptBlob, List.drop_left' nonce.length_eq] at h
    simp only [taggedCipher] at h
    have hlen : (tag known key plaintext aad).length = 16 := by simp [tag]
    rw [List.length_append, hlen, Nat.add_sub_cancel, List.take_left, List.drop_left] at h
    split at h
    · rename_i ht
      obtain rfl := Option.some.inj h
      exact tag_known ht hk
    · cases h

end tagged

namespace Sample

def authority : Authority :=
  { secretRef := mail, kind := "password", version := 1, status := "active"
    allowedCapabilities := ["portal_login"], allowedTargets := ["https://mail.example"]
    allowedExecutors := ["browser"], allowBackground := false, requiresUserPresence := false }

def encrypted : List Encryption :=
  [⟨site.kek, moment.fresh.dek, wrapAad mail 1⟩,
    ⟨moment.fresh.dek, [104, 105], secretAad mail 1 (policyDigest authority)⟩]

/-- The site with a cipher that knows what the first addition encrypts. -/
abbrev taggedSite : Site := siteUnder (taggedCipher encrypted)

def request : UseRequest :=
  { capability := "portal_login", executor := .browser, target := "https://mail.example/login"
    origin := .localOwner, callerModule := "solvio.portal.login" }

theorem authority_fields : (policy scope).authorityFields tables = some authority := by
  decide +kernel

/-- What the first addition stores. -/
structure First (σ : Sealing taggedSite) : Prop where
  policy : σ.policy = policy scope
  plaintext : σ.plaintext = [104, 105]
  fresh : σ.fresh = moment.fresh

theorem First.authority {σ : Sealing taggedSite} (h : First σ) : σ.authority = authority := by
  have := σ.authority_eq
  rw [h.policy, authority_fields] at this
  exact (Option.some.inj this).symm

theorem First.encryptions {σ : Sealing taggedSite} (h : First σ) : σ.encryptions = encrypted := by
  rw [Sealing.encryptions, h.policy, h.fresh, h.plaintext, h.authority]
  rfl

/-- The two states of the run: after the addition, and after the adversary has
changed the day of the last use. -/
def stored (σ : Sealing taggedSite) : Exposed taggedSite :=
  ⟨(Effect.stored σ).apply moment.now Table.empty, [σ], []⟩

def tampered (σ : Sealing taggedSite) : Exposed taggedSite :=
  { stored σ with table := touchUsed (stored σ).table mail "never" }

theorem First.ideal {σ : Sealing taggedSite} (h : First σ) {s : Exposed taggedSite}
    (hs : s.sealings = [σ]) (hrows : ∀ row ∈ s.table,
      row.wrappedDek = σ.sealed.wrappedDek ∧ row.ciphertext = σ.sealed.ciphertext) : s.Ideal := by
  obtain ⟨-, hsealed⟩ := seal_some σ.seal_eq
  have henc : ∀ e ∈ encrypted, e ∈ s.encryptions := by
    intro e he
    rw [Exposed.encryptions, hs, List.flatMap_singleton, h.encryptions]
    exact List.mem_append_left _ he
  have hwrap : ⟨site.kek, σ.fresh.dek, wrapAad σ.policy.secretRef σ.policy.version⟩ ∈ encrypted := by
    rw [← h.encryptions]
    exact List.mem_cons_self ..
  have hbody : ⟨σ.fresh.dek, σ.plaintext, secretAad σ.policy.secretRef σ.policy.version
      (policyDigest σ.authority)⟩ ∈ encrypted := by
    rw [← h.encryptions]
    exact List.mem_cons_of_mem _ (List.mem_cons_self ..)
  intro row hrow blob hblob key aad plaintext _ hopen
  obtain ⟨hw, hc⟩ := hrows row hrow
  apply henc
  rcases List.mem_cons.mp hblob with rfl | hblob
  · rw [hw, hsealed] at hopen
    exact tagged_open hwrap hopen
  · obtain rfl := List.mem_singleton.mp hblob
    rw [hc, hsealed] at hopen
    exact tagged_open hbody hopen

theorem stored_row {σ : Sealing taggedSite} {row : Row} (h : row ∈ (stored σ).table) :
    row = putRow none σ.policy σ.authority σ.sealed moment.now := by
  rcases Table.mem_put.mp h with rfl | ⟨h, -⟩
  · rfl
  · exact absurd h (Table.not_mem_empty _)

theorem tampered_row {σ : Sealing taggedSite} {row : Row} (h : row ∈ (tampered σ).table) :
    row = { putRow none σ.policy σ.authority σ.sealed moment.now with lastUsedAt := "never" } ∨
      row = putRow none σ.policy σ.authority σ.sealed moment.now := by
  obtain ⟨old, hold, he⟩ := mem_touched h
  rw [stored_row hold] at he
  exact he.symm

/-- Both states are reached. -/
theorem First.reach {σ : Sealing taggedSite} (h : First σ)
    (hadd : add taggedSite moment Table.empty (addition scope) false = .ok σ) :
    Reach taggedSite (tampered σ) := by
  have hcall : (Call.add (addition scope) false).effect taggedSite moment Table.empty
      Table.empty = .ok (.stored σ) := by
    rw [Call.effect, hadd]
    rfl
  have hideal : (stored σ).Ideal := h.ideal rfl (fun row hrow => by
    rw [stored_row hrow]
    exact put_row_blobs none _ _ _ _)
  have hstep : Step taggedSite ⟨Table.empty, [], []⟩ (Exposed.after ⟨Table.empty, [], []⟩
      (.stored σ) ((Effect.stored σ).apply moment.now Table.empty)) := Step.operation hcall
  have hstored : Reach taggedSite (stored σ) := Reach.start.step hstep hideal
  refine .step hstored (.tamper _ _) (h.ideal rfl (fun row hrow => ?_))
  have hblobs := put_row_blobs none σ.policy σ.authority σ.sealed moment.now
  rcases tampered_row hrow with rfl | rfl
  · exact hblobs
  · exact hblobs

/-- The policy that is read back, whatever the day of the last use. -/
theorem First.read {σ : Sealing taggedSite} (h : First σ) {row : Row}
    (hrow : row ∈ (tampered σ).table) : ∃ p, Kept taggedSite row p σ.plaintext ∧
      p.authorityFields tables = some Sample.authority := by
  have hset : σ.policy.Settled taggedSite.tables := h.policy ▸ policy_settled
  have hkept := put_kept hset none moment.now
  have ha := (read_back_settled hset σ.authority_eq none moment.now).1
  rw [h.authority] at ha
  rcases tampered_row hrow with rfl | rfl
  · exact ⟨_, hkept.touch "never", by rw [h.authority] at *; exact ha⟩
  · exact ⟨_, hkept, by rw [h.authority] at *; exact ha⟩

theorem First.opens {σ : Sealing taggedSite} (h : First σ) :
    openSecret taggedSite .ready (tampered σ).table (tampered σ).table mail request =
      .ok "hi" := by
  have hallow : evaluate tables (some (Sample.policy scope)) request = some .allow := by
    decide +kernel
  have hfind : ∃ row, (tampered σ).table.find? mail = some row := by
    have hkey : mail = σ.policy.secretRef := by rw [h.policy]; rfl
    have hfirst : (stored σ).table.find? mail =
        some (putRow (Table.find? Table.empty σ.policy.secretRef) σ.policy σ.authority σ.sealed
          moment.now) := by
      rw [stored, stored_find, if_pos hkey]
    exact ⟨_, find_touched hfirst "never"⟩
  obtain ⟨row, hrow⟩ := hfind
  obtain ⟨p, hkept, ha⟩ := h.read (Table.mem_of_find hrow)
  have hparse : ∃ ref, SecretRef.parse tables mail = some ref ∧ ref.text = mail := by
    have hmail := mail_parsed
    unfold parseRef at hmail
    split at hmail
    · cases hmail
    · rename_i ref href
      exact ⟨ref, href, Except.ok.inj hmail⟩
  obtain ⟨ref, href, htext⟩ := hparse
  refine hkept.open (by rw [htext]; exact hrow) href ?_ (by rw [h.plaintext]; decide +kernel)
  rw [evaluate_authority ha authority_fields]
  exact hallow

end Sample

theorem opened_was_sealed_sample : ∃ s : Exposed Sample.taggedSite, Reach Sample.taggedSite s ∧
    ∃ σ ∈ s.sealings, σ.plaintext = encodeUtf8 "hi" ∧
      evaluate Sample.tables (some σ.policy) Sample.request = some .allow := by
  obtain ⟨σ, hadd, hp, hplain, hfresh⟩ := Sample.added (C := taggedCipher Sample.encrypted)
    Sample.scope_checked (Option.isSome_iff_exists.mpr ⟨_, Sample.authority_fields⟩)
  have hfirst : Sample.First σ := ⟨hp, hplain, hfresh⟩
  have hreach := hfirst.reach hadd
  have hsha : Set.InjOn sha256 (digestText '' Meeting (Sample.tampered σ)
      (Sample.tampered σ).table) := by
    have hone : ∀ a ∈ Meeting (Sample.tampered σ) (Sample.tampered σ).table,
        a = Sample.authority := by
      rintro a (⟨τ, hτ, rfl⟩ | ⟨row, hrow, p, hread, ha⟩)
      · obtain rfl := List.mem_singleton.mp hτ
        exact hfirst.authority
      · obtain ⟨q, hkept, hq⟩ := hfirst.read hrow
        obtain rfl := hkept.unique hread
        exact Option.some.inj (ha.symm.trans hq)
    rintro x ⟨a, ha, rfl⟩ y ⟨b, hb, rfl⟩ -
    rw [hone a ha, hone b hb]
  obtain ⟨τ, hτ, -, -, -, hvalue, -, -, -, hallow⟩ :=
    opened_was_sealed hreach hsha hfirst.opens
  exact ⟨_, hreach, τ, hτ, hvalue, hallow⟩

end Solvio.SecretVault
