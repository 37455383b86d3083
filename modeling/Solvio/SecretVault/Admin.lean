import Solvio.Lib.Raises
import Solvio.SecretVault.Store

namespace Solvio.SecretVault
open Solvio.Lib

inductive AdminError where
  | vaultUnavailable
  | vaultNotInitialised
  | kindBelongsToPaymentCapability
  | unknownKind
  | targetIsNotAnOrigin
  | scopeMustNotBeEmpty
  | secretIsEmpty
  | secretIsTooLarge
  | secretAlreadyExists
  | unknownSecret
  | envelopeRejected
deriving DecidableEq

/-- What an operation raises. -/
inductive Fault where
  | admin (reason : AdminError)
  | invalidSecretRef
  | valueError
  | envelopeError
deriving DecidableEq

/-- `MAX_SECRET_BYTES`. -/
def maxSecretBytes : Nat := 8 * 1024

/-- Where the vault runs: the tables of its texts, its cipher and its master key. -/
structure Site where
  tables : TextTables
  cipher : Aead
  kek : Bytes

/-- What `read_kek` finds. -/
inductive Keychain where
  | locked
  | missing
  | ready
deriving DecidableEq

/-- What an operation takes from outside. -/
structure Moment where
  keychain : Keychain
  fresh : Fresh
  now : String

/-- `_kek_or_raise`. -/
def Moment.kekOrRaise (m : Moment) : Except Fault Unit :=
  match m.keychain with
  | .locked => .error (.admin .vaultUnavailable)
  | .missing => .error (.admin .vaultNotInitialised)
  | .ready => .ok ()

/-- A value under its policy, on its way into the table. -/
structure Sealing (V : Site) where
  policy : SecretPolicy
  authority : Authority
  plaintext : Bytes
  fresh : Fresh
  authority_eq : policy.authorityFields V.tables = some authority
  nonempty : plaintext ≠ []

namespace Sealing

variable {V : Site}

def sealed (s : Sealing V) : Sealed :=
  (V.cipher.seal V.kek s.fresh s.policy.secretRef s.policy.version (policyDigest s.authority)
    s.plaintext).get (by simp [Aead.seal, s.nonempty])

theorem seal_eq (s : Sealing V) :
    V.cipher.seal V.kek s.fresh s.policy.secretRef s.policy.version (policyDigest s.authority)
      s.plaintext = some s.sealed := by
  simp [sealed]

/-- The digest and the envelope of a policy that is to be stored. -/
def make (V : Site) (policy : SecretPolicy) (plaintext : Bytes) (fresh : Fresh) :
    Except Fault (Sealing V) :=
  match h : policy.authorityFields V.tables with
  | none => .error .valueError
  | some a =>
    if hp : plaintext = [] then .error .envelopeError
    else .ok ⟨policy, a, plaintext, fresh, h, hp⟩

theorem make_ok {policy : SecretPolicy} {plaintext : Bytes} {fresh : Fresh} {s : Sealing V}
    (h : make V policy plaintext fresh = .ok s) :
    s.policy = policy ∧ s.plaintext = plaintext ∧ s.fresh = fresh := by
  unfold make at h
  split at h
  · simp at h
  · split at h
    · simp at h
    · simp only [Except.ok.injEq] at h
      subst h
      exact ⟨rfl, rfl, rfl⟩

theorem make_returns {policy : SecretPolicy} {plaintext : Bytes} {a : Authority} (fresh : Fresh)
    (ha : policy.authorityFields V.tables = some a) (hne : plaintext ≠ []) :
    ∃ s, make V policy plaintext fresh = .ok s := by
  unfold make
  split
  · rename_i hn
    rw [ha] at hn
    cases hn
  · exact ⟨_, dif_neg hne⟩

end Sealing

/-- What a call that returns has decided. -/
inductive Effect (V : Site) where
  | kept (policy : SecretPolicy)
  | stored (sealing : Sealing V)
  | removed (ref : String)

namespace Effect

variable {V : Site}

def apply (now : String) (t : Vault) : Effect V → Vault
  | kept _ => t
  | stored s => put t s.policy s.authority s.sealed now
  | removed ref => t.delete ref

/-- The policy a call returns. -/
def policy? : Effect V → Option SecretPolicy
  | kept p => some p
  | stored s => some s.policy
  | removed _ => none

end Effect

/-- `_check_kind`. -/
def checkKind (text : String) : Except Fault SecretKind :=
  if text ∈ forbiddenKinds then .error (.admin .kindBelongsToPaymentCapability)
  else match SecretKind.ofValue? text with
    | none => .error (.admin .unknownKind)
    | some kind => .ok kind

structure Scope where
  capabilities : List String
  targets : List String
  executors : List ExecutorId
deriving DecidableEq

def cleanTarget (T : TextTables) (target : String) : Except Fault String :=
  match normalizeTarget T target with
  | none => .error .valueError
  | some clean => if clean = "" then .error (.admin .targetIsNotAnOrigin) else .ok clean

/-- The stripped capabilities, without the blank ones. -/
def cleanCapabilities (capabilities : List String) : List String :=
  sortedSet ((capabilities.map stripped).filter (· ≠ ""))

def sortedExecutors (executors : List ExecutorId) : List ExecutorId :=
  executors.dedup.insertionSort (fun a b => a.value ≤ b.value)

/-- `_check_scope`. -/
def checkScope (T : TextTables) (s : Scope) : Except Fault Scope := do
  let capabilities := cleanCapabilities s.capabilities
  let executors := sortedExecutors s.executors
  let targets := sortedSet (← s.targets.mapM (cleanTarget T))
  raiseIf (capabilities = [] ∨ targets = [] ∨ executors = []) (.admin .scopeMustNotBeEmpty)
  return ⟨capabilities, targets, executors⟩

def SecretPolicy.scope (p : SecretPolicy) : Scope :=
  ⟨p.allowedCapabilities, p.allowedTargets, p.allowedExecutors⟩

def SecretPolicy.withScope (p : SecretPolicy) (s : Scope) : SecretPolicy :=
  { p with allowedCapabilities := s.capabilities, allowedTargets := s.targets
           allowedExecutors := s.executors }

/-- `str(R.parse(secret_ref))`. -/
def parseRef (T : TextTables) (text : String) : Except Fault String :=
  match SecretRef.parse T text with
  | none => .error .invalidSecretRef
  | some ref => .ok ref.text

/-- `store.policy`. -/
def readPolicy (t : Vault) (ref : String) : Except Fault (Option SecretPolicy) :=
  match t.find? ref with
  | none => .ok none
  | some row =>
    match fromRow row with
    | none => .error .valueError
    | some p => .ok (some p)

def knownPolicy (t : Vault) (ref : String) : Except Fault SecretPolicy := do
  match ← readPolicy t ref with
  | none => throw (.admin .unknownSecret)
  | some p => return p

/-- The arguments of `add`. -/
structure Addition where
  secretRef : String
  kind : String
  plaintext : Bytes
  scope : Scope
  displayName : String := ""
  serviceLabel : String := ""
  accountLabel : String := ""
  note : String := ""
  allowBackground : Bool := false
  requiresUserPresence : Bool := false

/-- `a or b`. -/
def orElse (a b : String) : String := if a = "" then b else a

/-- The policy `add` builds, next to the one it found. -/
def Addition.policy (a : Addition) (ref : String) (kind : SecretKind) (scope : Scope)
    (existing : Option SecretPolicy) (now : String) : SecretPolicy :=
  let old (f : SecretPolicy → String) : String := (existing.map f).getD ""
  { secretRef := ref, kind := kind, version := (existing.map (·.version + 1)).getD 1
    status := .active, allowedCapabilities := scope.capabilities, allowedTargets := scope.targets
    allowedExecutors := scope.executors, allowBackground := a.allowBackground
    requiresUserPresence := a.requiresUserPresence
    displayName := orElse a.displayName (old (·.displayName))
    serviceLabel := orElse a.serviceLabel (old (·.serviceLabel))
    accountLabel := orElse a.accountLabel (old (·.accountLabel))
    note := orElse a.note (old (·.note))
    createdAt := (existing.map (·.createdAt)).getD now
    rotatedAt := if existing.isSome then now else ""
    lastUsedAt := old (·.lastUsedAt) }

section operations
variable (V : Site) (m : Moment)

/-- `add`. -/
def add (t : Vault) (a : Addition) (replace : Bool) : Except Fault (Sealing V) := do
  let ref ← parseRef V.tables a.secretRef
  raiseIf (a.plaintext = []) (.admin .secretIsEmpty)
  raiseIf (a.plaintext.length > maxSecretBytes) (.admin .secretIsTooLarge)
  let existing ← readPolicy t ref
  raiseIf (existing.isSome ∧ replace = false) (.admin .secretAlreadyExists)
  let scope ← checkScope V.tables a.scope
  let kind ← checkKind a.kind
  let policy := a.policy ref kind scope existing m.now
  m.kekOrRaise
  Sealing.make V policy a.plaintext m.fresh

/-- What `replace_value` hands to `add`. -/
def SecretPolicy.again (p : SecretPolicy) (secretRef : String) (plaintext : Bytes) : Addition :=
  { secretRef := secretRef, kind := p.kind.value, plaintext := plaintext, scope := p.scope
    displayName := p.displayName, serviceLabel := p.serviceLabel, accountLabel := p.accountLabel
    note := p.note, allowBackground := p.allowBackground
    requiresUserPresence := p.requiresUserPresence }

/-- `replace_value`. It reads the policy, and `add` reads it again. -/
def replaceValue (t t' : Vault) (secretRef : String) (plaintext : Bytes) :
    Except Fault (Sealing V) := do
  let ref ← parseRef V.tables secretRef
  let existing ← knownPolicy t ref
  add V m t' (existing.again ref plaintext) true

/-- The plaintext under the previous policy, sealed under the following one. -/
def resealUnder (row : Row) (previous following : SecretPolicy) (digest : String) :
    Except Fault (Sealing V) :=
  match V.cipher.unseal V.kek previous.secretRef previous.version digest row.sealed with
  | none => .error (.admin .envelopeRejected)
  | some plaintext =>
    match Sealing.make V following plaintext m.fresh with
    | .error .envelopeError => .error (.admin .envelopeRejected)
    | result => result

/-- `_reseal`. -/
def reseal (t : Vault) (previous following : SecretPolicy) : Except Fault (Sealing V) :=
  match t.find? previous.secretRef, previous.digest V.tables with
  | none, _ => .error (.admin .unknownSecret)
  | some _, none => .error .valueError
  | some row, some digest => do
    raiseIf (row.policySha256 ≠ digest) (.admin .envelopeRejected)
    m.kekOrRaise
    resealUnder V m row previous following digest

/-- `set_status`. It reads the policy, and `_reseal` reads the row again. -/
def setStatus (t t' : Vault) (secretRef : String) (status : Status) :
    Except Fault (Effect V) := do
  let ref ← parseRef V.tables secretRef
  let previous ← knownPolicy t ref
  if previous.status = status then return .kept previous
  else return .stored (← reseal V m t' previous
    { previous with status := status, version := previous.version + 1 })

/-- The arguments of `rescope`. -/
structure Rescoping where
  capabilities : Option (List String) := none
  targets : Option (List String) := none
  executors : Option (List ExecutorId) := none
  allowBackground : Option Bool := none
  requiresUserPresence : Option Bool := none

def Rescoping.scope (r : Rescoping) (p : SecretPolicy) : Scope :=
  ⟨r.capabilities.getD p.allowedCapabilities, r.targets.getD p.allowedTargets,
    r.executors.getD p.allowedExecutors⟩

/-- The policy that follows, with the scope that was checked. -/
def Rescoping.following (r : Rescoping) (p : SecretPolicy) (scope : Scope) : SecretPolicy :=
  { p.withScope scope with
    version := p.version + 1
    allowBackground := r.allowBackground.getD p.allowBackground
    requiresUserPresence := r.requiresUserPresence.getD p.requiresUserPresence }

/-- `rescope`, with whether the policy got wider. -/
def rescope (t t' : Vault) (secretRef : String) (r : Rescoping) :
    Except Fault (Sealing V × Bool) := do
  let ref ← parseRef V.tables secretRef
  let previous ← knownPolicy t ref
  let scope ← checkScope V.tables (r.scope previous)
  let following := r.following previous scope
  match widens V.tables previous following with
  | none => throw .valueError
  | some widened => return (← reseal V m t' previous following, widened)

/-- `delete`, by the reference it removes. -/
def deletion (secretRef : String) : Except Fault (Effect V) :=
  (parseRef V.tables secretRef).map .removed

end operations

/-- A call of an operation. -/
inductive Call where
  | add (a : Addition) (replace : Bool)
  | replaceValue (secretRef : String) (plaintext : Bytes)
  | setStatus (secretRef : String) (status : Status)
  | rescope (secretRef : String) (r : Rescoping)
  | delete (secretRef : String)

/-- What a call decides on two readings of the table. -/
def Call.effect (V : Site) (m : Moment) (t t' : Vault) : Call → Except Fault (Effect V)
  | add a replace => (SecretVault.add V m t a replace).map .stored
  | replaceValue ref plaintext => (SecretVault.replaceValue V m t t' ref plaintext).map .stored
  | setStatus ref status => SecretVault.setStatus V m t t' ref status
  | rescope ref r => (SecretVault.rescope V m t t' ref r).map (fun x => .stored x.1)
  | delete ref => deletion V ref

/-- A call that nobody gets between. -/
def Call.run (V : Site) (m : Moment) (t : Vault) (c : Call) : Except Fault (Vault × Effect V) :=
  (c.effect V m t t).map (fun e => (e.apply m.now t, e))

/-! ### What a call that returns has read and decided -/

theorem kek_ready {m : Moment} {u : Unit} (h : m.kekOrRaise = .ok u) : m.keychain = .ready := by
  unfold Moment.kekOrRaise at h
  cases hk : m.keychain with
  | ready => rfl
  | locked => simp [hk] at h
  | missing => simp [hk] at h

theorem clean_target_ok {T : TextTables} {target clean : String}
    (h : cleanTarget T target = .ok clean) :
    normalizeTarget T target = some clean ∧ clean ≠ "" := by
  unfold cleanTarget at h
  split at h
  · simp at h
  · rename_i c hc
    split at h
    · simp at h
    · rename_i hne
      simp only [Except.ok.injEq] at h
      exact ⟨h ▸ hc, h ▸ hne⟩

theorem check_scope_ok {T : TextTables} {s scope : Scope} (h : checkScope T s = .ok scope) :
    ∃ targets, s.targets.mapM (cleanTarget T) = .ok targets ∧
      scope = ⟨cleanCapabilities s.capabilities, sortedSet targets, sortedExecutors s.executors⟩ ∧
      scope.capabilities ≠ [] ∧ scope.targets ≠ [] ∧ scope.executors ≠ [] := by
  simp only [checkScope, bind_ok, raise_if_ok, pure_ok, not_or] at h
  obtain ⟨targets, ht, _, hne, rfl⟩ := h
  exact ⟨targets, ht, rfl, hne⟩

theorem parse_ref_ok {T : TextTables} {text ref : String} (h : parseRef T text = .ok ref) :
    parseRef T ref = .ok ref := by
  unfold parseRef at h ⊢
  split at h
  · simp at h
  · rename_i r hr
    simp only [Except.ok.injEq] at h
    subst h
    rw [SecretRef.parse_text hr]

theorem read_policy_ok {t : Vault} {ref : String} {found : Option SecretPolicy}
    (h : readPolicy t ref = .ok found) :
    (t.find? ref = none ∧ found = none) ∨
      ∃ row p, t.find? ref = some row ∧ fromRow row = some p ∧ found = some p := by
  unfold readPolicy at h
  split at h
  · rename_i hrow
    exact Or.inl ⟨hrow, (Except.ok.inj h).symm⟩
  · rename_i row hrow
    split at h
    · simp at h
    · rename_i p hp
      exact Or.inr ⟨row, p, hrow, hp, (Except.ok.inj h).symm⟩

theorem known_policy_ok {t : Vault} {ref : String} {p : SecretPolicy}
    (h : knownPolicy t ref = .ok p) :
    readPolicy t ref = .ok (some p) ∧
      ∃ row, t.find? ref = some row ∧ fromRow row = some p := by
  simp only [knownPolicy, bind_ok] at h
  obtain ⟨found, hfound, h⟩ := h
  cases found with
  | none => simp [throw_ok] at h
  | some q =>
    obtain rfl := pure_ok.mp h
    refine ⟨hfound, ?_⟩
    rcases read_policy_ok hfound with ⟨_, hn⟩ | ⟨row, r, hrow, hr, he⟩
    · simp at hn
    · obtain rfl := Option.some.inj he
      exact ⟨row, hrow, hr⟩

theorem from_row_ref {row : Row} {p : SecretPolicy} (h : fromRow row = some p) :
    p.secretRef = row.secretRef := by
  simp only [fromRow, Option.bind_eq_bind, Option.bind_eq_some_iff] at h
  obtain ⟨kind, _, status, _, executors, _, he⟩ := h
  exact (Option.some.inj he) ▸ rfl

section decided
variable {V : Site} {m : Moment} {t t' : Vault}

theorem add_ok {a : Addition} {replace : Bool} {s : Sealing V}
    (h : add V m t a replace = .ok s) :
    ∃ ref kind scope existing, parseRef V.tables a.secretRef = .ok ref ∧
      readPolicy t ref = .ok existing ∧ (existing = none ∨ replace = true) ∧
      checkScope V.tables a.scope = .ok scope ∧ checkKind a.kind = .ok kind ∧
      m.keychain = .ready ∧ a.plaintext.length ≤ maxSecretBytes ∧
      s.policy = a.policy ref kind scope existing m.now ∧ s.plaintext = a.plaintext ∧
      s.fresh = m.fresh := by
  simp only [add, bind_ok, raise_if_ok] at h
  obtain ⟨ref, href, _, hempty, _, hlong, existing, hread, _, hfree, scope, hscope, kind, hkind,
    _, hkek, hmake⟩ := h
  obtain ⟨hp, htext, hfresh⟩ := Sealing.make_ok hmake
  refine ⟨ref, kind, scope, existing, href, hread, ?_, hscope, hkind, kek_ready hkek,
    Nat.not_lt.mp hlong, hp, htext, hfresh⟩
  cases existing with
  | none => exact Or.inl rfl
  | some p => exact Or.inr (by simpa using hfree)

theorem raise_if_passes {ε : Type} {p : Prop} [Decidable p] (e : ε) (h : ¬ p) :
    raiseIf p e = .ok () := raise_if_ok.mpr h

theorem add_returns {a : Addition} {replace : Bool} {ref : String} {kind : SecretKind}
    {scope : Scope} {existing : Option SecretPolicy} {authority : Authority}
    (href : parseRef V.tables a.secretRef = .ok ref) (hne : a.plaintext ≠ [])
    (hlong : a.plaintext.length ≤ maxSecretBytes) (hread : readPolicy t ref = .ok existing)
    (hfree : existing = none ∨ replace = true) (hscope : checkScope V.tables a.scope = .ok scope)
    (hkind : checkKind a.kind = .ok kind) (hready : m.keychain = .ready)
    (ha : (a.policy ref kind scope existing m.now).authorityFields V.tables = some authority) :
    ∃ s, add V m t a replace = .ok s := by
  obtain ⟨s, hs⟩ := Sealing.make_returns m.fresh ha hne
  have hkek : m.kekOrRaise = .ok () := by rw [Moment.kekOrRaise, hready]
  have hnew : ¬ (existing.isSome = true ∧ replace = false) := by
    rcases hfree with rfl | rfl <;> simp
  refine ⟨s, ?_⟩
  simp only [add, href, raise_if_passes _ hne, raise_if_passes _ (Nat.not_lt.mpr hlong), hread,
    raise_if_passes _ hnew, hscope, hkind, hkek, bind, Except.bind]
  exact hs

theorem replace_value_ok {secretRef : String} {plaintext : Bytes} {s : Sealing V}
    (h : replaceValue V m t t' secretRef plaintext = .ok s) :
    ∃ ref p, parseRef V.tables secretRef = .ok ref ∧ knownPolicy t ref = .ok p ∧
      add V m t' (p.again ref plaintext) true = .ok s := by
  simp only [replaceValue, bind_ok] at h
  obtain ⟨ref, href, p, hp, hadd⟩ := h
  exact ⟨ref, p, href, hp, hadd⟩

theorem reseal_under_ok {row : Row} {previous following : SecretPolicy} {digest : String}
    {s : Sealing V} (h : resealUnder V m row previous following digest = .ok s) :
    V.cipher.unseal V.kek previous.secretRef previous.version digest row.sealed =
      some s.plaintext ∧ s.policy = following ∧ s.fresh = m.fresh := by
  unfold resealUnder at h
  split at h
  · simp at h
  · rename_i plaintext hp
    split at h
    · simp at h
    · obtain ⟨hpol, rfl, hfresh⟩ := Sealing.make_ok h
      exact ⟨hp, hpol, hfresh⟩

theorem reseal_ok {previous following : SecretPolicy} {s : Sealing V}
    (h : reseal V m t previous following = .ok s) :
    ∃ row, t.find? previous.secretRef = some row ∧
      previous.digest V.tables = some row.policySha256 ∧ m.keychain = .ready ∧
      V.cipher.unseal V.kek previous.secretRef previous.version row.policySha256 row.sealed =
        some s.plaintext ∧ s.policy = following ∧ s.fresh = m.fresh := by
  unfold reseal at h
  split at h
  · simp at h
  · simp at h
  · rename_i row digest hrow hdigest
    simp only [bind_ok, raise_if_ok, ne_eq, not_not] at h
    obtain ⟨_, rfl, _, hkek, h⟩ := h
    obtain ⟨hopen, hp, hfresh⟩ := reseal_under_ok h
    exact ⟨row, hrow, hdigest, kek_ready hkek, hopen, hp, hfresh⟩

theorem set_status_ok {secretRef : String} {status : Status} {e : Effect V}
    (h : setStatus V m t t' secretRef status = .ok e) :
    ∃ ref p, parseRef V.tables secretRef = .ok ref ∧ knownPolicy t ref = .ok p ∧
      ((p.status = status ∧ e = .kept p) ∨
        ∃ s, p.status ≠ status ∧ e = .stored s ∧ reseal V m t' p
          { p with status := status, version := p.version + 1 } = .ok s) := by
  simp only [setStatus, bind_ok] at h
  obtain ⟨ref, href, p, hp, h⟩ := h
  refine ⟨ref, p, href, hp, ?_⟩
  split at h
  · rename_i hs
    exact Or.inl ⟨hs, (pure_ok.mp h).symm⟩
  · rename_i hs
    simp only [bind_ok, pure_ok] at h
    obtain ⟨s, hreseal, rfl⟩ := h
    exact Or.inr ⟨s, hs, rfl, hreseal⟩

theorem rescope_ok {secretRef : String} {r : Rescoping} {result : Sealing V × Bool}
    (h : rescope V m t t' secretRef r = .ok result) :
    ∃ ref p scope, parseRef V.tables secretRef = .ok ref ∧ knownPolicy t ref = .ok p ∧
      checkScope V.tables (r.scope p) = .ok scope ∧
      widens V.tables p (r.following p scope) = some result.2 ∧
      reseal V m t' p (r.following p scope) = .ok result.1 := by
  simp only [rescope, bind_ok] at h
  obtain ⟨ref, href, p, hp, scope, hscope, h⟩ := h
  split at h
  · simp [throw_ok] at h
  · rename_i widened hw
    simp only [bind_ok, pure_ok] at h
    obtain ⟨s, hreseal, rfl⟩ := h
    exact ⟨ref, p, scope, href, hp, hscope, hw, hreseal⟩

end decided

end Solvio.SecretVault
