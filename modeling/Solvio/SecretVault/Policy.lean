import Mathlib.Data.List.Dedup
import Mathlib.Data.List.Infix
import Mathlib.Data.String.Basic
import Solvio.Lib.JsonText
import Solvio.Lib.Table
import Solvio.Lib.Url

namespace Solvio.SecretVault
open Solvio.Lib

/-! ### References -/

def maxLength : Nat := 160

def refPrefix : List Char := "secret://".toList

def isNameEdge (c : Char) : Bool :=
  (97 ≤ c.toNat && c.toNat ≤ 122) || (48 ≤ c.toNat && c.toNat ≤ 57)

def isNameChar (c : Char) : Bool := isNameEdge c || c = '.' || c = '_' || c = '-'

def isName (cs : List Char) : Bool :=
  decide (cs.length ≤ 64) && cs.head?.any isNameEdge && cs.getLast?.any isNameEdge &&
    cs.all isNameChar

/-- `_PART`. Its `$` also matches in front of a final line break. -/
def isPart (cs : List Char) : Bool :=
  isName cs || (cs.getLast? = some '\n' && isName cs.dropLast)

/-- `SecretRef`. -/
structure SecretRef where
  service : List Char
  account : List Char
  service_ok : isPart service = true
  account_ok : isPart account = true
  short : (refPrefix ++ service ++ '/' :: account).length ≤ maxLength

def SecretRef.text (r : SecretRef) : String :=
  String.ofList (refPrefix ++ r.service ++ '/' :: r.account)

/-- `parse`, of which `none` is `InvalidSecretRef`. -/
def SecretRef.parse (T : TextTables) (text : String) : Option SecretRef :=
  let stripped := strip isSpace text.toList
  if stripped.length > maxLength then none
  else
    let lowered := T.lowered stripped
    if refPrefix.isPrefixOf lowered then
      match (lowered.drop refPrefix.length).splitOn '/' with
      | [service, account] =>
        if h : isPart service = true ∧ isPart account = true ∧
            (refPrefix ++ service ++ '/' :: account).length ≤ maxLength then
          some ⟨service, account, h.1, h.2.1, h.2.2⟩
        else none
      | _ => none
    else none

theorem is_name_edges {cs : List Char} (h : isName cs = true) :
    cs ≠ [] ∧ (∀ c ∈ cs.getLast?, isNameEdge c = true) ∧ ∀ c ∈ cs, isNameChar c = true := by
  simp only [isName, Bool.and_eq_true, List.all_eq_true] at h
  obtain ⟨⟨⟨_, hhead⟩, hlast⟩, hall⟩ := h
  refine ⟨?_, ?_, hall⟩
  · rintro rfl
    simp at hhead
  · intro c hc
    rw [Option.mem_def.mp hc] at hlast
    simpa using hlast

theorem is_part_chars {cs : List Char} (h : isPart cs = true) :
    cs ≠ [] ∧ ∀ c ∈ cs, isNameChar c = true ∨ c = '\n' := by
  simp only [isPart, Bool.or_eq_true, Bool.and_eq_true, decide_eq_true_eq] at h
  rcases h with h | ⟨hlast, h⟩
  · exact ⟨(is_name_edges h).1, fun c hc => Or.inl ((is_name_edges h).2.2 c hc)⟩
  · obtain ⟨ds, rfl⟩ := List.getLast?_eq_some_iff.mp hlast
    rw [List.dropLast_concat] at h
    refine ⟨by simp, fun c hc => ?_⟩
    rcases List.mem_append.mp hc with hc | hc
    · exact Or.inl ((is_name_edges h).2.2 c hc)
    · exact Or.inr (by simpa using hc)

theorem is_part_last {cs : List Char} (h : isPart cs = true) (hl : cs.getLast? ≠ some '\n') :
    ∀ c ∈ cs.getLast?, isNameEdge c = true := by
  simp only [isPart, Bool.or_eq_true, Bool.and_eq_true, decide_eq_true_eq] at h
  rcases h with h | ⟨hlast, _⟩
  · exact (is_name_edges h).2.1
  · exact absurd hlast hl

theorem name_edge_not_space {c : Char} (h : isNameEdge c = true) : isSpace c = false := by
  simp only [isNameEdge, Bool.or_eq_true, Bool.and_eq_true, decide_eq_true_eq] at h
  simp only [isSpace, Bool.or_eq_false_iff, Bool.and_eq_false_iff, decide_eq_false_iff_not]
  omega

theorem name_char_lower {c : Char} (h : isNameChar c = true ∨ c = '\n') :
    isAscii c = true ∧ ¬ (65 ≤ c.toNat ∧ c.toNat ≤ 90) ∧ c ≠ '/' := by
  have hn : c.toNat ≤ 122 ∧ ¬ (65 ≤ c.toNat ∧ c.toNat ≤ 90) ∧ c.toNat ≠ 47 := by
    rcases h with h | rfl
    · simp only [isNameChar, isNameEdge, Bool.or_eq_true, Bool.and_eq_true, decide_eq_true_eq] at h
      rcases h with ((h | rfl) | rfl) | rfl
      · omega
      all_goals decide
    · decide
  refine ⟨by simp only [isAscii, decide_eq_true_eq]; omega, hn.2.1, ?_⟩
  rintro rfl
  exact hn.2.2 rfl

theorem ref_prefix_head : refPrefix.head? = some 's' := by decide

theorem ref_prefix_lower (c : Char) (h : c ∈ refPrefix) :
    isAscii c = true ∧ ¬ (65 ≤ c.toNat ∧ c.toNat ≤ 90) := by
  have hall : refPrefix.all (fun c => isAscii c && !(65 ≤ c.toNat && c.toNat ≤ 90)) = true := rfl
  have hc := List.all_eq_true.mp hall c h
  simp only [Bool.and_eq_true, Bool.not_eq_true', decide_eq_false_iff_not, ← Bool.decide_and] at hc
  exact hc

namespace SecretRef

variable {T : TextTables} (r : SecretRef)

theorem text_list : r.text.toList = refPrefix ++ r.service ++ '/' :: r.account := by
  simp [text]

/-- The text of a reference is in lower case already. -/
theorem lowered_text : T.lowered (refPrefix ++ r.service ++ '/' :: r.account) =
    refPrefix ++ r.service ++ '/' :: r.account := by
  have hc : ∀ c ∈ refPrefix ++ r.service ++ '/' :: r.account,
      isAscii c = true ∧ ¬ (65 ≤ c.toNat ∧ c.toNat ≤ 90) := by
    intro c hc
    simp only [List.mem_append, List.mem_cons] at hc
    rcases hc with (hc | hc) | rfl | hc
    · exact ref_prefix_lower c hc
    · have := name_char_lower ((is_part_chars r.service_ok).2 c hc)
      exact ⟨this.1, this.2.1⟩
    · decide
    · have := name_char_lower ((is_part_chars r.account_ok).2 c hc)
      exact ⟨this.1, this.2.1⟩
  rw [TextTables.lowered, if_pos (List.all_eq_true.mpr (fun c h => (hc c h).1)), asciiLower]
  conv_rhs => rw [← List.map_id (refPrefix ++ r.service ++ '/' :: r.account)]
  apply List.map_congr_left
  intro c h
  rw [if_neg (hc c h).2, id]

theorem parts : (r.service ++ '/' :: r.account).splitOn '/' = [r.service, r.account] := by
  have hs : '/' ∉ r.service := fun h =>
    (name_char_lower ((is_part_chars r.service_ok).2 _ h)).2.2 rfl
  have ha : '/' ∉ r.account := fun h =>
    (name_char_lower ((is_part_chars r.account_ok).2 _ h)).2.2 rfl
  rw [List.splitOn_append_cons_self_of_not_mem hs, List.splitOn_eq_singleton ha]

/-- What `parse` returns, by the text it has read. -/
theorem parse_some {text : String} {r : SecretRef} (h : parse T text = some r) :
    T.lowered (strip isSpace text.toList) = refPrefix ++ r.service ++ '/' :: r.account := by
  unfold parse at h
  simp only at h
  split at h
  · simp at h
  · split at h
    · rename_i hp
      split at h
      · rename_i service account hs
        split at h
        · simp only [Option.some.injEq] at h
          subst h
          have hj : ['/'].intercalate (((T.lowered (strip isSpace text.toList)).drop
              refPrefix.length).splitOn '/') = _ := List.intercalate_splitOn '/'
          rw [hs] at hj
          obtain ⟨rest, hr⟩ := List.isPrefixOf_iff_prefix.mp hp
          rw [← hr, List.drop_left] at hj
          rw [← hr, ← hj]
          simp [List.intercalate]
        · simp at h
      · simp at h
    · simp at h

/-- A reference is read back from its own text. -/
theorem parse_text {text : String} {r : SecretRef} (h : parse T text = some r) :
    parse T r.text = some r := by
  have hlow := parse_some h
  have hlast : r.account.getLast? ≠ some '\n' := by
    intro hl
    have hall : (T.lowered (strip isSpace text.toList)).getLast? = some '\n' := by
      rw [hlow, List.getLast?_append]
      simp [List.getLast?_cons, hl]
    have := strip_last '\n' (T.lowered_last hall)
    simp [isSpace] at this
  have hstrip : strip isSpace r.text.toList = refPrefix ++ r.service ++ '/' :: r.account := by
    rw [text_list]
    apply strip_ends
    · intro c hc
      rw [List.append_assoc, List.head?_append, ref_prefix_head] at hc
      obtain rfl := Option.some.inj hc
      decide
    · intro c hc
      have hne := (is_part_chars r.account_ok).1
      have hc' : r.account.getLast? = some c := by
        rw [List.getLast?_append] at hc
        cases ha : r.account.getLast? with
        | none => exact absurd (List.getLast?_eq_none_iff.mp ha) hne
        | some d =>
          rw [List.getLast?_cons, ha] at hc
          simpa using hc
      exact name_edge_not_space (is_part_last r.account_ok hlast c hc')
  unfold parse
  simp only [hstrip]
  rw [if_neg (by have := r.short; omega), lowered_text, if_pos (by
    rw [List.append_assoc]
    exact List.isPrefixOf_iff_prefix.mpr (List.prefix_append _ _)), List.append_assoc,
    List.drop_left, parts]
  have hshort := r.short
  simp only [r.service_ok, r.account_ok, true_and]
  rw [dif_pos hshort]

end SecretRef

/-! ### What a secret may be used for -/

inductive SecretKind where
  | password
  | apiToken
  | apiKey
  | oauthClientSecret
  | oauthRefreshToken
  | serviceCredential
  | machineCredential
deriving DecidableEq

namespace SecretKind

def all : List SecretKind :=
  [password, apiToken, apiKey, oauthClientSecret, oauthRefreshToken, serviceCredential,
    machineCredential]

def value : SecretKind → String
  | password => "password"
  | apiToken => "api_token"
  | apiKey => "api_key"
  | oauthClientSecret => "oauth_client_secret"
  | oauthRefreshToken => "oauth_refresh_token"
  | serviceCredential => "service_credential"
  | machineCredential => "machine_credential"

def ofValue? (s : String) : Option SecretKind := all.find? (fun k => k.value = s)

end SecretKind

/-- `FORBIDDEN_KINDS`. -/
def forbiddenKinds : List String :=
  ["card_pan", "credit_card", "cvv", "cvc", "iban", "bank_account", "payment_instrument",
    "sepa_mandate"]

inductive ExecutorId where
  | http
  | provider
  | homeAssistant
  | browser
  | machine
  | payment
  | offsite
  | anthropicBroker
  | telephony
deriving DecidableEq

namespace ExecutorId

def all : List ExecutorId :=
  [http, provider, homeAssistant, browser, machine, payment, offsite, anthropicBroker, telephony]

def value : ExecutorId → String
  | http => "http"
  | provider => "provider"
  | homeAssistant => "home_assistant"
  | browser => "browser"
  | machine => "machine"
  | payment => "payment"
  | offsite => "offsite"
  | anthropicBroker => "anthropic_broker"
  | telephony => "telephony"

def ofValue? (s : String) : Option ExecutorId := all.find? (fun e => e.value = s)

/-- `EXECUTOR_MODULES`. -/
def modules : ExecutorId → List String
  | http => ["solvio.integrations.", "solvio.capabilities."]
  | provider => ["solvio.realtime.", "solvio.conversation.", "solvio.research.", "solvio.deep."]
  | homeAssistant => ["solvio.integrations.home_assistant", "solvio.capabilities.home_assistant",
      "solvio.storage.ha_backup"]
  | browser => ["solvio.browser.", "solvio.portal."]
  | machine => ["solvio.realtime."]
  | payment => ["solvio.payment.executor"]
  | offsite => ["solvio.storage.offsite.s3"]
  | anthropicBroker => ["solvio.provider_broker.anthropic"]
  | telephony => ["solvio.telephony.upstream"]

end ExecutorId

inductive Status where
  | active
  | disabled
  | revoked
deriving DecidableEq

namespace Status

def value : Status → String
  | active => "active"
  | disabled => "disabled"
  | revoked => "revoked"

def ofValue? (s : String) : Option Status :=
  [active, disabled, revoked].find? (fun t => t.value = s)

end Status

inductive Denied where
  | unknownSecret
  | notActive
  | capabilityNotAllowed
  | executorNotAllowed
  | executorModuleMismatch
  | targetNotAllowed
  | originNotAllowed
  | backgroundNotAllowed
  | vaultUnavailable
  | envelopeRejected
deriving DecidableEq

inductive OriginClass where
  | trustedInteractiveApp
  | roomVoice
  | localOwner
  | backgroundAutomation
  | externalUntrusted
  | unspecified
deriving DecidableEq

/-- `FORBIDDEN_ORIGINS`. -/
def forbiddenOrigins : List OriginClass := [.externalUntrusted, .unspecified]

/-- `normalize_target`; `none` is the `ValueError` of a port that is none. -/
def normalizeTarget (T : TextTables) (value : String) : Option String :=
  let text := T.lowered (strip isSpace value.toList)
  if text = [] then some ""
  else if ¬ "://".toList <:+: text then some ""
  else match Url.split T text with
    | none => some ""
    | some parts =>
      let host := Url.hostname T parts.netloc
      if parts.scheme = [] ∨ host = [] then some ""
      else match Url.port parts.netloc with
        | none => none
        | some port =>
          let suffix := match port with
            | some (n + 1) => ':' :: Json.decimal (n + 1)
            | _ => []
          some (String.ofList (parts.scheme ++ "://".toList ++ host ++ suffix))

/-- `SecretPolicy`. -/
structure SecretPolicy where
  secretRef : String
  kind : SecretKind
  version : Int
  status : Status
  allowedCapabilities : List String
  allowedTargets : List String
  allowedExecutors : List ExecutorId
  allowBackground : Bool
  requiresUserPresence : Bool
  displayName : String
  serviceLabel : String
  accountLabel : String
  createdAt : String
  rotatedAt : String
  lastUsedAt : String
  note : String
deriving DecidableEq

/-- `sorted(set(..))`. -/
def sortedSet (xs : List String) : List String := xs.dedup.insertionSort (· ≤ ·)

/-- The fields that mean authority. -/
structure Authority where
  secretRef : String
  kind : String
  version : Int
  status : String
  allowedCapabilities : List String
  allowedTargets : List String
  allowedExecutors : List String
  allowBackground : Bool
  requiresUserPresence : Bool
deriving DecidableEq

/-- `authority_fields`. -/
def SecretPolicy.authorityFields (T : TextTables) (p : SecretPolicy) : Option Authority := do
  let targets ← p.allowedTargets.mapM (normalizeTarget T)
  return { secretRef := p.secretRef, kind := p.kind.value, version := p.version
           status := p.status.value
           allowedCapabilities := sortedSet p.allowedCapabilities
           allowedTargets := sortedSet targets
           allowedExecutors := sortedSet (p.allowedExecutors.map ExecutorId.value)
           allowBackground := p.allowBackground
           requiresUserPresence := p.requiresUserPresence }

/-- `canonical_json`, whose keys are sorted. -/
def Authority.canonical (a : Authority) : List Char :=
  Json.render (.obj
    [Json.field "allow_background" (.bool a.allowBackground),
     Json.field "allowed_capabilities" (.arr (a.allowedCapabilities.map Json.string)),
     Json.field "allowed_executors" (.arr (a.allowedExecutors.map Json.string)),
     Json.field "allowed_targets" (.arr (a.allowedTargets.map Json.string)),
     Json.field "kind" (Json.string a.kind),
     Json.field "requires_user_presence" (.bool a.requiresUserPresence),
     Json.field "secret_ref" (Json.string a.secretRef),
     Json.field "status" (Json.string a.status),
     Json.field "version" (.int a.version)])

theorem Authority.canonical_injective {a b : Authority} (h : a.canonical = b.canonical) : a = b := by
  have hplain : ∀ c : Authority, Json.Plain (.obj
      [Json.field "allow_background" (.bool c.allowBackground),
       Json.field "allowed_capabilities" (.arr (c.allowedCapabilities.map Json.string)),
       Json.field "allowed_executors" (.arr (c.allowedExecutors.map Json.string)),
       Json.field "allowed_targets" (.arr (c.allowedTargets.map Json.string)),
       Json.field "kind" (Json.string c.kind),
       Json.field "requires_user_presence" (.bool c.requiresUserPresence),
       Json.field "secret_ref" (Json.string c.secretRef),
       Json.field "status" (Json.string c.status),
       Json.field "version" (.int c.version)]) := fun c =>
    ⟨Json.spelled_of_string _, trivial, Json.spelled_of_string _, Json.plain_strings _,
      Json.spelled_of_string _, Json.plain_strings _, Json.spelled_of_string _,
      Json.plain_strings _, Json.spelled_of_string _, Json.spelled_of_string _,
      Json.spelled_of_string _, trivial, Json.spelled_of_string _, Json.spelled_of_string _,
      Json.spelled_of_string _, Json.spelled_of_string _, Json.spelled_of_string _, trivial,
      trivial⟩
  have hobj := Json.render_injective (hplain a) (hplain b) h
  simp only [Json.obj.injEq, List.cons.injEq, Json.field, Prod.mk.injEq, true_and, and_true,
    Json.bool.injEq, Json.arr.injEq, Json.int.injEq] at hobj
  obtain ⟨hbg, hcaps, hexes, htgts, hkind, hpres, href, hst, hver⟩ := hobj
  have hstr : ∀ {s t : String}, Json.string s = Json.string t → s = t :=
    fun h => text_injective (Json.str.inj h)
  obtain ⟨ra, ka, va, sa, ca, ta, ea, ba, pa⟩ := a
  obtain ⟨rb, kb, vb, sb, cb, tb, eb, bb, pb⟩ := b
  simp only at hbg hcaps hexes htgts hkind hpres href hst hver
  rw [hstr href, hstr hkind, hver, hstr hst, Json.strings_injective hcaps,
    Json.strings_injective htgts, Json.strings_injective hexes, hbg, hpres]

/-- `UseRequest`, as far as it is judged. -/
structure UseRequest where
  capability : String
  executor : ExecutorId
  target : String
  origin : OriginClass
  callerModule : String := ""
  userPresent : Bool := false

inductive Verdict where
  | allow
  | deny (reason : Denied)
deriving DecidableEq

/-- The module itself, or one below it. -/
def moduleFits (caller name : String) : Bool :=
  let dotted := if name.toList.getLast? = some '.' then name.toList else name.toList ++ ['.']
  caller = name || dotted.isPrefixOf caller.toList

/-- `evaluate`; `none` is a `ValueError`. -/
def evaluate (T : TextTables) (policy : Option SecretPolicy) (request : UseRequest) :
    Option Verdict :=
  match policy with
  | none => some (.deny .unknownSecret)
  | some p =>
    if p.status ≠ .active then some (.deny .notActive)
    else if request.origin ∈ forbiddenOrigins then some (.deny .originNotAllowed)
    else if request.origin = .backgroundAutomation ∧ p.allowBackground = false then
      some (.deny .backgroundNotAllowed)
    else if request.capability ∉ p.allowedCapabilities then some (.deny .capabilityNotAllowed)
    else if request.executor ∉ p.allowedExecutors then some (.deny .executorNotAllowed)
    else if request.executor.modules.any (moduleFits request.callerModule) = false then
      some (.deny .executorModuleMismatch)
    else do
      let wanted ← normalizeTarget T request.target
      let allowed ← p.allowedTargets.mapM (normalizeTarget T)
      if wanted = "" ∨ wanted ∉ allowed.filter (· ≠ "") then return .deny .targetNotAllowed
      else if p.requiresUserPresence ∧ request.userPresent = false then
        return .deny .originNotAllowed
      else return .allow

/-- `widens`. -/
def widens (T : TextTables) (previous following : SecretPolicy) : Option Bool := do
  if following.allowedCapabilities.any (· ∉ previous.allowedCapabilities) then return true
  let after ← following.allowedTargets.mapM (normalizeTarget T)
  let before ← previous.allowedTargets.mapM (normalizeTarget T)
  if after.any (· ∉ before) then return true
  if following.allowedExecutors.any (· ∉ previous.allowedExecutors) then return true
  if following.allowBackground && !previous.allowBackground then return true
  if previous.requiresUserPresence && !following.requiresUserPresence then return true
  return previous.status ≠ .active ∧ following.status = .active

end Solvio.SecretVault
