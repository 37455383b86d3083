import Solvio.SecretVault.Kept
import Solvio.SecretVault.Targets

namespace Solvio.SecretVault
open Solvio.Lib

/-! ### What a verdict and a comparison say -/

theorem evaluate_allow {T : TextTables} {p : SecretPolicy} {request : UseRequest}
    (h : evaluate T (some p) request = some .allow) :
    p.status = .active ∧ (request.origin = .backgroundAutomation → p.allowBackground = true) ∧
      request.capability ∈ p.allowedCapabilities ∧ request.executor ∈ p.allowedExecutors ∧
      (p.requiresUserPresence = true → request.userPresent = true) ∧
      ∃ wanted allowed, normalizeTarget T request.target = some wanted ∧ wanted ≠ "" ∧
        p.allowedTargets.mapM (normalizeTarget T) = some allowed ∧ wanted ∈ allowed := by
  simp only [evaluate] at h
  split at h
  · cases h
  split at h
  · cases h
  split at h
  · cases h
  split at h
  · cases h
  split at h
  · cases h
  split at h
  · cases h
  rename_i hstatus _ hbackground hcap hexe _
  simp only [Option.bind_eq_bind, Option.bind_eq_some_iff] at h
  obtain ⟨wanted, hwanted, allowed, hallowed, h⟩ := h
  split at h
  · cases h
  rename_i htarget
  split at h
  · cases h
  rename_i hpresence
  simp only [not_or, not_not, List.mem_filter] at htarget
  refine ⟨not_not.mp hstatus, fun ho => by simpa [ho] using hbackground, not_not.mp hcap,
    not_not.mp hexe, fun hp => by simpa [hp] using hpresence, wanted, allowed, hwanted, htarget.1,
    hallowed, htarget.2.1⟩

/-- Whoever is allowed under one policy is allowed under one that grants as much. -/
theorem evaluate_again {T : TextTables} {p q : SecretPolicy} {request : UseRequest}
    {allowed : List String} (h : evaluate T (some q) request = some .allow)
    (hstatus : p.status = .active)
    (hbackground : request.origin = .backgroundAutomation → p.allowBackground = true)
    (hcap : request.capability ∈ p.allowedCapabilities)
    (hexe : request.executor ∈ p.allowedExecutors)
    (hpresence : p.requiresUserPresence = true → request.userPresent = true)
    (hallowed : p.allowedTargets.mapM (normalizeTarget T) = some allowed)
    (htarget : ∀ wanted, normalizeTarget T request.target = some wanted → wanted ≠ "" →
      wanted ∈ allowed) :
    evaluate T (some p) request = some .allow := by
  obtain ⟨-, -, -, -, -, wanted, -, hwanted, hne, -⟩ := evaluate_allow h
  have horigin : request.origin ∉ forbiddenOrigins ∧
      request.executor.modules.any (moduleFits request.callerModule) ≠ false := by
    simp only [evaluate] at h
    split at h
    · cases h
    split at h
    · cases h
    split at h
    · cases h
    split at h
    · cases h
    split at h
    · cases h
    split at h
    · cases h
    rename_i _ ho _ _ _ hm
    exact ⟨ho, hm⟩
  have hbg : ¬ (request.origin = .backgroundAutomation ∧ p.allowBackground = false) := fun hb => by
    rw [hbackground hb.1] at hb
    cases hb.2
  have hpres : ¬ (p.requiresUserPresence = true ∧ request.userPresent = false) := fun hb => by
    rw [hpresence hb.1] at hb
    cases hb.2
  have hmem : wanted ∈ allowed.filter (· ≠ "") :=
    List.mem_filter.mpr ⟨htarget wanted hwanted hne, by simpa using hne⟩
  simp only [evaluate]
  rw [if_neg (not_not.mpr hstatus), if_neg horigin.1, if_neg hbg, if_neg (not_not.mpr hcap),
    if_neg (not_not.mpr hexe), if_neg horigin.2]
  simp only [hwanted, hallowed, Option.bind_eq_bind, Option.bind_some]
  rw [if_neg (not_or.mpr ⟨hne, not_not.mpr hmem⟩), if_neg hpres]
  rfl

/-- A policy that grants no more than another. -/
structure Narrower (T : TextTables) (previous following : SecretPolicy) : Prop where
  capabilities : ∀ c ∈ following.allowedCapabilities, c ∈ previous.allowedCapabilities
  targets : ∃ after before, following.allowedTargets.mapM (normalizeTarget T) = some after ∧
    previous.allowedTargets.mapM (normalizeTarget T) = some before ∧ ∀ t ∈ after, t ∈ before
  executors : ∀ e ∈ following.allowedExecutors, e ∈ previous.allowedExecutors
  background : following.allowBackground = true → previous.allowBackground = true
  presence : previous.requiresUserPresence = true → following.requiresUserPresence = true
  status : following.status = .active → previous.status = .active

theorem widens_false {T : TextTables} {previous following : SecretPolicy}
    (h : widens T previous following = some false) : Narrower T previous following := by
  unfold widens at h
  split at h
  · cases h
  rename_i hcaps
  simp only [Option.bind_eq_bind, Option.bind_eq_some_iff] at h
  obtain ⟨after, hafter, before, hbefore, h⟩ := h
  split at h
  · cases h
  rename_i htargets
  split at h
  · cases h
  rename_i hexes
  split at h
  · cases h
  rename_i hbackground
  split at h
  · cases h
  rename_i hpresence
  have hstatus := Option.some.inj h
  refine ⟨?_, ⟨after, before, hafter, hbefore, ?_⟩, ?_, ?_, ?_, ?_⟩
  · simpa using hcaps
  · simpa using htargets
  · simpa using hexes
  · simpa using hbackground
  · simpa using hpresence
  · intro hactive
    by_contra hne
    simp [hactive, hne] at hstatus

theorem Narrower.allows {T : TextTables} {previous following : SecretPolicy} {request : UseRequest}
    (h : Narrower T previous following)
    (hallow : evaluate T (some following) request = some .allow) :
    evaluate T (some previous) request = some .allow := by
  obtain ⟨hstatus, hbackground, hcap, hexe, hpresence, wanted, allowed, hwanted, -, hallowed, hin⟩ :=
    evaluate_allow hallow
  obtain ⟨after, before, hafter, hbefore, hsub⟩ := h.targets
  obtain rfl := Option.some.inj (hallowed.symm.trans hafter)
  refine evaluate_again hallow (h.status hstatus) (fun ho => h.background (hbackground ho))
    (h.capabilities _ hcap) (h.executors _ hexe) (fun hp => hpresence (h.presence hp)) hbefore ?_
  intro w hw _
  obtain rfl := Option.some.inj (hwanted.symm.trans hw)
  exact hsub _ hin

/-! ### Targets of rows -/

theorem map_m_some {T : TextTables} {ts us : List String}
    (h : ts.mapM (normalizeTarget T) = some us) (u : String) :
    u ∈ us ↔ ∃ t ∈ ts, normalizeTarget T t = some u := by
  induction ts generalizing us with
  | nil =>
    obtain rfl := Option.some.inj h
    simp
  | cons t ts ih =>
    simp only [List.mapM_cons, Option.bind_eq_bind, Option.bind_eq_some_iff] at h
    obtain ⟨v, hv, vs, hvs, h⟩ := h
    obtain rfl := Option.some.inj h
    simp only [List.mem_cons, ih hvs, exists_eq_or_imp, hv, Option.some.injEq]
    exact or_congr_left eq_comm

/-- A row holds the origins of the targets it was given. -/
theorem read_back_targets {T : TextTables} {p : SecretPolicy} {a : Authority}
    (h : p.authorityFields T = some a) (old : Option Row) (now : String) {x : String}
    (hx : x ∈ (readBack old p a now).allowedTargets) :
    ∃ t ∈ p.allowedTargets, normalizeTarget T t = some x := by
  obtain ⟨targets, ht, rfl⟩ := authority_fields_some h
  obtain ⟨y, hy, hx⟩ := List.mem_flatMap.mp hx
  obtain ⟨t, hmem, hn⟩ := (map_m_some ht y).mp (mem_sorted_set.mp hy)
  by_cases hne : y = ""
  · subst hne
    simp [linesOf] at hx
  · rw [lines_of_line ⟨normalize_line hn, hne⟩, List.mem_singleton] at hx
    exact ⟨t, hmem, hx ▸ hn⟩

/-- Every target that is read has been normalised twice. -/
def Twice (T : TextTables) (t : Vault) : Prop :=
  ∀ ref p, policyAt t ref = some p → ∀ x ∈ p.allowedTargets,
    ∃ z a, normalizeTarget T z = some a ∧ normalizeTarget T a = some x

theorem policy_at_put {V : Site} {t : Vault} {s : Sealing V} {ref : String} (now : String) :
    policyAt ((Effect.stored s).apply now t) ref = if ref = s.policy.secretRef then
      some (readBack (t.find? s.policy.secretRef) s.policy s.authority now) else policyAt t ref := by
  rw [policyAt, policyAt, Effect.apply, find_put]
  split
  · rw [Option.bind_some, from_row_put s.authority_eq]
  · rfl

theorem scope_imaged {T : TextTables} {s scope : Scope} (h : checkScope T s = .ok scope) :
    ∀ x ∈ scope.targets, ∃ z, normalizeTarget T z = some x := by
  obtain ⟨targets, ht, rfl, -⟩ := check_scope_ok h
  intro x hx
  obtain ⟨z, -, hz⟩ := (map_m_some (clean_targets_normal ht).1 x).mp (mem_sorted_set.mp hx)
  exact ⟨z, hz⟩

section runs
variable {V : Site} {t : Vault}

theorem add_imaged {m : Moment} {a : Addition} {replace : Bool} {s : Sealing V}
    (h : add V m t a replace = .ok s) :
    ∀ x ∈ s.policy.allowedTargets, ∃ z, normalizeTarget V.tables z = some x := by
  obtain ⟨ref, kind, scope, existing, -, -, -, hscope, -, -, -, hp, -⟩ := add_ok h
  rw [hp]
  exact scope_imaged hscope

/-- What a call stores has targets that are origins. -/
theorem stored_imaged {m : Moment} {c : Call} {s : Sealing V} (hi : Twice V.tables t)
    (h : c.effect V m t t = .ok (.stored s)) :
    ∀ x ∈ s.policy.allowedTargets, ∃ z, normalizeTarget V.tables z = some x := by
  cases c with
  | add a replace =>
    obtain ⟨s', hs, he⟩ := map_ok.mp h
    obtain rfl := Effect.stored.inj he
    exact add_imaged hs
  | replaceValue r value =>
    obtain ⟨s', hs, he⟩ := map_ok.mp h
    obtain rfl := Effect.stored.inj he
    obtain ⟨_, _, _, _, hadd⟩ := replace_value_ok hs
    exact add_imaged hadd
  | setStatus r status =>
    obtain ⟨ref, p, -, hp, ⟨-, he⟩ | ⟨s', -, he, hs⟩⟩ := set_status_ok h
    · cases he
    · obtain rfl := Effect.stored.inj he
      obtain ⟨row, -, -, -, -, hpol, -⟩ := reseal_ok hs
      rw [hpol]
      intro x hx
      obtain ⟨-, a, -, ha⟩ := hi ref p (policy_at_of_known hp).1 x hx
      exact ⟨a, ha⟩
  | rescope r scope =>
    obtain ⟨result, hs, he⟩ := map_ok.mp h
    obtain rfl := Effect.stored.inj he
    obtain ⟨ref, p, checked, -, -, hscope, -, hreseal⟩ := rescope_ok hs
    obtain ⟨row, -, -, -, -, hpol, -⟩ := reseal_ok hreseal
    rw [hpol]
    exact scope_imaged hscope
  | delete r =>
    obtain ⟨ref, -, he⟩ := map_ok.mp h
    cases he

theorem Twice.stored {m : Moment} {c : Call} {s : Sealing V} (hi : Twice V.tables t)
    (h : c.effect V m t t = .ok (.stored s)) :
    Twice V.tables ((Effect.stored s).apply m.now t) := by
  intro ref p hp x hx
  rw [policy_at_put] at hp
  split at hp
  · obtain rfl := Option.some.inj hp
    obtain ⟨u, hu, hn⟩ := read_back_targets s.authority_eq _ _ hx
    obtain ⟨z, hz⟩ := stored_imaged hi h u hu
    exact ⟨z, u, hz, hn⟩
  · exact hi ref p hp x hx

theorem from_row_touch (row : Row) (now : String) :
    fromRow { row with lastUsedAt := now } =
      (fromRow row).map (fun p => { p with lastUsedAt := now }) := by
  simp [fromRow, Option.map_bind, Function.comp_def]

theorem Twice.touched (hi : Twice V.tables t) (ref now : String) :
    Twice V.tables (touchUsed t ref now) := by
  intro ref' p hp x hx
  rw [policyAt, touchUsed, Table.find_modify] at hp
  split at hp
  · rename_i hsame
    obtain ⟨row, hrow, hread⟩ := Option.bind_eq_some_iff.mp hp
    obtain ⟨old, hold, rfl⟩ := Option.map_eq_some_iff.mp hrow
    rw [from_row_touch] at hread
    obtain ⟨q, hq, rfl⟩ := Option.map_eq_some_iff.mp hread
    exact hi ref' q (by rw [policyAt, hsame, hold, Option.bind_some, hq]) x hx
  · exact hi ref' p hp x hx

theorem twice_run {h : List (desk V).Entry} (hrun : (desk V).Run (fun _ _ => True) h t) :
    Twice V.tables t := by
  refine hrun.induct (fun _ t => Twice V.tables t) ?_ ?_
  · intro ref p hp
    cases hp
  · intro h t c _ _ ih
    obtain ⟨m, act⟩ := c
    cases act with
    | call op =>
      simp only [desk]
      cases he : op.effect V m t t with
      | error f => exact ih
      | ok e =>
        cases e with
        | kept p => exact ih
        | stored s => exact ih.stored he
        | removed ref =>
          intro ref' p hp
          simp only [policyAt, Effect.apply, Table.find_delete] at hp
          split at hp
          · cases hp
          · exact ih ref' p hp
    | use secretRef request =>
      simp only [desk, afterUse]
      split
      · split
        · exact ih.touched _ _
        · exact ih
      · split
        · exact ih.touched _ _
        · exact ih
      · exact ih

/-! ### Rescopes -/

/-- The policy of a reference lets a request through. -/
def Admits (V : Site) (t : Vault) (ref : String) (request : UseRequest) : Prop :=
  ∃ p, judged V t ref request = .ok p

theorem admits_iff {ref : String} {request : UseRequest} : Admits V t ref request ↔
    ∃ p, policyAt t ref = some p ∧ evaluate V.tables (some p) request = some .allow := by
  constructor
  · rintro ⟨p, hp⟩
    obtain ⟨⟨row, hrow, hread⟩, hallow⟩ := judged_ok hp
    exact ⟨p, by rw [policyAt, hrow, Option.bind_some, hread], hallow⟩
  · rintro ⟨p, hp, hallow⟩
    obtain ⟨row, hrow, hread⟩ := Option.bind_eq_some_iff.mp hp
    exact ⟨p, by simp only [judged, hrow, hread, hallow]⟩

/-- A row that was written without getting wider lets no new request through. -/
theorem Narrower.read_back {p following : SecretPolicy} {a : Authority} {request : UseRequest}
    (hT : V.tables.Steady) (h : Narrower V.tables p following)
    (ha : following.authorityFields V.tables = some a) (hlines : ∀ c ∈ p.allowedCapabilities, IsLine c)
    (htwice : ∀ x ∈ p.allowedTargets, ∃ z y, normalizeTarget V.tables z = some y ∧
      normalizeTarget V.tables y = some x) (old : Option Row) (now : String)
    (hallow : evaluate V.tables (some (readBack old following a now)) request = some .allow) :
    evaluate V.tables (some p) request = some .allow := by
  obtain ⟨hstatus, hbackground, hcap, hexe, hpresence, wanted, allowed, hwanted, hne, hallowed, hin⟩ :=
    evaluate_allow hallow
  obtain ⟨after, before, hafter, hbefore, hsub⟩ := h.targets
  have hcaps : request.capability ∈ p.allowedCapabilities := by
    obtain ⟨targets, -, rfl⟩ := authority_fields_some ha
    obtain ⟨c, hc, hline⟩ := List.mem_flatMap.mp hcap
    have hc := h.capabilities c (mem_sorted_set.mp hc)
    rw [lines_of_line (hlines c hc), List.mem_singleton] at hline
    exact hline ▸ hc
  refine evaluate_again hallow (h.status hstatus) (fun ho => h.background (hbackground ho)) hcaps
    (h.executors _ (mem_sorted_executors.mp hexe)) (fun hp => hpresence (h.presence hp)) hbefore ?_
  intro w hw hw'
  obtain rfl := Option.some.inj (hwanted.symm.trans hw)
  -- the target was normalised a third time when the policies were compared
  obtain ⟨x, hx, hxw⟩ := (map_m_some hallowed wanted).mp hin
  obtain ⟨u, hu, hux⟩ := read_back_targets ha old now hx
  obtain ⟨y, hy, hyx⟩ := (map_m_some hbefore x).mp (hsub x ((map_m_some hafter x).mpr ⟨u, hu, hux⟩))
  obtain ⟨z, v, hz, hv⟩ := htwice y hy
  obtain rfl := normalize_fourth hT hz hv hyx hxw hne
  exact (map_m_some hbefore _).mpr ⟨y, hy, hyx⟩

/-- One rescope of a row of them. -/
structure Order where
  moment : Moment
  secretRef : String
  scope : Rescoping

/-- Where a rescope leaves the vault, and whether it reported that the policy got wider. -/
def Order.run (V : Site) (o : Order) (t : Vault) : Vault × Bool :=
  match rescope V o.moment t t o.secretRef o.scope with
  | .ok (s, widened) => ((Effect.stored s).apply o.moment.now t, widened)
  | .error _ => (t, false)

/-- Where a row of rescopes leaves the vault, and what each of them reported. -/
def rescopes (V : Site) : List Order → Vault → Vault × List Bool
  | [], t => (t, [])
  | o :: os, t =>
    let (next, widened) := o.run V t
    let (last, reports) := rescopes V os next
    (last, widened :: reports)

/-- A rescope that reported nothing lets no new request through. -/
theorem order_admits (hT : V.tables.Steady) (hi : Twice V.tables t) {o : Order}
    (hreport : (o.run V t).2 = false) {ref : String} {request : UseRequest}
    (h : Admits V (o.run V t).1 ref request) : Admits V t ref request := by
  unfold Order.run at hreport h
  split at hreport
  · rename_i s widened hs
    rw [hs] at h
    simp only at hreport h
    subst hreport
    obtain ⟨ref', p, checked, -, hp, -, hwidens, hreseal⟩ := rescope_ok hs
    obtain ⟨-, -, -, -, -, hpol, -⟩ := reseal_ok hreseal
    obtain ⟨q, hq, hallow⟩ := Iff.mp admits_iff h
    rw [policy_at_put] at hq
    split at hq
    · rename_i hsame
      obtain rfl := Option.some.inj hq
      obtain ⟨hat, hkey⟩ := policy_at_of_known hp
      have href : ref = ref' := by
        rw [hsame, hpol]
        exact hkey
      obtain ⟨row, -, hread⟩ := Option.bind_eq_some_iff.mp hat
      have hnarrow := widens_false hwidens
      rw [← hpol] at hnarrow
      exact Iff.mpr admits_iff ⟨p, href ▸ hat, hnarrow.read_back hT s.authority_eq
        (from_row_lines hread).1 (hi ref' p hat) _ _ hallow⟩
    · exact Iff.mpr admits_iff ⟨q, hq, hallow⟩
  · rename_i hs
    rw [hs] at h
    exact h

theorem order_twice (hi : Twice V.tables t) (o : Order) : Twice V.tables (o.run V t).1 := by
  unfold Order.run
  split
  · rename_i s widened hs
    have he : (Call.rescope o.secretRef o.scope).effect V o.moment t t = .ok (.stored s) :=
      map_ok.mpr ⟨(s, widened), hs, rfl⟩
    exact hi.stored he
  · exact hi

theorem rescopes_admit (hT : V.tables.Steady) {ref : String} {request : UseRequest}
    (os : List Order) : ∀ t, Twice V.tables t → true ∉ (rescopes V os t).2 →
      Admits V (rescopes V os t).1 ref request → Admits V t ref request := by
  induction os with
  | nil => exact fun _ _ _ h => h
  | cons o os ih =>
    intro t hi hreports h
    simp only [rescopes, List.mem_cons, not_or] at hreports h
    refine order_admits hT hi (by simpa using Ne.symm hreports.1) ?_
    exact ih _ (order_twice hi o) hreports.2 h

/-- A policy that is not wider than another lets no further request through, and
neither does a row of rescopes of which none reported that a policy got wider. -/
theorem rescopes_never_widen (V : Site) (hT : V.tables.Steady) :
    (∀ previous following request, widens V.tables previous following = some false →
      evaluate V.tables (some following) request = some .allow →
      evaluate V.tables (some previous) request = some .allow) ∧
    ∀ h t, (desk V).Run (fun _ _ => True) h t → ∀ os, true ∉ (rescopes V os t).2 →
      ∀ ref request, Admits V (rescopes V os t).1 ref request → Admits V t ref request :=
  ⟨fun _ _ _ hw => (widens_false hw).allows,
    fun _ t hrun os hos _ _ => rescopes_admit hT os t (twice_run hrun) hos⟩

end runs

namespace Sample

/-- Tables that know the letters of ASCII. -/
def asciiTables : TextTables where
  lower := asciiLower
  bracketed := fun _ => true
  compatible := fun _ => true
  lower_break := mem_ascii_lower
  lower_last := last_ascii_lower

theorem ascii_lowered (cs : List Char) : asciiTables.lowered cs = asciiLower cs := by
  unfold TextTables.lowered
  split <;> rfl

theorem ascii_steady : asciiTables.Steady where
  small := by
    intro cs c hc
    obtain ⟨d, -, rfl⟩ := List.mem_map.mp hc
    rw [TextTables.Small, ascii_lowered, asciiLower, List.map_singleton]
    congr 1
    split
    · rename_i hu
      rw [lower_letter hu, if_neg (by omega)]
    · rfl
  fixed := by
    intro cs hs
    refine (List.map_congr_left (fun c hc => ?_)).trans (List.map_id cs)
    have hsmall := hs c hc
    rw [TextTables.Small, ascii_lowered] at hsmall
    exact (List.cons.inj hsmall).1

def asciiSite : Site := ⟨asciiTables, cipher, List.replicate 32 7⟩

def portal : UseRequest :=
  { capability := "portal_login", executor := .browser, target := "https://mail.example/login"
    origin := .localOwner, callerModule := "solvio.portal.login" }

/-- One more capability than the request needs. -/
def wider : SecretPolicy := policy { scope with capabilities := ["portal_login", "portal_read"] }

end Sample

theorem rescopes_never_widen_sample :
    widens Sample.asciiTables Sample.wider (Sample.policy Sample.scope) = some false ∧
      evaluate Sample.asciiTables (some (Sample.policy Sample.scope)) Sample.portal = some .allow ∧
      evaluate Sample.asciiTables (some Sample.wider) Sample.portal = some .allow := by
  have hwidens : widens Sample.asciiTables Sample.wider (Sample.policy Sample.scope) =
    some false := by decide +kernel
  have hallow : evaluate Sample.asciiTables (some (Sample.policy Sample.scope)) Sample.portal =
    some .allow := by decide +kernel
  refine ⟨hwidens, hallow, ?_⟩
  exact (rescopes_never_widen Sample.asciiSite Sample.ascii_steady).1 _ _ _ hwidens hallow

end Solvio.SecretVault
