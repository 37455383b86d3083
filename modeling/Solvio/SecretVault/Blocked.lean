import Solvio.SecretVault.Capabilities
import Solvio.SecretVault.Kept

namespace Solvio.SecretVault
open Solvio.Lib

theorem from_row_dates {row : Row} {p : SecretPolicy} (h : fromRow row = some p) :
    p.createdAt = row.createdAt ∧ p.lastUsedAt = row.lastUsedAt := by
  simp only [fromRow, Option.bind_eq_bind, Option.bind_eq_some_iff] at h
  obtain ⟨kind, _, status, _, executors, _, he⟩ := h
  obtain rfl := Option.some.inj he
  exact ⟨rfl, rfl⟩

/-! ### What the calls do to one entry -/

def statusAt (t : Vault) (ref : String) : Option Status := (policyAt t ref).map (·.status)

/-- The entry whose value a call replaces. -/
def Call.Rotates (V : Site) (ref : String) : Call → Prop
  | .replaceValue r _ => parseRef V.tables r = .ok ref
  | .add a replace => replace = true ∧ parseRef V.tables a.secretRef = .ok ref
  | _ => False

/-- `set_status` of an entry. -/
def Call.SetsStatus (V : Site) (ref : String) : Call → Prop
  | .setStatus r _ => parseRef V.tables r = .ok ref
  | _ => False

def Call.Deletes (V : Site) (ref : String) : Call → Prop
  | .delete r => parseRef V.tables r = .ok ref
  | _ => False

/-- A new value meets an entry that is active, and `replace_value` a scope that
`_check_scope` leaves as it is. -/
structure Fits (V : Site) (t : Vault) (c : Call) : Prop where
  active : ∀ ref p, c.Rotates V ref → policyAt t ref = some p → p.status = .active
  settled : ∀ r value ref p, c = .replaceValue r value → parseRef V.tables r = .ok ref →
    policyAt t ref = some p → checkScope V.tables p.scope = .ok p.scope

/-- What a call may do to an entry from one table to the next. -/
structure Guarded (V : Site) (m : Moment) (t : Vault) (c : Call) (t' : Vault) : Prop where
  blocked : ∀ ref s, statusAt t ref = some s → s ≠ .active → statusAt t' ref = some s ∨
    c.SetsStatus V ref ∨ (c.Deletes V ref ∧ statusAt t' ref = none)
  rotation : ∀ ref r value p, c = .replaceValue r value → parseRef V.tables r = .ok ref →
    policyAt t ref = some p → policyAt t' ref =
      some { p with version := p.version + 1, rotatedAt := m.now }
  rescoping : ∀ ref r scope, c = .rescope r scope → parseRef V.tables r = .ok ref →
    statusAt t' ref = statusAt t ref

section calls
variable {V : Site} {m : Moment} {t : Vault}

theorem stored_status {s : Sealing V} {now ref : String} :
    statusAt ((Effect.stored s).apply now t) ref =
      if ref = s.policy.secretRef then some s.policy.status else statusAt t ref := by
  rw [statusAt, policy_at_stored]
  split <;> rfl

theorem resealed {p following : SecretPolicy} {s : Sealing V} (h : reseal V m t p following = .ok s) :
    s.policy = following := by
  obtain ⟨_, _, _, _, _, hp, _⟩ := reseal_ok h
  exact hp

theorem add_guarded {a : Addition} {replace : Bool} {s : Sealing V}
    (h : add V m t a replace = .ok s) (hfits : Fits V t (.add a replace)) :
    Guarded V m t (.add a replace) ((Effect.stored s).apply m.now t) := by
  obtain ⟨ref, kind, scope, existing, href, hread, hfree, _, _, _, _, hp, _⟩ := add_ok h
  have hkey : s.policy.secretRef = ref := by rw [hp]; rfl
  have hat := policy_at_of_read hread
  refine ⟨fun ref' st hst hne => Or.inl ?_, fun _ _ _ _ he => (by cases he),
    fun _ _ _ he => (by cases he)⟩
  rw [stored_status, hkey]
  split
  · rename_i he
    subst he
    rw [statusAt, hat] at hst
    cases existing with
    | none => simp at hst
    | some q =>
      have hr : replace = true := by simpa using hfree
      have hactive := hfits.active ref' q ⟨hr, href⟩ hat
      rw [Option.map_some, hactive] at hst
      exact absurd (Option.some.inj hst).symm hne
  · exact hst

theorem or_else_self (a : String) : orElse a a = a := by
  unfold orElse
  split <;> rfl

theorem check_kind_value {k kind : SecretKind} (h : checkKind k.value = .ok kind) : kind = k := by
  unfold checkKind at h
  split at h
  · simp at h
  · rw [SecretKind.of_value] at h
    exact (Except.ok.inj h).symm

/-- The rotation of an entry with a settled scope: a new version, and nothing else. -/
theorem rotated {row : Row} {p : SecretPolicy} {ref : String} {value : Bytes} {s : Sealing V}
    (hrow : t.find? ref = some row) (hp : fromRow row = some p)
    (hscope : checkScope V.tables p.scope = .ok p.scope)
    (h : add V m t (p.again ref value) true = .ok s) (href : parseRef V.tables ref = .ok ref) :
    s.policy.secretRef = ref ∧ s.policy.status = .active ∧
      readBack (some row) s.policy s.authority m.now =
        { p with status := .active, version := p.version + 1, rotatedAt := m.now } := by
  obtain ⟨ref', kind, scope, existing, href', hread, _, hscope', hkind, _, _, hpol, _⟩ := add_ok h
  have hsame : ref' = ref := Except.ok.inj (href'.symm.trans href)
  subst hsame
  have hex : existing = some p := by
    rw [← policy_at_of_read hread, policyAt, hrow, Option.bind_some, hp]
  subst hex
  obtain rfl := check_kind_value hkind
  obtain rfl : scope = p.scope := Except.ok.inj (hscope'.symm.trans hscope)
  obtain ⟨hlines, htlines⟩ := from_row_lines hp
  have hkey : p.secretRef = ref' := (from_row_ref hp).trans (Table.key_of_find hrow)
  have hset := settled_authority (p := s.policy) (by rw [hpol]; exact hscope) s.authority_eq
  refine ⟨by rw [hpol]; rfl, by rw [hpol]; rfl, ?_⟩
  have hcreated := from_row_dates hp
  obtain ⟨hcaps, htgts, hexes⟩ := hset
  rw [hpol] at hcaps htgts hexes
  simp only [Addition.policy, SecretPolicy.scope] at hcaps htgts hexes
  simp only [readBack, hcaps, htgts, hpol, Addition.policy, SecretPolicy.again,
    SecretPolicy.scope, hexes, flat_map_lines hlines, flat_map_lines htlines, or_else_self,
    Option.map_some, Option.getD_some, Option.isSome_some, if_true, ← hcreated.1, ← hcreated.2,
    ← hkey]

theorem replace_guarded {r : String} {value : Bytes} {s : Sealing V}
    (h : replaceValue V m t t r value = .ok s) (hfits : Fits V t (.replaceValue r value)) :
    Guarded V m t (.replaceValue r value) ((Effect.stored s).apply m.now t) := by
  obtain ⟨ref, p, href, hp, hadd⟩ := replace_value_ok h
  obtain ⟨-, row, hrow, hpol⟩ := known_policy_ok hp
  have hat := (policy_at_of_known hp).1
  have hactive := hfits.active ref p href hat
  have hscope := hfits.settled r value ref p rfl href hat
  obtain ⟨hkey, hstatus, hback⟩ := rotated hrow hpol hscope hadd (parse_ref_ok href)
  refine ⟨fun ref' st hst hne => Or.inl ?_, ?_, fun _ _ _ he => (by cases he)⟩
  · rw [stored_status, hkey]
    split
    · rename_i he
      subst he
      rw [statusAt, hat, Option.map_some, hactive] at hst
      exact absurd (Option.some.inj hst).symm hne
    · exact hst
  · intro ref' r' value' p' he href' hat'
    cases he
    obtain rfl : ref' = ref := Except.ok.inj (href'.symm.trans href)
    obtain rfl : p' = p := Option.some.inj (hat'.symm.trans hat)
    rw [policy_at_stored, hkey, if_pos rfl, hrow, hback, hactive]

theorem set_status_guarded {r : String} {status : Status} {e : Effect V}
    (h : setStatus V m t t r status = .ok e) :
    Guarded V m t (.setStatus r status) (e.apply m.now t) := by
  obtain ⟨ref, p, href, hp, hcase⟩ := set_status_ok h
  refine ⟨fun ref' st hst hne => ?_, fun _ _ _ _ he => (by cases he),
    fun _ _ _ he => (by cases he)⟩
  by_cases hsame : ref' = ref
  · subst hsame
    exact Or.inr (Or.inl href)
  · left
    rcases hcase with ⟨-, rfl⟩ | ⟨s, -, rfl, hreseal⟩
    · exact hst
    · rw [stored_status, resealed hreseal, if_neg (by rwa [(policy_at_of_known hp).2])]
      exact hst

theorem rescope_guarded {r : String} {scope : Rescoping} {result : Sealing V × Bool}
    (h : rescope V m t t r scope = .ok result) :
    Guarded V m t (.rescope r scope) ((Effect.stored result.1).apply m.now t) := by
  obtain ⟨ref, p, checked, href, hp, -, -, hreseal⟩ := rescope_ok h
  obtain ⟨hat, hkey⟩ := policy_at_of_known hp
  have hsame : ∀ ref', statusAt ((Effect.stored result.1).apply m.now t) ref' = statusAt t ref' := by
    intro ref'
    rw [stored_status, resealed hreseal]
    split
    · rename_i he
      rw [he, statusAt, Rescoping.following, SecretPolicy.withScope]
      simp only
      rw [hkey, hat]
      rfl
    · rfl
  exact ⟨fun ref' st hst _ => Or.inl (by rw [hsame]; exact hst),
    fun _ _ _ _ he => (by cases he), fun ref' _ _ _ _ => hsame ref'⟩

theorem delete_guarded {r : String} {e : Effect V} (h : deletion V r = .ok e) :
    Guarded V m t (.delete r) (e.apply m.now t) := by
  obtain ⟨ref, href, rfl⟩ := map_ok.mp h
  refine ⟨fun ref' st hst _ => ?_, fun _ _ _ _ he => (by cases he),
    fun _ _ _ he => (by cases he)⟩
  have hat := policy_at_removed (V := V) t m.now ref ref'
  by_cases hsame : ref' = ref
  · subst hsame
    refine Or.inr (Or.inr ⟨href, ?_⟩)
    rw [statusAt, hat, if_pos rfl]
    rfl
  · left
    rw [statusAt, hat, if_neg hsame]
    exact hst

/-- Every operation that returns is guarded. -/
theorem effect_guarded {c : Call} {e : Effect V} (h : c.effect V m t t = .ok e)
    (hfits : Fits V t c) : Guarded V m t c (e.apply m.now t) := by
  cases c with
  | add a replace =>
    obtain ⟨s, hs, rfl⟩ := map_ok.mp h
    exact add_guarded hs hfits
  | replaceValue r value =>
    obtain ⟨s, hs, rfl⟩ := map_ok.mp h
    exact replace_guarded hs hfits
  | setStatus r status => exact set_status_guarded h
  | rescope r scope =>
    obtain ⟨s, hs, rfl⟩ := map_ok.mp h
    exact rescope_guarded hs
  | delete r => exact delete_guarded h

theorem action_effect_ok {a : Action} {e : Effect V} (h : a.effect V m t = .ok e) :
    ∃ c, a.call V t = .ok c ∧ c.effect V m t t = .ok e := by
  simp only [Action.effect, bind_ok] at h
  obtain ⟨c, hc, h⟩ := h
  refine ⟨c, hc, ?_⟩
  split at h
  · simp [throw_ok] at h
  · rename_i e' he
    rw [he]
    split at h
    · simp only [bind_ok, pure_ok] at h
      obtain ⟨_, _, rfl⟩ := h
      rfl
    · exact congrArg Except.ok (pure_ok.mp h)

end calls

/-! ### Runs -/

/-- A step that returned, and the operation it came to. -/
def Did (V : Site) (e : (vault V).Entry) (c : Call) : Prop :=
  e.call.2.call V e.pre = .ok c ∧ ∃ effect : Effect V, e.reply = .ok effect

theorem vault_step {V : Site} (e : (vault V).Entry) :
    (∃ c effect, e.reply = .ok effect ∧ e.call.2.call V e.pre = .ok c ∧
      c.effect V e.call.1 e.pre e.pre = .ok effect ∧ e.post = effect.apply e.call.1.now e.pre) ∨
    (e.post = e.pre ∧ ∀ c, ¬ Did V e c) := by
  cases hr : e.call.2.effect V e.call.1 e.pre with
  | ok effect =>
    obtain ⟨c, hc, he⟩ := action_effect_ok hr
    refine Or.inl ⟨c, effect, hr, hc, he, ?_⟩
    simp only [Machine.Entry.post, vault, hr]
  | error f =>
    refine Or.inr ⟨by simp only [Machine.Entry.post, vault, hr], ?_⟩
    rintro c ⟨-, effect, he⟩
    have : e.reply = Except.error f := hr
    rw [this] at he
    cases he

theorem vault_admin {V : Site} {m : Moment} {t : Vault} {c : Call} {effect : Effect V}
    (h : c.effect V m t t = .ok effect) :
    ((vault V).step (m, .admin c) t).2 = effect.apply m.now t := by
  have he : (Action.admin c).effect V m t = .ok effect := by
    simp only [Action.effect, Action.call, h, bind, Except.bind]
    rfl
  simp only [vault, he]

/-- Rotations meet active entries with a settled scope. -/
def Rotations (V : Site) (h : List (vault V).Entry) : Prop :=
  ∀ e ∈ h, ∀ c, e.call.2.call V e.pre = .ok c → Fits V e.pre c

/-- The status of a blocked entry leaves it by `set_status` or with the entry. -/
def Frees (V : Site) (ref : String) (e : (vault V).Entry) : Prop :=
  ∃ c, Did V e c ∧ (c.SetsStatus V ref ∨ c.Deletes V ref)

theorem blocked_step {V : Site} {e : (vault V).Entry}
    (hfits : ∀ c, e.call.2.call V e.pre = .ok c → Fits V e.pre c) {ref : String} {s : Status}
    (hst : statusAt e.pre ref = some s) (hne : s ≠ .active) (hfrees : ¬ Frees V ref e) :
    statusAt e.post ref = some s := by
  rcases vault_step e with ⟨c, effect, hr, hc, he, hpost⟩ | ⟨hpost, -⟩
  · have hg := effect_guarded he (hfits c hc)
    rw [hpost]
    rcases hg.blocked ref s hst hne with h | h | h
    · exact h
    · exact absurd ⟨c, ⟨hc, effect, hr⟩, Or.inl h⟩ hfrees
    · exact absurd ⟨c, ⟨hc, effect, hr⟩, Or.inr h.1⟩ hfrees
  · rw [hpost, hst]

/-- As long as rotations meet active entries with a settled scope, a blocked
secret stays blocked until its status is set or it is deleted; a rescope keeps
the status, and a rotation moves version and date only. -/
theorem blocked_stays_blocked {V : Site} {h : List (vault V).Entry} {t : Vault}
    (hrun : (vault V).Run (fun _ _ => True) h t) (hrot : Rotations V h) :
    (∀ e ∈ h, ∀ c, Did V e c → Guarded V e.call.1 e.pre c e.post) ∧
      ∀ newer older e ref s, h = newer ++ e :: older → statusAt e.pre ref = some s →
        s ≠ .active → (∀ n ∈ newer ++ [e], ¬ Frees V ref n) → statusAt t ref = some s := by
  constructor
  · rintro e he c ⟨hc, effect, hr⟩
    rcases vault_step e with ⟨c', effect', hr', hc', heff, hpost⟩ | ⟨-, hnot⟩
    · obtain rfl : c' = c := Except.ok.inj (hc'.symm.trans hc)
      rw [hpost]
      exact effect_guarded heff (hrot e he c' hc')
    · exact absurd ⟨hc, effect, hr⟩ (hnot c)
  · rintro newer older e ref s rfl hst hne hfrees
    have hpost := blocked_step (hrot e (by simp)) hst hne (hfrees e (by simp))
    refine (hrun.carried (fun t => statusAt t ref = some s) hpost (fun n hn hn' => ?_)).1
    exact blocked_step (hrot n (by simp [hn])) hn' hne (hfrees n (by simp [hn]))

theorem vault_run_first (V : Site) (c : Moment × Action) : (vault V).Run (fun _ _ => True)
    [⟨Table.empty, c⟩] ((vault V).step c Table.empty).2 := Machine.Run.start.step trivial

theorem vault_run_step {V : Site} {h : List (vault V).Entry} {t : Vault}
    (hrun : (vault V).Run (fun _ _ => True) h t) (c : Moment × Action) :
    (vault V).Run (fun _ _ => True) (⟨t, c⟩ :: h) ((vault V).step c t).2 := hrun.step trivial

/-! ### A rotation at the site without secrets -/

namespace Sample

def adds : Moment × Action := (moment, .admin (.add (addition scope) false))

def disables : Moment × Action := (moment, .admin (.setStatus mail .disabled))

def rotates : Moment × Action := (moment, .admin (.replaceValue mail [104, 111]))

/-- An entry of the site, by the policy it is read back as. -/
structure Holds (t : Vault) (status : Status) (p : SecretPolicy) : Prop where
  row : ∃ row plaintext, t.find? p.secretRef = some row ∧ Kept site row p plaintext ∧
    plaintext ≠ []
  ref : p.secretRef = mail
  scope : p.scope = scope
  status : p.status = status
  kind : p.kind = .password

theorem holds_stored {s : Sealing site} {t : Vault} {status : Status}
    (hs : s.policy.Settled site.tables) (href : s.policy.secretRef = mail)
    (hscope : s.policy.scope = Sample.scope) (hstatus : s.policy.status = status)
    (hkind : s.policy.kind = .password) :
    ∃ p, Holds ((Effect.stored s).apply moment.now t) status p :=
  ⟨_, ⟨_, s.plaintext, by rw [stored_find]; exact if_pos rfl, put_kept hs _ moment.now, s.nonempty⟩,
    href, (read_back_scope hs (by rw [hscope]; exact scope_checked) _ _).trans hscope, hstatus,
    hkind⟩

/-- The entry is added. -/
theorem holds_added : ∃ p, Holds ((vault site).step adds Table.empty).2 .active p := by
  obtain ⟨s, hs, hp, -⟩ := Sample.added (s := scope) scope_checked authority_written
  have hadd : (Call.add (addition scope) false).effect site moment Table.empty Table.empty =
      .ok (.stored s) := by
    rw [Call.effect, hs]
    rfl
  rw [adds, vault_admin hadd]
  exact holds_stored (hp ▸ policy_settled) (by rw [hp]; rfl) (by rw [hp]; rfl) (by rw [hp]; rfl)
    (by rw [hp]; rfl)

/-- The entry is disabled. -/
theorem holds_disabled {t : Vault} {p : SecretPolicy} (h : Holds t .active p) :
    ∃ q, Holds ((vault site).step disables t).2 .disabled q := by
  obtain ⟨row, plaintext, hrow, hkept, hne⟩ := h.row
  obtain ⟨s, hs, hp, hset⟩ := hkept.status (m := moment) .disabled hrow
    (h.ref ▸ mail_parsed) rfl hne (by rw [h.status]; decide)
  rw [h.ref] at hs
  have hcall : (Call.setStatus mail .disabled).effect site moment t t = .ok (.stored s) := hs
  rw [disables, vault_admin hcall]
  exact holds_stored hset (by rw [hp]; exact h.ref) (by rw [hp]; exact h.scope) (by rw [hp])
    (by rw [hp]; exact h.kind)

theorem holds_status {t : Vault} {status : Status} {p : SecretPolicy} (h : Holds t status p) :
    statusAt t mail = some status := by
  obtain ⟨row, plaintext, hrow, hkept, -⟩ := h.row
  rw [statusAt, policyAt, ← h.ref, hrow, Option.bind_some, hkept.read, Option.map_some, h.status]

/-- The new value enables the entry. -/
theorem rotates_status {t : Vault} {p : SecretPolicy} (h : Holds t .disabled p) :
    statusAt ((vault site).step rotates t).2 mail = some .active := by
  obtain ⟨row, plaintext, hrow, hkept, -⟩ := h.row
  obtain ⟨s, hs, href, hactive⟩ := hkept.replace (m := moment) [104, 111] hrow
    (h.ref ▸ mail_parsed) (h.scope ▸ scope_checked) (h.kind ▸ kind_checked) rfl
    (List.cons_ne_nil _ _) (by decide +kernel)
  rw [h.ref] at hs href
  have hcall : (Call.replaceValue mail [104, 111]).effect site moment t t = .ok (.stored s) := by
    rw [Call.effect, hs]
    rfl
  rw [rotates, vault_admin hcall, stored_status, href, if_pos rfl, hactive]

/-- The run of the two first steps. -/
theorem run_disabled : ∃ h t p, (vault site).Run (fun _ _ => True) h t ∧
    (∀ e ∈ h, e.call = adds ∨ e.call = disables) ∧ Holds t .disabled p := by
  obtain ⟨p, hp⟩ := holds_added
  obtain ⟨q, hq⟩ := holds_disabled hp
  refine ⟨_, _, q, vault_run_step (vault_run_first site adds) disables, ?_, hq⟩
  intro e he
  rcases List.mem_cons.mp he with rfl | he
  · exact Or.inr rfl
  · exact Or.inl (congrArg Machine.Entry.call (List.mem_singleton.mp he))

end Sample

theorem blocked_stays_blocked_sample : ∃ h t, (vault Sample.site).Run (fun _ _ => True) h t ∧
    h ≠ [] ∧ statusAt t Sample.mail = some .disabled := by
  obtain ⟨h, t, p, hrun, hcalls, hp⟩ := Sample.run_disabled
  have hrun' := vault_run_step hrun Sample.adds
  refine ⟨_, _, hrun', List.cons_ne_nil _ _, ?_⟩
  have hrot : Rotations Sample.site (⟨t, Sample.adds⟩ :: h) := by
    intro e he c hc
    have hcall : e.call = Sample.adds ∨ e.call = Sample.disables := by
      rcases List.mem_cons.mp he with rfl | he
      · exact Or.inl rfl
      · exact hcalls e he
    rcases hcall with h | h
    · rw [h] at hc
      obtain rfl := Except.ok.inj hc
      exact ⟨fun _ _ hr => absurd hr.1 Bool.false_ne_true, fun _ _ _ _ hr => by cases hr⟩
    · rw [h] at hc
      obtain rfl := Except.ok.inj hc
      exact ⟨fun _ _ hr => absurd hr id, fun _ _ _ _ hr => by cases hr⟩
  refine (blocked_stays_blocked hrun' hrot).2 [] h ⟨t, Sample.adds⟩ Sample.mail .disabled rfl
    (Sample.holds_status hp) (by decide) ?_
  rintro n hn ⟨c, ⟨hc, -⟩, hfrees⟩
  obtain rfl := List.mem_singleton.mp hn
  obtain rfl := Except.ok.inj hc
  rcases hfrees with h | h
  · exact h
  · exact h

/-- A rotation enables a disabled entry again. -/
theorem rotation_enables : ¬ ∀ (V : Site) (h : List (vault V).Entry) (t : Vault),
    (vault V).Run (fun _ _ => True) h t →
      ∀ e ∈ h, ∀ c, Did V e c → Guarded V e.call.1 e.pre c e.post := by
  intro hall
  obtain ⟨h, t, p, hrun, -, hp⟩ := Sample.run_disabled
  have hpost := Sample.rotates_status hp
  have hrun' := vault_run_step hrun Sample.rotates
  have hstill : statusAt ((vault Sample.site).step Sample.rotates t).2 Sample.mail =
      some .disabled := by
    rcases vault_step (V := Sample.site) ⟨t, Sample.rotates⟩ with
      ⟨c, effect, hr, hc, -, -⟩ | ⟨hsame, -⟩
    · have hg := hall _ _ _ hrun' _ (List.mem_cons_self ..) c ⟨hc, effect, hr⟩
      obtain rfl := Except.ok.inj hc
      rcases hg.blocked Sample.mail .disabled (Sample.holds_status hp) (by decide) with h | h | h
      · exact h
      · exact absurd h id
      · exact absurd h.1 id
    · exact (congrArg (statusAt · Sample.mail) hsame).trans (Sample.holds_status hp)
  have : some Status.active = some Status.disabled := hpost.symm.trans hstill
  cases this

end Solvio.SecretVault
