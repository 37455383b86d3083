import Solvio.Portal.Session

namespace Solvio.Portal.OneWrite
open Solvio.Lib
open Solvio.Lib.Shared (Since since_cons)

variable {T : Texts} {b : PortalBinding T}

abbrev World (b : PortalBinding T) : Type := (session b).World

abbrev Event (b : PortalBinding T) : Type := (session b).Event

/-! ### What a log says -/

/-- The time of a step. -/
def now (e : Event b) : Nat := e.pre.clock + e.call.input.elapsed

/-- The manifest with which a look at the page has passed the drift check. -/
def approves (e : Event b) : Option ActionManifest :=
  match e.call.op, e.call.input.form with
  | .inspect (some m), .got form =>
    if drifted m ⟨form.origin, m.target, (b.probed form).pageSignature⟩ = "" then some m else none
  | _, _ => none

def passed (e : Event b) : Bool := (approves e).isSome

/-- The action and the method of a permit that is issued here. -/
def issues (e : Event b) : Option (String × String) :=
  match e.call.op with
  | .issue actionId method =>
    if (e.pre.permits.issue T actionId b.writeOrigin method (now e)).isSome then
      some (actionId, method)
    else none
  | _ => none

/-- The address and the method of a write that the book lets through. -/
def lets (e : Event b) : Option (String × String) :=
  match e.call.op with
  | .allow url method =>
    if T.uppered method ∈ writeMethods ∧
        (e.pre.permits.allow T url method (now e)).1 = some (true, "") then some (url, method)
    else none
  | _ => none

/-- Every write that got out was approved, and there are no more of them than
approvals. -/
structure Accounted (L : List (Event b)) : Prop where
  counted : L.countP (fun e => (lets e).isSome) ≤ L.countP passed
  approved : ∀ newer e older url method, L = newer ++ e :: older → lets e = some (url, method) →
    ∃ i ∈ older, ∃ look ∈ older, ∃ actionId m, look.call.task = i.call.task ∧
      approves look = some m ∧ issues i = some (actionId, m.method) ∧
      originOf T url = some b.writeOrigin ∧ T.uppered method = T.uppered m.method ∧
      now i ≤ now e ∧ now e ≤ now i + defaultTtl

/-- An execute that has looked at the page and is still at it. -/
def Executing (W : World b) (t : Nat) : Prop :=
  (∃ op k, W.tasks t = some (.ask op k)) ∧
    ∃ e ∈ W.log, e.call.task = t ∧ ∃ m, e.call.op = .inspect (some m)

/-- The task has issued a permit, and has revoked nothing since. -/
def Pending (t : Nat) (L : List (Event b)) : Prop :=
  Since t (fun op : Op => ∀ actionId, op ≠ .revoke actionId) (fun _ e => (issues e).isSome) L

/-- What must not happen while a permit is pending: that the click raises, or that
the execute is cancelled. -/
def Undisturbed (W : World b) : (session b).Move → Prop
  | .spawn _ => True
  | .stop t => ¬ Pending t W.log
  | .act t o => ∀ k, W.tasks t = some (.ask .click k) → Pending t W.log → o.done ≠ .raised

/-! ### The book -/

theorem uppered_write {s : String} (h : s ∈ writeMethods) : T.uppered s = s := by
  have hs : s = "POST" ∨ s = "PUT" ∨ s = "PATCH" ∨ s = "DELETE" := by
    simpa [writeMethods] using h
  unfold Texts.uppered
  rcases hs with rfl | rfl | rfl | rfl
  all_goals rfl

variable {op : Op} {o : Outside} {s : Session} {t : Nat} {L : List (Event b)}

theorem issues_issue {actionId method : String} (e : Event b)
    (he : e.call.op = .issue actionId method) {book : PermitBook}
    (h : e.pre.permits.issue T actionId b.writeOrigin method (now e) = some book) :
    issues e = some (actionId, method) := by
  simp [issues, he, h]

/-- A permit that is open after a step was open before, or is issued here. -/
theorem permits_step {p : WritePermit} (hp : p ∈ (step b op o s).2.permits.permits) :
    (p ∈ s.permits.permits ∧ op ≠ .revoke p.actionId) ∨
      ∃ method book, op = .issue p.actionId method ∧
        s.permits.issue T p.actionId b.writeOrigin method (s.clock + o.elapsed) = some book ∧
        p = { actionId := p.actionId, origin := b.writeOrigin, method := T.uppered method,
              issuedAt := s.clock + o.elapsed } := by
  cases op with
  | reap =>
    simp only [step] at hp
    split at hp
    · exact absurd hp (Table.not_mem_empty p)
    · exact .inl ⟨hp, by simp⟩
  | pop =>
    simp only [step] at hp
    split at hp
    · exact absurd hp (Table.not_mem_empty p)
    · exact .inl ⟨hp, by simp⟩
  | issue actionId method =>
    cases hi : s.permits.issue T actionId b.writeOrigin method (s.clock + o.elapsed) with
    | none =>
      simp only [step, hi] at hp
      exact .inl ⟨hp, by simp⟩
    | some book =>
      simp only [step, hi] at hp
      obtain ⟨-, -, rfl⟩ := PermitBook.issue_some hi
      rcases Table.mem_assign.mp hp with rfl | ⟨hp, -⟩
      · exact .inr ⟨method, _, rfl, hi, rfl⟩
      · exact .inl ⟨hp, by simp⟩
  | revoke actionId =>
    obtain ⟨hp, hne⟩ := Table.mem_delete.mp hp
    exact .inl ⟨hp, fun heq => hne (Op.revoke.inj heq).symm⟩
  | allow url method => exact .inl ⟨PermitBook.mem_allow hp, by simp⟩
  | _ => exact .inl ⟨hp, by simp⟩

theorem clock_step : s.clock ≤ (step b op o s).2.clock := by
  cases op with
  | reap =>
    simp only [step]
    split
    · exact Nat.le_add_right ..
    · exact Nat.le_add_right ..
  | pop =>
    simp only [step]
    split
    · exact Nat.le_add_right ..
    · exact Nat.le_add_right ..
  | issue actionId method =>
    simp only [step]
    split
    · exact Nat.le_add_right ..
    · exact Nat.le_add_right ..
  | _ => exact Nat.le_add_right ..

/-- A step opens at most one permit, and only by issuing it; a write that is let
through costs one. -/
theorem size_step (e : Event b) : (step b e.call.op e.call.input e.pre).2.permits.openPermits +
    (if (lets e).isSome then 1 else 0) ≤
      e.pre.permits.openPermits + (if (issues e).isSome then 1 else 0) := by
  obtain ⟨s, t, op, o⟩ := e
  cases op with
  | reap =>
    simp only [step, lets, issues]
    split
    · simp [Session.gone, PermitBook.openPermits, PermitBook.empty]
    · simp [Session.at]
  | pop =>
    simp only [step, lets, issues]
    split
    · simp [Session.gone, PermitBook.openPermits, PermitBook.empty]
    · simp [Session.at]
  | issue actionId method =>
    cases hi : s.permits.issue T actionId b.writeOrigin method (s.clock + o.elapsed) with
    | none => simp [step, lets, issues, now, hi, Session.at]
    | some book =>
      simpa [step, lets, issues, now, hi, Session.at] using PermitBook.issue_size hi
  | revoke actionId =>
    simpa [step, lets, issues, Session.at] using PermitBook.revoke_size s.permits actionId
  | allow url method =>
    by_cases hlets : T.uppered method ∈ writeMethods ∧
        (s.permits.allow T url method (s.clock + o.elapsed)).1 = some (true, "")
    · simpa [step, lets, issues, now, hlets] using PermitBook.allow_size hlets.1 hlets.2
    · have hsame : (s.permits.allow T url method (s.clock + o.elapsed)).2 = s.permits :=
        PermitBook.allow_same (not_and_or.mp hlets)
      simp [step, lets, issues, now, hlets, hsame]
  | _ => simp [step, lets, issues, Session.at]

/-! ### A permit needs an approval -/

/-- A request that issues no permit. -/
def Quiet (op : Op) : Prop := ∀ actionId method, op ≠ .issue actionId method

/-- The task has passed the drift check for this method, and issued nothing since. -/
def Approved (t : Nat) (method : String) (L : List (Event b)) : Prop :=
  Since t Quiet (fun _ e => ∃ m, approves e = some m ∧ m.method = method) L

def permits (b : PortalBinding T) : (session b).Discipline := fun L a =>
  ∀ actionId method, a.op = .issue actionId method → Approved a.task method L

theorem quiet_permits {L : List (Event b)} {a : (session b).Act} (h : Quiet a.op) :
    permits b L a := fun _ _ heq => absurd heq (h _ _)

abbrev Safe {α : Type} (b : PortalBinding T) (task : Nat) (p : Proc α) (L : List (Event b)) : Prop :=
  Shared.Safe (w := session b) (permits b) task p L (fun _ _ => True)

theorem quiet_safe {α : Type} {task : Nat} {p : Proc α} (h : p.Asks Quiet) : Safe b task p L :=
  Shared.Safe.of_asks h (fun _ _ hop => quiet_permits hop)

theorem quiet_request {op : Op} (h : Quiet op) : (ask op).Asks Quiet := Prog.Asks.request h

theorem farewell_quiet : farewell.Asks Quiet :=
  ⟨fun _ _ => by simp, fun _ => ⟨fun _ _ => by simp, fun _ => trivial⟩⟩

theorem reap_quiet : reap.Asks Quiet := by
  refine ⟨fun _ _ => by simp, fun gone => ?_⟩
  cases gone with
  | true => exact farewell_quiet
  | false => trivial

theorem found_quiet : found.Asks Quiet := by
  refine ⟨fun _ _ => by simp, fun listed => ?_⟩
  cases listed with
  | true => trivial
  | false => trivial

theorem read_page_quiet : readPage.Asks Quiet := by
  refine ⟨fun _ _ => by simp, fun answer => ?_⟩
  cases answer with
  | _ => trivial

theorem probe_action_quiet (approved : Option ActionManifest) :
    (probeAction b approved).Asks Quiet := by
  refine found_quiet.bind (fun _ => ⟨fun _ _ => by simp, fun answer => ?_⟩)
  cases answer with
  | got form => exact ⟨fun _ _ => by simp, fun _ => trivial⟩
  | _ => trivial

theorem fill_all_quiet (secrets : String → Option String) (fs : List FieldBinding) :
    (fillAll secrets fs).Asks Quiet := by
  induction fs with
  | nil => trivial
  | cons f fs ih =>
    unfold fillAll
    split
    · trivial
    · refine ⟨fun _ _ => by simp, fun answer => ?_⟩
      cases answer with
      | got _ => exact ih
      | _ => trivial

theorem submit_quiet {revoke : Proc Unit} (h : revoke.Asks Quiet) : (submit revoke).Asks Quiet := by
  refine ⟨fun _ _ => by simp, fun answer => ?_⟩
  cases answer with
  | raised => trivial
  | unfit => exact h
  | got _ =>
    refine ⟨fun _ _ => by simp, fun _ => h.bind (fun _ => read_page_quiet.bind (fun _ => ?_))⟩
    exact ⟨fun _ _ => by simp, fun _ => trivial⟩

/-- An approval stays one while the task issues nothing. -/
theorem approved_kept (t : Nat) (method : String) :
    Shared.Safe.Kept t Quiet (Approved (b := b) t method) := Since.kept ..

theorem release_safe {task : Nat} {m : ActionManifest} (actionId : String)
    (h : Approved task m.method L) : Safe b task (release T m actionId) L := by
  unfold release
  split
  · simp only [ask, Prog.bind_request]
    intro L' s _ hlater o
    refine ⟨fun id method heq => ?_, ?_⟩
    · cases heq
      exact (approved_kept task m.method).later L L' h hlater
    · dsimp only
      split
      · exact quiet_safe (submit_quiet (quiet_request (fun _ _ => by simp)))
      · trivial
  · exact quiet_safe (submit_quiet trivial)

theorem carry_out_safe {task : Nat} {m : ActionManifest} (secrets : String → Option String)
    (actionId : String) (h : Approved task m.method L) :
    Safe b task (carryOut T m secrets actionId) L := by
  refine (Shared.Safe.of_asks_while (approved_kept task m.method) (fill_all_quiet ..) h
    (fun _ _ _ _ hop => quiet_permits hop)).bind (fun L filled h => ?_)
  cases filled with
  | true => exact release_safe actionId h
  | false => trivial

/-- A look at the page that finds it as it was approved. -/
theorem probe_action_safe (task : Nat) (m : ActionManifest) :
    Shared.Safe (permits b) task (probeAction b (some m)) L (fun L' answer => ∀ live,
      answer = some live → drifted m ⟨live.form.origin, m.target, live.pageSignature⟩ = "" →
        Approved task m.method L') := by
  refine (quiet_safe found_quiet).bind (fun L _ _ L' s _ _ o => ⟨quiet_permits (by simp [Quiet]), ?_⟩)
  cases hform : o.form with
  | got form =>
    simp only [step, hform]
    intro L'' s' _ hlater o'
    refine ⟨quiet_permits (by simp [Quiet]), fun live hlive hsame => ?_⟩
    cases hlive
    have happroves : approves (b := b) ⟨s, ⟨task, .inspect (some m), o⟩⟩ = some m := by
      simp only [approves, hform]
      exact if_pos hsame
    refine (approved_kept task m.method).own L'' s' .touch o' ?_ (by simp [Quiet])
    exact (approved_kept task m.method).later _ _ (Since.now rfl ⟨m, happroves, rfl⟩) hlater
  | raised =>
    simp only [step, hform]
    trivial
  | unfit =>
    simp only [step, hform]
    exact fun live hlive => (by cases hlive)

theorem look_again_safe (task : Nat) (m : ActionManifest) (secrets : String → Option String)
    (actionId : String) : Safe b task (lookAgain b m secrets actionId) L := by
  refine (probe_action_safe task m).bind (fun L answer h => ?_)
  cases answer with
  | none => trivial
  | some live =>
    simp only
    split
    · rename_i hsame
      exact carry_out_safe secrets actionId (h live rfl hsame)
    · trivial

theorem execute_safe (task : Nat) (m : ActionManifest) (secrets : String → Option String)
    (actionId : String) : Safe b task (execute b m secrets actionId) L := by
  refine (quiet_safe found_quiet).bind (fun L _ _ => ?_)
  split
  · exact look_again_safe task m secrets actionId
  · split
    · trivial
    · exact look_again_safe task m secrets actionId
    · trivial

theorem handle_safe {task : Nat} {operation : Proc Unit} (h : ∀ L, Safe b task operation L) :
    Safe b task (handle operation) L := by
  refine (quiet_safe reap_quiet).bind (fun L _ _ => ?_)
  refine (Shared.Safe.attempt (fun _ _ _ => trivial) (h L) trivial).bind (fun _ _ _ => trivial)

theorem close_quiet : closeSession.Asks Quiet := by
  refine ⟨fun _ _ => by simp, fun listed => ?_⟩
  cases listed with
  | true => exact farewell_quiet
  | false => trivial

theorem read_quiet (structured : Bool) : (read structured).Asks Quiet := by
  refine found_quiet.bind (fun _ => ⟨fun _ _ => by simp, fun _ => ?_⟩)
  refine read_page_quiet.bind (fun _ => ?_)
  cases structured with
  | false => trivial
  | true =>
    refine ⟨fun _ _ => by simp, fun answer => ?_⟩
    cases answer with
    | _ => trivial

theorem navigate_quiet (policy : String → Bool) (url : String) :
    (navigate b policy url).Asks Quiet := by
  refine found_quiet.bind (fun _ => ?_)
  split
  · trivial
  · trivial
  · split
    · refine ⟨fun _ _ => by simp, fun answer => ?_⟩
      cases answer with
      | got _ => exact ⟨fun _ _ => by simp, fun _ => read_page_quiet⟩
      | _ => trivial
    · trivial

/-- What is launched issues only what it has seen approved. -/
theorem launchable {p : Proc Unit} (h : Launch b p) : Shared.Launchable (permits b) p := by
  intro task
  cases h with
  | execute m secrets actionId => exact handle_safe (fun _ => execute_safe task m secrets actionId)
  | probe =>
    exact handle_safe (fun _ => quiet_safe ((probe_action_quiet none).bind (fun _ => trivial)))
  | read structured => exact handle_safe (fun _ => quiet_safe (read_quiet structured))
  | navigate policy url => exact handle_safe (fun _ => quiet_safe (navigate_quiet policy url))
  | close => exact handle_safe (fun _ => quiet_safe close_quiet)
  | shutdown => exact quiet_safe close_quiet
  | request url method => exact quiet_safe ⟨fun _ _ => by simp, fun _ => trivial⟩

/-! ### The writes that got out -/

/-- A permit that is open was issued, and nothing about it has changed. -/
def Issued (L : List (Event b)) (p : WritePermit) : Prop :=
  ∃ i ∈ L, ∃ method, issues i = some (p.actionId, method) ∧ p = {
    actionId := p.actionId, origin := b.writeOrigin, method := T.uppered method, issuedAt := now i }

/-- What every run of a session keeps. -/
structure Sound (L : List (Event b)) (s : Session) : Prop where
  issued : ∀ p ∈ s.permits.permits, Issued L p ∧ p.issuedAt ≤ s.clock
  paid : L.countP (fun e => (lets e).isSome) + s.permits.openPermits ≤
    L.countP (fun e => (issues e).isSome)

theorem Sound.start : Sound (b := b) [] (session b).init where
  issued p hp := absurd hp (Table.not_mem_empty p)
  paid := Nat.le_refl 0

theorem Sound.step {a : (session b).Act} (h : Sound L s) :
    Sound (⟨s, a⟩ :: L) (step b a.op a.input s).2 where
  issued p hp := by
    rcases permits_step hp with ⟨hp, -⟩ | ⟨method, book, hop, hissue, hpermit⟩
    · obtain ⟨⟨i, hi, hissued⟩, hclock⟩ := h.issued p hp
      exact ⟨⟨i, List.mem_cons_of_mem _ hi, hissued⟩, Nat.le_trans hclock clock_step⟩
    · have hissues : issues (b := b) ⟨s, a⟩ = some (p.actionId, method) :=
        issues_issue ⟨s, a⟩ hop hissue
      refine ⟨⟨⟨s, a⟩, List.mem_cons_self .., method, hissues, hpermit⟩, ?_⟩
      rw [hpermit, hop]
      simp only [Portal.step, hissue]
      exact Nat.le_refl _
  paid := by
    have hsize := size_step (b := b) ⟨s, a⟩
    have hpaid := h.paid
    rw [List.countP_cons, List.countP_cons]
    simp only at hsize
    omega

theorem sound (h : (session b).machine.Run (permits b) L s) : Sound L s :=
  h.induct Sound .start (fun _ _ _ _ _ ih => ih.step)

theorem issues_op {e : Event b} {actionId method : String} (h : issues e = some (actionId, method)) :
    e.call.op = .issue actionId method ∧ T.uppered method ∈ writeMethods := by
  unfold issues at h
  split at h
  · rename_i hop
    split at h
    · rename_i hissue
      cases h
      obtain ⟨book, hbook⟩ := Option.isSome_iff_exists.mp hissue
      exact ⟨hop, (PermitBook.issue_some hbook).1⟩
    · cases h
  · cases h

theorem lets_op {e : Event b} {url method : String} (h : lets e = some (url, method)) :
    e.call.op = .allow url method ∧ T.uppered method ∈ writeMethods ∧
      (e.pre.permits.allow T url method (now e)).1 = some (true, "") := by
  unfold lets at h
  split at h
  · rename_i hop
    split at h
    · rename_i hlets
      cases h
      exact ⟨hop, hlets⟩
    · cases h
  · cases h

theorem passed_issues {e : Event b} (h : passed e = true) : (issues e).isSome = false := by
  unfold passed approves at h
  split at h
  · rename_i hop _
    simp [issues, hop]
  · cases h

/-- No write gets out that was not approved. -/
theorem accounted (h : (session b).machine.Run (permits b) L s) : Accounted L where
  counted := by
    have hpaid := (sound h).paid
    have hearned : L.countP (fun e => (issues e).isSome) ≤ L.countP passed := by
      refine Shared.earned_count (P := Quiet) (fun e => passed_issues) (fun e he hquiet => ?_)
        (fun newer e older hsplit he => ?_)
      · obtain ⟨⟨actionId, method⟩, hissues⟩ := Option.isSome_iff_exists.mp he
        exact hquiet _ _ (issues_op hissues).1
      · obtain ⟨⟨actionId, method⟩, hissues⟩ := Option.isSome_iff_exists.mp he
        subst hsplit
        obtain ⟨n, v, o, rfl, ht, ⟨m, hm, -⟩, hall⟩ := h.split.2 _ _ (issues_op hissues).1
        exact ⟨n, v, o, rfl, ht, Option.isSome_iff_exists.mpr ⟨m, hm⟩, hall⟩
    omega
  approved newer e older url method hsplit hlets := by
    subst hsplit
    obtain ⟨hrun, -⟩ := h.split
    obtain ⟨hop, hwrite, hallow⟩ := lets_op hlets
    obtain ⟨p, hp, hfits, -⟩ := PermitBook.allow_write hwrite hallow
    obtain ⟨⟨i, hi, method', hissues, hpermit⟩, hclock⟩ := (sound hrun).issued p hp
    obtain ⟨-, hlife, hmethod, horigin⟩ := WritePermit.fits_iff.mp hfits
    obtain ⟨hissue, hupper⟩ := issues_op hissues
    obtain ⟨n, o, rfl, -, happroved⟩ := hrun.of_mem hi
    obtain ⟨n', look, o', rfl, htask, ⟨m, hm, rfl⟩, -⟩ := happroved _ _ hissue
    have hat : p.issuedAt = now i := congrArg WritePermit.issuedAt hpermit
    have hlater : now i ≤ now e := hat ▸ Nat.le_trans hclock (Nat.le_add_right ..)
    refine ⟨i, hi, look, by simp, p.actionId, m, htask, hm, hissues, ?_, ?_, hlater, ?_⟩
    · rw [horigin, congrArg WritePermit.origin hpermit]
    · rw [hmethod, congrArg WritePermit.method hpermit]
      exact uppered_write hupper
    · have httl : p.ttl = defaultTtl := congrArg WritePermit.ttl hpermit
      omega

/-! ### The empty book -/

/-- An issue opens the permit of its action, which its revocation gives back. The
click must not raise. -/
def lease (b : PortalBinding T) : Shared.Lease (session b) String where
  opens
    | .issue actionId _, true => some actionId
    | _, _ => none
  gives
    | .revoke actionId => some actionId
    | _ => none
  smooth
    | .click, answer => answer ≠ .raised
    | _, _ => True

def Open (s : Session) (actionId : String) : Prop :=
  ∃ p ∈ s.permits.permits, p.actionId = actionId

theorem lease_tracks : (lease b).Tracks Open := by
  refine ⟨fun key ⟨p, hp, _⟩ => Table.not_mem_empty p hp, fun op o s key ⟨p, hp, hkey⟩ => ?_⟩
  rcases permits_step hp with ⟨hp, hne⟩ | ⟨method, book, hop, hissue, -⟩
  · refine .inl ⟨⟨p, hp, hkey⟩, fun hgives => hne ?_⟩
    cases op with
    | revoke actionId =>
      cases hgives
      rw [hkey]
    | _ => cases hgives
  · right
    subst hop hkey
    simp only [lease, step, hissue]

theorem quiet_fits {α : Type} {p : Proc α} (h : p.Asks Quiet) : (lease b).Fits p := by
  refine Shared.Lease.Fits.of_asks (fun op r hop => ?_) h
  cases op with
  | issue actionId method => exact absurd rfl (hop actionId method)
  | _ => rfl

/-- Whatever the click answers, its permit is revoked. -/
theorem submit_owes (actionId : String) :
    (lease b).Owes actionId (submit (ask (.revoke actionId))) := by
  refine .inr ⟨rfl, fun answer hanswer => ?_⟩
  cases answer with
  | raised => exact absurd rfl hanswer
  | unfit => exact .inl rfl
  | got _ => exact .inr ⟨rfl, fun _ _ => .inl rfl⟩

theorem release_fits (m : ActionManifest) (actionId : String) :
    (lease b).Fits (release T m actionId) := by
  unfold release
  split
  · intro issued
    cases issued with
    | true =>
      refine ⟨fun key hkey => ?_, quiet_fits (submit_quiet (quiet_request (fun _ _ => by simp)))⟩
      cases hkey
      exact submit_owes actionId
    | false => exact ⟨fun key hkey => (by cases hkey), trivial⟩
  · exact quiet_fits (submit_quiet trivial)

theorem look_again_fits (m : ActionManifest) (secrets : String → Option String)
    (actionId : String) : (lease b).Fits (lookAgain b m secrets actionId) := by
  refine (quiet_fits (probe_action_quiet (some m))).bind (fun answer => ?_)
  cases answer with
  | none => trivial
  | some live =>
    simp only
    split
    · refine (quiet_fits (fill_all_quiet secrets m.fields)).bind (fun filled => ?_)
      cases filled with
      | true => exact release_fits m actionId
      | false => trivial
    · trivial

theorem execute_fits (m : ActionManifest) (secrets : String → Option String) (actionId : String) :
    (lease b).Fits (execute b m secrets actionId) := by
  refine (quiet_fits found_quiet).bind (fun _ => ?_)
  split
  · exact look_again_fits m secrets actionId
  · split
    · trivial
    · exact look_again_fits m secrets actionId
    · trivial

theorem handle_fits {operation : Proc Unit} (h : (lease b).Fits operation) :
    (lease b).Fits (handle operation) :=
  (quiet_fits reap_quiet).bind (fun _ => h.attempt.bind (fun _ => trivial))

theorem launch_fits {p : Proc Unit} (h : Launch b p) : (lease b).Fits p := by
  cases h with
  | execute m secrets actionId => exact handle_fits (execute_fits m secrets actionId)
  | probe =>
    exact handle_fits (quiet_fits ((probe_action_quiet none).bind (fun _ => trivial)))
  | read structured => exact handle_fits (quiet_fits (read_quiet structured))
  | navigate policy url => exact handle_fits (quiet_fits (navigate_quiet policy url))
  | close => exact handle_fits (quiet_fits close_quiet)
  | shutdown => exact quiet_fits close_quiet
  | request url method => exact quiet_fits ⟨fun _ _ => by simp, fun _ => trivial⟩

theorem opens_issues {e : Event b} {actionId : String}
    (h : (lease b).opens e.call.op e.reply = some actionId) : (issues e).isSome = true := by
  obtain ⟨s, t, op, o⟩ := e
  cases op with
  | issue id method =>
    cases hi : s.permits.issue T id b.writeOrigin method (s.clock + o.elapsed) with
    | none => simp [lease, Machine.Entry.reply, step, hi] at h
    | some book => simp [issues, now, hi]
  | _ => cases h

/-- A holder of the lease has a permit pending. -/
theorem holding_pending {t : Nat} {actionId : String} (h : (lease b).Holding t actionId L) :
    Pending t L := by
  refine Shared.Since.mono h (fun op hgives id heq => ?_) (fun _ e hopens => opens_issues hopens)
  subst heq
  cases hgives

theorem undisturbed_regular {W : World b} {m : (session b).Move} (h : Undisturbed W m) :
    (lease b).Regular W m := by
  cases m with
  | spawn p => trivial
  | stop t => exact fun key hholding => h (holding_pending hholding)
  | act t o =>
    intro op k key hask hholding
    cases op with
    | click => exact h k hask (holding_pending hholding)
    | _ => trivial

theorem pending_looked {W : World b} {t : Nat} (hrun : (session b).machine.Run (permits b) W.log s)
    (h : Pending t W.log) : ∃ e ∈ W.log, e.call.task = t ∧ ∃ m, e.call.op = .inspect (some m) := by
  obtain ⟨newer, e, older, hsplit, rfl, hissues, -⟩ := h
  obtain ⟨⟨actionId, method⟩, hissues⟩ := Option.isSome_iff_exists.mp hissues
  rw [hsplit] at hrun ⊢
  obtain ⟨n, look, o, rfl, ht, ⟨m, hm, -⟩, -⟩ := hrun.split.2 _ _ (issues_op hissues).1
  refine ⟨look, by simp, ht, m, ?_⟩
  unfold approves at hm
  split at hm
  · rename_i hop _
    split at hm
    · cases hm
      exact hop
    · cases hm
  · cases hm

/-- Whatever runs on a session and whatever its page asks for: each approved
action lets at most one write out, to the write origin of the binding, with the
method of the manifest and before the permit is too old. And as long as no click
raises and no execute is cancelled while its permit is pending, no permit is open
without an execute that is at it. -/
theorem one_write_per_approval (b : PortalBinding T) :
    (∀ W : World b, Shared.World.Reach (Launch b) W → Accounted W.log) ∧
    ∀ W : World b, Shared.World.ReachIf (Launch b) Undisturbed W → (∀ t, ¬ Executing W t) →
      W.state.permits.openPermits = 0 := by
  refine ⟨fun W h => accounted (h.disciplined (fun p => launchable)).run, fun W h hidle => ?_⟩
  refine Table.size_zero (fun p hp => ?_)
  have hkept := Shared.Lease.held_open lease_tracks (fun p => launch_fits)
    (fun W m => undisturbed_regular) h
  obtain ⟨t, q, hq, howes, hholding⟩ := hkept.owed p.actionId ⟨p, hp, rfl⟩
  obtain ⟨op, k, rfl⟩ := howes.asks
  exact hidle t ⟨⟨op, k, hq⟩, pending_looked (h.reach.disciplined (fun p => launchable)).run
    (holding_pending hholding)⟩

/-! ### Sample runs -/

def plain : Texts where
  lower := id
  bracketed _ := true
  compatible _ := true
  lower_break _ h := h
  lower_last _ h := h
  upper := id

/-- `DEMO_BINDING`. -/
def demoBinding : PortalBinding plain where
  portalId := "demo-secure-area"
  loginUrl := "https://the-internet.herokuapp.com/login"
  loginOrigin := "https://the-internet.herokuapp.com"
  usernameSelector := "#username"
  passwordSelector := "#password"
  submitSelector := "#login button[type=submit]"
  formSelector := "#login"
  credentialAlias := "portal:demo-secure-area"
  successMarker := "You logged into a secure area!"
  complete := by decide
  recognisable := by decide
  located := by decide

def loginForm : Form where
  origin := "https://the-internet.herokuapp.com"
  url := "https://the-internet.herokuapp.com/login"
  action := "/authenticate"
  method := "POST"
  fields := ["username", "password"]

def loginManifest : ActionManifest where
  portalId := "demo-secure-area"
  origin := "https://the-internet.herokuapp.com"
  pageUrl := "https://the-internet.herokuapp.com/login"
  actionType := .login
  target := "#login"
  method := "POST"
  pageSignature := pageSignature plain loginForm "#login"
  fields := [{ name := "Benutzer", selector := "#username", aliasName := "user" }]
  credentialAlias := "portal:demo-secure-area"
  absolute := by decide

def login : Proc Unit := handle (execute demoBinding loginManifest (fun _ => some "tom") "a1")

def post : Proc Unit := pageRequest "https://the-internet.herokuapp.com/authenticate" "POST"

def calm (task : Nat) : Nat × Outside := (task, {})

/-- As far as the permit: `_reap`, two lookups, the look, its time, a field, the issue. -/
def untilIssued : List (Nat × Outside) :=
  [calm 0, calm 0, calm 0, (0, { form := .got loginForm }), calm 0, calm 0, calm 0]

/-- The page writes once while the worker waits. -/
def untilDone : List (Nat × Outside) :=
  untilIssued ++ [calm 0, calm 1, calm 0, calm 0, calm 0, calm 0]

/-- The evaluation of the click fails. -/
def untilFailed : List (Nat × Outside) := untilIssued ++ [(0, { done := .raised })]

def run (acts : List (Nat × Outside)) : World demoBinding :=
  Shared.World.play (session demoBinding) [login, post] acts

theorem sample_launch : ∀ p ∈ [login, post], Launch demoBinding p := by
  intro p hp
  simp only [List.mem_cons, List.not_mem_nil, or_false] at hp
  rcases hp with rfl | rfl
  · exact .execute ..
  · exact .request ..

theorem run_reach (acts : List (Nat × Outside)) :
    Shared.World.Reach (Launch demoBinding) (run acts) := by
  unfold run
  exact Shared.World.Reach.play (w := session demoBinding) sample_launch acts

/-- Where nothing is raised, a run is undisturbed. -/
theorem run_undisturbed {acts : List (Nat × Outside)} (h : ∀ a ∈ acts, a.2.done ≠ .raised) :
    Shared.World.ReachIf (Launch demoBinding) Undisturbed (run acts) := by
  unfold run Shared.World.play
  refine Shared.World.ReachIf.moves .start (fun p hp => ?_) (fun m hm W => ?_)
  · rcases List.mem_append.mp hp with hp | hp
    · obtain ⟨q, hq, heq⟩ := List.mem_map.mp hp
      cases heq
      exact sample_launch _ hq
    · obtain ⟨a, -, ha⟩ := List.mem_map.mp hp
      cases ha
  · rcases List.mem_append.mp hm with hm | hm
    · obtain ⟨q, -, rfl⟩ := List.mem_map.mp hm
      trivial
    · obtain ⟨a, ha, rfl⟩ := List.mem_map.mp hm
      exact fun _ _ _ => h a ha

/-- Whether a task is not at its end. -/
def running : Option (Proc Unit) → Bool
  | some (.ask _ _) => true
  | _ => false

def inspects : Op → Bool
  | .inspect (some _) => true
  | _ => false

/-- The login has ended, and the page has only asked for what it writes. -/
def Over (W : World demoBinding) : Prop :=
  running (W.tasks 0) = false ∧ W.next = 2 ∧
    W.log.any (fun e => e.call.task = 1 && inspects e.call.op) = false

instance (W : World demoBinding) : Decidable (Over W) := inferInstanceAs (Decidable (_ ∧ _ ∧ _))

theorem run_idle {acts : List (Nat × Outside)} (h : Over (run acts)) :
    ∀ t, ¬ Executing (run acts) t := by
  obtain ⟨h0, hnext, h1⟩ := h
  rintro t ⟨⟨op, k, hask⟩, e, he, rfl, m, hop⟩
  have hlt := (run_reach acts).spawned hask
  rw [hnext] at hlt
  rcases Nat.lt_succ_iff_lt_or_eq.mp hlt with hlt | h
  · rw [Nat.lt_one_iff.mp hlt] at hask
    rw [hask] at h0
    cases h0
  · have := List.any_eq_false.mp h1 e he
    simp [h, hop, inspects] at this

theorem done_over : Over (run untilDone) ∧
    (run untilDone).log.countP (fun e => (lets e).isSome) = 1 := by decide +kernel

/-- One write got out, and the book is empty. -/
theorem one_write_logged_in :
    Accounted (run untilDone).log ∧ (run untilDone).log.countP (fun e => (lets e).isSome) = 1 ∧
      (run untilDone).state.permits.openPermits = 0 :=
  ⟨(one_write_per_approval demoBinding).1 _ (run_reach untilDone), done_over.2,
    (one_write_per_approval demoBinding).2 _ (run_undisturbed (by decide)) (run_idle done_over.1)⟩

theorem failed_over : Over (run untilFailed) ∧
    (run untilFailed).state.permits.openPermits = 1 ∧
      (step demoBinding (.allow "https://the-internet.herokuapp.com/delete" "POST") {}
        (run untilFailed).state).1 = some (true, "") := by decide +kernel

/-- A permit is left over when the click fails, and the next write of the page
gets out on it, though nothing is being executed. -/
theorem permit_left_open : ∃ W : World demoBinding, Shared.World.Reach (Launch demoBinding) W ∧
    (∀ t, ¬ Executing W t) ∧ W.state.permits.openPermits = 1 ∧
      (step demoBinding (.allow "https://the-internet.herokuapp.com/delete" "POST") {}
        W.state).1 = some (true, "") :=
  ⟨run untilFailed, run_reach untilFailed, run_idle failed_over.1, failed_over.2⟩

end Solvio.Portal.OneWrite
