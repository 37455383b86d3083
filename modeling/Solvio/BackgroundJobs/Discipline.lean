import Solvio.BackgroundJobs.Final

namespace Solvio.BackgroundJobs.RunsOnce
open Solvio.Lib

/-! ### What the programs keep to -/

section
variable {task : Nat} {L L' : List Event} {id : String}

/-- A step of a task. -/
abbrev event (t : Ledger) (task : Nat) (op : Op) (o : Outside) : Event := ⟨t, ⟨task, op, o⟩⟩

theorem fresh_kept (task : Nat) (id : String) :
    Shared.Safe.Kept (w := shared) task (fun op => ¬ Looks op id) (Fresh task id) :=
  Shared.Since.kept ..

theorem again_later {status : LocalJobStatus} (h : Again task id status L)
    (hl : Shared.Later task L L') : Again task id status L' :=
  (Shared.Since.kept task _ _).later L L' h hl

theorem seen_later {p : Job → Prop} (h : Seen L id p) (hl : Shared.Later task L L') :
    Seen L' id p := by
  obtain ⟨v, hv, row, hrow, hp⟩ := h
  exact ⟨v, hl.mem hv, row, hrow, hp⟩

theorem seen_cons {p : Job → Prop} (e : Event) (h : Seen L id p) : Seen (e :: L) id p := by
  obtain ⟨v, hv, row, hrow, hp⟩ := h
  exact ⟨v, List.mem_cons_of_mem e hv, row, hrow, hp⟩

/-- A row that has just been read. -/
theorem fresh_get {t : Ledger} {o : Outside} {row : Job} (hrow : t.find? id = some row)
    (hopen : row.status.terminal = false) : Fresh task id (event t task (.get id) o :: L) :=
  Shared.Since.now rfl ⟨rfl, row, hrow, hopen⟩

theorem seen_get {t : Ledger} {o : Outside} {row : Job} {p : Job → Prop}
    (hrow : t.find? id = some row) (hp : p row) : Seen (event t task (.get id) o :: L) id p :=
  ⟨_, List.mem_cons_self .., row, hrow, hp⟩

theorem fresh_cons {e : Event} (he : ¬ Looks e.call.op id) (h : Fresh task id L) :
    Fresh task id (e :: L) := Shared.since_cons.mpr (.inr ⟨fun _ => he, h⟩)

theorem fresh_later (h : Fresh task id L) (hl : Shared.Later task L L') : Fresh task id L' :=
  (fresh_kept task id).later L L' h hl

theorem submit_safe (node : String) (s : Submission) :
    Shared.Safe permits task (submit id node s) L (fun _ _ => True) := by
  simp only [submit, ask, Prog.bind_request]
  intro L₁ t₁ _ _ o₁
  refine ⟨⟨rfl, rfl⟩, ?_⟩
  cases hinsert : t₁.insert? (pendingJob id node s) with
  | none =>
    simp only [step, hinsert]
    trivial
  | some t' =>
    simp only [step, hinsert, if_true]
    have hrow : t'.find? id = some (pendingJob id node s) := by
      rw [Table.find_insert hinsert]
      exact if_pos rfl
    have hpost : (event t₁ task (.createPending (pendingJob id node s)) o₁).post = t' := by
      change (step _ _ _).2 = t'
      simp only [step, hinsert]
    have hfresh : Fresh task id (event t₁ task (.createPending (pendingJob id node s)) o₁ :: L₁) := by
      refine Shared.Since.now rfl ⟨rfl, ?_⟩
      rw [hpost]
      exact ⟨_, hrow, rfl⟩
    have hseen : ∀ p : Job → Prop, p (pendingJob id node s) →
        Seen (event t₁ task (.createPending (pendingJob id node s)) o₁ :: L₁) id p :=
      fun p hp => ⟨_, List.mem_cons_self .., _, hpost ▸ hrow, hp⟩
    intro L₂ t₂ _ hl₂ o₂
    refine ⟨⟨fresh_later hfresh hl₂, seen_later (hseen _ rfl) hl₂, seen_later (hseen _ rfl) hl₂⟩, ?_⟩
    have hfresh₂ := fresh_cons (e := event t₂ task (.submitJob id node s) o₂) (fun h => h)
      (fresh_later hfresh hl₂)
    cases hanswer : o₂.submitted with
    | ok remote =>
      simp only [step, hanswer]
      exact fun L₃ t₃ _ hl₃ o₃ => ⟨fresh_later hfresh₂ hl₃, trivial⟩
    | error e =>
      simp only [step, hanswer]
      cases e <;> trivial

/-- A new status for a job that the node has. -/
theorem refreshed_permits {t : Ledger} {o : Outside} {row : Job} (hrow : t.find? id = some row)
    (hopen : row.status.terminal = false) (hremote : row.remoteJobId.isSome)
    (hl : Shared.Later task (event t task (.get id) o :: L) L') :
    Fresh task id L' ∧ Seen L' id (fun row => row.remoteJobId.isSome) :=
  ⟨fresh_later (fresh_get hrow hopen) hl, seen_later (seen_get hrow hremote) hl⟩

theorem refresh_safe : Shared.Safe permits task (refresh id) L (fun _ _ => True) := by
  simp only [refresh, ask, Prog.bind_request]
  intro L₁ t₁ _ _ o₁
  refine ⟨trivial, ?_⟩
  cases hrow : t₁.find? id with
  | none =>
    simp only [step, hrow]
    trivial
  | some row =>
    simp only [step, hrow]
    cases hremote : row.remoteJobId with
    | none => trivial
    | some remote =>
      simp only
      by_cases hended : row.status.terminal = true
      · rw [if_pos hended]
        trivial
      · rw [if_neg hended]
        have hgoes : ∀ L₂ t₂ o₂, Shared.Later task (event t₁ task (.get id) o₁ :: L₁) L₂ →
            ∀ L₃, Shared.Later task (event t₂ task (.getJob id row.nodeId remote) o₂ :: L₂) L₃ →
              Fresh task id L₃ ∧ Seen L₃ id (fun row => row.remoteJobId.isSome) := by
          intro L₂ t₂ o₂ hl₂ L₃ hl₃
          obtain ⟨hfresh, hseen⟩ := refreshed_permits hrow (by simpa using hended)
            (by rw [hremote]; rfl) hl₂
          refine ⟨fresh_later (fresh_cons ?_ hfresh) hl₃, seen_later (seen_cons _ hseen) hl₃⟩
          exact fun h => h
        intro L₂ t₂ _ hl₂ o₂
        refine ⟨trivial, ?_⟩
        cases hanswer : o₂.jobMeta with
        | error e =>
          simp only [step, hanswer]
          split
          · simp only [noteUnknown, ask, Prog.bind_request, Prog.bind_ask]
            intro L₃ t₃ _ hl₃ o₃
            obtain ⟨hfresh, hseen⟩ := hgoes L₂ t₂ o₂ hl₂ L₃ hl₃
            exact ⟨⟨.inl hfresh, fun _ => hseen⟩, fun L₄ t₄ _ _ o₄ => ⟨trivial, trivial⟩⟩
          · trivial
        | ok m =>
          simp only [step, hanswer, noteMeta, ask, Prog.bind_request, Prog.bind_ask]
          intro L₃ t₃ _ hl₃ o₃
          obtain ⟨hfresh, hseen⟩ := hgoes L₂ t₂ o₂ hl₂ L₃ hl₃
          exact ⟨⟨.inl hfresh, fun _ => hseen⟩, fun L₄ t₄ _ _ o₄ => ⟨trivial,
            fun L₅ t₅ _ _ o₅ => ⟨trivial, trivial⟩⟩⟩

theorem cancel_safe : Shared.Safe permits task (cancel id) L (fun _ _ => True) := by
  simp only [cancel, ask, Prog.bind_request]
  intro L₁ t₁ _ _ o₁
  refine ⟨trivial, ?_⟩
  cases hrow : t₁.find? id with
  | none =>
    simp only [step, hrow]
    trivial
  | some row =>
    simp only [step, hrow]
    cases hremote : row.remoteJobId with
    | none =>
      simp only
      intro L₂ t₂ _ hl₂ o₂
      refine ⟨⟨?_, fun hne => absurd rfl hne⟩, trivial⟩
      by_cases hended : row.status.terminal = true
      · exact .inr (.inr ⟨rfl, seen_later (seen_get hrow ⟨hremote, hended⟩) hl₂⟩)
      · exact .inl (fresh_later (fresh_get hrow (by simpa using hended)) hl₂)
    | some remote =>
      simp only
      intro L₂ t₂ _ hl₂ o₂
      refine ⟨trivial, ?_⟩
      cases hanswer : o₂.cancelled with
      | error e =>
        simp only [step, hanswer]
        trivial
      | ok answer =>
        simp only [step, hanswer]
        intro L₃ t₃ _ hl₃ o₃
        have hseen : Seen L₂ id (fun row => row.remoteJobId.isSome) :=
          seen_later (seen_get hrow (by rw [hremote]; rfl)) hl₂
        refine ⟨⟨?_, fun _ => seen_later (seen_cons _ hseen) hl₃⟩, trivial⟩
        by_cases hended : row.status.terminal = true
        · have hbefore : ∃ v ∈ L₂, Ended v.post id :=
            ⟨_, hl₂.mem (List.mem_cons_self ..), row, hrow, hended⟩
          exact .inr (.inl (again_later (Shared.Since.now rfl
            ⟨⟨row.nodeId, remote, answer, rfl, hanswer, rfl⟩, hbefore⟩) hl₃))
        · have hfresh := fresh_later (fresh_get hrow (by simpa using hended)) hl₂
          refine .inl (fresh_later (fresh_cons ?_ hfresh) hl₃)
          exact fun h => h

theorem result_safe : Shared.Safe permits task (result id) L (fun _ _ => True) := by
  refine Shared.Safe.of_asks (P := fun op : Op => ∃ k, op = .get k ∨ ∃ n r, op = .getJobResult k n r) ?_ ?_
  · simp only [result, ask, Prog.bind_request]
    refine ⟨⟨id, .inl rfl⟩, fun spec => ?_⟩
    cases spec with
    | none => trivial
    | some spec =>
      simp only
      split
      · trivial
      · refine ⟨⟨_, .inr ⟨_, _, rfl⟩⟩, fun r => ?_⟩
        cases r <;> trivial
  · rintro L a ⟨k, hop | ⟨n, r, hop⟩⟩ <;> simp only [permits, hop]

/-! A reconciliation. -/

/-- The program reads no other row. -/
def OnlyLooks (id : String) (op : Op) : Prop := ∀ k, Looks op k → k = id

theorem note_only (spec : Job) (m : JobMeta) : (noteMeta id spec m).Asks (OnlyLooks id) := by
  simp only [noteMeta, ask, Prog.bind_request]
  exact ⟨fun _ h => h.elim, fun _ => ⟨fun _ h => h.elim, fun _ => ⟨fun _ h => h.symm, fun _ => trivial⟩⟩⟩

theorem unknown_only : (noteUnknown id).Asks (OnlyLooks id) := by
  simp only [noteUnknown, ask, Prog.bind_request]
  exact ⟨fun _ h => h.elim, fun _ => ⟨fun _ h => h.symm, fun _ => trivial⟩⟩

theorem refresh_only : (refresh id).Asks (OnlyLooks id) := by
  simp only [refresh, ask, Prog.bind_request]
  refine ⟨fun _ h => h.symm, fun spec => ?_⟩
  cases spec with
  | none => trivial
  | some spec =>
    dsimp only
    split
    · trivial
    · split
      · trivial
      · refine ⟨fun _ h => h.elim, fun answer => ?_⟩
        cases answer with
        | error e =>
          dsimp only
          split
          · exact unknown_only.bind (fun _ => trivial)
          · trivial
        | ok m => exact (note_only spec m).bind (fun _ => trivial)

theorem resend_only (out : Counts) (spec : Job) :
    (resend out spec).Asks (OnlyLooks spec.localJobId) := by
  simp only [resend, ask, Prog.bind_request]
  refine ⟨fun _ h => h.elim, fun info => ?_⟩
  cases info with
  | none => trivial
  | some info =>
    refine ⟨fun _ h => h.elim, fun answer => ?_⟩
    cases answer with
    | error e => cases e <;> trivial
    | ok remote => exact ⟨fun _ h => h.elim, fun _ => trivial⟩

theorem one_only (out : Counts) (spec : Job) :
    (reconcileOne out spec).Asks (OnlyLooks spec.localJobId) := by
  unfold reconcileOne
  split
  · exact resend_only out spec
  · refine refresh_only.bind (fun answer => ?_)
    rcases answer with e | _ | updated
    · cases e <;> trivial
    · trivial
    · dsimp only
      split <;> trivial

theorem resend_safe {out : Counts} {spec : Job} (hfresh : Fresh task spec.localJobId L)
    (hnode : Seen L spec.localJobId (fun row => row.nodeId = spec.nodeId)) :
    Shared.Safe permits task (resend out spec) L (fun _ _ => True) := by
  simp only [resend, ask, Prog.bind_request]
  intro L₁ t₁ _ hl₁ o₁
  refine ⟨trivial, ?_⟩
  cases hrow : t₁.find? spec.localJobId with
  | none =>
    simp only [step, hrow, Option.map_none]
    trivial
  | some row =>
    simp only [step, hrow, Option.map_some]
    have hfresh₁ := fresh_cons (e := event t₁ task (.resendInfo spec.localJobId) o₁) (fun h => h)
      (fresh_later hfresh hl₁)
    have hseen : Seen (event t₁ task (.resendInfo spec.localJobId) o₁ :: L₁) spec.localJobId
        (fun other => other.submission = row.submission) :=
      ⟨_, List.mem_cons_self .., row, hrow, rfl⟩
    intro L₂ t₂ _ hl₂ o₂
    refine ⟨⟨fresh_later hfresh₁ hl₂, seen_later (seen_cons _ (seen_later hnode hl₁)) hl₂,
      seen_later hseen hl₂⟩, ?_⟩
    cases hanswer : o₂.submitted with
    | error e =>
      simp only [step, hanswer]
      cases e <;> trivial
    | ok remote =>
      simp only [step, hanswer]
      intro L₃ t₃ _ hl₃ o₃
      refine ⟨fresh_later (fresh_cons ?_ (fresh_later hfresh₁ hl₂)) hl₃, trivial⟩
      exact fun h => h

/-- What the rest of the loop goes by. -/
def Owing (task : Nat) (jobs : List Job) (L : List Event) : Prop :=
  (jobs.map Job.localJobId).Nodup ∧ ∀ spec ∈ jobs, Fresh task spec.localJobId L ∧
    Seen L spec.localJobId (fun row => row.nodeId = spec.nodeId)

theorem owing_kept (jobs : List Job) : Shared.Safe.Kept (w := shared) task
    (fun op => ∀ spec ∈ jobs, ¬ Looks op spec.localJobId) (Owing task jobs) where
  later _ _ h hl := ⟨h.1, fun spec hspec =>
    ⟨fresh_later (h.2 spec hspec).1 hl, seen_later (h.2 spec hspec).2 hl⟩⟩
  own _ _ _ _ h hop := ⟨h.1, fun spec hspec =>
    ⟨fresh_cons (hop spec hspec) (h.2 spec hspec).1, seen_cons _ (h.2 spec hspec).2⟩⟩

theorem one_safe (out : Counts) (spec : Job) (jobs : List Job) (L : List Event)
    (h : Owing task (spec :: jobs) L) :
    Shared.Safe permits task (reconcileOne out spec) L (fun L _ => Owing task jobs L) := by
  obtain ⟨hdistinct, hall⟩ := h
  obtain ⟨hfresh, hnode⟩ := hall spec (List.mem_cons_self ..)
  obtain ⟨hnot, hdistinct⟩ := List.nodup_cons.mp hdistinct
  have hsafe : Shared.Safe permits task (reconcileOne out spec) L (fun _ _ => True) := by
    unfold reconcileOne
    split
    · exact resend_safe hfresh hnode
    · refine refresh_safe.bind (fun L answer _ => ?_)
      rcases answer with e | _ | updated
      · cases e <;> trivial
      · trivial
      · dsimp only
        split <;> trivial
  have hasks := (one_only out spec).mono (R := fun op => ∀ other ∈ jobs, ¬ Looks op other.localJobId)
    (fun op hop other hother hlooks => hnot (hop _ hlooks ▸ List.mem_map_of_mem hother))
  have hrest : Owing task jobs L := ⟨hdistinct, fun s hs => hall s (List.mem_cons_of_mem _ hs)⟩
  exact (hsafe.keeps (owing_kept jobs) hasks hrest).conseq (fun L _ h => h.2)

theorem reconcile_safe : Shared.Safe permits task reconcile L (fun _ _ => True) := by
  simp only [reconcile, ask, Prog.bind_request]
  intro L₁ t₁ _ _ o₁
  refine ⟨trivial, ?_⟩
  refine (Shared.Safe.foldlM (I := Owing task) one_safe ?_).conseq (fun _ _ _ => trivial)
  refine ⟨(t₁.distinct.sublist (List.filter_sublist.map _)), fun spec hspec => ?_⟩
  obtain ⟨hmem, hopen⟩ := List.mem_filter.mp hspec
  have hrow : t₁.find? spec.localJobId = some spec := Table.find_of_mem hmem
  refine ⟨Shared.Since.now rfl ⟨trivial, spec, hrow, by simpa using hopen⟩, ?_⟩
  exact ⟨_, List.mem_cons_self .., spec, hrow, rfl⟩

theorem launchable {p : Proc Unit} (h : Launch p) : Shared.Launchable permits p := by
  intro task
  cases h with
  | submit id node s => exact (submit_safe node s).bind (fun _ _ _ => trivial)
  | refresh id => exact refresh_safe.bind (fun _ _ _ => trivial)
  | result id => exact result_safe.bind (fun _ _ _ => trivial)
  | cancel id => exact cancel_safe.bind (fun _ _ _ => trivial)
  | reconcile => exact reconcile_safe.bind (fun _ _ _ => trivial)

theorem submit_only (node : String) (s : Submission) : (submit id node s).Asks (OnlyLooks id) := by
  simp only [submit, ask, Prog.bind_request]
  refine ⟨fun _ h => h.symm, fun created => ?_⟩
  cases created with
  | false => trivial
  | true =>
    refine ⟨fun _ h => h.elim, fun answer => ?_⟩
    cases answer with
    | error e => cases e <;> trivial
    | ok remote => exact ⟨fun _ h => h.elim, fun _ => trivial⟩

theorem cancel_only : (cancel id).Asks (OnlyLooks id) := by
  simp only [cancel, ask, Prog.bind_request]
  refine ⟨fun _ h => h.symm, fun spec => ?_⟩
  cases spec with
  | none => trivial
  | some spec =>
    dsimp only
    split
    · exact ⟨fun _ h => h.elim, fun _ => trivial⟩
    · refine ⟨fun _ h => h.elim, fun answer => ?_⟩
      cases answer with
      | error e => trivial
      | ok status => exact ⟨fun _ h => h.elim, fun _ => trivial⟩

theorem result_only : (result id).Asks (OnlyLooks id) := by
  simp only [result, ask, Prog.bind_request]
  refine ⟨fun _ h => h.symm, fun spec => ?_⟩
  cases spec with
  | none => trivial
  | some spec =>
    dsimp only
    split
    · trivial
    · refine ⟨fun _ h => h.elim, fun answer => ?_⟩
      cases answer <;> trivial

theorem not_listing {op : Op} (h : OnlyLooks id op) : op ≠ .listNonTerminal := by
  rintro rfl
  have hone : id ++ "x" = id := h _ trivial
  have hlength := congrArg String.length hone
  simp at hlength

end

end Solvio.BackgroundJobs.RunsOnce
