import Solvio.Communication.Confirming
import Solvio.Communication.Tables
import Solvio.Lib.Lease

namespace Solvio.Communication.Confirmed
open Solvio.Lib Solvio.Capabilities

variable {T : Writing}

/-! ### Processes on one store -/

/-- Every `get` and every transaction of `confirm` is one step. A look carries from where
its text is asked, and a write besides what was signed. -/
inductive Op where
  | look (w : Wanted) (origin : OriginClass)
  | write (w : Wanted) (expected signed : String) (origin : OriginClass)
deriving DecidableEq

abbrev Reply (T : Writing) : Op → Type
  | .look _ _ => Option (Row T)
  | .write _ _ _ _ => Outcome

/-- The input is `time.time()`. -/
def step : (op : Op) → Nat → Store T → Reply T op × Store T
  | .look w _, _, s => (s.get w.aliasName, s)
  | .write w expected _ _, now, s => s.confirm w expected now

abbrev bindings (init : Store T) : Shared (Store T) where
  Op := Op
  Input := Nat
  Reply := Reply T
  step := step
  init := init

abbrev Proc (T : Writing) (α : Type) : Type := Prog Op (Reply T) α

def ask (op : Op) : Proc T (Reply T op) := Prog.request op

def tool : String := "communication_confirm_binding"

/-- `approval_digest` of the text. -/
def digestOf (w : Wanted) (before : Option (Row T)) (origin : OriginClass) : String :=
  approvalDigest tool (textOf w before origin)

/-- `describe_confirm_binding`. -/
def describeConfirm (a : Arguments) (origin : OriginClass) : Proc T Unit := do
  match requested T a with
  | none => return ()
  | some w =>
    let _ ← ask (.look w origin)
    return ()

/-- `confirm_binding` of a process that was approved for what was signed. -/
def confirmBinding (a : Arguments) (signed : String) (origin : OriginClass) : Proc T Unit := do
  match requested T a with
  | none => return ()
  | some w =>
    let before ← ask (.look w origin)
    if digestOf w before origin ≠ signed then return ()
    else
      let _ ← ask (.write w (fingerprint before) signed origin)
      return ()

inductive Launch (T : Writing) : Proc T Unit → Prop
  | describe (a : Arguments) (origin : OriginClass) : Launch T (describeConfirm a origin)
  | confirm (a : Arguments) (signed : String) (origin : OriginClass) :
    Launch T (confirmBinding a signed origin)

/-! ### What a log says -/

variable {init : Store T}

abbrev World (init : Store T) : Type := (bindings init).World

abbrev Event (init : Store T) : Type := (bindings init).Event

/-- What a step is about. -/
def about (e : Event init) : Wanted × OriginClass :=
  match e.call.op with
  | .look w origin => (w, origin)
  | .write w _ _ origin => (w, origin)

/-- The row that a step meets. -/
def met (e : Event init) : Option (Row T) := e.pre.get (about e).1.aliasName

def wrote (e : Event init) : Bool :=
  match e.call.op with
  | .write w expected _ _ => (e.pre.confirm w expected e.call.input).1 = .written
  | _ => false

/-- What is hashed at a step. -/
def hashedAt (e : Event init) : List Bytes :=
  approvalBytes tool (textOf (about e).1 (met e) (about e).2) :: hashed (met e)

/-- No two different things of a log have the same hash. -/
def NoCollision (L : List (Event init)) : Prop :=
  ∀ x ∈ L.flatMap hashedAt, ∀ y ∈ L.flatMap hashedAt, sha256 x = sha256 y → x = y

/-- The key of a binding. -/
def Wanted.key (T : Writing) (w : Wanted) : String := normalizeAlias T.toTextTables w.aliasName

def versionOf (row : Option (Row T)) : Nat := (row.map Row.version).getD 0

/-- What was written was signed, as it was shown of what it replaced. -/
structure Authorised (L : List (Event init)) (s : Store T) : Prop where
  signed : ∀ newer e older w expected signed origin, L = newer ++ e :: older →
    e.call.op = .write w expected signed origin → wrote e = true →
    digestOf w (met e) origin = signed ∧ ∀ v ∈ older,
      digestOf (about v).1 (met v) (about v).2 = signed → met v = met e
  quiet : ∀ e ∈ L, wrote e = false → (step e.call.op e.call.input e.pre).2 = e.pre
  next : ∀ e ∈ L, wrote e = true →
    ((step e.call.op e.call.input e.pre).2.find? (Wanted.key T (about e).1)).map Row.version =
      some (versionOf (met e) + 1)
  counted : ∀ key, versionOf (s.find? key) = versionOf (init.find? key) +
    L.countP (fun e => wrote e && decide (Wanted.key T (about e).1 = key))

/-! ### A step -/

theorem confirm_key (w : Wanted) : normalizeAlias T.toTextTables (collapsed w.aliasName) =
    Wanted.key T w := T.norm_collapsed w.aliasName

theorem confirm_current (s : Store T) (w : Wanted) :
    s.get (normalizeAlias T.toTextTables (collapsed w.aliasName)) = s.get w.aliasName := by
  rw [confirm_key, Store.get, Wanted.key, T.norm_again]
  rfl

variable {L : List (Event init)}

/-- A step that writes nothing changes nothing. -/
theorem quiet_step (e : Event init) (h : wrote e = false) :
    (step e.call.op e.call.input e.pre).2 = e.pre := by
  obtain ⟨s, t, op, now⟩ := e
  cases op with
  | look w origin => rfl
  | write w expected signed origin =>
    refine confirm_same (fun hwritten => ?_)
    simp [wrote, hwritten] at h

/-- A write puts the next version under the key. -/
theorem wrote_step (e : Event init) (h : wrote e = true) : ∃ row w expected signed origin,
    e.call.op = .write w expected signed origin ∧ fingerprint (met e) = expected ∧
      (step e.call.op e.call.input e.pre).2 = e.pre.assign row ∧
      row.aliasNorm = Wanted.key T (about e).1 ∧ row.version = versionOf (met e) + 1 := by
  obtain ⟨s, t, op, now⟩ := e
  cases op with
  | look w origin => simp [wrote] at h
  | write w expected signed origin =>
    obtain ⟨row, hstore, hkey, hversion, hexpected⟩ := confirm_written (of_decide_eq_true h)
    rw [hkey, confirm_current] at hversion hexpected
    exact ⟨row, w, expected, signed, origin, rfl, hexpected, hstore, hkey.trans (confirm_key w),
      hversion⟩

/-- What a step leaves under a key. -/
theorem step_find (e : Event init) (key : String) :
    (wrote e = true ∧ Wanted.key T (about e).1 = key ∧ ∃ row,
      (step e.call.op e.call.input e.pre).2.find? key = some row ∧
        row.version = versionOf (e.pre.find? key) + 1) ∨
    ((wrote e = true → Wanted.key T (about e).1 ≠ key) ∧
      (step e.call.op e.call.input e.pre).2.find? key = e.pre.find? key) := by
  cases hwrote : wrote e with
  | false =>
    rw [quiet_step e hwrote]
    exact .inr ⟨fun h => (by cases h), rfl⟩
  | true =>
    obtain ⟨row, w, expected, signed, origin, hop, -, hstore, hkey, hversion⟩ := wrote_step e hwrote
    rw [hstore, Table.find_assign]
    by_cases heq : key = Wanted.key T (about e).1
    · subst heq
      exact .inl ⟨rfl, rfl, row, if_pos hkey.symm, hversion⟩
    · exact .inr ⟨fun _ h => heq h.symm, if_neg (fun h => heq (h.trans hkey))⟩

/-! ### A write follows a look -/

/-- A write is against what was looked at, the text of which was signed. -/
def permits (init : Store T) : (bindings init).Discipline := fun L a =>
  ∀ w expected signed origin, a.op = .write w expected signed origin → ∃ v ∈ L,
    about v = (w, origin) ∧ fingerprint (met v) = expected ∧ digestOf w (met v) origin = signed

theorem launchable {p : Proc T Unit} (h : Launch T p) : Shared.Launchable (permits init) p := by
  intro task
  cases h with
  | describe a origin =>
    unfold describeConfirm
    split
    · trivial
    · exact fun L s _ _ now => ⟨fun w expected signed origin hop => (by cases hop), trivial⟩
  | confirm a signed origin =>
    unfold confirmBinding
    split
    · trivial
    · rename_i w hw
      simp only [ask, Prog.bind_request]
      intro L s _ _ now
      refine ⟨fun w expected signed origin hop => (by cases hop), ?_⟩
      dsimp only
      split
      · trivial
      · rename_i hsigned
        intro L' s' _ hlater now'
        refine ⟨fun w' expected' signed' origin' hop => ?_, trivial⟩
        cases hop
        exact ⟨_, hlater.mem (List.mem_cons_self ..), rfl, rfl, not_not.mp hsigned⟩

/-! ### The versions of a binding -/

variable {s : Store T}

theorem counted (h : (bindings init).machine.Run (permits init) L s) (key : String) :
    versionOf (s.find? key) = versionOf (init.find? key) +
      L.countP (fun e => wrote e && decide (Wanted.key T (about e).1 = key)) := by
  refine h.induct (fun L s => versionOf (s.find? key) = versionOf (init.find? key) +
    L.countP (fun e => wrote e && decide (Wanted.key T (about e).1 = key))) rfl
    (fun L s a _ _ ih => ?_)
  rw [List.countP_cons]
  rcases step_find (⟨s, a⟩ : Event init) key with ⟨hwrote, hkey, row, hrow, hversion⟩ | ⟨hkey, hrow⟩
  · simp only at hrow hversion
    rw [show ((bindings init).machine.step a s).2.find? key = some row from hrow]
    simp [versionOf, hwrote, hkey] at ih ⊢
    rw [hversion]
    simp [versionOf, ih]
    omega
  · rw [show ((bindings init).machine.step a s).2.find? key = s.find? key from hrow, ih]
    have hnot : (wrote (⟨s, a⟩ : Event init) &&
        decide (Wanted.key T (about (⟨s, a⟩ : Event init)).1 = key)) = false := by
      simpa using hkey
    simp [hnot]

/-- A version of a binding is there once. -/
theorem same_version {newer older : List (Event init)} {v : Event init}
    (h : (bindings init).machine.Run (permits init) (newer ++ v :: older) s) (key : String)
    (hversion : (v.pre.find? key).map Row.version = (s.find? key).map Row.version) :
    v.pre.find? key = s.find? key := by
  have hlater := (h.forward (fun s => s.find? key = v.pre.find? key ∨
    versionOf (v.pre.find? key) < versionOf (s.find? key)) (.inl rfl) (fun L s a _ ih => ?_)).2.1
  · rcases hlater with heq | hlt
    · exact heq.symm
    · unfold versionOf at hlt
      rw [hversion] at hlt
      exact absurd hlt (Nat.lt_irrefl _)
  · rcases step_find (⟨s, a⟩ : Event init) key with ⟨-, -, row, hrow, hnext⟩ | ⟨-, hrow⟩
    · right
      rw [show ((bindings init).machine.step a s).2.find? key = some row from hrow]
      simp only at hnext
      show _ < row.version
      rw [hnext]
      rcases ih with heq | hlt
      · rw [heq]
        exact Nat.lt_succ_self _
      · omega
    · rw [show ((bindings init).machine.step a s).2.find? key = s.find? key from hrow]
      exact ih

/-! ### What was signed -/

/-- A text depends on the content of what it replaces. -/
theorem shown_print (w : Wanted) {before before' : Option (Row T)}
    (h : before.map Row.print = before'.map Row.print) : shown w before = shown w before' := by
  match before, before' with
  | none, none => rfl
  | none, some row => cases h
  | some row, none => cases h
  | some row, some row' =>
    simp only [Option.map_some, Row.print, Option.some.injEq, Prod.mk.injEq] at h
    obtain ⟨-, hname, hhandles, hversion⟩ := h
    simp [shown, hname, hhandles, hversion]

theorem mem_hashed {e : Event init} (he : e ∈ L) {x : Bytes} (hx : x ∈ hashedAt e) :
    x ∈ L.flatMap hashedAt := List.mem_flatMap.mpr ⟨e, he, hx⟩

/-- The same digest, the same text. -/
theorem digest_text (hsha : NoCollision L) {e v : Event init} (he : e ∈ L) (hv : v ∈ L)
    (h : digestOf (about e).1 (met e) (about e).2 = digestOf (about v).1 (met v) (about v).2) :
    textOf (about e).1 (met e) (about e).2 = textOf (about v).1 (met v) (about v).2 :=
  approval_digest_task (hsha _ (mem_hashed he (List.mem_cons_self ..)) _
    (mem_hashed hv (List.mem_cons_self ..))) h

theorem met_find (e : Event init) : met e = e.pre.find? (Wanted.key T (about e).1) := rfl

/-- In every run a write is what was signed, of what it was signed for. -/
theorem authorised (h : (bindings init).machine.Run (permits init) L s) (hsha : NoCollision L) :
    Authorised L s where
  signed newer e older w expected signed origin hsplit hop hwrote := by
    subst hsplit
    obtain ⟨hrun, hpermits⟩ := h.split
    obtain ⟨v, hv, hsame, hprint, hdigest⟩ := hpermits w expected signed origin hop
    have he : e ∈ newer ++ e :: older := by simp
    have holder : ∀ v ∈ older, v ∈ newer ++ e :: older := fun v hv => by simp [hv]
    have habout : about e = (w, origin) := by simp [about, hop]
    obtain ⟨row, w', expected', signed', origin', hop', hexpected, -⟩ := wrote_step e hwrote
    rw [hop] at hop'
    cases hop'
    have hprints : (met e).map Row.print = (met v).map Row.print := by
      refine fingerprint_same (fun x hx y hy => ?_) (hexpected.trans hprint.symm)
      exact hsha x (mem_hashed he (List.mem_cons_of_mem _ hx)) y
        (mem_hashed (holder v hv) (List.mem_cons_of_mem _ hy))
    have hsigned : digestOf w (met e) origin = signed := by
      rw [← hdigest, digestOf, digestOf, textOf, textOf, shown_print w hprints]
    refine ⟨hsigned, fun u hu hdigest' => ?_⟩
    have htext := digest_text hsha (holder u hu) he (by rw [hdigest', habout, hsigned])
    have hshown := text_same htext
    obtain ⟨n, o, rfl⟩ := List.append_of_mem hu
    have hkey : Wanted.key T (about u).1 = Wanted.key T (about e).1 := by
      rw [Wanted.key, Wanted.key, shown_alias hshown]
    have hversion : (met u).map Row.version = (met e).map Row.version := by
      have hrow := congrArg (Option.map Prod.fst) (shown_row hshown)
      simpa [Option.map_map, Function.comp_def] using hrow
    rw [met_find, met_find, ← hkey] at hversion ⊢
    exact same_version hrun _ hversion
  quiet e _ hwrote := quiet_step e hwrote
  next e _ hwrote := by
    obtain ⟨row, w, expected, signed, origin, -, -, hstore, hkey, hversion⟩ := wrote_step e hwrote
    rw [hstore, Table.find_assign]
    simp only [show Wanted.key T (about e).1 = Keyed.key row from hkey.symm, if_true, Option.map_some,
      hversion]
  counted := counted h

/-- What is shown determines the binding exactly as far as no two of the channels in
use can be shown alike. And whatever processes describe and confirm, a write is of
what was signed, against the state it was signed for, and none is lost. -/
theorem text_determines_binding (C : Set (Channel T)) (init : Store T) :
    (Determines C ↔ Readable C) ∧ ∀ W : World init, Shared.World.Reach (Launch T) W →
      NoCollision W.log → Authorised W.log W.state :=
  ⟨⟨readable_of_determines, determines_of_readable⟩, fun _ h hsha =>
    authorised (h.disciplined (fun _ => launchable)).run hsha⟩

/-! ### Samples -/

def sampleArguments : Arguments :=
  { aliasName := "Mama", displayName := "Ada", handles := [⟨"phone", "+49 1"⟩] }

def sampleWanted : Wanted :=
  { aliasName := "Mama", displayName := "Ada", handles := [⟨"phone", "+49 1"⟩]
    source := "user_confirmed" }

def sampleSigned : String := digestOf sampleWanted (none : Option (Row asciiWriting)) .localOwner

def samplePrograms (signed : String) : List (Proc asciiWriting Unit) :=
  [describeConfirm sampleArguments .localOwner, confirmBinding sampleArguments signed .localOwner]

def confirmedAs (signed : String) : World (Table.empty : Store asciiWriting) :=
  Shared.World.play (bindings .empty) (samplePrograms signed) [(0, 1), (1, 2), (1, 3)]

/-- A binding is described, and confirmed as it was shown. -/
def confirmedOnce : World (Table.empty : Store asciiWriting) := confirmedAs sampleSigned

theorem confirmed_once_reach : Shared.World.Reach (Launch asciiWriting) confirmedOnce := by
  refine .play (fun p hp => ?_) _
  simp only [samplePrograms, List.mem_cons, List.not_mem_nil, or_false] at hp
  rcases hp with rfl | rfl
  · exact .describe ..
  · exact .confirm ..

theorem empty_row (w : Wanted) : Store.get (.empty : Store asciiWriting) w.aliasName = none := rfl

theorem sample_requested : requested asciiWriting sampleArguments = some sampleWanted := by
  decide

theorem confirmed_as_log {signed : String} (h : sampleSigned = signed) : (confirmedAs signed).log =
    [⟨.empty, ⟨1, .write sampleWanted "absent" signed .localOwner, 3⟩⟩,
      ⟨.empty, ⟨1, .look sampleWanted .localOwner, 2⟩⟩,
      ⟨.empty, ⟨0, .look sampleWanted .localOwner, 1⟩⟩] := by
  have habsent : fingerprint (none : Option (Row asciiWriting)) = "absent" := by
    unfold fingerprint
    rfl
  have hdigest : digestOf sampleWanted (none : Option (Row asciiWriting)) .localOwner = signed := h
  simp [confirmedAs, Shared.World.play, Shared.World.moves, Shared.World.start, samplePrograms,
    Shared.World.move, Shared.World.act, Shared.World.setTask, describeConfirm, confirmBinding, ask,
    Prog.bind_request, sample_requested, step, empty_row, hdigest, habsent]

theorem confirmed_once_log : confirmedOnce.log =
    [⟨.empty, ⟨1, .write sampleWanted "absent" sampleSigned .localOwner, 3⟩⟩,
      ⟨.empty, ⟨1, .look sampleWanted .localOwner, 2⟩⟩,
      ⟨.empty, ⟨0, .look sampleWanted .localOwner, 1⟩⟩] := confirmed_as_log rfl

theorem confirmed_once_hashes : NoCollision confirmedOnce.log := by
  have hone : ∀ x ∈ confirmedOnce.log.flatMap hashedAt, x = approvalBytes tool
      (textOf sampleWanted (none : Option (Row asciiWriting)) .localOwner) := by
    intro x hx
    simpa [confirmed_once_log, hashedAt, met, about, empty_row, hashed] using hx
  intro x hx y hy _
  rw [hone x hx, hone y hy]

/-- Telephone and SMS. -/
def phones : Set (Channel asciiWriting) := fun c => c.name = "phone" ∨ c.name = "sms"

theorem phones_readable : Readable phones := by
  have hfirst : ∀ c c' : String, (channelWord c).toList.head? ≠ (channelWord c').toList.head? →
      channelWord c ≠ "" → ¬ Confused c c' := by
    rintro c c' hne hword (heq | ⟨r, heq, -⟩)
    · exact hne (by rw [heq])
    · cases hc : (channelWord c).toList with
      | nil => exact hword (String.toList_eq_nil_iff.mp hc)
      | cons x xs => simp [heq, hc] at hne
  rintro c (hc | hc) c' (hc' | hc') hne
  · exact absurd (hc.trans hc'.symm) hne
  · rw [hc, hc']
    exact hfirst _ _ (by decide) (by decide)
  · rw [hc, hc']
    exact hfirst _ _ (by decide) (by decide)
  · exact absurd (hc.trans hc'.symm) hne

theorem confirmed_once_wrote : confirmedOnce.log.countP wrote = 1 := by
  have hwrites : (Store.confirm (.empty : Store asciiWriting) sampleWanted "absent" 3).1 =
      .written := by decide +kernel
  simp [confirmed_once_log, wrote, hwrites]

theorem text_determines_phone : Determines phones ∧
    Authorised confirmedOnce.log confirmedOnce.state ∧ confirmedOnce.log.countP wrote = 1 :=
  ⟨(text_determines_binding phones .empty).1.mpr phones_readable,
    (text_determines_binding phones .empty).2 _ confirmed_once_reach confirmed_once_hashes,
    confirmed_once_wrote⟩

def gmail : Channel asciiWriting := ⟨"gmail", by decide, by decide⟩

def email : Channel asciiWriting := ⟨"email", by decide, by decide⟩

/-- Two channels are both read as e-mail. -/
theorem gmail_shown_as_email : ∃ d d' : Description asciiWriting, d.shown = d'.shown ∧
    ¬ ∀ h, h ∈ d.wanted.handles ↔ h ∈ d'.wanted.handles := by
  have hvalue : stripped "ada@example.org" = "ada@example.org" := by decide
  refine ⟨newDescription gmail "ada@example.org" hvalue (by decide),
    newDescription email "ada@example.org" hvalue (by decide), ?_, fun h => ?_⟩
  · rfl
  · have hmem := (h ⟨"gmail", "ada@example.org"⟩).mp (List.mem_singleton.mpr rfl)
    exact absurd hmem (by simp [newDescription, newWanted, email])

end Solvio.Communication.Confirmed
