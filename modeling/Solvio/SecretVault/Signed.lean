import Mathlib.Data.Set.Function
import Solvio.Lib.Digests
import Solvio.SecretVault.Endpoint
import Solvio.SecretVault.Kept

namespace Solvio.SecretVault
open Solvio.Lib
open Solvio.AgentRuntime (CapabilityOutcome)

/-! ### What a history owes -/

def Core.id (D : Core) : String := (D.controlPlane.map (·.coreInstanceId)).getD ""

/-- The device of a request signed data with the hash that was checked. -/
def Mutation.Signed (m : Mutation) (D : Core) (t : List Mark) : Prop :=
  ∃ data, .signed m.deviceId data ∈ t ∧ sha256 data.bytes = (m.binding D.id).clientDataHash

/-- What a mark owes to the marks before it. -/
def Mark.Due (D : Core) (older : List Mark) : Mark → Prop
  | issued nonce _ => ∀ d, issued nonce d ∉ older
  | consumed m => issued m.nonce m.deviceId ∈ older ∧
      ∀ m', consumed m' ∈ older → m'.nonce ≠ m.nonce
  | opened m => consumed m ∈ older ∧ m.Signed D older ∧ ∀ m', opened m' ∈ older → m'.nonce ≠ m.nonce
  | staged m id p => opened m ∈ older ∧ m.secretSha256 = toHex (sha256 p) ∧
      ∀ m' p', staged m' id p' ∉ older
  | stored m id p => opened m ∈ older ∧
      (∃ m', staged m' id p ∈ older ∧ m'.deviceId = m.deviceId ∧
        m.secretSha256 = m'.secretSha256) ∧
      ∀ m' p', stored m' id p' ∉ older
  | _ => True

def Grounded (D : Core) : List Mark → Prop
  | [] => True
  | m :: older => m.Due D older ∧ Grounded D older

section grounded
variable {D : Core} {t : List Mark}

theorem Grounded.split {newer older : List Mark} {m : Mark} (h : Grounded D (newer ++ m :: older)) :
    m.Due D older ∧ Grounded D older := by
  induction newer with
  | nil => exact h
  | cons n newer ih => exact ih h.2

/-- An id stands for one value of one request. -/
theorem Grounded.staged_unique (h : Grounded D t) {m m' : Mutation} {id : String} {p p' : Bytes}
    (hm : .staged m id p ∈ t) (hm' : .staged m' id p' ∈ t) : m = m' ∧ p = p' := by
  induction t with
  | nil => cases hm
  | cons k t ih =>
    have hfree := h.1
    rcases List.mem_cons.mp hm with he | hold
    · subst he
      rcases List.mem_cons.mp hm' with he | hold
      · cases he
        exact ⟨rfl, rfl⟩
      · exact absurd hold (hfree.2.2 _ _)
    · rcases List.mem_cons.mp hm' with he | hold'
      · subst he
        exact absurd hold (hfree.2.2 _ _)
      · exact ih h.2 hold hold'

theorem Grounded.of_mem (h : Grounded D t) {k : Mark} (hk : k ∈ t) :
    ∃ older, k.Due D older ∧ ∀ j ∈ older, j ∈ t := by
  obtain ⟨newer, older, rfl⟩ := List.append_of_mem hk
  exact ⟨older, h.split.1, fun j hj => List.mem_append_right _ (List.mem_cons_of_mem _ hj)⟩

end grounded

/-! ### What the desk keeps in order -/

structure Desk.Linked (D : Core) (s : Desk) : Prop where
  grounded : Grounded D s.trail
  nonces : ∀ i ∈ s.nonces, .issued i.nonce i.deviceId ∈ s.trail ∧
    ∀ m, .consumed m ∈ s.trail → m.nonce ≠ i.nonce
  slots : ∀ slot ∈ s.staging, (∃ m p nonce, .staged m slot.stagingId p ∈ s.trail ∧
    m.deviceId = slot.deviceId ∧ m.secretSha256 = slot.payloadSha256 ∧ p ≠ [] ∧
    slot.blob = D.site.cipher.encryptBlob D.site.kek nonce p stagingAad) ∧
    ∀ m p, .stored m slot.stagingId p ∉ s.trail

/-- What an id stands for: a value that the device of a request staged, with
the hash of the request. -/
def Mutation.StandsFor (m : Mutation) (id : String) (t : List Mark) : Prop :=
  ∃ m' p, .staged m' id p ∈ t ∧ m'.deviceId = m.deviceId ∧ m.secretSha256 = m'.secretSha256

/-- What holds of a frame while it waits. -/
def Frame.Waits (t : List Mark) : Frame → Prop
  | proof m => .consumed m ∈ t ∧ ∀ m', .opened m' ∈ t → m'.nonce ≠ m.nonce
  | router m id => .opened m ∈ t ∧ (m.capability.needsValue = true → m.StandsFor id t)
  | _ => True

/-- The requests that a stretch opens, next to what was there. -/
structure Desk.Grew (s s' : Desk) (opens : Mutation → Prop) : Prop where
  keeps : ∀ k ∈ s.trail, k ∈ s'.trail
  opened : ∀ m, .opened m ∈ s'.trail → .opened m ∈ s.trail ∨ opens m

/-- What a stretch makes of the desk and leaves waiting. -/
structure Stretch (D : Core) (s : Desk) (opens : Mutation → Prop) (r : Option Frame × Desk) :
    Prop where
  linked : r.2.Linked D
  grew : s.Grew r.2 opens
  waits : ∀ f ∈ r.1, f.Waits r.2.trail
  fresh : ∀ m, r.1 = some (.proof m) →
    opens m ∨ ∀ m', .consumed m' ∈ s.trail → m'.nonce ≠ m.nonce

section steps
variable {D : Core} {s s' : Desk} {opens : Mutation → Prop}

theorem Desk.Grew.refl (s : Desk) (opens : Mutation → Prop) : s.Grew s opens :=
  ⟨fun _ h => h, fun _ h => Or.inl h⟩

theorem Desk.Grew.trans {s'' : Desk} (h : s.Grew s' opens) (h' : s'.Grew s'' opens) :
    s.Grew s'' opens :=
  ⟨fun k hk => h'.keeps k (h.keeps k hk), fun m hm => (h'.opened m hm).elim (h.opened m) Or.inr⟩

theorem Desk.Grew.mark (s : Desk) (k : Mark) (h : ∀ m, k = .opened m → opens m) :
    s.Grew (s.mark k) opens := by
  refine ⟨fun j hj => List.mem_cons_of_mem _ hj, fun m hm => ?_⟩
  rcases List.mem_cons.mp hm with he | hm
  · exact Or.inr (h m he.symm)
  · exact Or.inl hm

theorem Desk.Grew.of_trail (h : s'.trail = s.trail) : s.Grew s' opens :=
  ⟨fun k hk => by rw [h]; exact hk, fun m hm => Or.inl (by rw [h] at hm; exact hm)⟩

/-- Nothing comes in, and no mark is made. -/
theorem Desk.Linked.fewer (h : s.Linked D) (ht : s'.trail = s.trail)
    (hn : ∀ i ∈ s'.nonces, i ∈ s.nonces) (hs : ∀ slot ∈ s'.staging, slot ∈ s.staging) :
    s'.Linked D := by
  refine ⟨by rw [ht]; exact h.grounded, fun i hi => ?_, fun slot hslot => ?_⟩
  · rw [ht]
    exact h.nonces i (hn i hi)
  · rw [ht]
    exact h.slots slot (hs slot hslot)

theorem Desk.Linked.mark (h : s.Linked D) {k : Mark} (hdue : k.Due D s.trail)
    (hn : ∀ m, k = .consumed m → ∀ i ∈ s.nonces, m.nonce ≠ i.nonce)
    (hs : ∀ m id p, k = .stored m id p → ∀ slot ∈ s.staging, slot.stagingId ≠ id) :
    (s.mark k).Linked D := by
  refine ⟨⟨hdue, h.grounded⟩, fun i hi => ?_, fun slot hslot => ?_⟩
  · obtain ⟨hissued, hfree⟩ := h.nonces i hi
    refine ⟨List.mem_cons_of_mem _ hissued, fun m hm => ?_⟩
    rcases List.mem_cons.mp hm with he | hm
    · exact hn m he.symm i hi
    · exact hfree m hm
  · obtain ⟨⟨m, p, nonce, hm, hrest⟩, hfree⟩ := h.slots slot hslot
    refine ⟨⟨m, p, nonce, List.mem_cons_of_mem _ hm, hrest⟩, fun m' p' hm' => ?_⟩
    rcases List.mem_cons.mp hm' with he | hm'
    · exact hs _ _ _ he.symm slot hslot rfl
    · exact hfree m' p' hm'

theorem Stretch.answers {r : Response} (hl : s'.Linked D) (hg : s.Grew s' opens) :
    Stretch D s opens (respond s' r) where
  linked := hl.mark trivial (fun _ he => by cases he) (fun _ _ _ he => by cases he)
  grew := hg.trans (.mark s' _ (fun _ he => by cases he))
  waits := fun f hf => by cases hf
  fresh := fun m hm => by cases hm

theorem Stretch.replied {r : Response} (h : s.Linked D) : Stretch D s opens (respond s r) :=
  .answers h (.refl s opens)

/-- The requests of the others are left alone. -/
def Nothing : Mutation → Prop := fun _ => False

theorem challenge_stretch {deviceId : Option String} {token : String} {now : Int} (h : s.Linked D)
    (hfresh : ∀ d, .issued token d ∉ s.trail) :
    Stretch D s opens (hChallenge D deviceId token now s) := by
  unfold hChallenge
  split
  · exact .replied h
  · exact .replied h
  · rename_i d c _ _
    split
    · exact .replied h
    · have hunused : ∀ m, .consumed m ∈ s.trail → m.nonce ≠ token := by
        rintro m hm rfl
        obtain ⟨older, hdue, hin⟩ := h.grounded.of_mem hm
        exact hfresh _ (hin _ hdue.1)
      refine .answers ⟨⟨hfresh, h.grounded⟩, fun i hi => ?_, fun slot hslot => ?_⟩
        ⟨fun k hk => List.mem_cons_of_mem _ hk, fun m hm => ?_⟩
      · rcases SessionNonces.mem_issue hi with rfl | hi
        · refine ⟨List.mem_cons_self .., fun m hm => ?_⟩
          rcases List.mem_cons.mp hm with he | hm
          · cases he
          · exact hunused m hm
        · obtain ⟨hissued, hfree⟩ := h.nonces i hi
          refine ⟨List.mem_cons_of_mem _ hissued, fun m hm => ?_⟩
          rcases List.mem_cons.mp hm with he | hm
          · cases he
          · exact hfree m hm
      · obtain ⟨⟨m, p, nonce, hm, hrest⟩, hfree⟩ := h.slots slot hslot
        refine ⟨⟨m, p, nonce, List.mem_cons_of_mem _ hm, hrest⟩, fun m' p' hm' => ?_⟩
        rcases List.mem_cons.mp hm' with he | hm'
        · cases he
        · exact hfree m' p' hm'
      · rcases List.mem_cons.mp hm with he | hm
        · cases he
        · exact Or.inl hm

theorem form_device {form : Option Form} {deviceId : String} {m : Mutation}
    (h : Form.mutation form deviceId = .ok m) : m.deviceId = deviceId := by
  unfold Form.mutation at h
  split at h
  · cases h
  · split at h
    · cases h
    · split at h
      · cases h
      · obtain ⟨_, -, h⟩ := bind_ok.mp h
        split at h
        · cases h
        · rw [← pure_ok.mp h]

/-- A request waits for its proof only when it has consumed its nonce. -/
theorem mutation_stretch {deviceId : String} {form : Option Form} {now : Int} (h : s.Linked D) :
    Stretch D s opens (hMutation D deviceId form now s) := by
  unfold hMutation
  split
  · exact .replied h
  · exact .replied h
  · rename_i m _ hm _
    have hfewer : Desk.Linked D { s with nonces := (s.nonces.consume m.nonce deviceId now).2 } :=
      h.fewer rfl (fun i (hi : i ∈ (s.nonces.consume m.nonce deviceId now).2) =>
        (SessionNonces.mem_consume hi).1) (fun _ hslot => hslot)
    dsimp only
    split
    · rename_i hcounts
      obtain ⟨i, hi, hnonce, hdevice⟩ := SessionNonces.consume_true hcounts
      obtain ⟨hissued, hfree⟩ := h.nonces i hi
      rw [hnonce, hdevice, ← form_device hm] at hissued
      rw [hnonce] at hfree
      refine ⟨hfewer.mark ⟨hissued, hfree⟩ (fun m' he i hi => ?_) (fun _ _ _ he => by cases he),
        ⟨fun k hk => List.mem_cons_of_mem _ hk, fun m' hm' => ?_⟩, fun f hf => ?_, fun m' he => ?_⟩
      · cases he
        have hleft : i ∈ (s.nonces.consume m.nonce deviceId now).2 := hi
        exact Ne.symm (SessionNonces.mem_consume hleft).2
      · rcases List.mem_cons.mp hm' with he | hm'
        · cases he
        · exact Or.inl hm'
      · obtain rfl := Option.some.inj hf
        refine ⟨List.mem_cons_self .., fun m' hm' => ?_⟩
        rcases List.mem_cons.mp hm' with he | hm'
        · cases he
        · obtain ⟨older, hdue, hin⟩ := h.grounded.of_mem hm'
          exact hfree m' (hin _ hdue.1)
      · cases he
        exact Or.inr hfree
    · exact .answers hfewer (.of_trail rfl)

theorem staged_value {m : Mutation} {now : Int} {d : Draw} (h : s.Linked D)
    (hopen : .opened m ∈ s.trail) (hfresh : ∀ m' p, .staged m' d.stagingId p ∉ s.trail) :
    (stageValue D m now d s).2.Linked D ∧ s.Grew (stageValue D m now d s).2 opens ∧
      ∀ id, (stageValue D m now d s).1 = .ok id →
        m.StandsFor id (stageValue D m now d s).2.trail := by
  unfold stageValue
  split
  · exact ⟨h, .refl s opens, fun _ hid => by cases hid⟩
  · rename_i raw _
    split
    · exact ⟨h, .refl s opens, fun _ hid => by cases hid⟩
    · rename_i hraw
      obtain ⟨-, hsha⟩ := not_or.mp hraw
      dsimp only
      split
      · rename_i e he
        refine ⟨h.fewer rfl (fun _ hi => hi) (fun slot hslot => ?_), .of_trail rfl,
          fun _ hid => by cases hid⟩
        rcases SecretStaging.mem_stage hslot with hold | hnew
        · exact hold
        · rw [he] at hnew
          cases hnew
      · rename_i slot hok
        obtain ⟨hne, hid, hdev, hpayload, hblob⟩ := SecretStaging.stage_ok hok
        rw [← hid] at hfresh
        refine ⟨⟨⟨⟨hopen, (not_not.mp hsha).symm, hfresh⟩, h.grounded⟩, fun i hi => ?_,
          fun old hold => ?_⟩, ⟨fun k hk => List.mem_cons_of_mem _ hk, fun m' hm' => ?_⟩, ?_⟩
        · obtain ⟨hissued, hfree⟩ := h.nonces i hi
          refine ⟨List.mem_cons_of_mem _ hissued, fun m' hm' => ?_⟩
          rcases List.mem_cons.mp hm' with he | hm'
          · cases he
          · exact hfree m' hm'
        · rcases SecretStaging.mem_stage hold with hold | hnew
          · obtain ⟨⟨m', p, nonce, hm', hrest⟩, hfree⟩ := h.slots old hold
            refine ⟨⟨m', p, nonce, List.mem_cons_of_mem _ hm', hrest⟩, fun m'' p' hm'' => ?_⟩
            rcases List.mem_cons.mp hm'' with he | hm''
            · cases he
            · exact hfree m'' p' hm''
          · obtain rfl := Except.ok.inj (hok.symm.trans hnew)
            refine ⟨⟨m, raw, d.nonce, List.mem_cons_self .., hdev.symm, hpayload.symm, hne, hblob⟩,
              fun m' p' hm' => ?_⟩
            rcases List.mem_cons.mp hm' with he | hm'
            · cases he
            · obtain ⟨older, hdue, hin⟩ := h.grounded.of_mem hm'
              obtain ⟨m'', hstaged, -⟩ := hdue.2.1
              exact hfresh _ _ (hin _ hstaged)
        · rcases List.mem_cons.mp hm' with he | hm'
          · cases he
          · exact Or.inl hm'
        · rintro id hid
          obtain rfl := Except.ok.inj hid
          exact ⟨m, raw, List.mem_cons_self .., rfl, rfl⟩

theorem peek_ok {t : SecretStaging} {id deviceId sha : String} {now : Int}
    (h : t.peek id deviceId now = .ok sha) :
    ∃ slot ∈ t, slot.stagingId = id ∧ slot.deviceId = deviceId ∧ slot.payloadSha256 = sha := by
  obtain ⟨slot, hslot, rfl⟩ := map_ok.mp h
  obtain ⟨hmem, hid, hdev⟩ := SecretStaging.open_ok hslot
  exact ⟨slot, hmem, hid, hdev, rfl⟩

theorem value_of {m : Mutation} {now : Int} {d : Draw} (h : s.Linked D)
    (hopen : .opened m ∈ s.trail) (hfresh : ∀ m' p, .staged m' d.stagingId p ∉ s.trail) :
    (valueOf D m now d s).2.Linked D ∧ s.Grew (valueOf D m now d s).2 opens ∧
      ∀ id, (valueOf D m now d s).1 = .ok id → m.capability.needsValue = true →
        m.StandsFor id (valueOf D m now d s).2.trail := by
  have hsame : ∀ r : Except Response String, (∀ id, r = .ok id → m.capability.needsValue = true →
      m.StandsFor id s.trail) → s.Linked D ∧ s.Grew s opens ∧ ∀ id, r = .ok id →
        m.capability.needsValue = true → m.StandsFor id s.trail :=
    fun _ hr => ⟨h, .refl s opens, hr⟩
  unfold valueOf
  split
  · rename_i hneeds
    have hnone : ¬ m.capability.needsValue = true := by simpa using hneeds
    split
    · exact hsame _ (fun _ _ hn => absurd hn hnone)
    · exact hsame _ (fun _ _ hn => absurd hn hnone)
  · split
    · obtain ⟨hl, hg, hid⟩ := @staged_value D s opens m now d h hopen hfresh
      exact ⟨hl, hg, fun id he _ => hid id he⟩
    · split
      · split
        · exact hsame _ (fun _ he => by cases he)
        · rename_i sha hpeek
          split
          · exact hsame _ (fun _ he => by cases he)
          · rename_i hsha
            refine hsame _ (fun id he _ => ?_)
            obtain rfl := Except.ok.inj he
            obtain ⟨slot, hslot, hid, hdev, hpayload⟩ := peek_ok hpeek
            obtain ⟨⟨m', p, _, hm', hdev', hsha', -⟩, -⟩ := h.slots slot hslot
            rw [hid] at hm'
            refine ⟨m', p, hm', hdev'.trans hdev, ?_⟩
            rw [hsha', hpayload, not_not.mp hsha]
      · exact hsame _ (fun _ he => by cases he)

theorem proven_stretch {m : Mutation} {row : Option DeviceRow} {now : Int} {d : Draw}
    (h : s.Linked D) (hwaits : (Frame.proof m).Waits s.trail)
    (hsigned : ∀ c, D.controlPlane = some c → c.proves m row = true → m.Signed D s.trail)
    (hfresh : ∀ m' p, .staged m' d.stagingId p ∉ s.trail) :
    Stretch D s (· = m) (hProven D m row now d s) := by
  unfold hProven
  split
  · rename_i hproves
    have hs : m.Signed D s.trail := by
      cases hc : D.controlPlane with
      | none => simp [hc] at hproves
      | some c => exact hsigned c hc (by simpa [hc] using hproves)
    have hl : (s.mark (.opened m)).Linked D :=
      h.mark ⟨hwaits.1, hs, hwaits.2⟩ (fun _ he => by cases he) (fun _ _ _ he => by cases he)
    have hg : s.Grew (s.mark (.opened m)) (· = m) := .mark s _ (fun m' he => by cases he; rfl)
    have hunstaged : ∀ m' p, .staged m' d.stagingId p ∉ (s.mark (.opened m)).trail := by
      intro m' p hm'
      rcases List.mem_cons.mp hm' with he | hm'
      · cases he
      · exact hfresh m' p hm'
    obtain ⟨hl', hg', hid⟩ :=
      @value_of D _ (· = m) m now d hl (List.mem_cons_self ..) hunstaged
    dsimp only
    split
    · exact .answers hl' (hg.trans hg')
    · rename_i id hok
      split
      · refine ⟨hl', hg.trans hg', fun f hf => ?_, fun _ he => by cases he⟩
        obtain rfl := Option.some.inj hf
        exact ⟨hg'.keeps _ (List.mem_cons_self ..), hid id hok⟩
      · exact .answers hl' (hg.trans hg')
  · exact .replied h

/-! ### The handlers -/

theorem taken {id : String} {now : Int} {keychain : Keychain} (h : s.Linked D) :
    (takeStaged D id now keychain s).2.Linked D ∧
      (takeStaged D id now keychain s).2.trail = s.trail ∧
      (takeStaged D id now keychain s).2.vault = s.vault ∧
      ∀ p, (takeStaged D id now keychain s).1 = some p →
        (∃ m, .staged m id p ∈ s.trail) ∧ (∀ m p', .stored m id p' ∉ s.trail) ∧
        ∀ slot ∈ (takeStaged D id now keychain s).2.staging, slot.stagingId ≠ id := by
  unfold takeStaged
  split
  · exact ⟨h, rfl, rfl, fun _ hp => by cases hp⟩
  · rename_i holder _
    split
    · exact ⟨h, rfl, rfl, fun _ hp => by cases hp⟩
    · refine ⟨h.fewer rfl (fun _ hi => hi) (fun _ hslot => SecretStaging.mem_take hslot), rfl, rfl,
        fun p hp => ?_⟩
      have hok : (s.staging.take D.site id holder.deviceId now keychain).1 = .ok p := by
        revert hp
        dsimp only
        cases (s.staging.take D.site id holder.deviceId now keychain).1 with
        | error e => exact fun hp => by cases hp
        | ok q => exact fun hp => by rw [Option.some.inj hp]
      obtain ⟨⟨slot, hslot, hid, -, hopen⟩, hgone⟩ := SecretStaging.take_ok hok
      obtain ⟨⟨m, q, nonce, hm, -, -, hne, hblob⟩, hfree⟩ := h.slots slot hslot
      rw [hblob, D.site.cipher.decrypt_encrypt_blob _ _ _ hne] at hopen
      rw [hid, Option.some.inj hopen] at hm
      rw [hid] at hfree
      exact ⟨⟨m, hm⟩, hfree, hgone⟩

theorem call_value {V : Site} {c : Capability} {args : Args} {t : Vault} {value : Option Bytes}
    {call : Call} (hneeds : c.needsValue = true) (h : c.call V args t value = .ok call) :
    ∃ p, value = some p ∧ ((∃ a replace, call = .add a replace ∧ a.plaintext = p) ∨
      ∃ ref, call = .replaceValue ref p) := by
  cases c with
  | secretAdd =>
    cases value with
    | none => cases h
    | some p =>
      simp only [Capability.call, addCall, bind_ok, pure_ok] at h
      obtain ⟨_, -, _, -, _, -, rfl⟩ := h
      exact ⟨p, rfl, Or.inl ⟨_, _, rfl, rfl⟩⟩
  | secretReplace =>
    cases value with
    | none => cases h
    | some p =>
      simp only [Capability.call, replaceCall, bind_ok, pure_ok] at h
      obtain ⟨_, -, rfl⟩ := h
      exact ⟨p, rfl, Or.inr ⟨_, rfl⟩⟩
  | _ => cases hneeds

/-- A capability that needs a value stores the one it was given. -/
theorem stores_value {V : Site} {c : Capability} {args : Args} {t : Vault} {value : Option Bytes}
    {moment : Moment} {sealing : Sealing V} (hneeds : c.needsValue = true)
    (h : (Action.capability c args value).effect V moment t = .ok (.stored sealing)) :
    value = some sealing.plaintext := by
  simp only [Action.effect, bind_ok] at h
  obtain ⟨call, hcall, h⟩ := h
  obtain ⟨p, rfl, hkind⟩ := call_value hneeds hcall
  have heffect : call.effect V moment t t = .ok (.stored sealing) := by
    split at h
    · cases h
    · rename_i e he
      split at h
      · obtain ⟨_, -, h⟩ := bind_ok.mp h
        rw [he, pure_ok.mp h]
      · rw [he, pure_ok.mp h]
  rcases hkind with ⟨a, replace, rfl, rfl⟩ | ⟨ref, rfl⟩
  · obtain ⟨_, hadd, he⟩ := map_ok.mp heffect
    obtain rfl := Effect.stored.inj he
    obtain ⟨_, _, _, _, -, -, -, -, -, -, -, -, hplain, -⟩ := add_ok hadd
    rw [hplain]
  · obtain ⟨_, hreplace, he⟩ := map_ok.mp heffect
    obtain rfl := Effect.stored.inj he
    obtain ⟨_, _, -, -, hadd⟩ := replace_value_ok hreplace
    obtain ⟨_, _, _, _, -, -, -, -, -, -, -, -, hplain, -⟩ := add_ok hadd
    rw [hplain]
    rfl

/-- A value that is stored once its slot is gone. -/
theorem stored_stretch {m m' : Mutation} {id : String} {p : Bytes} (hl : s'.Linked D)
    (ht : s'.trail = s.trail) (hg : Grounded D s.trail)
    (hwaits : (Frame.router m id).Waits s.trail) (hneeds : m.capability.needsValue = true)
    (hm : .staged m' id p ∈ s.trail) (hfree : ∀ m p', .stored m id p' ∉ s.trail)
    (hgone : ∀ slot ∈ s'.staging, slot.stagingId ≠ id) :
    Stretch D s opens (some (.router m id), s'.mark (.stored m id p)) := by
  obtain ⟨m'', p', hm'', hdev, hsha⟩ := hwaits.2 hneeds
  obtain ⟨rfl, rfl⟩ := hg.staged_unique hm hm''
  have hdue : (Mark.stored m id p).Due D s'.trail := by
    rw [ht]
    exact ⟨hwaits.1, ⟨m', hm, hdev, hsha⟩, hfree⟩
  have hgrew : s.Grew (s'.mark (.stored m id p)) opens :=
    (Desk.Grew.of_trail ht).trans (.mark _ _ (fun _ he => by cases he))
  refine ⟨hl.mark hdue (fun _ he => by cases he) (fun _ _ _ he slot hslot => ?_), hgrew,
    fun f hf => ?_, fun _ he => by cases he⟩
  · cases he
    exact hgone slot hslot
  · obtain rfl := Option.some.inj hf
    exact ⟨hgrew.keeps _ hwaits.1, fun _ => ⟨m', p, hgrew.keeps _ hm, hdev, hsha⟩⟩

theorem handler_stretch {m : Mutation} {id : String} {now : Int} {keychain : Keychain}
    {moment : Moment} (h : s.Linked D) (hwaits : (Frame.router m id).Waits s.trail) :
    Stretch D s opens (some (.router m id), handler D m id now keychain moment s) := by
  have hstays : ∀ s', Desk.Linked D s' → s'.trail = s.trail →
      Stretch D s opens (some (.router m id), s') := by
    intro s' hl ht
    refine ⟨hl, .of_trail ht, fun f hf => ?_, fun _ he => by cases he⟩
    obtain rfl := Option.some.inj hf
    change (Frame.router m id).Waits s'.trail
    rw [ht]
    exact hwaits
  unfold handler
  cases hneeds : m.capability.needsValue with
  | false =>
    simp only [Bool.false_eq_true, if_false]
    split
    · exact hstays _ h rfl
    · exact hstays _ (h.fewer rfl (fun _ hi => hi) (fun _ hs => hs)) rfl
  | true =>
    obtain ⟨hl, ht, -, hp⟩ := @taken D s id now keychain h
    simp only [if_true]
    split
    · exact hstays _ hl ht
    · rename_i e he
      split
      · rename_i sealing _
        obtain ⟨⟨m', hm'⟩, hfree, hgone⟩ := hp _ (stores_value hneeds he)
        exact stored_stretch (hl.fewer rfl (fun _ hi => hi) (fun _ hs => hs)) ht h.grounded hwaits
          hneeds hm' hfree hgone
      · exact hstays _ (hl.fewer rfl (fun _ hi => hi) (fun _ hs => hs)) ht

theorem returned_stretch {id : String} {outcome : CapabilityOutcome} (h : s.Linked D) :
    Stretch D s opens (hReturned id outcome s) := by
  unfold hReturned
  split
  · exact .replied h
  · exact .replied h
  · split
    · exact .replied h
    · exact .answers (h.fewer rfl (fun _ hi => hi) (fun _ hs => (Table.mem_delete.mp hs).1))
        (.of_trail rfl)

end steps

/-! ### Runs -/

/-- What the world promises of an answer: tokens are fresh, and an assertion
that passes was made by the device, over data with the hash that was checked. -/
def Core.Honest (D : Core) (s : Desk) : Frame → Awaited → Prop
  | .challenge, .authed _ token => ∀ d, .issued token d ∉ s.trail
  | .proof m, .device row draw =>
    (∀ c, D.controlPlane = some c → c.proves m row = true → m.Signed D s.trail) ∧
      ∀ m' p, .staged m' draw.stagingId p ∉ s.trail
  | _, _ => True

abbrev Core.World (D : Core) := EventLoop.World (endpoint D)

def Core.HonestTurn (D : Core) (w : D.World) (t : EventLoop.Step (endpoint D)) : Prop :=
  ∀ i a f, t.turn = .resume i a → w.waiting[i]? = some f → D.Honest w.shared f a

/-- Any requests, in any interleaving, with answers that are honest. -/
inductive Core.Reach (D : Core) : D.World → Prop
  | init : Core.Reach D (endpoint D).machine.init
  | step {w : D.World} {t : EventLoop.Step (endpoint D)} : Core.Reach D w → D.HonestTurn w t →
    Core.Reach D (EventLoop.run t w).2

section reach
variable {D : Core} {w : D.World}

theorem start_stretch {r : Request} {now : Int} {s : Desk} (h : s.Linked D) :
    Stretch D s Nothing (start D r now s) := by
  have hends : ∀ s', Desk.Linked D s' → s.Grew s' Nothing → Stretch D s Nothing (none, s') :=
    fun s' hl hg => ⟨hl, hg, fun _ hf => (by cases hf), fun _ he => (by cases he)⟩
  have hwaits : ∀ f : Frame, f.Waits s.trail → (∀ m, f ≠ .proof m) →
      Stretch D s Nothing (some f, s) := by
    refine fun f hf hn => ⟨h, .refl s _, fun g hg => ?_, fun m he => ?_⟩
    · obtain rfl := Option.some.inj hg
      exact hf
    · exact absurd (Option.some.inj he) (hn m)
  unfold start
  split
  · exact hwaits _ trivial (fun _ he => by cases he)
  · exact hwaits _ trivial (fun _ he => by cases he)
  · exact hends _ (h.mark trivial (fun _ he => by cases he) (fun _ _ _ he => by cases he))
      (.mark s _ (fun _ he => by cases he))
  · split
    · exact hends _ h (.refl s _)
    · exact hends _ (h.fewer rfl (fun _ hi => hi) (fun _ hs => hs)) (.of_trail rfl)

/-- The request that a frame may open. -/
def Frame.Opens (f : Frame) (m : Mutation) : Prop := f = .proof m

theorem resume_stretch {f : Frame} {a : Awaited} {now : Int} {s : Desk} (h : s.Linked D)
    (hf : f.Waits s.trail) (ha : D.Honest s f a) :
    Stretch D s f.Opens (resume D f a now s) := by
  unfold resume
  split
  · exact ⟨h, .refl s _, fun _ hg => (by cases hg), fun _ he => (by cases he)⟩
  · exact challenge_stretch h ha
  · exact .replied h
  · split
    · exact .replied h
    · refine ⟨h, .refl s _, fun g hg => ?_, fun _ he => by cases he⟩
      obtain rfl := Option.some.inj hg
      trivial
  · exact mutation_stretch h
  · rename_i m row draw
    have hp := @proven_stretch D s m row now draw h hf ha.1 ha.2
    refine ⟨hp.linked, ⟨hp.grew.keeps, fun m' hm' => ?_⟩, hp.waits, fun m' he => ?_⟩
    · exact (hp.grew.opened m' hm').imp_right (fun he => by rw [he]; rfl)
    · exact (hp.fresh m' he).imp_left (fun he => by rw [he]; rfl)
  · exact handler_stretch h hf
  · exact returned_stretch h
  · refine ⟨h, .refl s _, fun g hg => ?_, fun m he => Or.inl (Option.some.inj he)⟩
    obtain rfl := Option.some.inj hg
    exact hf

/-- The nonce that a request has consumed, while its proof is checked. -/
def Frame.pending : Frame → Option String
  | proof m => some m.nonce
  | _ => none

structure InOrder (D : Core) (s : Desk) (waiting : List Frame) : Prop where
  linked : s.Linked D
  waits : ∀ f ∈ waiting, f.Waits s.trail
  distinct : (waiting.filterMap Frame.pending).Nodup

theorem Frame.Waits.stays {s s' : Desk} {opens : Mutation → Prop} {g : Frame}
    (h : g.Waits s.trail) (hg : s.Grew s' opens)
    (hother : ∀ m, opens m → g.pending ≠ some m.nonce) : g.Waits s'.trail := by
  cases g with
  | proof m =>
    refine ⟨hg.keeps _ h.1, fun m' hm' he => ?_⟩
    rcases hg.opened m' hm' with hold | hnew
    · exact h.2 m' hold he
    · exact hother m' hnew (by rw [he]; rfl)
  | router m id =>
    refine ⟨hg.keeps _ h.1, fun hn => ?_⟩
    obtain ⟨m', p, hm', hrest⟩ := h.2 hn
    exact ⟨m', p, hg.keeps _ hm', hrest⟩
  | challenge => trivial
  | auth n => trivial
  | json d => trivial

/-- A stretch keeps the world in order around the frames that it leaves alone. -/
theorem Stretch.in_order {s : Desk} {opens : Mutation → Prop} {r : Option Frame × Desk}
    {before behind : List Frame} (hr : Stretch D s opens r)
    (hwaits : ∀ g ∈ before ++ behind, g.Waits s.trail)
    (hother : ∀ m, opens m → ∀ g ∈ before ++ behind, g.pending ≠ some m.nonce)
    (hdistinct : ((before ++ behind).filterMap Frame.pending).Nodup) :
    InOrder D r.2 (before ++ r.1.toList ++ behind) := by
  refine ⟨hr.linked, fun g hg => ?_, ?_⟩
  · simp only [List.mem_append, Option.mem_toList] at hg
    have hstay : g ∈ before ++ behind → g.Waits r.2.trail := fun hmem =>
      (hwaits g hmem).stays hr.grew (fun m hm => hother m hm g hmem)
    rcases hg with (hg | hg) | hg
    · exact hstay (List.mem_append_left _ hg)
    · exact hr.waits g hg
    · exact hstay (List.mem_append_right _ hg)
  · obtain ⟨f, s'⟩ := r
    have hnew : ∀ n, (f.bind Frame.pending) = some n →
        n ∉ (before ++ behind).filterMap Frame.pending := by
      intro n hn hmem
      obtain ⟨k, hk, hpk⟩ := Option.bind_eq_some_iff.mp hn
      cases k with
      | proof m =>
        obtain rfl := Option.some.inj hpk
        obtain ⟨g, hg, hpg⟩ := List.mem_filterMap.mp hmem
        rcases hr.fresh m hk with hopen | hfree
        · exact hother m hopen g hg hpg
        · cases g with
          | proof m' => exact hfree m' (hwaits _ hg).1 (Option.some.inj hpg)
          | _ => cases hpg
      | _ => cases hpk
    have hperm : (before ++ f.toList ++ behind).Perm (f.toList ++ (before ++ behind)) := by
      rw [List.append_assoc]
      exact List.perm_append_comm_assoc ..
    refine (hperm.filterMap _).nodup_iff.mpr ?_
    cases f with
    | none => simpa using hdistinct
    | some k =>
      cases hk : k.pending with
      | none => simpa [hk] using hdistinct
      | some n =>
        simp only [Option.toList_some, List.cons_append, List.nil_append, List.filterMap_cons, hk]
        exact List.nodup_cons.mpr ⟨hnew n hk, hdistinct⟩

theorem InOrder.step (h : InOrder D w.shared w.waiting) {t : EventLoop.Step (endpoint D)}
    (ht : D.HonestTurn w t) :
    InOrder D (EventLoop.run t w).2.shared (EventLoop.run t w).2.waiting := by
  rcases EventLoop.run_cases t w with ⟨c, -, hr⟩ | ⟨i, a, f, before, behind, hs, hf, hw, hr⟩ |
    ⟨i, a, -, -, hr⟩
  · rw [hr]
    have hstretch : Stretch D w.shared Nothing (start D c t.now w.shared) := start_stretch h.linked
    have hin := @Stretch.in_order D w.shared Nothing _ w.waiting [] hstretch
      (by rw [List.append_nil]; exact h.waits) (fun _ hn => absurd hn id)
      (by rw [List.append_nil]; exact h.distinct)
    rw [List.append_nil] at hin
    exact hin
  · rw [hr]
    have hwaits := h.waits
    have hdistinct := h.distinct
    rw [hw] at hwaits hdistinct
    have hperm : (before ++ f :: behind).Perm (f :: (before ++ behind)) := List.perm_middle
    have hd := (hperm.filterMap Frame.pending).nodup_iff.mp hdistinct
    have hstretch : Stretch D w.shared f.Opens (resume D f a t.now w.shared) :=
      resume_stretch h.linked (hwaits f (by simp)) (ht i a f hs hf)
    refine hstretch.in_order (fun g hg => hwaits g (hperm.symm.subset (List.mem_cons_of_mem _ hg)))
      ?_ ?_
    · rintro m rfl g hg hp
      simp only [List.filterMap_cons, Frame.pending] at hd
      exact (List.nodup_cons.mp hd).1 (List.mem_filterMap.mpr ⟨g, hg, hp⟩)
    · exact hd.sublist ((List.sublist_cons_self ..).filterMap _)
  · rw [hr]
    exact h

theorem reach_in_order (h : D.Reach w) : InOrder D w.shared w.waiting := by
  induction h with
  | init =>
    refine ⟨⟨trivial, fun i hi => ?_, fun s hs => ?_⟩, fun f hf => (by cases hf), List.nodup_nil⟩
    · exact absurd hi (Table.not_mem_empty i)
    · exact absurd hs (Table.not_mem_empty s)
  | step _ ht ih => exact ih.step ht

end reach

/-! ### Which binding was signed -/

theorem plain_texts (es : List (String × String)) :
    Json.PlainMembers (es.map (fun e => Json.field e.1 (Json.string e.2))) := by
  induction es with
  | nil => trivial
  | cons e es ih => exact ⟨Json.spelled_of_string _, Json.spelled_of_string _, ih⟩

theorem texts_injective {es fs : List (String × String)}
    (h : es.map (fun e => Json.field e.1 (Json.string e.2)) =
      fs.map (fun e => Json.field e.1 (Json.string e.2))) : es = fs := by
  refine List.map_injective_iff.mpr (fun e f he => ?_) h
  obtain ⟨hk, hv⟩ := Prod.mk.inj he
  exact Prod.ext (text_injective hk) (text_injective (Json.str.inj hv))

theorem canonical_bytes_injective {v w : Json} (hv : v.Plain) (hw : w.Plain)
    (h : encodeUtf8 (String.ofList v.render) = encodeUtf8 (String.ofList w.render)) : v = w :=
  Json.render_injective hv hw (String.ofList_injective (encode_utf8_injective h))

theorem Payload.plain (p : Payload) : p.json.Plain :=
  ⟨Json.spelled_of_string _, plain_texts _, Json.spelled_of_string _, Json.spelled_of_string _,
    Json.spelled_of_string _, Json.spelled_of_string _, trivial⟩

theorem Binding.plain (b : Binding) : b.json.Plain :=
  ⟨Json.spelled_of_string _, Json.spelled_of_string _, Json.spelled_of_string _,
    Json.spelled_of_string _, Json.spelled_of_string _, Json.spelled_of_string _,
    Json.spelled_of_string _, Json.spelled_of_string _, Json.spelled_of_string _, trivial,
    Json.spelled_of_string _, Json.spelled_of_string _, trivial⟩

theorem Payload.canonical_injective {p q : Payload} (h : p.canonicalBytes = q.canonicalBytes) :
    p = q := by
  have hj := canonical_bytes_injective p.plain q.plain h
  obtain ⟨pc, ⟨pe, _⟩, ps⟩ := p
  obtain ⟨qc, ⟨qe, _⟩, qs⟩ := q
  simp only [Payload.json, Arguments.json, Json.obj.injEq, List.cons.injEq, Json.field,
    Prod.mk.injEq, true_and, and_true] at hj
  obtain ⟨ha, hc, hs⟩ := hj
  obtain rfl := texts_injective ha
  obtain rfl := text_injective (Json.str.inj hc)
  obtain rfl := text_injective (Json.str.inj hs)
  rfl

/-- The data of two bindings are the same only if the bindings are, as far as
the hashes of their payloads tell them apart. -/
theorem Binding.client_data_injective {b b' : Binding} {texts : Set Bytes}
    (hsha : Set.InjOn sha256 texts) (hb : b.payload.canonicalBytes ∈ texts)
    (hb' : b'.payload.canonicalBytes ∈ texts) (h : b.clientData = b'.clientData) : b = b' := by
  have hj := canonical_bytes_injective b.plain b'.plain (List.cons.inj (List.append_cancel_left h)).2
  obtain ⟨core, device, nonce, payload⟩ := b
  obtain ⟨core', device', nonce', payload'⟩ := b'
  simp only [Binding.json, Json.obj.injEq, List.cons.injEq, Json.field, Prod.mk.injEq, true_and,
    and_true] at hj
  obtain ⟨hc, hd, hn, hp⟩ := hj
  obtain rfl := text_injective (Json.str.inj hc)
  obtain rfl := text_injective (Json.str.inj hd)
  obtain rfl := text_injective (Json.str.inj hn)
  have hhash : sha256 payload.canonicalBytes = sha256 payload'.canonicalBytes :=
    to_hex_injective (text_injective (Json.str.inj hp))
  obtain rfl := Payload.canonical_injective (hsha hb hb' hhash)
  rfl

/-- The texts whose hashes a history has taken. -/
def Mark.texts (D : Core) : Mark → List Bytes
  | signed _ (.mutation b) => [b.clientData, b.payload.canonicalBytes]
  | signed _ (.other bytes) => [bytes]
  | opened m => [(m.binding D.id).clientData, m.payload.canonicalBytes]
  | _ => []

def hashed (D : Core) (t : List Mark) : Set Bytes := {x | ∃ k ∈ t, x ∈ k.texts D}

/-- A request that consumed a nonce of its device, whose device signed its
binding, with the hash of a value. -/
structure Mutation.Vouches (m : Mutation) (D : Core) (plaintext : Bytes) (t : List Mark) : Prop where
  issued : .issued m.nonce m.deviceId ∈ t
  consumed : .consumed m ∈ t
  signed : ∃ data, .signed m.deviceId data ∈ t ∧ data.bytes = (m.binding D.id).clientData ∧
    ∀ b, data = .mutation b → b = m.binding D.id
  hash : (m.binding D.id).payload.secretSha256 = toHex (sha256 plaintext)

def Mark.openedNonce : Mark → Option String
  | opened m => some m.nonce
  | _ => none

def Mark.consumedNonce : Mark → Option String
  | consumed m => some m.nonce
  | _ => none

def Mark.stagedId : Mark → Option String
  | staged _ id _ => some id
  | _ => none

def Mark.storedId : Mark → Option String
  | stored _ id _ => some id
  | _ => none

/-- The stored secret is the signed secret. -/
structure StoredAsSigned (D : Core) (t : List Mark) : Prop where
  /-- A value that is stored was staged by the device of the request that stores it; both
  requests vouch for it. -/
  signed : ∀ newer m id plaintext older, t = newer ++ .stored m id plaintext :: older →
    ∃ m', .staged m' id plaintext ∈ older ∧ m'.deviceId = m.deviceId ∧
      m'.Vouches D plaintext older ∧ m.Vouches D plaintext older
  stagedOnce : (t.filterMap Mark.stagedId).Nodup
  storedOnce : (t.filterMap Mark.storedId).Nodup
  consumedOnce : (t.filterMap Mark.consumedNonce).Nodup
  openedOnce : (t.filterMap Mark.openedNonce).Nodup

section signed
variable {D : Core} {t : List Mark}

/-- Marks are told apart by what each of them found free. -/
theorem Grounded.once {key : Mark → Option String} (h : Grounded D t)
    (hdue : ∀ k older n, k.Due D older → key k = some n → ∀ j ∈ older, key j ≠ some n) :
    (t.filterMap key).Nodup := by
  induction t with
  | nil => exact List.nodup_nil
  | cons k t ih =>
    cases hk : key k with
    | none =>
      rw [List.filterMap_cons_none hk]
      exact ih h.2
    | some n =>
      rw [List.filterMap_cons_some hk, List.nodup_cons]
      refine ⟨fun hmem => ?_, ih h.2⟩
      obtain ⟨j, hj, hjn⟩ := List.mem_filterMap.mp hmem
      exact hdue k t n h.1 hk j hj hjn

theorem Grounded.vouches {older : List Mark} {m : Mutation} {p : Bytes} (h : Grounded D older)
    (hin : ∀ k ∈ older, k ∈ t) (hsha : Set.InjOn sha256 (hashed D t)) (hm : .opened m ∈ older)
    (hp : m.secretSha256 = toHex (sha256 p)) : m.Vouches D p older := by
  obtain ⟨before, ⟨hconsumed, ⟨data, hsigned, hhash⟩, -⟩, hbefore⟩ := h.of_mem hm
  obtain ⟨first, ⟨hissued, -⟩, hfirst⟩ := h.of_mem (hbefore _ hconsumed)
  have hmine : (m.binding D.id).clientData ∈ hashed D t := ⟨_, hin _ hm, List.mem_cons_self ..⟩
  have hpayload : (m.binding D.id).payload.canonicalBytes ∈ hashed D t :=
    ⟨_, hin _ hm, List.mem_cons_of_mem _ (List.mem_cons_self ..)⟩
  have hdata : ∀ x ∈ (Mark.signed m.deviceId data).texts D, x ∈ hashed D t := fun x hx =>
    ⟨_, hin _ (hbefore _ hsigned), hx⟩
  have hbytes : data.bytes = (m.binding D.id).clientData := by
    refine hsha (hdata _ ?_) hmine hhash
    cases data with
    | mutation b => exact List.mem_cons_self ..
    | other bytes => exact List.mem_cons_self ..
  refine ⟨hfirst _ hissued, hbefore _ hconsumed, ⟨data, hbefore _ hsigned, hbytes, ?_⟩, hp⟩
  rintro b rfl
  exact Binding.client_data_injective hsha
    (hdata _ (List.mem_cons_of_mem _ (List.mem_cons_self ..))) hpayload hbytes

/-- Whatever is stored through the endpoint is what the device that staged it
has signed; it is stored once, and a nonce opens one request. -/
theorem stored_is_signed {w : D.World} (h : D.Reach w)
    (hsha : Set.InjOn sha256 (hashed D w.shared.trail)) : StoredAsSigned D w.shared.trail := by
  have hg := (reach_in_order h).linked.grounded
  refine ⟨fun newer m id p older ht => ?_, hg.once ?_, hg.once ?_, hg.once ?_, hg.once ?_⟩
  · rw [ht] at hg
    obtain ⟨⟨hopen, ⟨m', hstaged, hdev, hsame⟩, -⟩, hold⟩ := hg.split
    have hin : ∀ k ∈ older, k ∈ w.shared.trail := fun k hk => by
      rw [ht]
      exact List.mem_append_right _ (List.mem_cons_of_mem _ hk)
    obtain ⟨before, ⟨hopen', hhash, -⟩, hbefore⟩ := hold.of_mem hstaged
    exact ⟨m', hstaged, hdev, hold.vouches hin hsha (hbefore _ hopen') hhash,
      hold.vouches hin hsha hopen (hsame.trans hhash)⟩
  · intro k older n hdue hn j hj he
    cases k with
    | staged m id p =>
      cases j with
      | staged m' id' p' =>
        obtain rfl := Option.some.inj (he.trans hn.symm)
        exact hdue.2.2 _ _ hj
      | _ => cases he
    | _ => cases hn
  · intro k older n hdue hn j hj he
    cases k with
    | stored m id p =>
      cases j with
      | stored m' id' p' =>
        obtain rfl := Option.some.inj (he.trans hn.symm)
        exact hdue.2.2 _ _ hj
      | _ => cases he
    | _ => cases hn
  · intro k older n hdue hn j hj he
    cases k with
    | consumed m =>
      cases j with
      | consumed m' =>
        exact hdue.2 m' hj (Option.some.inj (he.trans hn.symm))
      | _ => cases he
    | _ => cases hn
  · intro k older n hdue hn j hj he
    cases k with
    | opened m =>
      cases j with
      | opened m' =>
        exact hdue.2.2 m' hj (Option.some.inj (he.trans hn.symm))
      | _ => cases he
    | _ => cases hn

end signed

/-! ### A run -/

/-- Turns that are honest, one after the other. -/
def Core.HonestTurns (D : Core) (w : D.World) : List (EventLoop.Step (endpoint D)) → Prop
  | [] => True
  | t :: ts => D.HonestTurn w t ∧ D.HonestTurns (EventLoop.run t w).2 ts

theorem Core.Reach.after {D : Core} {w : D.World} (h : D.Reach w)
    {ts : List (EventLoop.Step (endpoint D))} (hts : D.HonestTurns w ts) :
    D.Reach ((endpoint D).machine.after w ts) := by
  induction ts generalizing w with
  | nil => exact h
  | cons t ts ih => exact ih (h.step hts.1) hts.2

/-- What an addition does, once its call is known. -/
theorem add_effect {V : Site} {m : Moment} {t : Vault} {args : Args} {staged : Option Bytes}
    {c : Call} {e : Effect V}
    (hc : (Action.capability .secretAdd args staged).call V t = .ok c)
    (he : c.effect V m t t = .ok e) :
    (Action.capability .secretAdd args staged).effect V m t = .ok e := by
  simp only [Action.effect, hc, he, bind, Except.bind]
  rfl

/-- A handler that stores what it was handed leaves a mark of it. -/
theorem handler_trail {D : Core} {m : Mutation} {stagingId : String} {now : Int}
    {staged : Keychain} {moment : Moment} {s : Desk} {value : Option Bytes} {sealing : Sealing D.site}
    (hneeds : m.capability.needsValue = true)
    (hvalue : (takeStaged D stagingId now staged s).1 = value)
    (heffect : (Action.capability m.capability (m.routed stagingId) value).effect D.site moment
      (takeStaged D stagingId now staged s).2.vault = .ok (.stored sealing)) :
    (handler D m stagingId now staged moment s).trail =
      .stored m stagingId sealing.plaintext :: (takeStaged D stagingId now staged s).2.trail := by
  simp only [handler, hneeds, if_true, hvalue, heffect]
  rfl

namespace Sample

def arguments : Arguments :=
  ⟨[("capabilities", "portal_login"), ("executors", "browser"), ("kind", "password"),
    ("secret_ref", mail), ("targets", "https://mail.example")], by decide⟩

/-- A core whose verifier knows one assertion of one key. -/
def core : Core where
  site := site
  controlPlane := some ⟨"core", some (fun assertion _ key _ => assertion = [1] ∧ key = [7])⟩
  router := true

def form : Form :=
  { capability := "secret_add", arguments := some arguments, nonce := "n1"
    assertionB64 := b64encode [1], secretSha256 := toHex (sha256 [104, 105])
    secretB64 := b64encode [104, 105] }

def mutation : Mutation :=
  { deviceId := "phone", capability := .secretAdd, arguments := arguments, nonce := "n1"
    assertion := [1], secretSha256 := toHex (sha256 [104, 105])
    secretB64 := b64encode [104, 105], stagingId := "" }

/-- A challenge, the signature, and the request up to the handler. -/
def turns : List (EventLoop.Step (endpoint core)) :=
  [⟨0, .start .challenge⟩, ⟨0, .resume 0 (.authed (some "phone") "n1")⟩,
   ⟨1, .start (.sign "phone" (.mutation (mutation.binding "core")))⟩,
   ⟨2, .start (.mutation 100)⟩, ⟨2, .resume 0 (.authed (some "phone") "")⟩,
   ⟨2, .resume 0 (.json (some form))⟩,
   ⟨3, .resume 0 (.device (some ⟨"07", 1⟩) ⟨.ready, nonce, "stg-1"⟩)⟩,
   ⟨4, .resume 0 (.runs .ready moment)⟩]

theorem honest_authed {w : core.World} {now : Int} {i : Nat} {device : Option String}
    {token : String} (h : ∀ d, .issued token d ∉ w.shared.trail) :
    core.HonestTurn w ⟨now, .resume i (.authed device token)⟩ := by
  intro j a f ht _
  obtain ⟨-, rfl⟩ := EventLoop.Turn.resume.inj ht
  cases f <;> first | exact h | trivial

theorem honest_start {w : core.World} {now : Int} {r : Request} :
    core.HonestTurn w ⟨now, .start r⟩ := fun _ _ _ ht _ => by cases ht

theorem honest_json {w : core.World} {now : Int} {i : Nat} {form : Option Form} :
    core.HonestTurn w ⟨now, .resume i (.json form)⟩ := by
  intro j a f ht _
  obtain ⟨-, rfl⟩ := EventLoop.Turn.resume.inj ht
  cases f <;> trivial

theorem honest_runs {w : core.World} {now : Int} {i : Nat} {keychain : Keychain} {m : Moment} :
    core.HonestTurn w ⟨now, .resume i (.runs keychain m)⟩ := by
  intro j a f ht _
  obtain ⟨-, rfl⟩ := EventLoop.Turn.resume.inj ht
  cases f <;> trivial

/-- The trail up to the request. -/
def asked : List Mark :=
  [.signed "phone" (.mutation (mutation.binding "core")), .replied (.challenge "n1" "core"),
    .issued "n1" "phone"]

theorem honest_proof {w : core.World} {now : Int} {draw : Draw} {row : Option DeviceRow}
    (hf : w.waiting[0]? = some (.proof mutation)) (ht : w.shared.trail = .consumed mutation :: asked) :
    core.HonestTurn w ⟨now, .resume 0 (.device row draw)⟩ := by
  intro j a f hturn hj
  obtain ⟨rfl, rfl⟩ := EventLoop.Turn.resume.inj hturn
  obtain rfl := Option.some.inj (hf.symm.trans hj)
  refine ⟨fun _ _ _ => ⟨.mutation (mutation.binding "core"), ?_, rfl⟩, fun m p hm => ?_⟩
  · rw [ht]
    exact List.mem_cons_of_mem _ (List.mem_cons_self ..)
  · rw [ht] at hm
    simp [asked] at hm

theorem turns_honest : core.HonestTurns (endpoint core).machine.init turns := by
  refine ⟨honest_start, honest_authed (fun _ => List.not_mem_nil), honest_start, honest_start,
    honest_authed ?_, honest_json, honest_proof (by decide +kernel) (by decide +kernel),
    honest_runs, trivial⟩
  intro d hd
  have ht : ∀ k ∈ asked, k ≠ .issued "" d := by simp [asked]
  exact ht _ hd rfl

def world : core.World := (endpoint core).machine.after (endpoint core).machine.init turns

theorem reached : core.Reach world := Core.Reach.init.after turns_honest

/-- The world in which the request waits for the router. -/
def routed : core.World := (endpoint core).machine.after (endpoint core).machine.init (turns.take 7)

theorem routed_waits : routed.waiting[0]? = some (.router mutation "stg-1") := by decide +kernel

theorem routed_taken : ((takeStaged core "stg-1" 4 .ready routed.shared).1,
      (takeStaged core "stg-1" 4 .ready routed.shared).2.vault,
      (takeStaged core "stg-1" 4 .ready routed.shared).2.trail) =
    (some [104, 105], Table.empty, .staged mutation "stg-1" [104, 105] :: .opened mutation ::
      .consumed mutation :: asked) := by
  decide +kernel

/-- The capability comes to the addition of the value. -/
theorem routed_call : (Action.capability .secretAdd (mutation.routed "stg-1")
    (some [104, 105])).call site Table.empty = .ok (.add (addition scope) false) := by
  rfl

theorem addition_effect {s : Scope} {sealing : Sealing site}
    (h : add site moment Table.empty (addition s) false = .ok sealing) :
    (Call.add (addition s) false).effect site moment Table.empty Table.empty =
      .ok (.stored sealing) :=
  map_ok.mpr ⟨sealing, h, rfl⟩

theorem routed_stored : ∃ sealing, (Action.capability .secretAdd (mutation.routed "stg-1")
      (some [104, 105])).effect site moment Table.empty = .ok (.stored sealing) ∧
    sealing.plaintext = [104, 105] := by
  obtain ⟨sealing, hadd, -, htext, -⟩ := added (C := cipher) scope_checked authority_written
  exact ⟨sealing, add_effect routed_call (addition_effect hadd), htext⟩

def lastTurn : EventLoop.Step (endpoint core) := ⟨4, .resume 0 (.runs .ready moment)⟩

/-- The last turn runs the handler. -/
theorem last_shared {w : core.World} (h : w.waiting[0]? = some (.router mutation "stg-1")) :
    (EventLoop.run lastTurn w).2.shared =
      handler core mutation "stg-1" 4 .ready moment w.shared := by
  simp only [EventLoop.run, lastTurn, h]
  rfl

theorem world_routed : world = (EventLoop.run lastTurn routed).2 := by
  have hturns : turns = turns.take 7 ++ [lastTurn] := rfl
  rw [world, hturns, Machine.after_concat, ← routed]

theorem world_trail : world.shared.trail = .stored mutation "stg-1" [104, 105] ::
    .staged mutation "stg-1" [104, 105] :: .opened mutation :: .consumed mutation :: asked := by
  have htaken := routed_taken
  simp only [Prod.mk.injEq] at htaken
  obtain ⟨hvalue, hvault, htrail⟩ := htaken
  obtain ⟨sealing, heffect, htext⟩ := routed_stored
  rw [← hvault] at heffect
  rw [world_routed, last_shared routed_waits, handler_trail rfl hvalue heffect, htrail, htext]

/-- Two texts have been hashed. -/
theorem world_hashed {x : Bytes} (h : x ∈ hashed core world.shared.trail) :
    x = (mutation.binding "core").clientData ∨ x = mutation.payload.canonicalBytes := by
  obtain ⟨k, hk, hx⟩ := h
  rw [world_trail] at hk
  simp only [asked, List.mem_cons, List.not_mem_nil, or_false] at hk
  rcases hk with rfl | rfl | rfl | rfl | rfl | rfl | rfl
  · cases hx
  · cases hx
  · exact List.mem_pair.mp hx
  · cases hx
  · exact List.mem_pair.mp hx
  · cases hx
  · cases hx

theorem value_hash : toHex (sha256 [104, 105]) =
    "8f434346648f6b96df89dda901c5176b10a6d83961dd3c1ac88b59b2dc327aa4" := by
  rw [sha256_run, to_hex_run]
  decide +kernel

def payload : Payload :=
  ⟨"secret_add", arguments, "8f434346648f6b96df89dda901c5176b10a6d83961dd3c1ac88b59b2dc327aa4"⟩

theorem payload_hash : payload.sha256 =
    "98ef80b05b1a10d1d5570205db1e75b9bbf44e12fa84fe61a9e783981a7877eb" := by
  simp only [Payload.sha256, Payload.canonicalBytes, Payload.json, payload, Arguments.json,
    arguments, List.map, Json.field, Json.string, Text.of_string_quick]
  rw [encode_ascii (by decide +kernel), sha256_run, to_hex_run]
  decide +kernel

/-- The bytes that the device signs, with the hash of the payload in place. -/
def signedBytes : Bytes :=
  encodeUtf8 "SOLVIO_VAULT_MUTATION_V1" ++ 0 :: encodeUtf8 (String.ofList (Json.obj
    [Json.field "core_instance_id" (Json.string "core"),
     Json.field "device_id" (Json.string "phone"),
     Json.field "nonce" (Json.string "n1"),
     Json.field "payload_sha256" (Json.string
      "98ef80b05b1a10d1d5570205db1e75b9bbf44e12fa84fe61a9e783981a7877eb"),
     Json.field "protocol_version" (.int 1),
     Json.field "type" (Json.string "vault_mutation_binding")]).render)

theorem signed_hash : toHex (sha256 signedBytes) =
    "3fa2aec8a02a76daff5b1ec369b259e7a798f7a9f6689a70b0a4d42f2ae04663" := by
  simp only [signedBytes, Json.field, Json.string, Text.of_string_quick]
  rw [encode_ascii (by decide +kernel : (Json.render _).all _ = true), sha256_run, to_hex_run]
  decide +kernel

theorem hashes_differ : sha256 (mutation.binding "core").clientData ≠
    sha256 mutation.payload.canonicalBytes := by
  have hpayload : mutation.payload = payload := by
    rw [payload, ← value_hash, mutation, Mutation.payload]
    rfl
  have hsigned : (mutation.binding "core").clientData = signedBytes := by
    rw [Binding.clientData, Binding.json, Mutation.binding, hpayload, payload_hash, signedBytes,
      mutation]
  intro he
  have hhex := congrArg toHex he
  rw [hsigned, signed_hash, hpayload, ← Payload.sha256, payload_hash] at hhex
  revert hhex
  decide

end Sample

theorem stored_is_signed_sample : StoredAsSigned Sample.core Sample.world.shared.trail ∧
    ∃ m p, .stored m "stg-1" p ∈ Sample.world.shared.trail := by
  refine ⟨stored_is_signed Sample.reached ?_, Sample.mutation, [104, 105], ?_⟩
  · intro x hx y hy he
    rcases Sample.world_hashed hx with hx | hx <;> rcases Sample.world_hashed hy with hy | hy
    · exact hx.trans hy.symm
    · rw [hx, hy] at he
      exact absurd he Sample.hashes_differ
    · rw [hx, hy] at he
      exact absurd he.symm Sample.hashes_differ
    · exact hx.trans hy.symm
  · rw [Sample.world_trail]
    exact List.mem_cons_self ..

end Solvio.SecretVault
