import Solvio.Lib.Codec
import Solvio.Lib.Runs
import Solvio.Realtime.Frames

namespace Solvio.Realtime.BargeIn
open Solvio.Lib Solvio.Audio

/-! ### The two guards of a session -/

/-- The part of a `Session` that decides whose audio is relayed. `dead` is
`_dead_responses`, newest first. -/
structure Session where
  down : Down
  stopping : Bool := false
  responding : Bool := false
  audioOpen : Bool := true
  responseId : String := ""
  dead : List String := []
  relayed : List Bytes := []

/-- What the session meets. `delta` names a response, or none with an empty id;
`stop` is `_silent_stop`, and `tools` a round of tools. -/
inductive Event where
  | delta (responseId payload : String)
  | speechStarted
  | created (responseId : String)
  | done (responseId : String)
  | bargeIn
  | stop
  | tools
deriving DecidableEq

/-- `_audio_wanted`. -/
def audioWanted (responseId : String) (s : Session) : Bool :=
  if responseId ≠ "" ∧ responseId ∈ s.dead then false else s.audioOpen

/-- The gate is shut, and the response is dead. The list holds eight. -/
def silence (s : Session) : Session :=
  { s with
    audioOpen := false
    dead := if s.responseId = "" then s.dead else (s.responseId :: s.dead).take 8 }

variable (decode : String → Option Bytes)

def step : Event → Session → Session
  | .delta responseId payload, s =>
    if s.stopping = false ∧ audioWanted responseId s = true then
      let (pcm16, down) := providerPcm decode payload s.down
      { s with down := down, relayed := s.relayed ++ sentOf pcm16 }
    else s
  | .speechStarted, s => if s.responding then silence s else s
  | .created responseId, s =>
    { s with responding := true, responseId := responseId, audioOpen := true }
  | .done _, s => { s with responding := false }
  | .bargeIn, s => if s.responding then silence s else s
  | .stop, s => if s.stopping then s else silence { s with stopping := true }
  | .tools, s => { s with responding := true }

def session (down : Down) : Machine Session where
  Call := Event
  Reply _ := Unit
  step e s := ((), step decode e s)
  init := { down := down }

/-! ### What a history says -/

/-- Somebody talks into the answer, or ends it. -/
def Event.interrupts : Event → Bool
  | speechStarted | bargeIn | stop => true
  | _ => false

/-- How many interruptions there were since a response was created, the newest
event first. -/
def since (responseId : String) : List Event → Option Nat
  | [] => none
  | e :: older =>
    match since responseId older with
    | some n => some (n + e.interrupts.toNat)
    | none => if e = .created responseId then some 0 else none

/-- The same for the response that was created last. -/
def sinceLast : List Event → Nat
  | [] => 0
  | .created _ :: _ => 0
  | e :: older => sinceLast older + e.interrupts.toNat

/-- The response that was created last. -/
def current : List Event → String
  | [] => ""
  | .created responseId :: _ => responseId
  | _ :: older => current older

/-- A response is over: it is done, or has been interrupted. -/
def Over (older : List Event) : Prop :=
  current older = "" ∨ .done (current older) ∈ older ∨ 0 < sinceLast older

instance (older : List Event) : Decidable (Over older) := inferInstanceAs (Decidable (_ ∨ _ ∨ _))

/-- The order a provider keeps: a response begins when the one before is over,
no response is done while another one speaks, no audio of a response arrives
before it is created or after it is done, and none more than eight
interruptions late. -/
def Orderly (older : List Event) : Event → Prop
  | .created responseId => responseId ≠ "" ∧ Over older
  | .done responseId => responseId = current older ∨ Over older
  | .delta responseId _ =>
    if responseId = "" then current older ≠ "" ∧ .done (current older) ∉ older
    else (since responseId older).any (· ≤ 8) ∧ .done responseId ∉ older
  | _ => True

instance Orderly.decidable (older : List Event) : (e : Event) → Decidable (Orderly older e)
  | .created _ => inferInstanceAs (Decidable (_ ∧ _))
  | .done _ => inferInstanceAs (Decidable (_ ∨ _))
  | .delta responseId _ => inferInstanceAs (Decidable (
    if responseId = "" then current older ≠ "" ∧ .done (current older) ∉ older
    else (since responseId older).any (· ≤ 8) ∧ .done responseId ∉ older))
  | .speechStarted | .bargeIn | .stop | .tools => inferInstanceAs (Decidable True)

variable {decode} {down : Down}

def events (log : List (session decode down).Entry) : List Event :=
  log.map Machine.Entry.call

/-- A step that keeps the order. -/
def Ordered (older : List (session decode down).Entry) (e : (session decode down).Entry) : Prop :=
  Orderly (events older) e.call

instance (older : List (session decode down).Entry) (e : (session decode down).Entry) :
    Decidable (Ordered older e) :=
  Orderly.decidable (events older) e.call

/-- A step relays nothing. -/
def Mute (e : (session decode down).Entry) : Prop := e.post.relayed = e.pre.relayed

/-- A step relays the audio of a delta, if there is any. -/
def Relays (payload : String) (e : (session decode down).Entry) : Prop :=
  e.post.relayed = e.pre.relayed ++ sentOf (providerPcm decode payload e.pre.down).1

/-- The old voice never speaks: audio of a response that was interrupted is not
relayed, nor audio without a name in front of the next response. All other
audio is relayed as it comes. -/
def Fair (older : List (session decode down).Entry) (e : (session decode down).Entry) : Prop :=
  match e.call with
  | .delta responseId payload =>
    (responseId ≠ "" → (∃ n, since responseId (events older) = some (n + 1)) → Mute e) ∧
    (responseId = "" → 0 < sinceLast (events older) → Mute e) ∧
    (responseId ≠ "" → since responseId (events older) = some 0 → .stop ∉ events older →
      Relays payload e) ∧
    (responseId = "" → sinceLast (events older) = 0 → .stop ∉ events older → Relays payload e) ∧
    (Mute e ∨ Relays payload e)
  | _ => Mute e

/-! ### What the guards know -/

variable {older : List Event} {s : Session}

/-- The state of a session behind the events of an orderly provider. -/
structure Kept (older : List Event) (s : Session) : Prop where
  response : s.responseId = current older
  known : current older ≠ "" → ∃ n, since (current older) older = some n
  named : since "" older = none
  last : ∀ r n, since r older = some n → sinceLast older ≤ n
  only : ∀ r, since r older = some 0 → .done r ∉ older → r = current older
  speaking : current older ≠ "" → sinceLast older = 0 → .done (current older) ∉ older →
    s.responding = true
  opened : sinceLast older = 0 → .stop ∉ older → s.audioOpen = true
  shut : current older ≠ "" → 0 < sinceLast older → .done (current older) ∉ older →
    s.stopping = true ∨ s.audioOpen = false
  dead : ∀ r n, since r older = some (n + 1) → .done r ∉ older → n < 8 →
    s.stopping = true ∨ r ∈ s.dead.take (n + 1)
  buried : ∀ r ∈ s.dead, ∃ n, since r older = some (n + 1)
  stopped : s.stopping = true → .stop ∈ older

theorem since_event {e : Event} (h : ∀ r, e ≠ .created r) (r : String) (older : List Event) :
    since r (e :: older) = (since r older).map (· + e.interrupts.toNat) := by
  rw [since]
  cases since r older with
  | none => simp [h r]
  | some n => rfl

theorem since_created (r r' : String) (older : List Event) :
    since r (.created r' :: older) =
      match since r older with
      | some n => some n
      | none => if r' = r then some 0 else none := by
  rw [since]
  cases since r older with
  | none => simp
  | some n => rfl

theorem last_event {e : Event} (h : ∀ r, e ≠ .created r) (older : List Event) :
    sinceLast (e :: older) = sinceLast older + e.interrupts.toNat := by
  cases e with
  | created r => exact absurd rfl (h r)
  | _ => rfl

theorem current_event {e : Event} (h : ∀ r, e ≠ .created r) (older : List Event) :
    current (e :: older) = current older := by
  cases e with
  | created r => exact absurd rfl (h r)
  | _ => rfl

/-- An event that is no interruption, and neither begins nor ends a response. -/
theorem Kept.other {e : Event} {s' : Session} (h : Kept older s) (hcreated : ∀ r, e ≠ .created r)
    (hcalm : e.interrupts = false) (hresponse : s'.responseId = s.responseId)
    (hdead : s'.dead = s.dead) (hopen : s'.audioOpen = s.audioOpen)
    (hstopping : s'.stopping = s.stopping)
    (hresponding : s.responding = true → s'.responding = true) : Kept (e :: older) s' := by
  have hsince : ∀ r, since r (e :: older) = since r older := by
    intro r
    rw [since_event hcreated, hcalm]
    cases since r older <;> rfl
  have hlast : sinceLast (e :: older) = sinceLast older := by
    rw [last_event hcreated, hcalm]
    rfl
  have hcurrent := current_event hcreated older
  have hdone : ∀ r, .done r ∉ e :: older → .done r ∉ older :=
    fun r hr hmem => hr (List.mem_cons_of_mem _ hmem)
  refine ⟨?_, ?_, ?_, ?_, ?_, ?_, ?_, ?_, ?_, ?_, ?_⟩ <;>
    simp only [hsince, hlast, hcurrent, hresponse, hdead, hopen, hstopping]
  · exact h.response
  · exact h.known
  · exact h.named
  · exact h.last
  · exact fun r hr hn => h.only r hr (hdone r hn)
  · exact fun hne hzero hn => hresponding (h.speaking hne hzero (hdone _ hn))
  · exact fun hzero hn => h.opened hzero (fun hmem => hn (List.mem_cons_of_mem _ hmem))
  · exact fun hne hpos hn => h.shut hne hpos (hdone _ hn)
  · exact fun r n hr hn hlt => h.dead r n hr (hdone r hn) hlt
  · exact h.buried
  · exact fun hstop => List.mem_cons_of_mem _ (h.stopped hstop)

theorem Kept.begins {r : String} (h : Kept older s) (hr : r ≠ "") (hover : Over older) :
    Kept (.created r :: older)
      { s with responding := true, responseId := r, audioOpen := true } := by
  have hlater : ∀ q n, since q older = some n → since q (.created r :: older) = some n := by
    intro q n hq
    rw [since_created, hq]
  have hback : ∀ q n, since q (.created r :: older) = some n →
      since q older = some n ∨ (q = r ∧ n = 0) := by
    intro q n hq
    rw [since_created] at hq
    split at hq
    · rename_i m hm
      exact .inl (hm.trans hq)
    · split at hq
      · rename_i hsame
        cases hq
        exact .inr ⟨hsame.symm, rfl⟩
      · cases hq
  have hdone : ∀ q, .done q ∉ Event.created r :: older → .done q ∉ older :=
    fun q hq hmem => hq (List.mem_cons_of_mem _ hmem)
  refine ⟨rfl, fun _ => ?_, ?_, fun _ _ _ => Nat.zero_le _, fun q hq hn => ?_, fun _ _ _ => rfl,
    fun _ _ => rfl, fun _ hpos => absurd hpos (lt_irrefl 0), fun q n hq hn hlt => ?_,
    fun q hq => ?_, fun hstop => List.mem_cons_of_mem _ (h.stopped hstop)⟩
  · show ∃ n, since r (.created r :: older) = some n
    rw [since_created]
    cases since r older with
    | none => exact ⟨0, if_pos rfl⟩
    | some n => exact ⟨n, rfl⟩
  · rw [since_created, h.named]
    exact if_neg hr
  · rcases hback q 0 hq with hq | ⟨hq, -⟩
    · -- it would be the one before, and that one is over
      have hlast := h.last q 0 hq
      have hsame := h.only q hq (hdone q hn)
      subst hsame
      rcases hover with hnone | hended | hpos
      · rw [hnone, h.named] at hq
        cases hq
      · exact absurd hended (hdone _ hn)
      · omega
    · exact hq
  · rcases hback q (n + 1) hq with hq | ⟨-, hzero⟩
    · exact h.dead q n hq (hdone q hn) hlt
    · cases hzero
  · obtain ⟨n, hn⟩ := h.buried q hq
    exact ⟨n, hlater q _ hn⟩

theorem Kept.ends {r : String} (h : Kept older s) (hr : r = current older ∨ Over older) :
    Kept (.done r :: older) { s with responding := false } := by
  have hevent : ∀ q, Event.done r ≠ .created q := fun q => by simp
  have hsince : ∀ q, since q (.done r :: older) = since q older := by
    intro q
    rw [since_event hevent]
    cases since q older <;> rfl
  have hdone : ∀ q, .done q ∉ Event.done r :: older → q ≠ r ∧ .done q ∉ older :=
    fun q hq => ⟨fun hsame => hq (hsame ▸ List.mem_cons_self ..),
      fun hmem => hq (List.mem_cons_of_mem _ hmem)⟩
  refine ⟨h.response, ?_, ?_, ?_, fun q hq hn => ?_, fun hne hzero hn => ?_, fun hzero hn => ?_,
    fun hne hpos hn => h.shut hne hpos (hdone _ hn).2, fun q n hq hn hlt => ?_, fun q hq => ?_,
    fun hstop => List.mem_cons_of_mem _ (h.stopped hstop)⟩
  · intro hne
    obtain ⟨n, hn⟩ := h.known hne
    exact ⟨n, (hsince _).trans hn⟩
  · exact (hsince _).trans h.named
  · exact fun q n hq => h.last q n (hsince q ▸ hq)
  · exact h.only q (hsince q ▸ hq) (hdone q hn).2
  · obtain ⟨hother, hn⟩ := hdone _ hn
    rcases hr with hsame | hnone | hended | hpos
    · exact absurd hsame.symm hother
    · exact absurd hnone hne
    · exact absurd hended hn
    · exact absurd hzero hpos.ne'
  · exact h.opened hzero (fun hmem => hn (List.mem_cons_of_mem _ hmem))
  · exact h.dead q n (hsince q ▸ hq) (hdone q hn).2 hlt
  · obtain ⟨n, hn⟩ := h.buried q hq
    exact ⟨n, (hsince q).trans hn⟩

/-- A new dead response pushes the others back by one place. -/
theorem pushed {dead : List String} {r : String} {n : Nat} (c : String) (hn : n + 1 < 8)
    (hr : r ∈ dead.take (n + 1)) : r ∈ ((c :: dead).take 8).take (n + 2) := by
  rw [List.take_take, show min (n + 2) 8 = n + 1 + 1 by omega, List.take_succ_cons]
  exact List.mem_cons_of_mem _ hr

/-- An interruption: the guards are shut, or the response has been over. -/
theorem Kept.interrupted {e : Event} {s' : Session} (h : Kept older s)
    (hcreated : ∀ r, e ≠ .created r) (hinterrupts : e.interrupts = true)
    (hresponse : s'.responseId = s.responseId) (hstopping : s.stopping = true → s'.stopping = true)
    (hstopped : s'.stopping = true → .stop ∈ e :: older)
    (hshut : (s'.audioOpen = false ∧ s'.dead = (silence s).dead) ∨
      (s'.audioOpen = s.audioOpen ∧ s'.dead = s.dead ∧
        (s.responding = false ∨ s.stopping = true))) :
    Kept (e :: older) s' := by
  have hsince : ∀ r, since r (e :: older) = (since r older).map (· + 1) := by
    intro r
    rw [since_event hcreated, hinterrupts]
    rfl
  have hback : ∀ r n, since r (e :: older) = some (n + 1) → since r older = some n := by
    intro r n hr
    rw [hsince, Option.map_eq_some_iff] at hr
    obtain ⟨m, hm, heq⟩ := hr
    rw [hm, show m = n by omega]
  have hlast : sinceLast (e :: older) = sinceLast older + 1 := by
    rw [last_event hcreated, hinterrupts]
    rfl
  have hcurrent := current_event hcreated older
  have hdone : ∀ r, .done r ∉ e :: older → .done r ∉ older :=
    fun r hr hmem => hr (List.mem_cons_of_mem _ hmem)
  -- the first interruption of a response that is not done finds it speaking
  have hfirst : current older ≠ "" → sinceLast older = 0 → .done (current older) ∉ older →
      s.stopping = true ∨ (s'.audioOpen = false ∧
        s'.dead = (current older :: s.dead).take 8) := by
    intro hne hzero hn
    rcases hshut with ⟨hopen, hdead⟩ | ⟨-, -, hquiet | hstop⟩
    · refine .inr ⟨hopen, ?_⟩
      rw [hdead, silence, h.response]
      exact if_neg hne
    · rw [h.speaking hne hzero hn] at hquiet
      cases hquiet
    · exact .inl hstop
  refine ⟨?_, ?_, ?_, ?_, ?_, ?_, ?_, ?_, ?_, ?_, hstopped⟩
  · rw [hresponse, hcurrent]
    exact h.response
  · rw [hcurrent]
    intro hne
    obtain ⟨n, hn⟩ := h.known hne
    exact ⟨n + 1, by rw [hsince, hn]; rfl⟩
  · rw [hsince, h.named]
    rfl
  · intro r n hr
    rw [hsince, Option.map_eq_some_iff] at hr
    obtain ⟨m, hm, rfl⟩ := hr
    rw [hlast]
    exact Nat.succ_le_succ (h.last r m hm)
  · intro r hr
    rw [hsince, Option.map_eq_some_iff] at hr
    obtain ⟨m, -, hm⟩ := hr
    omega
  · exact fun _ hzero => by omega
  · exact fun hzero => by omega
  · rw [hcurrent]
    intro hne _ hn
    rcases Nat.eq_zero_or_pos (sinceLast older) with hzero | hpos
    · rcases hfirst hne hzero (hdone _ hn) with hstop | ⟨hopen, -⟩
      · exact .inl (hstopping hstop)
      · exact .inr hopen
    · rcases h.shut hne hpos (hdone _ hn) with hstop | hopen
      · exact .inl (hstopping hstop)
      · rcases hshut with ⟨hopen', -⟩ | ⟨hopen', -⟩
        · exact .inr hopen'
        · exact .inr (hopen'.trans hopen)
  · intro r n hr hn hlt
    have hr := hback r n hr
    cases n with
    | zero =>
      have hsame := h.only r hr (hdone r hn)
      have hzero : sinceLast older = 0 := Nat.le_zero.mp (h.last r 0 hr)
      have hne : current older ≠ "" := by
        rintro hnone
        rw [hsame, hnone, h.named] at hr
        cases hr
      rcases hfirst hne hzero (hsame ▸ hdone r hn) with hstop | ⟨-, hdead⟩
      · exact .inl (hstopping hstop)
      · rw [hdead, hsame]
        exact .inr (by simp)
    | succ n =>
      rcases h.dead r n hr (hdone r hn) (by omega) with hstop | hmem
      · exact .inl (hstopping hstop)
      · rcases hshut with ⟨-, hdead⟩ | ⟨-, hdead, -⟩
        · rw [hdead, silence]
          dsimp only
          split
          · exact .inr (List.take_subset_take_left _ (by omega) hmem)
          · exact .inr (pushed _ hlt hmem)
        · rw [hdead]
          exact .inr (List.take_subset_take_left _ (by omega) hmem)
  · intro r hr
    have hburied : r ∈ s.dead ∨ (r = current older ∧ current older ≠ "") := by
      rcases hshut with ⟨-, hdead⟩ | ⟨-, hdead, -⟩
      · rw [hdead, silence, h.response] at hr
        dsimp only at hr
        split at hr
        · exact .inl hr
        · rename_i hne
          rcases List.mem_cons.mp (List.mem_of_mem_take hr) with hr | hr
          · exact .inr ⟨hr, hne⟩
          · exact .inl hr
      · exact .inl (hdead ▸ hr)
    rcases hburied with hr | ⟨rfl, hne⟩
    · obtain ⟨n, hn⟩ := h.buried r hr
      exact ⟨n + 1, by rw [hsince, hn]; rfl⟩
    · obtain ⟨n, hn⟩ := h.known hne
      exact ⟨n, by rw [hsince, hn]; rfl⟩

/-- One step of an orderly provider. -/
theorem step_kept (h : Kept older s) {e : Event} (horder : Orderly older e) :
    Kept (e :: older) (step decode e s) := by
  cases e with
  | delta r payload =>
    simp only [step]
    split
    · exact h.other (by simp) rfl rfl rfl rfl rfl id
    · exact h.other (by simp) rfl rfl rfl rfl rfl id
  | created r => exact h.begins horder.1 horder.2
  | done r => exact h.ends horder
  | tools => exact h.other (by simp) rfl rfl rfl rfl rfl (fun _ => rfl)
  | speechStarted =>
    simp only [step]
    split
    · exact h.interrupted (by simp) rfl rfl id
        (fun hstop => List.mem_cons_of_mem _ (h.stopped hstop)) (.inl ⟨rfl, rfl⟩)
    · rename_i hquiet
      exact h.interrupted (by simp) rfl rfl id
        (fun hstop => List.mem_cons_of_mem _ (h.stopped hstop))
        (.inr ⟨rfl, rfl, .inl (Bool.eq_false_iff.mpr hquiet)⟩)
  | bargeIn =>
    simp only [step]
    split
    · exact h.interrupted (by simp) rfl rfl id
        (fun hstop => List.mem_cons_of_mem _ (h.stopped hstop)) (.inl ⟨rfl, rfl⟩)
    · rename_i hquiet
      exact h.interrupted (by simp) rfl rfl id
        (fun hstop => List.mem_cons_of_mem _ (h.stopped hstop))
        (.inr ⟨rfl, rfl, .inl (Bool.eq_false_iff.mpr hquiet)⟩)
  | stop =>
    simp only [step]
    split
    · rename_i hstop
      exact h.interrupted (by simp) rfl rfl id (fun _ => List.mem_cons_self ..)
        (.inr ⟨rfl, rfl, .inr hstop⟩)
    · exact h.interrupted (by simp) rfl rfl (fun _ => rfl)
        (fun _ => List.mem_cons_self ..) (.inl ⟨rfl, rfl⟩)

theorem start_kept (down : Down) : Kept [] { down := down : Session } where
  response := rfl
  known hne := absurd rfl hne
  named := rfl
  last _ _ hr := by cases hr
  only _ hr := by cases hr
  speaking hne := absurd rfl hne
  opened _ _ := rfl
  shut hne := absurd rfl hne
  dead _ _ hr := by cases hr
  buried _ hr := by cases hr
  stopped hstop := by cases hstop

/-! ### What is relayed -/

theorem delta_muted {r payload : String} (h : s.stopping = true ∨ audioWanted r s = false) :
    step decode (.delta r payload) s = s := by
  rw [step, if_neg]
  rintro ⟨hgo, hwanted⟩
  rcases h with h | h
  · rw [hgo] at h
    cases h
  · rw [hwanted] at h
    cases h

theorem delta_relayed {r payload : String} (hgo : s.stopping = false)
    (hwanted : audioWanted r s = true) : (step decode (.delta r payload) s).relayed =
      s.relayed ++ sentOf (providerPcm decode payload s.down).1 := by
  rw [step, if_pos ⟨hgo, hwanted⟩]

theorem Kept.going (h : Kept older s) (hstop : .stop ∉ older) : s.stopping = false := by
  rw [Bool.eq_false_iff]
  exact fun hs => hstop (h.stopped hs)

theorem Kept.dead_muted {r : String} {n : Nat} (h : Kept older s)
    (hr : since r older = some (n + 1)) (hn : n < 8) (hdone : .done r ∉ older) :
    s.stopping = true ∨ audioWanted r s = false := by
  rcases h.dead r n hr hdone hn with hstop | hmem
  · exact .inl hstop
  · have hne : r ≠ "" := by
      rintro rfl
      rw [h.named] at hr
      cases hr
    exact .inr (by rw [audioWanted, if_pos ⟨hne, List.mem_of_mem_take hmem⟩])

theorem Kept.alive_wanted {r : String} (h : Kept older s) (hr : since r older = some 0)
    (hstop : .stop ∉ older) : audioWanted r s = true := by
  rw [audioWanted, if_neg]
  · exact h.opened (Nat.le_zero.mp (h.last r 0 hr)) hstop
  · rintro ⟨-, hmem⟩
    obtain ⟨n, hn⟩ := h.buried r hmem
    rw [hr] at hn
    cases hn

theorem nameless (s : Session) : audioWanted "" s = s.audioOpen := by
  rw [audioWanted, if_neg (fun h => h.1 rfl)]

theorem step_fair {log : List (session decode down).Entry} (h : Kept (events log) s) {e : Event}
    (horder : Orderly (events log) e) : Fair log ⟨s, e⟩ := by
  cases e with
  | delta r payload =>
    simp only [Fair]
    refine ⟨fun hne hstale => ?_, fun hr hpos => ?_, fun _ hr hstop => ?_, fun hr hzero hstop => ?_,
      ?_⟩
    · obtain ⟨n, hn⟩ := hstale
      simp only [Orderly, if_neg hne] at horder
      obtain ⟨hbound, hdone⟩ := horder
      rw [hn, Option.any_some, decide_eq_true_eq] at hbound
      exact congrArg Session.relayed (delta_muted (h.dead_muted hn (by omega) hdone))
    · subst hr
      simp only [Orderly, if_true] at horder
      apply congrArg Session.relayed
      apply delta_muted
      rcases h.shut horder.1 hpos horder.2 with hstop | hopen
      · exact .inl hstop
      · exact .inr ((nameless s).trans hopen)
    · exact delta_relayed (h.going hstop) (h.alive_wanted hr hstop)
    · subst hr
      exact delta_relayed (h.going hstop) ((nameless s).trans (h.opened hzero hstop))
    · by_cases hgo : s.stopping = false ∧ audioWanted r s = true
      · exact .inr (delta_relayed hgo.1 hgo.2)
      · exact .inl (congrArg Session.relayed (if_neg hgo))
  | created r => rfl
  | done r => rfl
  | tools => rfl
  | speechStarted =>
    simp only [Fair, Mute, Machine.Entry.post, session, step]
    split <;> rfl
  | bargeIn =>
    simp only [Fair, Mute, Machine.Entry.post, session, step]
    split <;> rfl
  | stop =>
    simp only [Fair, Mute, Machine.Entry.post, session, step]
    split <;> rfl

theorem run_kept {log : List (session decode down).Entry}
    (hrun : (session decode down).Run (fun _ _ => True) log s)
    (horder : Machine.Each Ordered log) :
    Kept (events log) s ∧ Machine.Each Fair log := by
  induction hrun with
  | start => exact ⟨start_kept down, trivial⟩
  | step hrun _ ih =>
    obtain ⟨hkept, hfair⟩ := ih horder.2
    exact ⟨step_kept hkept horder.1, step_fair hkept horder.1, hfair⟩

/-- The old voice never speaks over the new question. -/
theorem old_voice_silent (decode : String → Option Bytes) (down : Down)
    {log : List (session decode down).Entry} {s : Session}
    (hrun : (session decode down).Run (fun _ _ => True) log s)
    (horder : Machine.Each Ordered log) :
    Machine.Each Fair log := (run_kept hrun horder).2

/-! ### A session -/

def sampleDown : Down where
  resampler := { rates := ⟨24000, 16000, by decide, by decide⟩ }

/-- A frame of silence. -/
def sampleFrame : String := b64encode [0, 0]

theorem sample_sent : sentOf (providerPcm b64decode sampleFrame sampleDown).1 ≠ [] := by
  have hbytes : Pcm.toBytes [Sample.silence] = [0, 0] := by decide
  obtain ⟨new, s', hprocess, -, hconverts⟩ :=
    Resampler.process_converts (behind_reset sampleDown.resampler) [Sample.silence]
  have hlength := (hconverts [] ⟨by simp, by simp⟩).length
  have hone : produced sampleDown.resampler.rates 1 = 1 := by
    unfold produced sampleDown
    norm_num [Nat.ceil_eq_iff]
  have hnew : new ≠ [] := by
    rintro rfl
    simp [hone] at hlength
  rw [hbytes] at hprocess
  have hprocess : sampleDown.resampler.process [0, 0] = .ok (Pcm.toBytes new, s') := hprocess
  have hdecode : b64decode sampleFrame = some [0, 0] := b64_decode_encode _
  have hpcm : (providerPcm b64decode sampleFrame sampleDown).1 = Pcm.toBytes new := by
    simp [providerPcm, hdecode, hprocess]
  rw [hpcm, sentOf, if_neg (fun he => hnew (Pcm.to_bytes_eq_nil.mp he))]
  exact List.cons_ne_nil _ _

/-- What calls come to, the first one first. -/
def logOf (calls : List Event) : List (session b64decode sampleDown).Entry :=
  (session b64decode sampleDown).history [] (session b64decode sampleDown).init calls

theorem log_ran (calls : List Event) :
    (session b64decode sampleDown).Run (fun _ _ => True) (logOf calls)
      ((session b64decode sampleDown).after (session b64decode sampleDown).init calls) :=
  Machine.Run.start.history (fun _ _ _ => trivial)

theorem old_voice_silent_once : Machine.Each Fair (logOf [.created "r1", .delta "r1" sampleFrame,
    .speechStarted, .delta "r1" sampleFrame, .done "r1", .created "r2",
    .delta "r2" sampleFrame]) := by
  apply old_voice_silent b64decode sampleDown (log_ran _)
  decide

/-- The end of a dead response comes while the next one speaks, and the next
barge-in is missed. -/
theorem late_end_of_a_dead_response : ¬ ∀ log s,
    (session b64decode sampleDown).Run (fun _ _ => True) log s → Machine.Each Fair log := by
  intro h
  have hfair := (h _ _ (log_ran [.created "r1", .speechStarted, .created "r2", .done "r1",
    .speechStarted, .delta "r2" sampleFrame])).1
  have hmute := hfair.1 (by decide) ⟨0, by decide⟩
  have hsent : (step b64decode (.delta "r2" sampleFrame)
      { down := sampleDown, responseId := "r2", dead := ["r1"] }).relayed =
      [] ++ sentOf (providerPcm b64decode sampleFrame sampleDown).1 := delta_relayed rfl rfl
  exact sample_sent (List.append_right_eq_self.mp (hsent.symm.trans hmute))

end Solvio.Realtime.BargeIn
