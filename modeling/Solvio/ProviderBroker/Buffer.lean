import Solvio.ProviderBroker.InFlight

namespace Solvio.ProviderBroker
open Solvio.Lib

/-- The body that a request has read in full and not released. -/
def Frame.heldBytes : Frame → Nat
  | .forwarding p _ => p.requestBytes
  | .reading _ => 0

/-- The part of a body that is read so far. -/
def Frame.partBytes : Frame → Nat
  | .reading r => r.body.length
  | .forwarding _ _ => 0

def heldBytes (w : World) : Nat := (w.waiting.map Frame.heldBytes).sum

def partBytes (w : World) : Nat := (w.waiting.map Frame.partBytes).sum

/-- A chunk that a read accepts. -/
def accepts (b : Broker) (r : Reading) (chunk : Bytes) : Bool :=
  !(r.maxBytes < r.body.length + chunk.length ||
    maxTotalBufferedBytes < b.buffered + (r.body.length + chunk.length))

theorem accepts_iff {b : Broker} {r : Reading} {chunk : Bytes} : accepts b r chunk = true ↔
    ¬ (r.maxBytes < r.body.length + chunk.length ∨
      maxTotalBufferedBytes < b.buffered + (r.body.length + chunk.length)) := by
  simp only [accepts, Bool.not_eq_true', Bool.or_eq_false_iff, decide_eq_false_iff_not, not_or]

/-- A read that ends at a limit gives back what it has read, although that was
never added, while other bodies are buffered. -/
def givesBack (e : Event) : Bool :=
  match e.call.turn with
  | .resume i (Answer.read chunk _) =>
    match e.pre.waiting[i]? with
    | some (Frame.reading r) => chunk ≠ [] && !accepts e.pre.shared r chunk &&
        decide (0 < r.body.length ∧ 0 < e.pre.shared.buffered)
    | _ => false
  | _ => false

/-- A chunk is accepted that has no room beside the bodies that are being read. -/
def oversized (e : Event) : Bool :=
  match e.call.turn with
  | .resume i (Answer.read chunk _) =>
    match e.pre.waiting[i]? with
    | some (Frame.reading r) => accepts e.pre.shared r chunk &&
        decide (maxTotalBufferedBytes < e.pre.shared.buffered + partBytes e.pre + chunk.length)
    | _ => false
  | _ => false

/-! ### What a turn does to the buffer -/

/-- What a resumed request does to the count, and where it waits next. -/
inductive Counts (b : Broker) (f : Frame) (a : Answer) : Option Frame → Nat → Prop
  | goes (g : Frame) : g.heldBytes = f.heldBytes → g.partBytes = f.partBytes →
      Counts b f a (some g) b.buffered
  | reads (r : Reading) (chunk : Bytes) (credential : Bool) : f = .reading r →
      a = .read chunk credential → accepts b r chunk = true →
      Counts b f a (some (.reading { r with body := r.body ++ chunk })) b.buffered
  | refused (r : Reading) (chunk : Bytes) (credential : Bool) : f = .reading r →
      a = .read chunk credential → chunk ≠ [] → accepts b r chunk = false →
      Counts b f a none (b.buffered - r.body.length)
  | dropped (r : Reading) : f = .reading r → Counts b f a none b.buffered
  | posted (r : Reading) (p : Posted) (phase : Phase) : f = .reading r →
      p.requestBytes = r.body.length →
      Counts b f a (some (.forwarding p phase)) (b.buffered + r.body.length)
  | ends (p : Posted) (phase : Phase) : f = .forwarding p phase →
      Counts b f a none (b.buffered - p.requestBytes)

namespace Broker

theorem bodyRead_counts (b : Broker) (r : Reading) (a : Answer) (credential : Bool) :
    Counts b (.reading r) a (b.bodyRead r credential).1 (b.bodyRead r credential).2.buffered := by
  have hback : b.buffered + r.body.length - r.body.length = b.buffered := Nat.add_sub_cancel _ _
  have hdropped : Counts b (.reading r) a none (b.buffered + r.body.length - r.body.length) := by
    rw [hback]
    exact .dropped r rfl
  unfold bodyRead
  simp only
  split
  · exact hdropped
  · split
    · exact hdropped
    · split
      · exact hdropped
      · exact .posted r _ _ rfl rfl

theorem settle_buffered (b : Broker) (p : Posted) :
    (b.settle p).buffered = b.buffered - p.requestBytes := by
  unfold settle
  simp only
  split <;> rfl

theorem resume_counts (b : Broker) (f : Frame) (a : Answer) (now : Time) :
    Counts b f a (b.resume f a now).1 (b.resume f a now).2.buffered := by
  cases f with
  | reading r =>
    cases a with
    | read chunk credential =>
      simp only [resume, readBody]
      split
      · exact b.bodyRead_counts r _ credential
      · rename_i hne
        split
        · rename_i hover
          exact .refused r chunk credential rfl rfl hne 
            (Bool.eq_false_iff.mpr (fun h => Iff.mp accepts_iff h hover))
        · rename_i hfits
          exact .reads r chunk credential rfl rfl (Iff.mpr accepts_iff hfits)
    | response status => exact .dropped r rfl
    | chunk c => exact .dropped r rfl
    | done => exact .dropped r rfl
    | failed => exact .dropped r rfl
    | cancelled => exact .dropped r rfl
  | forwarding p phase =>
    have hclose : a ≠ .cancelled → Counts b (.forwarding p .closing) a none (b.settle p).buffered := by
      intro _
      rw [settle_buffered]
      exact .ends p .closing rfl
    cases phase with
    | posting => cases a <;> exact .goes _ rfl rfl
    | preparing => cases a <;> exact .goes _ rfl rfl
    | streaming =>
      cases a with
      | chunk c =>
        simp only [resume, forwardStep]
        split <;> exact .goes _ rfl rfl
      | _ => exact .goes _ rfl rfl
    | writing c => cases a <;> exact .goes _ rfl rfl
    | ending => cases a <;> exact .goes _ rfl rfl
    | lastEof => cases a <;> exact .goes _ rfl rfl
    | closing =>
      cases a with
      | cancelled => exact .ends p .closing rfl
      | _ => exact hclose (fun h => by cases h)

theorem admitted_buffered (b : Broker) (p : Principal) (now : Time) :
    (b.admitted p now).2.buffered = b.buffered := by
  unfold admitted
  simp only
  split <;> rfl

/-- A new request has read nothing. -/
theorem start_counts (b : Broker) (c : Call) (now : Time) :
    (b.start c now).2.buffered = b.buffered ∧
      ∀ g, (b.start c now).1 = some g → g.heldBytes = 0 ∧ g.partBytes = 0 := by
  have hnone : ∀ g, (none : Option Frame) = some g → g.heldBytes = 0 ∧ g.partBytes = 0 :=
    fun g hg => by cases hg
  have hread : ∀ r : Reading, r.body = [] → ∀ g, some (Frame.reading r) = some g →
      g.heldBytes = 0 ∧ g.partBytes = 0 := by
    intro r hr g hg
    cases hg
    exact ⟨rfl, by simp [Frame.partBytes, hr]⟩
  cases c with
  | forward req =>
    simp only [start, handleForward]
    split
    · exact ⟨rfl, hnone⟩
    · rename_i p _
      split
      · exact ⟨b.admitted_buffered p now, hread _ rfl⟩
      · exact ⟨b.admitted_buffered p now, hnone⟩
  | anthropic req configured =>
    simp only [start, handleAnthropic]
    split
    · exact ⟨rfl, hnone⟩
    · rename_i p _
      split
      · exact ⟨rfl, hnone⟩
      · split
        · exact ⟨b.admitted_buffered p now, hread _ rfl⟩
        · exact ⟨b.admitted_buffered p now, hnone⟩
  | models req =>
    simp only [start, handleModels]
    split <;> exact ⟨rfl, hnone⟩
  | closeLease leaseId token =>
    simp only [start]
    split
    · exact ⟨rfl, hnone⟩
    · split <;> exact ⟨rfl, hnone⟩
  | registerPrincipal name token requests tokens => exact ⟨rfl, hnone⟩
  | openLease name ref deadline leaseId => exact ⟨rfl, hnone⟩
  | rotateNow name token => exact ⟨rfl, hnone⟩
  | stop => exact ⟨rfl, hnone⟩

end Broker

theorem held_sum (e : Event) :
    heldBytes e.post + ((EventLoop.Event.resumed e).map Frame.heldBytes).getD 0 =
      heldBytes e.pre + ((EventLoop.Event.awaits e).map Frame.heldBytes).getD 0 :=
  EventLoop.sum_waiting Frame.heldBytes e

theorem part_sum (e : Event) :
    partBytes e.post + ((EventLoop.Event.resumed e).map Frame.partBytes).getD 0 =
      partBytes e.pre + ((EventLoop.Event.awaits e).map Frame.partBytes).getD 0 :=
  EventLoop.sum_waiting Frame.partBytes e

/-- A turn, as far as the buffer goes. -/
inductive BufferTurn (e : Event) : Prop
  | same : e.post.shared.buffered = e.pre.shared.buffered → heldBytes e.post = heldBytes e.pre →
      partBytes e.post = partBytes e.pre → BufferTurn e
  | resumed (i : Nat) (a : Answer) (f : Frame) : e.call.turn = .resume i a →
      e.pre.waiting[i]? = some f → EventLoop.Event.resumed e = some f →
      Counts e.pre.shared f a (EventLoop.Event.awaits e) e.post.shared.buffered → BufferTurn e

theorem bufferTurn (e : Event) : BufferTurn e := by
  have hheld := held_sum e
  have hpart := part_sum e
  obtain ⟨w, s⟩ := e
  rcases EventLoop.run_cases s w with ⟨c, hs, hr⟩ | ⟨i, a, f, before, behind, hs, hf, -, hr⟩ |
    ⟨i, a, hs, hf, hr⟩
  · have hres : EventLoop.Event.resumed (⟨w, s⟩ : Event) = none := by
      simp only [EventLoop.Event.resumed, hs]
    obtain ⟨hbuf, hnew⟩ := w.shared.start_counts c s.now
    have haw : EventLoop.Event.awaits (⟨w, s⟩ : Event) = (w.shared.start c s.now).1 :=
      congrArg Prod.fst hr
    have hpost : (Machine.Entry.post (⟨w, s⟩ : Event)).shared = (w.shared.start c s.now).2 :=
      congrArg (fun r => EventLoop.World.shared (Prod.snd r)) hr
    have hzero : ((EventLoop.Event.awaits (⟨w, s⟩ : Event)).map Frame.heldBytes).getD 0 = 0 ∧
        ((EventLoop.Event.awaits (⟨w, s⟩ : Event)).map Frame.partBytes).getD 0 = 0 := by
      rw [haw]
      cases hg : (w.shared.start c s.now).1 with
      | none => exact ⟨rfl, rfl⟩
      | some g => exact hnew g hg
    rw [hres, hzero.1] at hheld
    rw [hres, hzero.2] at hpart
    exact .same (by rw [hpost]; exact hbuf) hheld hpart
  · have hpost : (Machine.Entry.post (⟨w, s⟩ : Event)).shared = (w.shared.resume f a s.now).2 :=
      congrArg (fun r => EventLoop.World.shared (Prod.snd r)) hr
    refine .resumed i a f hs hf ?_ ?_
    · simp only [EventLoop.Event.resumed, hs]
      exact hf
    · rw [hpost, show EventLoop.Event.awaits (⟨w, s⟩ : Event) = _ from congrArg Prod.fst hr]
      exact w.shared.resume_counts f a s.now
  · have hpost : Machine.Entry.post (⟨w, s⟩ : Event) = w := congrArg Prod.snd hr
    exact .same (by rw [hpost]) (by rw [hpost]) (by rw [hpost])

/-- While no read gives back what it never added, the count stays exact. -/
theorem exact_step {e : Event} (hn : givesBack e = false)
    (he : e.pre.shared.buffered = heldBytes e.pre) : e.post.shared.buffered = heldBytes e.post := by
  have hsum := held_sum e
  cases bufferTurn e with
  | same hb hh _ => rw [hb, hh, he]
  | resumed i a f hs hf hres hc =>
    rw [hres] at hsum
    generalize EventLoop.Event.awaits e = next at hc hsum
    generalize e.post.shared.buffered = buffered at hc ⊢
    cases hc with
    | goes g hg _ =>
      simp only [Option.map_some, Option.getD_some, hg] at hsum
      omega
    | reads r chunk credential hr ha hacc =>
      subst hr
      simp only [Option.map_some, Option.getD_some, Frame.heldBytes] at hsum
      omega
    | refused r chunk credential hr ha hne hacc =>
      subst hr ha
      simp only [Option.map_some, Option.map_none, Option.getD_some, Option.getD_none,
        Frame.heldBytes] at hsum
      simp only [givesBack, hs, hf, hacc, hne, ne_eq, not_false_eq_true, decide_true, Bool.not_false,
        Bool.and_self, Bool.true_and, decide_eq_false_iff_not] at hn
      omega
    | dropped r hr =>
      subst hr
      simp only [Option.map_some, Option.map_none, Option.getD_some, Option.getD_none,
        Frame.heldBytes] at hsum
      omega
    | posted r p phase hr hp =>
      subst hr
      simp only [Option.map_some, Option.getD_some, Frame.heldBytes] at hsum
      omega
    | ends p phase hr =>
      subst hr
      simp only [Option.map_some, Option.map_none, Option.getD_some, Option.getD_none,
        Frame.heldBytes] at hsum
      omega

/-- While every accepted chunk has room beside the bodies that are being read,
all of them stay within the limit. -/
theorem room_step {e : Event} (he : e.pre.shared.buffered = heldBytes e.pre)
    (hn : oversized e = false) (hl : heldBytes e.pre + partBytes e.pre ≤ maxTotalBufferedBytes) :
    heldBytes e.post + partBytes e.post ≤ maxTotalBufferedBytes := by
  have hheld := held_sum e
  have hpart := part_sum e
  cases bufferTurn e with
  | same _ hh hp => rw [hh, hp]; exact hl
  | resumed i a f hs hf hres hc =>
    rw [hres] at hheld hpart
    generalize EventLoop.Event.awaits e = next at hc hheld hpart
    generalize e.post.shared.buffered = buffered at hc
    cases hc with
    | goes g hg hg' =>
      simp only [Option.map_some, Option.getD_some, hg, hg'] at hheld hpart
      omega
    | reads r chunk credential hr ha hacc =>
      subst hr ha
      simp only [Option.map_some, Option.getD_some, Frame.heldBytes, Frame.partBytes,
        List.length_append] at hheld hpart
      simp only [oversized, hs, hf, hacc, Bool.true_and, decide_eq_false_iff_not] at hn
      omega
    | refused r chunk credential hr _ _ _ =>
      subst hr
      simp only [Option.map_some, Option.map_none, Option.getD_some, Option.getD_none,
        Frame.heldBytes, Frame.partBytes] at hheld hpart
      omega
    | dropped r hr =>
      subst hr
      simp only [Option.map_some, Option.map_none, Option.getD_some, Option.getD_none,
        Frame.heldBytes, Frame.partBytes] at hheld hpart
      omega
    | posted r p phase hr hp =>
      subst hr
      simp only [Option.map_some, Option.getD_some, Frame.heldBytes, Frame.partBytes] at hheld hpart
      omega
    | ends p phase hr =>
      subst hr
      simp only [Option.map_some, Option.map_none, Option.getD_some, Option.getD_none,
        Frame.heldBytes, Frame.partBytes] at hheld hpart
      omega

section runs
variable {permits : List Event → EventLoop.Step broker → Prop} {h : List Event} {w : World}

theorem exact_reach (hrun : broker.machine.Run permits h w) (hn : ∀ e ∈ h, givesBack e = false) :
    w.shared.buffered = heldBytes w := by
  induction hrun with
  | start => rfl
  | @step h w c hr hp ih =>
    obtain ⟨he, hn⟩ := List.forall_mem_cons.mp hn
    exact exact_step (e := (⟨w, c⟩ : Event)) he (ih hn)

theorem room_reach (hrun : broker.machine.Run permits h w) (hn : ∀ e ∈ h, givesBack e = false)
    (ho : ∀ e ∈ h, oversized e = false) : heldBytes w + partBytes w ≤ maxTotalBufferedBytes := by
  induction hrun with
  | start => exact Nat.zero_le _
  | @step h w c hr hp ih =>
    obtain ⟨-, hn⟩ := List.forall_mem_cons.mp hn
    obtain ⟨he, ho⟩ := List.forall_mem_cons.mp ho
    exact room_step (e := (⟨w, c⟩ : Event)) (exact_reach hr hn) he (ih hn ho)

end runs

/-! ### A body that is too large -/

/-- A body is held while the read of another ends at the limit. -/
theorem given_back {w : World} {i : Nat} {r : Reading} (hf : w.waiting[i]? = some (Frame.reading r))
    (he : w.shared.buffered = heldBytes w) {chunk : Bytes} (hc : chunk ≠ [])
    (hover : r.maxBytes < r.body.length + chunk.length) (hr : 0 < r.body.length)
    (hb : 0 < w.shared.buffered) {e : Event} (hpre : e.pre = w) {credential : Bool}
    (hs : e.call.turn = .resume i (Answer.read chunk credential)) :
    e.post.shared.buffered < heldBytes e.post := by
  subst hpre
  have hread : e.pre.shared.resume (.reading r) (.read chunk credential) e.call.now =
      (none, e.pre.shared.releaseBuffer r.body.length) := by
    simp only [Broker.resume, Broker.readBody, if_neg hc, if_pos (Or.inl hover)]
  have hsum := held_sum e
  obtain ⟨w, s⟩ := e
  rcases EventLoop.run_cases s w with ⟨c, hs', -⟩ | ⟨j, a, f, before, behind, hs', hf', -, hrun⟩ |
    ⟨j, a, hs', hf', -⟩
  · cases hs.symm.trans hs'
  · cases hs.symm.trans hs'
    obtain rfl : Frame.reading r = f := Option.some.inj (hf.symm.trans hf')
    have hrun : EventLoop.run s w = ((w.shared.resume (.reading r) (.read chunk credential) s.now).1,
      ⟨(w.shared.resume (.reading r) (.read chunk credential) s.now).2, _⟩) := hrun
    rw [show w.shared.resume (.reading r) (.read chunk credential) s.now = _ from hread] at hrun
    have hpost : (Machine.Entry.post (⟨w, s⟩ : Event)).shared.buffered =
        w.shared.buffered - r.body.length :=
      congrArg (fun o => Broker.buffered (EventLoop.World.shared (Prod.snd o))) hrun
    have haw : EventLoop.Event.awaits (⟨w, s⟩ : Event) = none := congrArg Prod.fst hrun
    have hres : EventLoop.Event.resumed (⟨w, s⟩ : Event) = some (Frame.reading r) := by
      simp only [EventLoop.Event.resumed, hs']
      exact hf'
    rw [haw, hres] at hsum
    simp only [Option.map_some, Option.getD_some, Frame.heldBytes] at hsum
    change heldBytes (Machine.Entry.post (⟨w, s⟩ : Event)) + 0 = heldBytes w + 0 at hsum
    have hb : 0 < w.shared.buffered := hb
    have he : w.shared.buffered = heldBytes w := he
    omega
  · cases hs.symm.trans hs'
    rw [show w.waiting[i]? = _ from hf] at hf'
    cases hf'

/-- One body is posted while another is read. -/
def sampleBeside : List (EventLoop.Step broker) :=
  [⟨0, .start (Call.registerPrincipal "agent-runtime-escalation" "k" 0 0)⟩,
    ⟨0, .start (Call.openLease "agent-runtime-escalation" "task" sampleDay "lease-1")⟩,
    ⟨0, .start (Call.forward sampleRequest)⟩,
    ⟨0, .start (Call.forward sampleRequest)⟩,
    ⟨0, .resume 0 (Answer.read sampleEscalationBody false)⟩,
    ⟨0, .resume 1 (Answer.read sampleEscalationBody false)⟩,
    ⟨0, .resume 0 (Answer.read [] false)⟩]

def sampleChunk (chunk : Bytes) : EventLoop.Step broker := ⟨0, .resume 1 (Answer.read chunk false)⟩

/-- The second task has read something, and may read one body's length. -/
def beside (w : World) : Bool :=
  match w.waiting[1]? with
  | some (Frame.reading r) => r.maxBytes = maxBodyBytes && decide (0 < r.body.length)
  | _ => false

theorem sample_beside : beside (broker.machine.after broker.machine.init sampleBeside) = true ∧
    0 < (broker.machine.after broker.machine.init sampleBeside).shared.buffered ∧
    (broker.machine.after broker.machine.init sampleBeside).shared.buffered =
      heldBytes (broker.machine.after broker.machine.init sampleBeside) := by
  decide +kernel

theorem sample_chunk_permitted (chunk : Bytes) :
    Permits (broker.machine.history [] broker.machine.init sampleBeside) (sampleChunk chunk) := by
  refine ⟨fun e he => ?_, fun name token requests tokens e older p hc => by cases hc⟩
  rcases Machine.mem_history he with he | he
  · cases he
  · have hnow : ∀ s ∈ sampleBeside, s.now = 0 := by decide
    rw [hnow _ he]
    exact Int.le_refl 0

end Solvio.ProviderBroker
