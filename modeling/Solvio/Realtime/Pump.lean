import Solvio.Lib.Codec
import Solvio.Lib.Runs
import Solvio.Realtime.Frames
import Solvio.Realtime.SatelliteAuth

namespace Solvio.Realtime.Pump
open Solvio.Lib Solvio.Audio

/-! ### What Python makes of a value -/

inductive Raised where
  | valueError | typeError | attributeError | overflowError | indexError | recursionError
deriving DecidableEq

/-- What a literal of a float is, whether `int` reads a text, and
`b64decode(…, validate=True)`. -/
structure Builtins where
  infinite : List Char → Bool
  nan : List Char → Bool
  zero : List Char → Bool
  isInt : Text → Bool
  decode : Text → Option Bytes

variable (B : Builtins)

/-- `bool(value)`. -/
def truthy : Json → Bool
  | .null => false
  | .bool b => b
  | .int n => n ≠ 0
  | .float l => !B.zero l
  | .str t => t ≠ []
  | .arr xs => !xs.isEmpty
  | .obj kvs => !kvs.isEmpty

/-- What `int(value)` raises. -/
def intRaises : Json → Option Raised
  | .bool _ => none
  | .int _ => none
  | .float l =>
    if B.infinite l then some .overflowError
    else if B.nan l then some .valueError
    else none
  | .str t => if B.isInt t then none else some .valueError
  | .null | .arr _ | .obj _ => some .typeError

/-! ### One session and its two streams -/

/-- What has become of a frame: it was passed on, or silence in its place, it
fell out of the pre-roll with so many bytes held, or it was lost. -/
inductive Fate where
  | passed
  | silenced
  | overflowed (held : Nat)
  | lost
deriving DecidableEq

/-- The part of a `Session` the audio goes through, and how the two loops have
ended. `settled` are the frames that are no longer held, with their fates. -/
structure Session where
  up : Resampler
  down : Down
  preroll : Preroll
  active : Bool := false
  sent : List Bytes := []
  relayed : List Bytes := []
  pump : Option Raised := none
  reader : Option Raised := none
  settled : List (Bytes × Fate) := []

def settle (fate : Fate) (frames : List Bytes) : List (Bytes × Fate) :=
  (frames.filter (· ≠ [])).map (·, fate)

def ofFault : Fault → Raised
  | .frames => .valueError
  | .index => .indexError
  | .overflow => .overflowError

/-- `_to_provider`. -/
def toProvider (pcm16 : Bytes) (s : Session) : Except Raised Session :=
  match s.up.process pcm16 with
  | .error e => .error (ofFault e)
  | .ok (pcm24, up) => .ok { s with up := up, sent := s.sent ++ sentOf pcm24 }

/-- `feed_audio`. `guarded` is `_within_utterance_guard`. -/
def feedAudio (pcm16 : Bytes) (guarded : Bool) (s : Session) : Except Raised Session :=
  if s.active = false then
    .ok { s with
      preroll := s.preroll.add pcm16
      settled := s.settled ++ (s.preroll.out pcm16).map (fun o => (o.1, .overflowed o.2)) }
  else if guarded then
    toProvider (List.replicate pcm16.length 0)
      { s with settled := s.settled ++ settle .silenced [pcm16] }
  else toProvider pcm16 { s with settled := s.settled ++ settle .passed [pcm16] }

/-- `_flush_preroll`, behind `active = True`. -/
def flushPreroll (s : Session) : Except Raised Session :=
  let (held, preroll) := s.preroll.drain
  let s := { s with
    active := true
    preroll := preroll
    settled := s.settled ++ settle .passed s.preroll.frames }
  if held = [] then .ok s else toProvider held s

/-- `close`. -/
def close (s : Session) : Session :=
  { s with
    active := false
    preroll := s.preroll.clear
    settled := s.settled ++ settle .lost s.preroll.frames }

/-- What `int(played_ms)` raises, of which the handlers catch two. -/
def playedRaises (msg : Json) : Option Raised :=
  match msg.get? "played_ms" with
  | none | some .null => none
  | some v => match intRaises B v with
    | some .overflowError => some .overflowError
    | _ => none

def messageType (msg : Json) : Option Text :=
  match msg.get? "type" with
  | some (.str t) => some t
  | _ => none

/-- A text message of `pump_endpoint`. -/
def onText (l : Loaded) (responding : Bool) (s : Session) : Except Raised Session :=
  match l with
  | .malformed => .error .valueError
  | .tooDeep => .error .recursionError
  | .value (.obj kvs) =>
    let msg := Json.obj kvs
    if messageType msg = some (Text.ofString "session_end") then .ok (close s)
    else if messageType msg = some (Text.ofString "heard") ∨
        (messageType msg = some (Text.ofString "barge_in") ∧ responding) then
      match playedRaises B msg with
      | some e => .error e
      | none => .ok s
    else .ok s
  | .value _ => .error .attributeError

/-- `delta or ""`, as a text. -/
def payloadOf : Option Json → Except Raised Text
  | none => .ok []
  | some v =>
    if truthy B v then match v with
      | .str t => .ok t
      | _ => .error .typeError
    else .ok []

/-- What `int(content_index or 0)` raises. -/
def indexRaises : Option Json → Option Raised
  | none => none
  | some v => if truthy B v then intRaises B v else none

/-- The audio path of `_oa_reader`. -/
def onDelta (payload index : Option Json) (s : Session) : Except Raised Session :=
  match indexRaises B index with
  | some e => .error e
  | none => match payloadOf B payload with
    | .error e => .error e
    | .ok delta =>
      let (pcm16, down) := providerPcm B.decode delta s.down
      .ok { s with down := down, relayed := s.relayed ++ sentOf pcm16 }

/-- What happens to a session. `wanted` is what `_audio_wanted` says. -/
inductive Event where
  | frame (pcm16 : Bytes) (guarded : Bool)
  | text (l : Loaded) (responding : Bool)
  | opened
  | lost
  | closed
  | delta (payload index : Option Json) (wanted : Bool)

/-- An opening that raises is given up. -/
def step : Event → Session → Session
  | .frame pcm16 guarded, s =>
    if s.pump.isSome then s
    else match feedAudio pcm16 guarded s with
      | .ok s' => s'
      | .error e => { s with pump := some e }
  | .text l responding, s =>
    if s.pump.isSome then s
    else match onText B l responding s with
      | .ok s' => s'
      | .error e => { s with pump := some e }
  | .opened, s =>
    match flushPreroll s with
    | .ok s' => s'
    | .error _ => close s
  | .lost, s => { s with active := false }
  | .closed, s => close s
  | .delta payload index wanted, s =>
    if s.reader.isSome ∨ wanted = false then s
    else match onDelta B payload index s with
      | .ok s' => s'
      | .error e => { s with reader := some e }

/-- A session, the rates of its two converters and the budget of its pre-roll. -/
structure Setup where
  up : Rates
  down : Rates
  budget : Nat

def Setup.init (u : Setup) : Session where
  up := { rates := u.up }
  down := { resampler := { rates := u.down } }
  preroll := { budget := u.budget }

def session (u : Setup) : Machine Session where
  Call := Event
  Reply _ := Unit
  step e s := ((), step B e s)
  init := u.init

/-! ### What becomes of the frames -/

/-- The frames that have come in, the newest event first. -/
def fed : List Event → List Bytes
  | [] => []
  | .frame pcm16 _ :: older => fed older ++ [pcm16].filter (· ≠ [])
  | _ :: older => fed older

/-- The audio of a delta, if it is well formed. -/
def frameOf (payload : Option Json) : Option Bytes :=
  match payloadOf B payload with
  | .ok delta => (B.decode delta).filter (fun raw => raw.length % 2 = 0)
  | .error _ => none

/-- The audio of the deltas that were wanted. -/
def heard : List Event → Bytes
  | [] => []
  | .delta payload _ true :: older => heard older ++ (frameOf B payload).getD []
  | _ :: older => heard older

/-- What goes through the converter to the provider. -/
def line (settled : List (Bytes × Fate)) : Bytes :=
  settled.flatMap (fun p => match p.2 with
    | .passed => p.1
    | .silenced => List.replicate p.1.length 0
    | _ => [])

/-- What is sent of a stream is what the stream is converted to. -/
def Streams (r : Rates) (stream : Bytes) (sent : List Bytes) (c : Resampler) : Prop :=
  ∃ xs whole, Pcm.toBytes xs = stream ∧ sent.flatten = Pcm.toBytes whole ∧
    Converted r xs whole ∧ Behind r xs c

/-- A frame is lost to the budget only. -/
def Allowed (budget : Nat) : Fate → Prop
  | .passed => True
  | .silenced => True
  | .overflowed held => budget < held
  | .lost => False

/-- A bad frame costs only itself: neither loop has raised, the pre-roll keeps
its budget, each frame has one fate or is held, in the order they came, and
both streams are converted as they are. -/
structure Sound (u : Setup) (log : List Event) (s : Session) : Prop where
  pump : s.pump = none
  reader : s.reader = none
  budget : s.preroll.frames.flatten.length ≤ u.budget
  fates : s.settled.map Prod.fst ++ s.preroll.frames = fed log
  allowed : ∀ p ∈ s.settled, Allowed u.budget p.2
  provider : Streams u.up (line s.settled) s.sent s.up
  endpoint : Streams u.down (heard B log) s.relayed s.down.resampler

/-- What the code asks of a step: whole samples wherever they are converted, a
JSON object whose `played_ms` is finite, a delta whose fields can be read, and
no session that is closed with frames held. -/
def Readable (s : Session) : Event → Prop
  | .frame pcm16 _ => s.active = true → pcm16.length % 2 = 0
  | .text l responding => ∃ kvs, l = .value (.obj kvs) ∧
    (messageType (.obj kvs) = some (Text.ofString "session_end") → s.preroll.frames = []) ∧
    (messageType (.obj kvs) = some (Text.ofString "heard") ∨
      (messageType (.obj kvs) = some (Text.ofString "barge_in") ∧ responding = true) →
      ∀ l, (Json.obj kvs).get? "played_ms" = some (.float l) → B.infinite l = false)
  | .opened => ∀ f ∈ s.preroll.frames, f.length % 2 = 0
  | .lost => True
  | .closed => s.preroll.frames = []
  | .delta payload index wanted => wanted = true → indexRaises B index = none ∧
    ∃ t, payloadOf B payload = .ok t

/-! ### Streams -/

theorem whole_samples {b : Bytes} (h : b.length % 2 = 0) : ∃ xs, Pcm.toBytes xs = b := by
  obtain ⟨xs, hxs⟩ := Option.isSome_iff_exists.mp ((Pcm.of_bytes_isSome b).mpr h)
  exact ⟨xs, Pcm.to_bytes_of hxs⟩

theorem streams_start (r : Rates) : Streams r [] [] { rates := r } :=
  ⟨[], [], rfl, rfl, ⟨by simp, by simp⟩, behind_reset { rates := r }⟩

/-- Whole samples are converted, and sent. -/
theorem Streams.process {r : Rates} {stream pcm : Bytes} {sent : List Bytes} {c : Resampler}
    (h : Streams r stream sent c) (heven : pcm.length % 2 = 0) :
    ∃ out c', c.process pcm = .ok (out, c') ∧
      Streams r (stream ++ pcm) (sent ++ sentOf out) c' := by
  obtain ⟨xs, whole, hstream, hsent, hconverted, hbehind⟩ := h
  obtain ⟨ys, rfl⟩ := whole_samples heven
  obtain ⟨new, c', hprocess, hbehind', hconverts⟩ := Resampler.process_converts hbehind ys
  refine ⟨_, c', hprocess, xs ++ ys, whole ++ new, ?_, ?_, hconverts whole hconverted, hbehind'⟩
  · rw [Pcm.to_bytes_append, hstream]
  · rw [flatten_sent, hsent, Pcm.to_bytes_append]

theorem line_append (a b : List (Bytes × Fate)) : line (a ++ b) = line a ++ line b :=
  List.flatMap_append

theorem line_passed (frames : List Bytes) : line (settle .passed frames) = frames.flatten := by
  induction frames with
  | nil => rfl
  | cons f frames ih =>
    unfold settle at ih ⊢
    by_cases hf : f = []
    · rw [List.filter_cons_of_neg (by simp [hf]), ih]
      simp [hf]
    · rw [List.filter_cons_of_pos (by simp [hf]), List.map_cons, List.flatten_cons, ← ih]
      rfl

theorem line_silenced (f : Bytes) : line (settle .silenced [f]) = List.replicate f.length 0 := by
  by_cases hf : f = []
  · subst hf
    rfl
  · unfold settle
    rw [List.filter_cons_of_pos (by simp [hf])]
    simp [line]

theorem line_overflowed (out : List (Bytes × Nat)) :
    line (out.map (fun o => (o.1, .overflowed o.2))) = [] := by
  induction out with
  | nil => rfl
  | cons o out ih => exact ih

theorem settle_frames (fate : Fate) (frames : List Bytes) :
    (settle fate frames).map Prod.fst = frames.filter (· ≠ []) := by
  unfold settle
  rw [List.map_map]
  exact List.map_id _

theorem settle_fate {fate : Fate} {frames : List Bytes} {p : Bytes × Fate}
    (h : p ∈ settle fate frames) : p.2 = fate := by
  obtain ⟨f, -, rfl⟩ := List.mem_map.mp h
  rfl

/-! ### Step by step -/

variable {B} {u : Setup} {log : List Event} {s : Session}

structure Kept (B : Builtins) (u : Setup) (log : List Event) (s : Session) : Prop where
  pump : s.pump = none
  reader : s.reader = none
  bounded : s.preroll.Bounded
  budget : s.preroll.budget = u.budget
  idle : s.active = true → s.preroll.frames = []
  solid : ∀ f ∈ s.preroll.frames, f ≠ []
  fates : s.settled.map Prod.fst ++ s.preroll.frames = fed log
  allowed : ∀ p ∈ s.settled, Allowed u.budget p.2
  provider : Streams u.up (line s.settled) s.sent s.up
  endpoint : Streams u.down (heard B log) s.relayed s.down.resampler

theorem Kept.sound (h : Kept B u log s) : Sound B u log s where
  pump := h.pump
  reader := h.reader
  budget := by
    rw [← h.bounded.counted, ← h.budget]
    exact h.bounded.budget
  fates := h.fates
  allowed := h.allowed
  provider := h.provider
  endpoint := h.endpoint

theorem start_kept (B : Builtins) (u : Setup) : Kept B u [] u.init where
  pump := rfl
  reader := rfl
  bounded := ⟨rfl, Nat.zero_le _⟩
  budget := rfl
  idle _ := rfl
  solid f hf := by cases hf
  fates := rfl
  allowed p hp := by cases hp
  provider := streams_start u.up
  endpoint := streams_start u.down

/-- An event that brings no frame and no delta, and leaves the frames. -/
theorem Kept.other {e : Event} {s' : Session} (h : Kept B u log s)
    (hfed : fed (e :: log) = fed log) (hheard : heard B (e :: log) = heard B log)
    (hsame : s' = { s with active := s'.active }) (hidle : s'.active = true → s.active = true) :
    Kept B u (e :: log) s' := by
  rw [hsame]
  refine ⟨h.pump, h.reader, h.bounded, h.budget, fun ha => h.idle (hidle ha), h.solid, ?_,
    h.allowed, h.provider, ?_⟩
  · rw [hfed]
    exact h.fates
  · rw [hheard]
    exact h.endpoint

/-- Closing leaves no frame behind if none is held. -/
theorem Kept.closes {e : Event} (h : Kept B u log s) (hfed : fed (e :: log) = fed log)
    (hheard : heard B (e :: log) = heard B log) (hempty : s.preroll.frames = []) :
    Kept B u (e :: log) (close s) := by
  have hsettled : s.settled ++ settle .lost s.preroll.frames = s.settled := by
    rw [hempty]
    exact List.append_nil _
  have hfates := h.fates
  rw [hempty, List.append_nil] at hfates
  refine ⟨h.pump, h.reader, s.preroll.clear_bounded, h.budget, fun ha => (by cases ha),
    fun f hf => (by cases hf), ?_, ?_, ?_, ?_⟩
  · rw [hfed, ← hfates]
    simp only [close, hsettled]
    exact List.append_nil _
  · rw [show (close s).settled = s.settled from hsettled]
    exact h.allowed
  · rw [show (close s).settled = s.settled from hsettled]
    exact h.provider
  · rw [hheard]
    exact h.endpoint

/-- What is passed on settles the frames that were held or have come. -/
theorem Kept.passes {e : Event} {fate : Fate} {frames : List Bytes} {pcm : Bytes} {s' : Session}
    (h : Kept B u log s) (heven : pcm.length % 2 = 0)
    (hfates : s.settled.map Prod.fst ++ frames.filter (· ≠ []) = fed (e :: log))
    (hheard : heard B (e :: log) = heard B log) (hfate : Allowed u.budget fate)
    (hline : line (settle fate frames) = pcm)
    (hs' : s' = { s with
      active := true
      preroll := s.preroll.clear
      settled := s.settled ++ settle fate frames }) :
    ∃ t, toProvider pcm s' = .ok t ∧ Kept B u (e :: log) t := by
  obtain ⟨out, c', hprocess, hstreams⟩ := h.provider.process heven
  subst hs'
  refine ⟨{ s with
    active := true
    preroll := s.preroll.clear
    settled := s.settled ++ settle fate frames
    up := c'
    sent := s.sent ++ sentOf out }, by simp only [toProvider, hprocess], ?_⟩
  refine ⟨h.pump, h.reader, s.preroll.clear_bounded, h.budget, fun _ => rfl,
    fun f hf => (by cases hf), ?_, fun p hp => ?_, ?_, ?_⟩
  · rw [← hfates, List.map_append, settle_frames]
    exact List.append_nil _
  · rcases List.mem_append.mp hp with hp | hp
    · exact h.allowed p hp
    · rw [settle_fate hp]
      exact hfate
  · rw [line_append, hline]
    exact hstreams
  · rw [hheard]
    exact h.endpoint

/-- A session without held frames is as good as one that has cleared them. -/
theorem cleared_same (h : Kept B u log s) (hempty : s.preroll.frames = []) :
    s.preroll.clear = s.preroll := by
  have hbytes := h.bounded.counted
  rw [hempty] at hbytes
  cases hp : s.preroll with
  | mk budget frames bytes dropped =>
    rw [hp] at hempty hbytes
    cases hempty
    cases hbytes
    rfl

theorem Kept.feeds {pcm16 : Bytes} (h : Kept B u log s) (guarded : Bool)
    (hread : s.active = true → pcm16.length % 2 = 0) :
    ∃ t, feedAudio pcm16 guarded s = .ok t ∧ Kept B u (.frame pcm16 guarded :: log) t := by
  by_cases hactive : s.active = false
  · obtain ⟨hparts, hout, hbounded, hbudget⟩ := Preroll.add_spec h.bounded pcm16
    have hnew : (if pcm16 = [] then [] else [pcm16]) = [pcm16].filter (· ≠ []) := by
      by_cases hpcm : pcm16 = [] <;> simp [hpcm]
    refine ⟨{ s with
      preroll := s.preroll.add pcm16
      settled := s.settled ++ (s.preroll.out pcm16).map (fun o => (o.1, .overflowed o.2)) },
      if_pos hactive, ?_⟩
    refine ⟨h.pump, h.reader, hbounded, hbudget.trans h.budget, fun ha => ?_, fun f hf => ?_, ?_,
      fun p hp => ?_, ?_, h.endpoint⟩
    · rw [hactive] at ha
      cases ha
    · have hmem : f ∈ s.preroll.frames ++ [pcm16].filter (· ≠ []) := by
        rw [← hnew, ← hparts]
        exact List.mem_append_right _ hf
      rcases List.mem_append.mp hmem with hmem | hmem
      · exact h.solid f hmem
      · exact of_decide_eq_true (List.mem_filter.mp hmem).2
    · rw [fed, ← h.fates, List.append_assoc, ← hnew, ← hparts, List.map_append, List.map_map,
        List.append_assoc]
      rfl
    · rcases List.mem_append.mp hp with hp | hp
      · exact h.allowed p hp
      · obtain ⟨o, ho, rfl⟩ := List.mem_map.mp hp
        exact h.budget ▸ hout o ho
    · rw [line_append, line_overflowed, List.append_nil]
      exact h.provider
  · have hactive : s.active = true := by simpa using hactive
    have hempty := h.idle hactive
    have heven := hread hactive
    have hfates : s.settled.map Prod.fst ++ [pcm16].filter (· ≠ []) =
        fed (.frame pcm16 guarded :: log) := by
      rw [fed, ← h.fates, hempty, List.append_nil]
    have hcleared := cleared_same h hempty
    rw [feedAudio, if_neg (by simp [hactive])]
    cases guarded with
    | true =>
      have hfate : Allowed u.budget .silenced := trivial
      exact h.passes (by simpa using heven) hfates rfl hfate (line_silenced pcm16)
        (by rw [hcleared, ← hactive])
    | false =>
      have hfate : Allowed u.budget .passed := trivial
      exact h.passes heven hfates rfl hfate (by rw [line_passed]; simp)
        (by rw [hcleared, ← hactive])

theorem even_flatten {frames : List Bytes} (h : ∀ f ∈ frames, f.length % 2 = 0) :
    frames.flatten.length % 2 = 0 := by
  induction frames with
  | nil => rfl
  | cons f frames ih =>
    rw [List.flatten_cons, List.length_append]
    have hf := h f (List.mem_cons_self ..)
    have hrest := ih (fun g hg => h g (List.mem_cons_of_mem _ hg))
    omega

theorem Kept.flushes (h : Kept B u log s) (hread : ∀ f ∈ s.preroll.frames, f.length % 2 = 0) :
    ∃ t, flushPreroll s = .ok t ∧ Kept B u (.opened :: log) t := by
  have hsolid : s.preroll.frames.filter (· ≠ []) = s.preroll.frames :=
    List.filter_eq_self.mpr (fun f hf => by simpa using h.solid f hf)
  have hfates : s.settled.map Prod.fst ++ s.preroll.frames.filter (· ≠ []) =
      fed (.opened :: log) := by
    rw [hsolid]
    exact h.fates
  have hfate : Allowed u.budget .passed := trivial
  obtain ⟨t, ht, hkept⟩ := h.passes (even_flatten hread) hfates rfl hfate
    (line_passed s.preroll.frames) rfl
  by_cases hnone : s.preroll.frames.flatten = []
  · rw [hnone] at ht
    obtain rfl := Except.ok.inj (show Except.ok _ = _ from ht)
    refine ⟨_, if_pos hnone, ?_⟩
    simpa [sentOf] using hkept
  · exact ⟨t, (if_neg hnone).trans ht, hkept⟩

/-- `int` overflows on an infinite float only. -/
theorem int_overflows {v : Json} (h : intRaises B v = some .overflowError) :
    ∃ l, v = .float l ∧ B.infinite l = true := by
  cases v with
  | float l =>
    refine ⟨l, rfl, ?_⟩
    by_contra hfinite
    simp only [intRaises, if_neg hfinite] at h
    split at h <;> cases h
  | str t =>
    simp only [intRaises] at h
    split at h <;> cases h
  | _ => cases h

theorem Kept.reads {l : Loaded} {responding : Bool} (h : Kept B u log s)
    (hread : Readable B s (.text l responding)) :
    ∃ t, onText B l responding s = .ok t ∧ Kept B u (.text l responding :: log) t := by
  obtain ⟨kvs, rfl, hend, hplayed⟩ := hread
  simp only [onText]
  split
  · rename_i htype
    exact ⟨_, rfl, h.closes rfl rfl (hend htype)⟩
  · split
    · rename_i htype
      have hnone : playedRaises B (.obj kvs) = none := by
        unfold playedRaises
        split
        · rfl
        · rfl
        · rename_i v _ hget
          split
          · rename_i hover
            obtain ⟨l, rfl, hinfinite⟩ := int_overflows hover
            rw [hplayed htype l hget] at hinfinite
            cases hinfinite
          · rfl
      rw [hnone]
      exact ⟨s, rfl, h.other rfl rfl rfl id⟩
    · exact ⟨s, rfl, h.other rfl rfl rfl id⟩

theorem Kept.hears {payload index : Option Json} (h : Kept B u log s)
    (hindex : indexRaises B index = none) {t : Text} (ht : payloadOf B payload = .ok t) :
    ∃ t, onDelta B payload index s = .ok t ∧ Kept B u (.delta payload index true :: log) t := by
  simp only [onDelta, hindex, ht]
  have hframe : frameOf B payload = (B.decode t).filter (fun raw => raw.length % 2 = 0) := by
    rw [frameOf, ht]
  -- a bad delta costs only itself
  have hdrop : frameOf B payload = none → ∀ n, Kept B u (.delta payload index true :: log)
      { s with
        down := { s.down with droppedAudioFrames := n }
        relayed := s.relayed ++ sentOf [] } := by
    intro hbad n
    refine ⟨h.pump, h.reader, h.bounded, h.budget, h.idle, h.solid, h.fates, h.allowed,
      h.provider, ?_⟩
    rw [heard, hbad]
    simpa [sentOf] using h.endpoint
  refine ⟨_, rfl, ?_⟩
  cases hdecode : B.decode t with
  | none =>
    simp only [providerPcm, hdecode, Down.drop]
    apply hdrop
    rw [hframe, hdecode]
    rfl
  | some raw =>
    by_cases hodd : raw.length % 2 = 1
    · simp only [providerPcm, hdecode, hodd, if_true, Down.drop]
      apply hdrop
      rw [hframe, hdecode]
      simp [Option.filter, hodd]
    · have heven : raw.length % 2 = 0 := by omega
      obtain ⟨out, c', hprocess, hstreams⟩ := h.endpoint.process heven
      simp only [providerPcm, hdecode, hodd, if_false, hprocess]
      refine ⟨h.pump, h.reader, h.bounded, h.budget, h.idle, h.solid, h.fates, h.allowed,
        h.provider, ?_⟩
      rw [heard, hframe, hdecode]
      simpa [Option.filter, heven] using hstreams

theorem step_kept {e : Event} (h : Kept B u log s) (hread : Readable B s e) :
    Kept B u (e :: log) (step B e s) := by
  have hpump : s.pump.isSome = false := by rw [h.pump]; rfl
  have hreader : s.reader.isSome = false := by rw [h.reader]; rfl
  cases e with
  | frame pcm16 guarded =>
    obtain ⟨t, ht, hkept⟩ := h.feeds guarded hread
    simp only [step, hpump, ht, Bool.false_eq_true, if_false]
    exact hkept
  | text l responding =>
    obtain ⟨t, ht, hkept⟩ := h.reads hread
    simp only [step, hpump, ht, Bool.false_eq_true, if_false]
    exact hkept
  | opened =>
    obtain ⟨t, ht, hkept⟩ := h.flushes hread
    simp only [step, ht]
    exact hkept
  | lost => exact h.other rfl rfl rfl (fun ha => (by cases ha))
  | closed => exact h.closes rfl rfl hread
  | delta payload index wanted =>
    cases wanted with
    | false =>
      simp only [step, or_true, if_true]
      exact h.other rfl rfl rfl id
    | true =>
      obtain ⟨hindex, t, ht⟩ := hread rfl
      obtain ⟨t', ht', hkept⟩ := h.hears hindex ht
      simp only [step, hreader, ht', Bool.false_eq_true, Bool.true_eq_false, or_self, if_false]
      exact hkept

theorem run_kept {B : Builtins} {u : Setup} {log : List (session B u).Entry} {s : Session}
    (hrun : (session B u).Run (fun _ _ => True) log s)
    (hread : Machine.Each (fun _ e => Readable B e.pre e.call) log) :
    Kept B u (log.map Machine.Entry.call) s := by
  induction hrun with
  | start => exact start_kept B u
  | step hrun _ ih => exact step_kept (ih hread.2) hread.1

/-- Neither loop raises, and every frame goes its way in order. -/
theorem frames_pass (B : Builtins) (u : Setup) {log : List (session B u).Entry} {s : Session}
    (hrun : (session B u).Run (fun _ _ => True) log s)
    (hread : Machine.Each (fun _ e => Readable B e.pre e.call) log) :
    Sound B u (log.map Machine.Entry.call) s := (run_kept hrun hread).sound

/-! ### A session -/

def sampleBuiltins : Builtins where
  infinite l := l = "Infinity".toList ∨ l = "-Infinity".toList
  nan l := l = "NaN".toList
  zero l := l = "0.0".toList
  isInt t := t ≠ [] ∧ t.all (fun c => 48 ≤ c ∧ c ≤ 57)
  decode t := b64decode (String.ofList (t.map Char.ofNat))

theorem satellite_rate : 0 < 16000 := by decide

theorem provider_rate : 0 < 24000 := by decide

/-- `SATELLITE_RATE`, `OPENAI_RATE` and four seconds. -/
def sampleSetup : Setup where
  up := ⟨16000, 24000, satellite_rate, provider_rate⟩
  down := ⟨24000, 16000, provider_rate, satellite_rate⟩
  budget := 128000

def logOf (calls : List Event) : List (session sampleBuiltins sampleSetup).Entry :=
  (session sampleBuiltins sampleSetup).history [] sampleSetup.init calls

theorem log_ran (calls : List Event) :
    (session sampleBuiltins sampleSetup).Run (fun _ _ => True) (logOf calls)
      ((session sampleBuiltins sampleSetup).after sampleSetup.init calls) :=
  Machine.Run.start.history (fun _ _ _ => trivial)

/-- A frame that is held, a message nobody knows, a frame that is not, and a
delta that cannot be decoded. -/
def sampleCalls : List Event := [.frame [1, 0] false, .text (.value (.obj [])) false, .opened,
  .frame [2, 0] false, .delta (some (Json.string "A")) none true]

theorem frames_pass_sample : Sound sampleBuiltins sampleSetup
    ((logOf sampleCalls).map Machine.Entry.call)
    ((session sampleBuiltins sampleSetup).after sampleSetup.init sampleCalls) := by
  apply frames_pass sampleBuiltins sampleSetup (log_ran sampleCalls)
  refine ⟨fun _ => ⟨rfl, Text.ofString "A", rfl⟩, fun _ => rfl, ?_, ⟨[], rfl, ?_, ?_⟩,
    fun _ => rfl, trivial⟩
  · intro f hf
    obtain rfl := List.mem_singleton.mp (show f ∈ [[1, 0]] from hf)
    rfl
  · intro htype
    cases htype
  · rintro (htype | ⟨htype, -⟩)
    · cases htype
    · cases htype

/-- One frame of a single byte ends the loop of the endpoint. -/
theorem odd_frame : ¬ ∀ log s, (session sampleBuiltins sampleSetup).Run (fun _ _ => True) log s →
    Sound sampleBuiltins sampleSetup (log.map Machine.Entry.call) s := by
  intro h
  have hsound := h _ _ (log_ran [.opened, .frame [0] false])
  have hpump : some Raised.valueError = none := hsound.pump
  cases hpump

end Solvio.Realtime.Pump
