import Solvio.Audio.Resample

namespace Solvio.Realtime
open Solvio.Lib Solvio.Audio

/-- The way from the provider to the endpoint: its converter, and how many
frames were dropped. `decode` is `b64decode(…, validate=True)`. -/
structure Down where
  resampler : Resampler
  droppedAudioFrames : Nat := 0

/-- `_drop_audio`. -/
def Down.drop (d : Down) : Bytes × Down :=
  ([], { d with droppedAudioFrames := d.droppedAudioFrames + 1 })

/-- `_provider_pcm`. -/
def providerPcm {τ : Type} (decode : τ → Option Bytes) (delta : τ) (d : Down) : Bytes × Down :=
  match decode delta with
  | none => d.drop
  | some raw =>
    if raw.length % 2 = 1 then d.drop
    else match d.resampler.process raw with
      | .error _ => d.drop
      | .ok (pcm16, resampler) => (pcm16, { d with resampler := resampler })

/-- What is sent of a frame. -/
def sentOf (pcm : Bytes) : List Bytes := if pcm = [] then [] else [pcm]

theorem flatten_sent (sent : List Bytes) (pcm : Bytes) :
    (sent ++ sentOf pcm).flatten = sent.flatten ++ pcm := by
  unfold sentOf
  split
  · rename_i h
    simp [h]
  · simp

/-! ### The pre-roll -/

/-- Raw frames in order, and the bound on their bytes. -/
structure Preroll where
  budget : Nat
  frames : List Bytes := []
  bytes : Nat := 0
  dropped : Nat := 0

/-- The loop of `add`: what is left, and what falls out with the bytes that
were held then. -/
def trim (budget : Nat) : List Bytes → Nat → List Bytes × List (Bytes × Nat)
  | [], _ => ([], [])
  | oldest :: frames, held =>
    if budget < held then
      let (kept, out) := trim budget frames (held - oldest.length)
      (kept, (oldest, held) :: out)
    else (oldest :: frames, [])

namespace Preroll

/-- What falls out when a frame is added. -/
def out (p : Preroll) (pcm : Bytes) : List (Bytes × Nat) :=
  if pcm = [] then [] else (trim p.budget (p.frames ++ [pcm]) (p.bytes + pcm.length)).2

def add (p : Preroll) (pcm : Bytes) : Preroll :=
  if pcm = [] then p
  else
    let (kept, out) := trim p.budget (p.frames ++ [pcm]) (p.bytes + pcm.length)
    let lost := (out.map (fun o => o.1.length)).sum
    { p with frames := kept, bytes := p.bytes + pcm.length - lost, dropped := p.dropped + lost }

def clear (p : Preroll) : Preroll := { p with frames := [], bytes := 0 }

def drain (p : Preroll) : Bytes × Preroll := (p.frames.flatten, p.clear)

/-- The counter says what is held, and that is within the budget. -/
structure Bounded (p : Preroll) : Prop where
  counted : p.bytes = p.frames.flatten.length
  budget : p.bytes ≤ p.budget

end Preroll

theorem trim_spec (budget : Nat) (frames : List Bytes) (held : Nat)
    (h : held = frames.flatten.length) :
    (trim budget frames held).2.map Prod.fst ++ (trim budget frames held).1 = frames ∧
    (trim budget frames held).1.flatten.length ≤ budget ∧
    ∀ o ∈ (trim budget frames held).2, budget < o.2 := by
  induction frames generalizing held with
  | nil => simp [trim]
  | cons oldest frames ih =>
    rw [List.flatten_cons, List.length_append] at h
    rw [trim]
    split
    · rename_i hover
      obtain ⟨hparts, hbound, hout⟩ := ih (held - oldest.length) (by omega)
      refine ⟨by simp [hparts], hbound, fun o ho => ?_⟩
      rcases List.mem_cons.mp ho with rfl | ho
      · exact hover
      · exact hout o ho
    · rename_i hfits
      refine ⟨by simp, ?_, fun o ho => by cases ho⟩
      rw [List.flatten_cons, List.length_append]
      omega

namespace Preroll

/-- What falls out are the oldest frames, and each fell out over the budget. -/
theorem add_spec {p : Preroll} (h : p.Bounded) (pcm : Bytes) :
    (p.out pcm).map Prod.fst ++ (p.add pcm).frames =
      p.frames ++ (if pcm = [] then [] else [pcm]) ∧
    (∀ o ∈ p.out pcm, p.budget < o.2) ∧ (p.add pcm).Bounded ∧ (p.add pcm).budget = p.budget := by
  unfold out add
  split
  · simp [h]
  · have hheld : p.bytes + pcm.length = (p.frames ++ [pcm]).flatten.length := by
      simp [h.counted]
    obtain ⟨hparts, hbound, hout⟩ := trim_spec p.budget (p.frames ++ [pcm]) _ hheld
    have hcounted := congrArg (fun l => l.flatten.length) hparts
    simp only [List.flatten_append, List.length_append] at hcounted
    have hlost : ((trim p.budget (p.frames ++ [pcm]) (p.bytes + pcm.length)).2.map
        (fun o => o.1.length)).sum = ((trim p.budget (p.frames ++ [pcm])
          (p.bytes + pcm.length)).2.map Prod.fst).flatten.length := by
      rw [List.length_flatten, List.map_map]
      rfl
    have hbytes : p.bytes + pcm.length - ((trim p.budget (p.frames ++ [pcm])
        (p.bytes + pcm.length)).2.map (fun o => o.1.length)).sum =
        (trim p.budget (p.frames ++ [pcm]) (p.bytes + pcm.length)).1.flatten.length := by
      rw [hlost]
      simp only [List.flatten_append, List.length_append] at hheld
      omega
    exact ⟨hparts, hout, ⟨hbytes, hbytes.trans_le hbound⟩, rfl⟩

theorem clear_bounded (p : Preroll) : p.clear.Bounded := ⟨rfl, Nat.zero_le _⟩

end Preroll

end Solvio.Realtime
