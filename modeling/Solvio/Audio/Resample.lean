import Solvio.Lib.Pcm
import Mathlib.Algebra.Order.Floor.Semiring
import Mathlib.Data.Rat.Floor
import Mathlib.Tactic.FieldSimp
import Mathlib.Tactic.Linarith

namespace Solvio.Audio
open Solvio.Lib

/-- The rates of a converter. -/
structure Rates where
  srcRate : Nat
  dstRate : Nat
  src_pos : 0 < srcRate
  dst_pos : 0 < dstRate

def Rates.step (r : Rates) : Rat := r.srcRate / r.dstRate

theorem Rates.step_pos (r : Rates) : 0 < r.step :=
  div_pos (Nat.cast_pos.mpr r.src_pos) (Nat.cast_pos.mpr r.dst_pos)

structure Resampler where
  rates : Rates
  prev : Sample := .silence
  pos : Rat := 0

/-- What `process` can raise. -/
inductive Fault where
  | frames | index | overflow
deriving DecidableEq

/-- `int(x)`. -/
def trunc (x : Rat) : Int := if 0 ≤ x then ⌊x⌋ else ⌈x⌉

/-- `work[i]`, where a negative index counts from the end. -/
def fetch (work : List Sample) (i : Int) : Except Fault Sample :=
  match (if 0 ≤ i then work[i.toNat]?
    else if (work.length : Int) + i < 0 then none else work[(work.length + i).toNat]?) with
  | some x => .ok x
  | none => .error .index

/-- The sample at a position of the work array. -/
def interpolate (work : List Sample) (pos : Rat) : Except Fault Sample := do
  let i := trunc pos
  let frac := pos - i
  let a ← fetch work i
  let b ← fetch work (i + 1)
  match Sample.ofInt? (trunc (a.value + (b.value - a.value) * frac)) with
  | some x => .ok x
  | none => .error .overflow

namespace Resampler

def reset (s : Resampler) : Resampler := { s with prev := .silence, pos := 0 }

/-- The loop of `process`. -/
def loop (r : Rates) (work : List Sample) (n : Nat) (pos : Rat) (out : List Sample) :
    Except Fault (List Sample × Rat) :=
  if pos < n then
    match interpolate work pos with
    | .ok x => loop r work n (pos + r.step) (out ++ [x])
    | .error e => .error e
  else .ok (out, pos)
termination_by ⌈(n - pos) / r.step⌉₊
decreasing_by
  rename_i hlt
  have hstep := r.step_pos
  have hpos : 0 < (n - pos) / r.step := div_pos (by linarith) hstep
  have hless : (n - (pos + r.step)) / r.step = (n - pos) / r.step - 1 := by
    rw [← sub_sub, sub_div, div_self (ne_of_gt hstep)]
  rw [hless]
  rcases Nat.eq_zero_or_pos ⌈(n - pos) / r.step - 1⌉₊ with hzero | hbig
  · rw [hzero]
    exact Nat.ceil_pos.mpr hpos
  · have hceil := Nat.ceil_lt_add_one (le_of_lt (Nat.ceil_pos.mp hbig))
    have hle := Nat.le_ceil ((n - pos) / r.step)
    rw [sub_add_cancel] at hceil
    exact_mod_cast lt_of_lt_of_le hceil hle

def process (s : Resampler) (pcm : Bytes) : Except Fault (Bytes × Resampler) :=
  if pcm = [] then .ok ([], s)
  else
    match Pcm.ofBytes? pcm with
    | none => .error .frames
    | some src =>
      if src.length = 0 then .ok ([], s)
      else
        match loop s.rates (s.prev :: src) src.length s.pos [] with
        | .error e => .error e
        | .ok (out, pos) =>
          .ok (Pcm.toBytes out, { s with pos := pos - src.length, prev := src.getLastD s.prev })

end Resampler

/-! ### The line between the samples -/

theorem trunc_between {x : Rat} {l u : Int} (hl : (l : Rat) ≤ x) (hu : x ≤ u) :
    l ≤ trunc x ∧ trunc x ≤ u := by
  unfold trunc
  split
  · have hfloor : (⌊x⌋ : Rat) ≤ u := (Int.floor_le x).trans hu
    exact ⟨Int.le_floor.mpr hl, by exact_mod_cast hfloor⟩
  · have hceil : (l : Rat) ≤ ⌈x⌉ := hl.trans (Int.le_ceil x)
    exact ⟨by exact_mod_cast hceil, Int.ceil_le.mpr hu⟩

/-- The value on the line from one sample to the next. -/
def blend (a b : Sample) (frac : Rat) : Int := trunc (a.value + (b.value - a.value) * frac)

theorem blend_between (a b : Sample) {frac : Rat} (h0 : 0 ≤ frac) (h1 : frac ≤ 1) :
    min a.value b.value ≤ blend a b frac ∧ blend a b frac ≤ max a.value b.value := by
  unfold blend
  rcases le_total a.value b.value with h | h
  · rw [min_eq_left h, max_eq_right h]
    have h' : (a.value : Rat) ≤ b.value := by exact_mod_cast h
    apply trunc_between <;> nlinarith
  · rw [min_eq_right h, max_eq_left h]
    have h' : (b.value : Rat) ≤ a.value := by exact_mod_cast h
    apply trunc_between <;> nlinarith

/-- The sample on a row of samples at a position. -/
structure Reads (heard : List Sample) (pos : Rat) (x : Sample) : Prop where
  nonneg : 0 ≤ pos
  between : ∃ a b, heard[⌊pos⌋₊]? = some a ∧ heard[⌊pos⌋₊ + 1]? = some b ∧
    x.value = blend a b (pos - ⌊pos⌋₊)

theorem Reads.unique {heard : List Sample} {pos : Rat} {x y : Sample} (hx : Reads heard pos x)
    (hy : Reads heard pos y) : x = y := by
  obtain ⟨a, b, ha, hb, hvalue⟩ := hx.between
  obtain ⟨a', b', ha', hb', hvalue'⟩ := hy.between
  obtain rfl := Option.some.inj (ha.symm.trans ha')
  obtain rfl := Option.some.inj (hb.symm.trans hb')
  exact Sample.ext (hvalue.trans hvalue'.symm)

theorem Reads.neighbours {heard : List Sample} {pos : Rat} {x : Sample} (h : Reads heard pos x) :
    ∃ a b, heard[⌊pos⌋₊]? = some a ∧ heard[⌊pos⌋₊ + 1]? = some b ∧
      min a.value b.value ≤ x.value ∧ x.value ≤ max a.value b.value := by
  obtain ⟨a, b, ha, hb, hvalue⟩ := h.between
  have hfloor := Nat.floor_le h.nonneg
  have hless := Nat.lt_floor_add_one pos
  rw [hvalue]
  exact ⟨a, b, ha, hb, blend_between a b (by linarith) (by linarith)⟩

/-- More samples on both sides of a row move its positions only. -/
theorem Reads.extend {heard : List Sample} {pos : Rat} {x : Sample} (h : Reads heard pos x)
    (before after : List Sample) : Reads (before ++ heard ++ after) (pos + before.length) x := by
  obtain ⟨a, b, ha, hb, hvalue⟩ := h.between
  have hfloor : ⌊pos + before.length⌋₊ = before.length + ⌊pos⌋₊ := by
    rw [Nat.floor_add_natCast h.nonneg, Nat.add_comm]
  have hat : ∀ i c, heard[i]? = some c → (before ++ heard ++ after)[before.length + i]? = some c := by
    intro i c hc
    have hi : i < heard.length := (List.getElem?_eq_some_iff.mp hc).1
    rw [List.append_assoc, List.getElem?_append_right (Nat.le_add_right _ _),
      Nat.add_sub_cancel_left, List.getElem?_append_left hi, hc]
  have hnonneg := h.nonneg
  refine ⟨by positivity, a, b, ?_, ?_, ?_⟩
  · rw [hfloor]
    exact hat _ _ ha
  · rw [hfloor, Nat.add_assoc]
    exact hat _ _ hb
  · rw [hvalue, hfloor, Nat.cast_add]
    congr 1
    ring

theorem fetch_ok {work : List Sample} {i : Nat} {a : Sample} (h : work[i]? = some a) :
    fetch work i = .ok a := by
  simp only [fetch, Int.natCast_nonneg, if_true, Int.toNat_natCast, h]

/-- Inside the array nothing is raised. -/
theorem interpolate_reads (work : List Sample) {pos : Rat} (h0 : 0 ≤ pos)
    (hlen : ⌊pos⌋₊ + 1 < work.length) : ∃ x, interpolate work pos = .ok x ∧ Reads work pos x := by
  obtain ⟨a, ha⟩ : ∃ a, work[⌊pos⌋₊]? = some a :=
    ⟨_, List.getElem?_eq_getElem (Nat.lt_of_succ_lt hlen)⟩
  obtain ⟨b, hb⟩ : ∃ b, work[⌊pos⌋₊ + 1]? = some b := ⟨_, List.getElem?_eq_getElem hlen⟩
  have hindex : trunc pos = (⌊pos⌋₊ : Int) := by
    rw [trunc, if_pos h0, Int.natCast_floor_eq_floor h0]
  have hfloor := Nat.floor_le h0
  have hless := Nat.lt_floor_add_one pos
  have hfrac : 0 ≤ pos - ⌊pos⌋₊ := by linarith
  have hbetween := blend_between a b hfrac (by linarith)
  have hlow : -32768 ≤ blend a b (pos - ⌊pos⌋₊) := by
    have := a.low
    have := b.low
    omega
  have hhigh : blend a b (pos - ⌊pos⌋₊) < 32768 := by
    have := a.high
    have := b.high
    omega
  refine ⟨⟨_, hlow, hhigh⟩, ?_, h0, a, b, ha, hb, rfl⟩
  have hnext : fetch work ((⌊pos⌋₊ : Int) + 1) = .ok b := by
    exact_mod_cast fetch_ok hb
  have hcast : ((⌊pos⌋₊ : Int) : Rat) = (⌊pos⌋₊ : Rat) := Int.cast_natCast _
  have hmake : Sample.ofInt? (trunc (a.value + (b.value - a.value) * (pos - ⌊pos⌋₊))) =
      some ⟨_, hlow, hhigh⟩ := dif_pos ⟨hlow, hhigh⟩
  simp only [interpolate, hindex, fetch_ok ha, hnext, bind, Except.bind, hcast, hmake]

/-! ### How many samples there are -/

/-- How many samples there are behind so many. -/
def produced (r : Rates) (m : Nat) : Nat := ⌈(m * r.dstRate : Rat) / r.srcRate⌉₊

theorem lt_produced {r : Rates} {m k : Nat} : k < produced r m ↔ k * r.step < m := by
  have hsrc : (0 : Rat) < r.srcRate := Nat.cast_pos.mpr r.src_pos
  have hdst : (0 : Rat) < r.dstRate := Nat.cast_pos.mpr r.dst_pos
  rw [produced, Nat.lt_ceil, lt_div_iff₀ hsrc, Rates.step, ← mul_div_assoc, div_lt_iff₀ hdst]

theorem produced_le {r : Rates} {m k : Nat} : produced r m ≤ k ↔ (m : Rat) ≤ k * r.step := by
  rw [← not_lt, lt_produced, not_lt]

theorem produced_mono (r : Rates) {m n : Nat} (h : m ≤ n) : produced r m ≤ produced r n := by
  have hmn : (m : Rat) ≤ n := Nat.cast_le.mpr h
  exact Iff.mpr produced_le (hmn.trans (Iff.mp produced_le le_rfl))

@[simp] theorem produced_zero (r : Rates) : produced r 0 = 0 := by
  simp [produced]

/-! ### Call by call -/

/-- What a stream of samples is converted to. -/
structure Converted (r : Rates) (xs out : List Sample) : Prop where
  length : out.length = produced r xs.length
  reads : ∀ (k : Nat) x, out[k]? = some x → Reads (.silence :: xs) (k * r.step) x

theorem Converted.unique {r : Rates} {xs out out' : List Sample} (h : Converted r xs out)
    (h' : Converted r xs out') : out = out' := by
  apply List.ext_getElem (h.length.trans h'.length.symm)
  intro k hk hk'
  exact (h.reads k _ (List.getElem?_eq_getElem hk)).unique
    (h'.reads k _ (List.getElem?_eq_getElem hk'))

/-- Where the converter stands behind a stream. -/
structure Behind (r : Rates) (xs : List Sample) (s : Resampler) : Prop where
  rates : s.rates = r
  prev : (Sample.silence :: xs).getLast? = some s.prev
  pos : s.pos = produced r xs.length * r.step - xs.length

theorem Behind.nonneg {r : Rates} {xs : List Sample} {s : Resampler} (h : Behind r xs s) :
    0 ≤ s.pos := by
  rw [h.pos, sub_nonneg]
  exact Iff.mp produced_le le_rfl

theorem behind_reset (s : Resampler) : Behind s.rates [] s.reset :=
  ⟨rfl, rfl, by simp [Resampler.reset]⟩

namespace Resampler

section
variable {r : Rates} {xs ys : List Sample} {prev : Sample}

/-- A round of the loop reads the samples of the whole stream. -/
theorem round_reads (hprev : (Sample.silence :: xs).getLast? = some prev) {k : Nat}
    (hfrom : produced r xs.length ≤ k) (hto : k < produced r (xs.length + ys.length)) :
    ∃ x, interpolate (prev :: ys) (k * r.step - xs.length) = .ok x ∧
      Reads (.silence :: (xs ++ ys)) (k * r.step) x := by
  have hlow := Iff.mp produced_le hfrom
  have hhigh := Iff.mp lt_produced hto
  rw [Nat.cast_add] at hhigh
  have h0 : (0 : Rat) ≤ k * r.step - xs.length := sub_nonneg.mpr hlow
  have hindex : ⌊(k * r.step - xs.length : Rat)⌋₊ < ys.length :=
    (Nat.floor_lt h0).mpr (by linarith)
  obtain ⟨x, hx, hreads⟩ := interpolate_reads (prev :: ys) h0
    (by simpa using hindex)
  refine ⟨x, hx, ?_⟩
  have hline : (Sample.silence :: xs).dropLast ++ (prev :: ys) ++ [] =
      .silence :: (xs ++ ys) := by
    rw [List.append_nil, List.append_cons, List.dropLast_append_getLast? prev hprev]
    rfl
  have hextended := hreads.extend (Sample.silence :: xs).dropLast []
  rw [hline] at hextended
  simpa using hextended

variable (ys) in
/-- The loop goes on until all samples are read. -/
theorem loop_reads (hprev : (Sample.silence :: xs).getLast? = some prev) :
    ∀ (left k : Nat) (out : List Sample), produced r xs.length ≤ k →
      k + left = produced r (xs.length + ys.length) →
      ∃ new, loop r (prev :: ys) ys.length (k * r.step - xs.length) out =
          .ok (out ++ new, produced r (xs.length + ys.length) * r.step - xs.length) ∧
        new.length = left ∧
        ∀ (j : Nat) x, new[j]? = some x → Reads (.silence :: (xs ++ ys)) ((k + j : Nat) * r.step) x := by
  intro left
  induction left with
  | zero =>
    intro k out hfrom hk
    rw [Nat.add_zero] at hk
    refine ⟨[], ?_, rfl, by simp⟩
    have hend : ¬ (k * r.step - xs.length : Rat) < ys.length := by
      have hle := Iff.mp produced_le (le_of_eq hk.symm)
      rw [Nat.cast_add] at hle
      linarith
    rw [loop, if_neg hend, ← hk, List.append_nil]
  | succ left ih =>
    intro k out hfrom hk
    have hto : k < produced r (xs.length + ys.length) := by omega
    obtain ⟨x, hx, hreads⟩ := round_reads hprev hfrom hto
    obtain ⟨new, hloop, hlen, hnew⟩ := ih (k + 1) (out ++ [x]) (by omega) (by omega)
    refine ⟨x :: new, ?_, by rw [List.length_cons, hlen], ?_⟩
    · have hgo : (k * r.step - xs.length : Rat) < ys.length := by
        have hlt := Iff.mp lt_produced hto
        rw [Nat.cast_add] at hlt
        linarith
      have hnext : (k * r.step - xs.length + r.step : Rat) = (k + 1 : Nat) * r.step - xs.length := by
        rw [Nat.cast_add, Nat.cast_one]
        ring
      rw [loop, if_pos hgo, hx]
      simp only [hnext, hloop, List.append_assoc, List.singleton_append]
    · intro j y hy
      cases j with
      | zero =>
        obtain rfl := Option.some.inj hy
        exact hreads
      | succ j =>
        rw [Nat.add_comm j 1, ← Nat.add_assoc]
        exact hnew j y hy

end

/-- One call of `process`. -/
theorem process_converts {r : Rates} {xs : List Sample} {s : Resampler} (h : Behind r xs s)
    (ys : List Sample) :
    ∃ new s', s.process (Pcm.toBytes ys) = .ok (Pcm.toBytes new, s') ∧ Behind r (xs ++ ys) s' ∧
      ∀ out, Converted r xs out → Converted r (xs ++ ys) (out ++ new) := by
  rcases eq_or_ne ys [] with rfl | hne
  · refine ⟨[], s, rfl, by rwa [List.append_nil], fun out hout => ?_⟩
    rwa [List.append_nil, List.append_nil]
  · have hmono := produced_mono r (Nat.le_add_right xs.length ys.length)
    obtain ⟨new, hloop, hlen, hnew⟩ := loop_reads ys h.prev
      (produced r (xs.length + ys.length) - produced r xs.length) (produced r xs.length) []
      le_rfl (Nat.add_sub_cancel' hmono)
    rw [← h.pos, List.nil_append] at hloop
    refine ⟨new, { s with
        pos := produced r (xs.length + ys.length) * r.step - xs.length - ys.length
        prev := ys.getLastD s.prev }, ?_, ⟨h.rates, ?_, ?_⟩, fun out hout => ⟨?_, ?_⟩⟩
    · have hbytes : Pcm.toBytes ys ≠ [] := fun he => hne (Pcm.to_bytes_eq_nil.mp he)
      have hlength : ys.length ≠ 0 := fun he => hne (List.length_eq_zero_iff.mp he)
      rw [process, if_neg hbytes, Pcm.of_to_bytes]
      simp only [if_neg hlength, h.rates, hloop]
    · rw [← List.cons_append, List.getLast?_append, List.getLast?_eq_some_getLast hne,
        List.getLastD_eq_getLast?, List.getLast?_eq_some_getLast hne]
      rfl
    · rw [List.length_append, Nat.cast_add]
      ring
    · rw [List.length_append, hout.length, hlen, List.length_append]
      omega
    · intro k x hx
      rcases Nat.lt_or_ge k out.length with hlt | hge
      · rw [List.getElem?_append_left hlt] at hx
        have hreads := (hout.reads k x hx).extend [] ys
        simpa using hreads
      · rw [List.getElem?_append_right hge, hout.length] at hx
        have hreads := hnew _ x hx
        rw [← hout.length, Nat.add_sub_cancel' hge] at hreads
        exact hreads

/-! ### Any cut of a stream -/

/-- One call of `process` for each chunk. -/
def feed (s : Resampler) : List Bytes → Except Fault (List Bytes × Resampler)
  | [] => .ok ([], s)
  | pcm :: rest =>
    match s.process pcm with
    | .error e => .error e
    | .ok (out, s) => (s.feed rest).map (fun p => (out :: p.1, p.2))

theorem feed_converts {r : Rates} (chunks : List (List Sample)) :
    ∀ {xs : List Sample} {s : Resampler}, Behind r xs s →
      ∃ (outs : List (List Sample)) (s' : Resampler), s.feed (chunks.map Pcm.toBytes) = .ok (outs.map Pcm.toBytes, s') ∧
        Behind r (xs ++ chunks.flatten) s' ∧
        ∀ out, Converted r xs out → Converted r (xs ++ chunks.flatten) (out ++ outs.flatten) := by
  induction chunks with
  | nil =>
    intro xs s h
    refine ⟨[], s, rfl, by simpa using h, fun out hout => by simpa using hout⟩
  | cons ys chunks ih =>
    intro xs s h
    obtain ⟨new, s₁, hprocess, h₁, hconvert⟩ := process_converts h ys
    obtain ⟨outs, s₂, hfeed, h₂, hconverts⟩ := ih h₁
    refine ⟨new :: outs, s₂, ?_, ?_, fun out hout => ?_⟩
    · simp only [List.map_cons, feed, hprocess, hfeed, Except.map]
    · rwa [List.flatten_cons, ← List.append_assoc]
    · rw [List.flatten_cons, List.flatten_cons, ← List.append_assoc, ← List.append_assoc]
      exact hconverts _ (hconvert out hout)

/-- The chunks of a stream come to what the stream comes to. -/
theorem chunks_convert (s : Resampler) (chunks : List (List Sample)) :
    ∃ outs s' whole s'', s.reset.feed (chunks.map Pcm.toBytes) = .ok (outs, s') ∧ 0 ≤ s'.pos ∧
      s.reset.process (Pcm.toBytes chunks.flatten) = .ok (outs.flatten, s'') ∧
      outs.flatten = Pcm.toBytes whole ∧
      whole.length =
        ⌈(chunks.flatten.length * s.rates.dstRate : Rat) / s.rates.srcRate⌉₊ ∧
      ∀ (k : Nat) x, whole[k]? = some x → ∃ a b,
        (Sample.silence :: chunks.flatten)[⌊k * s.rates.step⌋₊]? = some a ∧
        (Sample.silence :: chunks.flatten)[⌊k * s.rates.step⌋₊ + 1]? = some b ∧
        min a.value b.value ≤ x.value ∧ x.value ≤ max a.value b.value := by
  have hempty : Converted s.rates [] [] := ⟨by simp, by simp⟩
  obtain ⟨outs, s', hfeed, hbehind, hconverts⟩ := feed_converts chunks (behind_reset s)
  obtain ⟨new, s'', hprocess, -, hconvert⟩ :=
    process_converts (behind_reset s) chunks.flatten
  have hwhole := hconverts [] hempty
  obtain rfl := hwhole.unique (hconvert [] hempty)
  rw [List.nil_append, List.nil_append] at hwhole
  refine ⟨_, s', outs.flatten, s'', hfeed, hbehind.nonneg, ?_, Pcm.flatten_to_bytes outs,
    hwhole.length, fun k x hx => (hwhole.reads k x hx).neighbours⟩
  rw [Pcm.flatten_to_bytes]
  exact hprocess

end Resampler

end Solvio.Audio
