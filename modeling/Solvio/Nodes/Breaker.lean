import Solvio.Lib.Runs
import Mathlib.Algebra.Order.Ring.Rat
import Mathlib.Tactic.Linarith

namespace Solvio.Nodes
open Solvio.Lib

inductive CircuitState where
  | closed | opened | halfOpen
deriving DecidableEq

/-- The settings of a `CircuitBreaker`. -/
structure Settings where
  failureThreshold : Int := 3
  recoveryTimeout : Rat := 30
  halfOpenMaxCalls : Int := 1

/-- The fields of a `CircuitBreaker`. -/
structure Circuit where
  state : CircuitState := .closed
  failures : Int := 0
  openedAt : Rat := 0
  halfOpenCalls : Nat := 0
deriving DecidableEq

namespace Circuit

variable (c : Settings) (now : Rat) (s : Circuit)

/-- `state`: an open circuit is half-open once the recovery time is over. -/
def settle : Circuit :=
  if s.state = .opened ∧ c.recoveryTimeout ≤ now - s.openedAt then
    { s with state := .halfOpen, halfOpenCalls := 0 }
  else s

/-- `allow`. -/
def allow : Bool × Circuit :=
  let s := s.settle c now
  match s.state with
  | .closed => (true, s)
  | .opened => (false, s)
  | .halfOpen =>
    if s.halfOpenCalls < c.halfOpenMaxCalls then
      (true, { s with halfOpenCalls := s.halfOpenCalls + 1 })
    else (false, s)

/-- `record_success`. -/
def recordSuccess : Circuit := { s with failures := 0, halfOpenCalls := 0, state := .closed }

/-- `_trip`. -/
def trip : Circuit := { s with state := .opened, openedAt := now, halfOpenCalls := 0 }

/-- `record_failure`. -/
def recordFailure : Circuit :=
  let s := s.settle c now
  if s.state = .halfOpen then s.trip now
  else
    let s := { s with failures := s.failures + 1 }
    if c.failureThreshold ≤ s.failures then s.trip now else s

end Circuit

/-- The clock and the breaker that reads it. -/
structure World where
  now : Rat
  circuit : Circuit
deriving DecidableEq

/-- What happens to a breaker. A caller that is cancelled never reports. -/
inductive Call where
  | advance (elapsed : NNRat)
  | state
  | allow (caller : Nat)
  | recordSuccess (caller : Nat)
  | recordFailure (caller : Nat)
deriving DecidableEq

/-- Only `allow` answers. -/
def Call.take (c : Settings) (w : World) : Call → Option Bool × World
  | advance elapsed => (none, { w with now := w.now + elapsed })
  | state => (none, { w with circuit := w.circuit.settle c w.now })
  | allow _ =>
    (some (w.circuit.allow c w.now).1, { w with circuit := (w.circuit.allow c w.now).2 })
  | recordSuccess _ => (none, { w with circuit := w.circuit.recordSuccess })
  | recordFailure _ => (none, { w with circuit := w.circuit.recordFailure c w.now })

def breaker (c : Settings) (start : Rat) : Machine World where
  Call := Call
  Reply _ := Option Bool
  step a w := a.take c w
  init := ⟨start, {}⟩

/-! ### One step -/

section
variable {c : Settings} {now : Rat} {s : Circuit}

theorem settle_cases (c : Settings) (now : Rat) (s : Circuit) :
    (s.settle c now = s ∧ (s.state = .opened → now < s.openedAt + c.recoveryTimeout)) ∨
    (s.state = .opened ∧ s.openedAt + c.recoveryTimeout ≤ now ∧
      s.settle c now = { s with state := .halfOpen, halfOpenCalls := 0 }) := by
  unfold Circuit.settle
  split
  · rename_i h
    exact .inr ⟨h.1, by linarith [h.2], rfl⟩
  · rename_i h
    refine .inl ⟨rfl, fun hopened => ?_⟩
    by_contra hlt
    exact h ⟨hopened, by linarith⟩

/-- What `allow` leaves, and when it admits. -/
theorem allow_cases (c : Settings) (now : Rat) (s : Circuit) :
    ((s.allow c now).2 = s.settle c now ∧
      ((s.allow c now).1 = true ↔ (s.settle c now).state = .closed)) ∨
    ((s.settle c now).state = .halfOpen ∧
      ((s.settle c now).halfOpenCalls : Int) < c.halfOpenMaxCalls ∧ s.allow c now =
        (true, { s.settle c now with halfOpenCalls := (s.settle c now).halfOpenCalls + 1 })) := by
  unfold Circuit.allow
  dsimp only
  split
  · rename_i h
    exact .inl ⟨rfl, by simp [h]⟩
  · rename_i h
    exact .inl ⟨rfl, by simp [h]⟩
  · rename_i h
    split
    · rename_i hroom
      exact .inr ⟨h, hroom, rfl⟩
    · exact .inl ⟨rfl, by simp [h]⟩

theorem failure_cases (c : Settings) (now : Rat) (s : Circuit) :
    (∃ n, s.recordFailure c now = ({ s.settle c now with failures := n }).trip now ∧
      ((s.settle c now).state = .halfOpen ∧ n = s.failures ∨ c.failureThreshold ≤ n)) ∨
    ((s.settle c now).state ≠ .halfOpen ∧ s.failures + 1 < c.failureThreshold ∧
      s.recordFailure c now = { s.settle c now with failures := s.failures + 1 }) := by
  have hkeeps : (s.settle c now).failures = s.failures := by
    rcases settle_cases c now s with ⟨h, -⟩ | ⟨-, -, h⟩ <;> rw [h]
  unfold Circuit.recordFailure
  dsimp only
  rw [hkeeps]
  split
  · rename_i h
    exact .inl ⟨s.failures, by rw [← hkeeps], .inl ⟨h, rfl⟩⟩
  · rename_i h
    split
    · rename_i hmany
      exact .inl ⟨_, rfl, .inr hmany⟩
    · rename_i hfew
      exact .inr ⟨h, lt_of_not_ge hfew, rfl⟩

end

/-! ### The probes of a run -/

variable {c : Settings} {start : Rat} {h : List (breaker c start).Entry} {w : World}

/-- A caller is admitted although the circuit is not closed. -/
def IsProbe (e : (breaker c start).Entry) : Prop :=
  (∃ caller, e.call = .allow caller) ∧ e.reply = some true ∧ e.pre.circuit.state ≠ .closed

instance (e : (breaker c start).Entry) : Decidable (IsProbe e) :=
  match e with
  | ⟨w, .allow caller⟩ =>
    decidable_of_iff ((w.circuit.allow c w.now).1 = true ∧ w.circuit.state ≠ .closed)
      ⟨fun hp => ⟨⟨caller, rfl⟩, congrArg some hp.1, hp.2⟩,
        fun hp => ⟨Option.some.inj hp.2.1, hp.2.2⟩⟩
  | ⟨_, .advance _⟩ | ⟨_, .state⟩ | ⟨_, .recordSuccess _⟩ | ⟨_, .recordFailure _⟩ =>
    isFalse (fun ⟨⟨_, hc⟩, _⟩ => nomatch hc)

/-- The times at which probes were admitted, newest first. -/
def probes (h : List (breaker c start).Entry) : List Rat :=
  (h.filter (fun e => IsProbe e)).map (fun e => e.pre.now)

/-- How many of some times are in a period. -/
def within (t length : Rat) (times : List Rat) : Nat :=
  times.countP (fun u => t ≤ u ∧ u < t + length)

theorem within_le_length (t length : Rat) (times : List Rat) :
    within t length times ≤ times.length := List.countP_le_length

theorem within_append (t length : Rat) (xs ys : List Rat) :
    within t length (xs ++ ys) = within t length xs + within t length ys := List.countP_append

/-- Times that are a period apart are not in one period together. -/
theorem within_apart {t length : Rat} {x : Rat} {times : List Rat} (hx : t ≤ x ∧ x < t + length)
    (hapart : ∀ u ∈ times, u + length ≤ x) : within t length times = 0 := by
  rw [within, List.countP_eq_zero]
  intro u hu
  have hle := hapart u hu
  simp only [decide_eq_true_eq]
  rintro ⟨htu, -⟩
  linarith [hx.2]

/-- What is known of the probes in every state of a breaker. -/
structure Spaced (c : Settings) (times : List Rat) (w : World) : Prop where
  few : ∀ t, within t c.recoveryTimeout times ≤ c.halfOpenMaxCalls.toNat
  past : ∀ u ∈ times, u ≤ w.now
  failed : w.circuit.state ≠ .closed → c.failureThreshold ≤ w.circuit.failures
  opened : w.circuit.state = .opened → w.circuit.openedAt ≤ w.now ∧
    ∀ u ∈ times, u ≤ w.circuit.openedAt
  halfOpen : w.circuit.state = .halfOpen →
    w.circuit.openedAt + c.recoveryTimeout ≤ w.now ∧
    ∃ recent earlier, times = recent ++ earlier ∧ recent.length = w.circuit.halfOpenCalls ∧
      (∀ u ∈ earlier, u ≤ w.circuit.openedAt) ∧
      ∀ u ∈ recent, w.circuit.openedAt + c.recoveryTimeout ≤ u

namespace Spaced

variable {times : List Rat}

theorem fresh (c : Settings) (now : Rat) : Spaced c [] ⟨now, {}⟩ where
  few := fun t => Nat.zero_le _
  past := by simp
  failed := fun hne => absurd rfl hne
  opened := fun heq => by cases heq
  halfOpen := fun heq => by cases heq

theorem advance (hs : Spaced c times w) (elapsed : NNRat) :
    Spaced c times { w with now := w.now + elapsed } := by
  have hlater : w.now ≤ w.now + (elapsed : Rat) := by
    have := elapsed.coe_nonneg
    linarith
  refine ⟨hs.few, fun u hu => (hs.past u hu).trans hlater, hs.failed, fun heq => ?_, fun heq => ?_⟩
  · obtain ⟨hopened, hall⟩ := hs.opened heq
    exact ⟨hopened.trans hlater, hall⟩
  · obtain ⟨hopened, hall⟩ := hs.halfOpen heq
    exact ⟨hopened.trans hlater, hall⟩

theorem settle (hs : Spaced c times w) :
    Spaced c times { w with circuit := w.circuit.settle c w.now } := by
  rcases settle_cases c w.now w.circuit with ⟨heq, -⟩ | ⟨hopened, hover, heq⟩
  · rw [heq]
    exact hs
  · rw [heq]
    have hfailed := hs.failed (by rw [hopened]; decide)
    exact {
      few := hs.few
      past := hs.past
      failed := fun _ => hfailed
      opened := fun h => nomatch h
      halfOpen := fun _ => ⟨hover, [], times, rfl, rfl, (hs.opened hopened).2, by simp⟩ }

theorem closes (hs : Spaced c times w) :
    Spaced c times { w with circuit := w.circuit.recordSuccess } where
  few := hs.few
  past := hs.past
  failed := fun hne => absurd rfl hne
  opened := fun heq => by cases heq
  halfOpen := fun heq => by cases heq

/-- A trip at the present, with enough failures behind it. -/
theorem trips (hs : Spaced c times w) {s : Circuit} (hmany : c.failureThreshold ≤ s.failures) :
    Spaced c times { w with circuit := s.trip w.now } where
  few := hs.few
  past := hs.past
  failed := fun _ => hmany
  opened := fun _ => ⟨le_rfl, hs.past⟩
  halfOpen := fun heq => by cases heq

theorem failure (hs : Spaced c times w) :
    Spaced c times { w with circuit := w.circuit.recordFailure c w.now } := by
  have hsettled := hs.settle
  have hkeeps : (w.circuit.settle c w.now).failures = w.circuit.failures := by
    rcases settle_cases c w.now w.circuit with ⟨h, -⟩ | ⟨-, -, h⟩ <;> rw [h]
  rcases failure_cases c w.now w.circuit with ⟨n, heq, hn⟩ | ⟨hne, hfew, heq⟩
  · rw [heq]
    apply hs.trips
    rcases hn with ⟨hhalf, rfl⟩ | hmany
    · have hfailed := hsettled.failed (by rw [hhalf]; decide)
      exact hkeeps ▸ hfailed
    · exact hmany
  · rw [heq]
    have hclosed : (w.circuit.settle c w.now).state = .closed := by
      by_contra hopen
      have hfailed := hsettled.failed hopen
      rw [hkeeps] at hfailed
      omega
    exact {
      few := hs.few
      past := hs.past
      failed := fun hopen => absurd hclosed hopen
      opened := fun hopen => nomatch hclosed.symm.trans hopen
      halfOpen := fun hhalf => nomatch hclosed.symm.trans hhalf }

/-- One more probe, while there is room for it. -/
theorem probe (hs : Spaced c times w) (hhalf : w.circuit.state = .halfOpen)
    (hroom : (w.circuit.halfOpenCalls : Int) < c.halfOpenMaxCalls) :
    Spaced c (w.now :: times) { w with circuit :=
      { w.circuit with halfOpenCalls := w.circuit.halfOpenCalls + 1 } } := by
  obtain ⟨hover, recent, earlier, htimes, hlen, hearlier, hrecent⟩ := hs.halfOpen hhalf
  refine ⟨fun t => ?_, fun u hu => ?_, hs.failed, fun h => absurd (hhalf.symm.trans h) (by simp),
    fun _ => ⟨hover, w.now :: recent, earlier, by rw [htimes, List.cons_append], by simp [hlen],
      hearlier, fun u hu => ?_⟩⟩
  · by_cases hin : t ≤ w.now ∧ w.now < t + c.recoveryTimeout
    · have hnone : within t c.recoveryTimeout earlier = 0 := by
        apply within_apart hin
        intro u hu
        linarith [hearlier u hu]
      have hsome : within t c.recoveryTimeout (w.now :: recent) ≤ recent.length + 1 :=
        within_le_length _ _ _
      rw [htimes, ← List.cons_append, within_append, hnone, Nat.add_zero]
      omega
    · have hskip : within t c.recoveryTimeout (w.now :: times) =
          within t c.recoveryTimeout times :=
        List.countP_cons_of_neg (by simpa only [decide_eq_true_eq] using hin)
      rw [hskip]
      exact hs.few t
  · rcases List.mem_cons.mp hu with rfl | hu
    · exact le_rfl
    · exact hs.past u hu
  · rcases List.mem_cons.mp hu with rfl | hu
    · exact hover
    · exact hrecent u hu

end Spaced

theorem probes_cons {e : (breaker c start).Entry} (h : List (breaker c start).Entry) :
    probes (e :: h) = if IsProbe e then e.pre.now :: probes h else probes h := by
  unfold probes
  rw [List.filter_cons]
  split <;> rename_i hp <;> simp_all

theorem not_probe {a : Call} (ha : ∀ caller, a ≠ .allow caller)
    (h : List (breaker c start).Entry) : probes (⟨w, a⟩ :: h) = probes h := by
  rw [probes_cons, if_neg]
  rintro ⟨⟨caller, hc⟩, -⟩
  exact ha caller hc

theorem step_spaced (hs : Spaced c (probes h) w) (a : Call) :
    Spaced c (probes (⟨w, a⟩ :: h : List (breaker c start).Entry)) (a.take c w).2 := by
  cases a with
  | advance elapsed =>
    rw [not_probe (by simp)]
    exact hs.advance elapsed
  | state =>
    rw [not_probe (by simp)]
    exact hs.settle
  | recordSuccess caller =>
    rw [not_probe (by simp)]
    exact hs.closes
  | recordFailure caller =>
    rw [not_probe (by simp)]
    exact hs.failure
  | allow caller =>
    have hsettled := hs.settle
    have hclosed : w.circuit.state = .closed → (w.circuit.settle c w.now).state = .closed := by
      intro heq
      rcases settle_cases c w.now w.circuit with ⟨h, -⟩ | ⟨hopened, -, -⟩
      · rw [h, heq]
      · rw [heq] at hopened
        cases hopened
    have hback : (w.circuit.settle c w.now).state = .closed → w.circuit.state = .closed := by
      intro heq
      rcases settle_cases c w.now w.circuit with ⟨h, -⟩ | ⟨-, -, h⟩
      · rwa [h] at heq
      · rw [h] at heq
        cases heq
    rcases allow_cases c w.now w.circuit with ⟨hleft, hadmits⟩ | ⟨hhalf, hroom, heq⟩
    · have hnot : ¬ IsProbe (⟨w, .allow caller⟩ : (breaker c start).Entry) := by
        rintro ⟨-, hreply, hopen⟩
        exact hopen (hback (hadmits.mp (Option.some.inj hreply)))
      rw [probes_cons, if_neg hnot]
      simp only [Call.take, hleft]
      exact hsettled
    · have hprobe : IsProbe (⟨w, .allow caller⟩ : (breaker c start).Entry) := by
        refine ⟨⟨caller, rfl⟩, ?_, fun h => ?_⟩
        · change some (w.circuit.allow c w.now).1 = some true
          rw [heq]
        · rw [hclosed h] at hhalf
          cases hhalf
      rw [probes_cons, if_pos hprobe]
      simp only [Call.take, heq]
      exact hsettled.probe hhalf hroom

theorem run_spaced (hrun : (breaker c start).Run (fun _ _ => True) h w) :
    Spaced c (probes h) w :=
  hrun.induct (fun h w => Spaced c (probes h) w) (Spaced.fresh c start)
    (fun _ _ a _ _ hs => step_spaced hs a)

/-! ### When it admits again -/

/-- All probes are admitted, and none of them has reported. -/
def Circuit.Waits (c : Settings) (s : Circuit) : Prop :=
  s.state = .halfOpen ∧ c.halfOpenMaxCalls ≤ s.halfOpenCalls

/-- A circuit that does not wait for a probe admits after the recovery time. -/
theorem admits_later {times : List Rat} (hs : Spaced c times w) (hmax : 0 < c.halfOpenMaxCalls)
    (hwaits : ¬ w.circuit.Waits c) {later : Rat} (hlater : w.now + c.recoveryTimeout ≤ later) :
    (w.circuit.allow c later).1 = true := by
  rcases allow_cases c later w.circuit with ⟨-, hadmits⟩ | ⟨-, -, heq⟩
  · rw [hadmits]
    rcases settle_cases c later w.circuit with ⟨heq, hearly⟩ | ⟨hopened, hover, heq⟩
    · rw [heq]
      cases hstate : w.circuit.state with
      | closed => rfl
      | opened =>
        have := hearly hstate
        linarith [(hs.opened hstate).1]
      | halfOpen =>
        exfalso
        have hroom : (w.circuit.halfOpenCalls : Int) < c.halfOpenMaxCalls :=
          lt_of_not_ge fun hle => hwaits ⟨hstate, hle⟩
        have htrue : (w.circuit.allow c later).1 = true := by
          simp only [Circuit.allow, heq, hstate, if_pos hroom]
        rw [hadmits, heq, hstate] at htrue
        cases htrue
    · exfalso
      have htrue : (w.circuit.allow c later).1 = true := by
        simp only [Circuit.allow, heq, Nat.cast_zero, if_pos hmax]
      rw [hadmits, heq] at htrue
      cases htrue
  · rw [heq]

/-- A report leaves a circuit that does not wait for a probe. -/
theorem report_frees {caller : Nat} {a : Call}
    (ha : a = .recordSuccess caller ∨ a = .recordFailure caller) :
    ¬ (a.take c w).2.circuit.Waits c := by
  rintro ⟨hhalf, -⟩
  rcases ha with rfl | rfl
  · cases hhalf
  · rcases failure_cases c w.now w.circuit with ⟨n, heq, -⟩ | ⟨hne, -, heq⟩
    · simp only [Call.take, heq] at hhalf
      cases hhalf
    · simp only [Call.take, heq] at hhalf
      exact hne hhalf

/-- Only a success closes a circuit. -/
theorem closes_by_success {e : (breaker c start).Entry} (hpre : e.pre.circuit.state ≠ .closed)
    (hpost : e.post.circuit.state = .closed) : ∃ caller, e.call = .recordSuccess caller := by
  obtain ⟨w, a⟩ := e
  have hsettled : (w.circuit.settle c w.now).state ≠ .closed := by
    rcases settle_cases c w.now w.circuit with ⟨h, -⟩ | ⟨-, -, h⟩
    · rwa [h]
    · rw [h]
      simp
  cases a with
  | advance elapsed => exact absurd hpost hpre
  | state => exact absurd hpost hsettled
  | recordSuccess caller => exact ⟨caller, rfl⟩
  | recordFailure caller =>
    exfalso
    change (w.circuit.recordFailure c w.now).state = .closed at hpost
    rcases failure_cases c w.now w.circuit with ⟨n, heq, -⟩ | ⟨-, -, heq⟩
    · rw [heq] at hpost
      cases hpost
    · rw [heq] at hpost
      exact hsettled hpost
  | allow caller =>
    exfalso
    change (w.circuit.allow c w.now).2.state = .closed at hpost
    rcases allow_cases c w.now w.circuit with ⟨heq, -⟩ | ⟨hhalf, -, heq⟩
    · rw [heq] at hpost
      exact hsettled hpost
    · rw [heq] at hpost
      exact hsettled hpost

/-- Three callers fail while a fourth is under way. -/
def openingCalls : List Call := [.allow 0, .recordFailure 1, .recordFailure 2, .recordFailure 3]

def opening : List (breaker {} 0).Entry :=
  (breaker {} 0).history [] (breaker {} 0).init openingCalls

def openedWorld : World := (breaker {} 0).after (breaker {} 0).init openingCalls

theorem opening_run : (breaker {} 0).Run (fun _ _ => True) opening openedWorld :=
  .history .start (fun _ _ _ => trivial)

theorem opened_world : openedWorld = ⟨0, ⟨.opened, 3, 0, 0⟩⟩ := by
  decide

end Solvio.Nodes
