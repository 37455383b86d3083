import Mathlib.Data.List.Infix

namespace Solvio.Lib

/-- A sequential object: every call answers and leaves a state. -/
structure Machine (σ : Type) where
  Call : Type
  Reply : Call → Type
  step : (c : Call) → σ → Reply c × σ
  init : σ

namespace Machine

variable {σ : Type} {m : Machine σ}

/-- One atomic step of a run: the state it met and the call it made. -/
structure Entry (m : Machine σ) where
  pre : σ
  call : m.Call

namespace Entry

def reply (e : m.Entry) : m.Reply e.call := (m.step e.call e.pre).1

def post (e : m.Entry) : σ := (m.step e.call e.pre).2

end Entry

/-- A history, newest step first, and the state it ends in. `permits` is what
the callers may do after a history. -/
inductive Run (m : Machine σ) (permits : List m.Entry → m.Call → Prop) :
    List m.Entry → σ → Prop
  | start : Run m permits [] m.init
  | step {h : List m.Entry} {s : σ} {c : m.Call} : Run m permits h s → permits h c →
    Run m permits (⟨s, c⟩ :: h) (m.step c s).2

namespace Run

variable {permits allowed : List m.Entry → m.Call → Prop} {h : List m.Entry} {s : σ}

/-- Induction over a run, for a property of the history and its state. -/
theorem induct (hrun : m.Run permits h s) (P : List m.Entry → σ → Prop) (start : P [] m.init)
    (step : ∀ h s c, m.Run permits h s → permits h c → P h s →
      P (⟨s, c⟩ :: h) (m.step c s).2) : P h s := by
  induction hrun with
  | start => exact start
  | step hr hc ih => exact step _ _ _ hr hc ih

/-- What holds at the start and survives every permitted call holds in every
reachable state. -/
theorem invariant (hrun : m.Run permits h s) (I : σ → Prop) (start : I m.init)
    (step : ∀ h s c, permits h c → I s → I (m.step c s).2) : I s :=
  hrun.induct (fun _ s => I s) start (fun h s c _ hc hi => step h s c hc hi)

theorem mono (hrun : m.Run permits h s) (hsub : ∀ h c, permits h c → allowed h c) :
    m.Run allowed h s := by
  induction hrun with
  | start => exact .start
  | step _ hc ih => exact .step ih (hsub _ _ hc)

theorem cons_inv {e : m.Entry} (hrun : m.Run permits (e :: h) s) :
    m.Run permits h e.pre ∧ permits h e.call ∧ s = e.post := by
  cases hrun with
  | step hr hc => exact ⟨hr, hc, rfl⟩

/-- Cutting a run at one of its steps leaves the run up to that step. -/
theorem split {newer older : List m.Entry} {e : m.Entry}
    (hrun : m.Run permits (newer ++ e :: older) s) :
    m.Run permits older e.pre ∧ permits older e.call := by
  induction newer generalizing s with
  | nil => exact ⟨hrun.cons_inv.1, hrun.cons_inv.2.1⟩
  | cons n newer ih => exact ih hrun.cons_inv.1

theorem of_mem {e : m.Entry} (hrun : m.Run permits h s) (he : e ∈ h) :
    ∃ newer older, h = newer ++ e :: older ∧ m.Run permits older e.pre ∧
      permits older e.call := by
  obtain ⟨newer, older, rfl⟩ := List.append_of_mem he
  exact ⟨newer, older, rfl, hrun.split⟩

/-- The step at a position, and the history it met. -/
theorem getElem {i : Nat} {e : m.Entry} (hrun : m.Run permits h s) (hi : h[i]? = some e) :
    h = h.take i ++ e :: h.drop (i + 1) ∧ m.Run permits (h.drop (i + 1)) e.pre := by
  obtain ⟨hlt, rfl⟩ := List.getElem?_eq_some_iff.mp hi
  have hcut : h = h.take i ++ h[i] :: h.drop (i + 1) := by
    rw [← List.drop_eq_getElem_cons hlt, List.take_append_drop]
  rw [hcut] at hrun
  exact ⟨hcut, hrun.split.1⟩

/-- The state a step leaves is the state the next step meets, so a property
that the later steps preserve is carried to the end. -/
theorem carried {newer older : List m.Entry} {e : m.Entry}
    (hrun : m.Run permits (newer ++ e :: older) s) (I : σ → Prop) (start : I e.post)
    (step : ∀ n ∈ newer, I n.pre → I n.post) : I s ∧ ∀ n ∈ newer, I n.pre := by
  induction newer generalizing s with
  | nil =>
    rw [hrun.cons_inv.2.2]
    exact ⟨start, fun n hn => by cases hn⟩
  | cons n newer ih =>
    obtain ⟨hr, -, rfl⟩ := hrun.cons_inv
    obtain ⟨hpre, hall⟩ := ih hr (fun k hk => step k (List.mem_cons_of_mem n hk))
    refine ⟨step n (List.mem_cons_self ..) hpre, fun k hk => ?_⟩
    rcases List.mem_cons.mp hk with rfl | hk
    · exact hpre
    · exact hall k hk

theorem since {newer older : List m.Entry} {e : m.Entry}
    (hrun : m.Run permits (newer ++ e :: older) s) (I : σ → Prop) (start : I e.post)
    (step : ∀ h s c, m.Run permits h s → permits h c → I s → I (m.step c s).2) :
    I s ∧ ∀ n ∈ newer, I n.pre :=
  hrun.carried I start (fun n hn hi => by
    obtain ⟨_, _, -, hr, hc⟩ := hrun.of_mem (List.mem_append_left _ hn)
    exact step _ _ _ hr hc hi)

/-- A property that every permitted call preserves, carried from the state a
step met. -/
theorem forward {newer older : List m.Entry} {e : m.Entry}
    (hrun : m.Run permits (newer ++ e :: older) s) (I : σ → Prop) (start : I e.pre)
    (step : ∀ h s c, permits h c → I s → I (m.step c s).2) :
    I e.post ∧ I s ∧ ∀ n ∈ newer, I n.pre := by
  have hpost : I e.post := step _ _ _ hrun.split.2 start
  exact ⟨hpost, hrun.since I hpost (fun h s c _ hc hi => step h s c hc hi)⟩

end Run

/-- Every step of a history meets a condition on what was before it. -/
def Each (cond : List m.Entry → m.Entry → Prop) : List m.Entry → Prop
  | [] => True
  | e :: older => cond older e ∧ Each cond older

instance Each.decidable {cond : List m.Entry → m.Entry → Prop} [∀ h e, Decidable (cond h e)] :
    (h : List m.Entry) → Decidable (Each cond h)
  | [] => isTrue trivial
  | e :: older =>
    have : Decidable (Each cond older) := Each.decidable older
    inferInstanceAs (Decidable (cond older e ∧ Each cond older))

theorem Each.split {cond : List m.Entry → m.Entry → Prop} {newer older : List m.Entry}
    {e : m.Entry} (h : Each cond (newer ++ e :: older)) : cond older e ∧ Each cond older := by
  induction newer with
  | nil => exact h
  | cons n newer ih => exact ih h.2

/-- Two cuts of one history: they are the same, or one is before the other. -/
theorem two_splits {α : Type} {A B C D : List α} {u v : α} (h : A ++ u :: B = C ++ v :: D) :
    u = v ∨ (∃ X, C = A ++ u :: X ∧ B = X ++ v :: D) ∨ ∃ X, A = C ++ v :: X ∧ D = X ++ u :: B := by
  rcases List.append_eq_append_iff.mp h with ⟨X, hC, hX⟩ | ⟨X, hA, hX⟩
  · cases X with
    | nil =>
      cases hX
      exact .inl rfl
    | cons x X =>
      cases hX
      exact .inr (.inl ⟨X, hC, rfl⟩)
  · cases X with
    | nil =>
      cases hX
      exact .inl rfl
    | cons x X =>
      cases hX
      exact .inr (.inr ⟨X, hA, rfl⟩)

/-! ### Executing a list of calls -/

/-- The state after these calls, the first one first. -/
def after (m : Machine σ) (s : σ) : List m.Call → σ
  | [] => s
  | c :: calls => m.after (m.step c s).2 calls

/-- The history that the calls leave behind an earlier one. -/
def history (m : Machine σ) (h : List m.Entry) (s : σ) : List m.Call → List m.Entry
  | [] => h
  | c :: calls => m.history (⟨s, c⟩ :: h) (m.step c s).2 calls

theorem after_cons (s : σ) (c : m.Call) (calls : List m.Call) :
    m.after s (c :: calls) = m.after (m.step c s).2 calls := rfl

theorem history_cons (h : List m.Entry) (s : σ) (c : m.Call) (calls : List m.Call) :
    m.history h s (c :: calls) = m.history (⟨s, c⟩ :: h) (m.step c s).2 calls := rfl

theorem after_append (s : σ) (calls more : List m.Call) :
    m.after s (calls ++ more) = m.after (m.after s calls) more := by
  induction calls generalizing s with
  | nil => rfl
  | cons c calls ih => exact ih _

theorem after_concat (s : σ) (calls : List m.Call) (c : m.Call) :
    m.after s (calls ++ [c]) = (m.step c (m.after s calls)).2 := by
  rw [after_append]
  rfl

theorem history_append (h : List m.Entry) (s : σ) (calls more : List m.Call) :
    m.history h s (calls ++ more) = m.history (m.history h s calls) (m.after s calls) more := by
  induction calls generalizing h s with
  | nil => rfl
  | cons c calls ih => exact ih _ _

theorem history_concat (h : List m.Entry) (s : σ) (calls : List m.Call) (c : m.Call) :
    m.history h s (calls ++ [c]) = ⟨m.after s calls, c⟩ :: m.history h s calls := by
  rw [history_append]
  rfl

theorem Run.history {permits : List m.Entry → m.Call → Prop} {h : List m.Entry} {s : σ}
    {calls : List m.Call} (hrun : m.Run permits h s) (allowed : ∀ c ∈ calls, ∀ h, permits h c) :
    m.Run permits (m.history h s calls) (m.after s calls) := by
  induction calls generalizing h s with
  | nil => exact hrun
  | cons c calls ih =>
    exact ih (hrun.step (allowed c (by simp) h)) (fun d hd => allowed d (List.mem_cons_of_mem c hd))

theorem mem_history {h : List m.Entry} {s : σ} {calls : List m.Call} {e : m.Entry}
    (he : e ∈ m.history h s calls) : e ∈ h ∨ e.call ∈ calls := by
  induction calls generalizing h s with
  | nil => exact Or.inl he
  | cons c calls ih =>
    rcases ih he with he | he
    · rcases List.mem_cons.mp he with rfl | he
      · exact Or.inr (List.mem_cons_self ..)
      · exact Or.inl he
    · exact Or.inr (List.mem_cons_of_mem c he)

/-- Calls that are permitted one after the other. -/
theorem Run.history_of {permits : List m.Entry → m.Call → Prop} {h : List m.Entry} {s : σ}
    {calls : List m.Call} (hrun : m.Run permits h s)
    (allowed : ∀ before c later, calls = before ++ c :: later →
      permits (m.history h s before) c) :
    m.Run permits (m.history h s calls) (m.after s calls) := by
  induction calls generalizing h s with
  | nil => exact hrun
  | cons c calls ih =>
    refine ih (hrun.step (allowed [] c calls rfl)) (fun before d later hd => ?_)
    exact allowed (c :: before) d later (by rw [hd]; rfl)

end Machine

end Solvio.Lib
