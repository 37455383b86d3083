import Solvio.Lib.Runs

namespace Solvio.Lib

/-- What concurrent programs share. `Input` is what a step takes from outside:
a clock, a random token, the answer of foreign code. -/
structure Shared (σ : Type) where
  Op : Type
  Input : Type
  Reply : Op → Type
  step : (op : Op) → Input → σ → Reply op × σ
  init : σ

/-- A coroutine. Between two requests nothing of it can be observed, and `fail`
is an exception that nothing catches. -/
inductive Prog (Op : Type) (Reply : Op → Type) (α : Type) where
  | ret (a : α)
  | fail
  | ask (op : Op) (k : Reply op → Prog Op Reply α)

namespace Prog

variable {Op : Type} {Reply : Op → Type} {α β : Type}

def bind : Prog Op Reply α → (α → Prog Op Reply β) → Prog Op Reply β
  | ret a, f => f a
  | fail, _ => fail
  | ask op k, f => ask op (fun r => (k r).bind f)

instance : Monad (Prog Op Reply) where
  pure := ret
  bind := bind

def request (op : Op) : Prog Op Reply (Reply op) := ask op ret

@[simp] theorem pure_eq (a : α) : (pure a : Prog Op Reply α) = ret a := rfl

@[simp] theorem bind_ret (a : α) (f : α → Prog Op Reply β) : (ret a >>= f) = f a := rfl

@[simp] theorem bind_fail (f : α → Prog Op Reply β) : ((fail : Prog Op Reply α) >>= f) = fail := rfl

@[simp] theorem bind_ask (op : Op) (k : Reply op → Prog Op Reply α) (f : α → Prog Op Reply β) :
    (ask op k >>= f) = ask op (fun r => k r >>= f) := rfl

@[simp] theorem bind_request (op : Op) (f : Reply op → Prog Op Reply β) :
    (request op >>= f) = ask op f := rfl

/-- `try`, of which `none` is that something was raised. -/
def attempt : Prog Op Reply α → Prog Op Reply (Option α)
  | ret a => ret (some a)
  | fail => ret none
  | ask op k => ask op (fun r => (k r).attempt)

@[simp] theorem attempt_ret (a : α) : (ret a : Prog Op Reply α).attempt = ret (some a) := rfl

@[simp] theorem attempt_fail : (fail : Prog Op Reply α).attempt = ret none := rfl

/-- Every request that the program can make. -/
def Asks (P : Op → Prop) : Prog Op Reply α → Prop
  | ret _ => True
  | fail => True
  | ask op k => P op ∧ ∀ r, (k r).Asks P

namespace Asks

variable {P R : Op → Prop}

theorem mono {p : Prog Op Reply α} (h : p.Asks P) (hPR : ∀ op, P op → R op) : p.Asks R := by
  induction p with
  | ret a => trivial
  | fail => trivial
  | ask op k ih => exact ⟨hPR op h.1, fun r => ih r (h.2 r)⟩

theorem bind {p : Prog Op Reply α} {f : α → Prog Op Reply β} (h : p.Asks P)
    (hf : ∀ a, (f a).Asks P) : (p >>= f).Asks P := by
  induction p with
  | ret a => exact hf a
  | fail => trivial
  | ask op k ih => exact ⟨h.1, fun r => ih r (h.2 r)⟩

theorem attempt {p : Prog Op Reply α} (h : p.Asks P) : p.attempt.Asks P := by
  induction p with
  | ret a => trivial
  | fail => trivial
  | ask op k ih => exact ⟨h.1, fun r => ih r (h.2 r)⟩

theorem request {op : Op} (h : P op) : (request op : Prog Op Reply (Reply op)).Asks P :=
  ⟨h, fun _ => trivial⟩

theorem foldlM {γ : Type} {f : β → γ → Prog Op Reply β} {xs : List γ} {b : β}
    (hf : ∀ b x, (f b x).Asks P) : (xs.foldlM f b).Asks P := by
  induction xs generalizing b with
  | nil => trivial
  | cons x xs ih =>
    rw [List.foldlM_cons]
    exact (hf b x).bind (fun b => ih)

end Asks

end Prog

namespace Shared

variable {σ : Type} {w : Shared σ}

/-- A request of one task, with what the step took from outside. -/
structure Act (w : Shared σ) where
  task : Nat
  op : w.Op
  input : w.Input

abbrev machine (w : Shared σ) : Machine σ where
  Call := w.Act
  Reply a := w.Reply a.op
  step a s := w.step a.op a.input s
  init := w.init

abbrev Event (w : Shared σ) : Type := w.machine.Entry

/-- What a task may ask after a log. -/
abbrev Discipline (w : Shared σ) : Type := List w.Event → w.Act → Prop

/-! ### Worlds -/

/-- A shared state, its log and the tasks that are alive. -/
structure World (w : Shared σ) where
  state : σ
  log : List w.Event
  tasks : Nat → Option (Prog w.Op w.Reply Unit)
  next : Nat

def World.start (w : Shared σ) : w.World := ⟨w.init, [], fun _ => none, 0⟩

/-- A scheduler's choice. A crash stops tasks at any point. -/
inductive Move (w : Shared σ) where
  | spawn (p : Prog w.Op w.Reply Unit)
  | act (task : Nat) (input : w.Input)
  | stop (task : Nat)

namespace World

def setTask (tasks : Nat → Option (Prog w.Op w.Reply Unit)) (task : Nat)
    (p : Option (Prog w.Op w.Reply Unit)) : Nat → Option (Prog w.Op w.Reply Unit) :=
  fun t => if t = task then p else tasks t

/-- The next request of a task is one atomic step. -/
def act (W : w.World) (task : Nat) (input : w.Input) : w.World :=
  match W.tasks task with
  | some (.ask op k) =>
    { W with
      state := (w.step op input W.state).2
      log := ⟨W.state, ⟨task, op, input⟩⟩ :: W.log
      tasks := setTask W.tasks task (some (k (w.step op input W.state).1)) }
  | _ => W

def move (W : w.World) : w.Move → w.World
  | .spawn p => { W with tasks := setTask W.tasks W.next (some p), next := W.next + 1 }
  | .act task input => W.act task input
  | .stop task => { W with tasks := setTask W.tasks task none }

/-- The worlds that tasks of the launched programs lead to, in any order. -/
inductive Reach (launch : Prog w.Op w.Reply Unit → Prop) : w.World → Prop
  | start : Reach launch (.start w)
  | move {W : w.World} {m : w.Move} : Reach launch W →
    (∀ p, m = .spawn p → launch p) → Reach launch (W.move m)

/-- The worlds that moves of a kind lead to. -/
inductive ReachIf (launch : Prog w.Op w.Reply Unit → Prop) (ok : w.World → w.Move → Prop) :
    w.World → Prop
  | start : ReachIf launch ok (.start w)
  | move {W : w.World} {m : w.Move} : ReachIf launch ok W → (∀ p, m = .spawn p → launch p) →
    ok W m → ReachIf launch ok (W.move m)

theorem ReachIf.reach {launch : Prog w.Op w.Reply Unit → Prop} {ok : w.World → w.Move → Prop}
    {W : w.World} (h : ReachIf launch ok W) : Reach launch W := by
  induction h with
  | start => exact .start
  | move _ allowed _ ih => exact ih.move allowed

theorem act_ask {W : w.World} {t : Nat} {op : w.Op} {k : w.Reply op → Prog w.Op w.Reply Unit}
    (h : W.tasks t = some (.ask op k)) (input : w.Input) : W.move (.act t input) =
      { W with
        state := (w.step op input W.state).2
        log := ⟨W.state, ⟨t, op, input⟩⟩ :: W.log
        tasks := setTask W.tasks t (some (k (w.step op input W.state).1)) } := by
  simp [World.move, World.act, h]

theorem act_other {W : w.World} {t : Nat} (h : ∀ op k, W.tasks t ≠ some (.ask op k))
    (input : w.Input) : W.move (.act t input) = W := by
  simp only [World.move, World.act]

def moves (W : w.World) (ms : List w.Move) : w.World := ms.foldl move W

theorem Reach.moves {launch : Prog w.Op w.Reply Unit → Prop} {W : w.World} {ms : List w.Move}
    (h : Reach launch W) (allowed : ∀ p, Move.spawn p ∈ ms → launch p) :
    Reach launch (W.moves ms) := by
  induction ms generalizing W with
  | nil => exact h
  | cons m ms ih =>
    refine ih (h.move (fun p hp => allowed p (by simp [hp]))) (fun p hp => ?_)
    exact allowed p (List.mem_cons_of_mem m hp)

/-- The programs are spawned, and then their tasks act in this order. -/
def play (w : Shared σ) (ps : List (Prog w.Op w.Reply Unit)) (acts : List (Nat × w.Input)) :
    w.World :=
  (World.start w).moves (ps.map .spawn ++ acts.map (fun a => .act a.1 a.2))

theorem Reach.play {launch : Prog w.Op w.Reply Unit → Prop}
    {ps : List (Prog w.Op w.Reply Unit)} (h : ∀ p ∈ ps, launch p) (acts : List (Nat × w.Input)) :
    Reach launch (play w ps acts) := by
  refine Reach.moves .start (fun p hp => ?_)
  rcases List.mem_append.mp hp with hp | hp
  · obtain ⟨q, hq, heq⟩ := List.mem_map.mp hp
    cases heq
    exact h _ hq
  · obtain ⟨a, -, ha⟩ := List.mem_map.mp hp
    cases ha

end World

/-! ### Programs that keep a discipline -/

/-- Only other tasks have acted since. -/
def Later (task : Nat) (L L' : List w.Event) : Prop :=
  ∃ M, L' = M ++ L ∧ ∀ e ∈ M, e.call.task ≠ task

theorem Later.refl (task : Nat) (L : List w.Event) : Later task L L := ⟨[], rfl, by simp⟩

theorem Later.trans {task : Nat} {L L' L'' : List w.Event} (h : Later task L L')
    (g : Later task L' L'') : Later task L L'' := by
  obtain ⟨M, rfl, hM⟩ := h
  obtain ⟨N, rfl, hN⟩ := g
  refine ⟨N ++ M, by simp, fun e he => ?_⟩
  rcases List.mem_append.mp he with he | he
  · exact hN e he
  · exact hM e he

theorem Later.mem {task : Nat} {L L' : List w.Event} (h : Later task L L') {e : w.Event}
    (he : e ∈ L) : e ∈ L' := by
  obtain ⟨M, rfl, -⟩ := h
  exact List.mem_append_right M he

/-- A task's own events are the ones it had. -/
theorem Later.own {task : Nat} {L L' : List w.Event} (h : Later task L L') {e : w.Event}
    (he : e ∈ L') (ht : e.call.task = task) : e ∈ L := by
  obtain ⟨M, rfl, hM⟩ := h
  rcases List.mem_append.mp he with he | he
  · exact absurd ht (hM e he)
  · exact he

/-- Whatever the others do in between, every request of the program keeps the
discipline, and `Q` holds where it returns. -/
def Safe (permits : w.Discipline) (task : Nat) {α : Type} :
    Prog w.Op w.Reply α → List w.Event → (List w.Event → α → Prop) → Prop
  | .ret a, L, Q => Q L a
  | .fail, _, _ => True
  | .ask op k, L, Q => ∀ L' s, w.machine.Run permits L' s → Later task L L' → ∀ input,
    permits L' ⟨task, op, input⟩ ∧
      Safe permits task (k (w.step op input s).1) (⟨s, ⟨task, op, input⟩⟩ :: L') Q

namespace Safe

variable {permits : w.Discipline} {task : Nat} {α β : Type} {L : List w.Event}
  {Q R : List w.Event → α → Prop}

theorem conseq {p : Prog w.Op w.Reply α} (h : Safe permits task p L Q)
    (hQ : ∀ L a, Q L a → R L a) : Safe permits task p L R := by
  induction p generalizing L with
  | ret a => exact hQ L a h
  | fail => exact h
  | ask op k ih =>
    intro L' s hrun hlater input
    exact ⟨(h L' s hrun hlater input).1, ih _ (h L' s hrun hlater input).2⟩

theorem bind {p : Prog w.Op w.Reply α} {f : α → Prog w.Op w.Reply β}
    {S : List w.Event → β → Prop} (h : Safe permits task p L Q)
    (hf : ∀ L a, Q L a → Safe permits task (f a) L S) : Safe permits task (p >>= f) L S := by
  induction p generalizing L with
  | ret a => exact hf L a h
  | fail => exact h
  | ask op k ih =>
    intro L' s hrun hlater input
    exact ⟨(h L' s hrun hlater input).1, ih _ (h L' s hrun hlater input).2⟩

/-- What the others do does not take safety away. -/
theorem later {p : Prog w.Op w.Reply α} {L' : List w.Event}
    (h : Safe permits task p L (fun _ _ => True)) (hl : Later task L L') :
    Safe permits task p L' (fun _ _ => True) := by
  cases p with
  | ret a => trivial
  | fail => trivial
  | ask op k =>
    intro L'' s hrun hlater input
    exact h L'' s hrun (hl.trans hlater) input

/-- A property of a task's logs that neither the others take away, nor own
requests with `P`. -/
structure Kept (task : Nat) (P : w.Op → Prop) (I : List w.Event → Prop) : Prop where
  later : ∀ L L', I L → Later task L L' → I L'
  own : ∀ L s op input, I L → P op → I (⟨s, ⟨task, op, input⟩⟩ :: L)

/-- A property of logs that nothing takes away. -/
def Lasting (I : List w.Event → Prop) : Prop := ∀ L M, I L → I (M ++ L)

theorem Lasting.kept {I : List w.Event → Prop} (h : Lasting I) (task : Nat) (P : w.Op → Prop) :
    Kept task P I where
  later L L' hI hl := by
    obtain ⟨M, rfl, -⟩ := hl
    exact h L M hI
  own L s op input hI _ := h L [_] hI

/-- A program is safe that asks only what is permitted as long as `I` holds. -/
theorem of_asks_while {I : List w.Event → Prop} {P : w.Op → Prop} (kept : Kept task P I)
    {p : Prog w.Op w.Reply α} (h : p.Asks P) (hI : I L)
    (hP : ∀ L op input, I L → P op → permits L ⟨task, op, input⟩) :
    Safe permits task p L (fun L _ => I L) := by
  induction p generalizing L with
  | ret a => exact hI
  | fail => trivial
  | ask op k ih =>
    intro L' s hrun hlater input
    have hI' := kept.later L L' hI hlater
    exact ⟨hP L' op input hI' h.1, ih _ (h.2 _) (kept.own L' s op input hI' h.1)⟩

theorem of_asks_since {I : List w.Event → Prop} (lasting : Lasting I) {P : w.Op → Prop}
    {p : Prog w.Op w.Reply α} (h : p.Asks P) (hI : I L)
    (hP : ∀ L a, a.task = task → I L → P a.op → permits L a) :
    Safe permits task p L (fun L _ => I L) :=
  of_asks_while (lasting.kept task P) h hI (fun L _ _ hI hop => hP L _ rfl hI hop)

theorem of_asks {P : w.Op → Prop} {p : Prog w.Op w.Reply α} (h : p.Asks P)
    (hP : ∀ L a, P a.op → permits L a) : Safe permits task p L (fun _ _ => True) :=
  of_asks_since (fun _ _ _ => trivial) h trivial (fun L a _ _ hop => hP L a hop)

theorem and {R : List w.Event → α → Prop} {p : Prog w.Op w.Reply α}
    (h : Safe permits task p L Q) (g : Safe permits task p L R) :
    Safe permits task p L (fun L a => Q L a ∧ R L a) := by
  induction p generalizing L with
  | ret a => exact ⟨h, g⟩
  | fail => trivial
  | ask op k ih =>
    intro L' s hrun hlater input
    exact ⟨(h L' s hrun hlater input).1,
      ih _ (h L' s hrun hlater input).2 (g L' s hrun hlater input).2⟩

/-- A safe program keeps what its requests do not take away. -/
theorem keeps {I : List w.Event → Prop} {P : w.Op → Prop} (kept : Kept task P I)
    {p : Prog w.Op w.Reply α} (h : Safe permits task p L Q) (hasks : p.Asks P) (hI : I L) :
    Safe permits task p L (fun L a => Q L a ∧ I L) := by
  induction p generalizing L with
  | ret a => exact ⟨h, hI⟩
  | fail => trivial
  | ask op k ih =>
    intro L' s hrun hlater input
    have hI' := kept.later L L' hI hlater
    exact ⟨(h L' s hrun hlater input).1,
      ih _ (h L' s hrun hlater input).2 (hasks.2 _) (kept.own L' s op input hI' hasks.1)⟩

/-- A loop, with what is so before each of its rounds. -/
theorem foldlM {γ : Type} {f : β → γ → Prog w.Op w.Reply β} {I : List γ → List w.Event → Prop}
    (round : ∀ b x xs L, I (x :: xs) L → Safe permits task (f b x) L (fun L _ => I xs L))
    {xs : List γ} {b : β} (hI : I xs L) :
    Safe permits task (xs.foldlM f b) L (fun L _ => I [] L) := by
  induction xs generalizing b L with
  | nil => exact hI
  | cons x xs ih =>
    rw [List.foldlM_cons]
    exact (round b x xs L hI).bind (fun L b hI => ih hI)

/-- What is caught has not returned. -/
theorem attempt_some {p : Prog w.Op w.Reply α} (h : Safe permits task p L Q) :
    Safe permits task p.attempt L (fun L o => ∀ a, o = some a → Q L a) := by
  induction p generalizing L with
  | ret a =>
    intro b hb
    cases hb
    exact h
  | fail =>
    intro b hb
    cases hb
  | ask op k ih =>
    intro L' s hrun hlater input
    exact ⟨(h L' s hrun hlater input).1, ih _ (h L' s hrun hlater input).2⟩

/-- What is raised and caught leaves what lasts. -/
theorem attempt {I : List w.Event → Prop} (lasting : Lasting I) {p : Prog w.Op w.Reply α}
    (h : Safe permits task p L (fun L _ => I L)) (hI : I L) :
    Safe permits task p.attempt L (fun L _ => I L) := by
  induction p generalizing L with
  | ret a => exact h
  | fail => exact hI
  | ask op k ih =>
    intro L' s hrun hlater input
    obtain ⟨hpermit, hnext⟩ := h L' s hrun hlater input
    obtain ⟨M, rfl, -⟩ := hlater
    exact ⟨hpermit, ih _ hnext (lasting _ (_ :: M) hI)⟩

end Safe

/-! ### What a task has done since one of its steps -/

/-- A step of the task with `p`, after which it has asked only what has `P`. -/
def Since (task : Nat) (P : w.Op → Prop) (p : List w.Event → w.Event → Prop)
    (L : List w.Event) : Prop :=
  ∃ newer v older, L = newer ++ v :: older ∧ v.call.task = task ∧ p older v ∧
    ∀ n ∈ newer, n.call.task = task → P n.call.op

theorem since_cons {task : Nat} {P : w.Op → Prop} {p : List w.Event → w.Event → Prop}
    {e : w.Event} {L : List w.Event} : Since task P p (e :: L) ↔
      (e.call.task = task ∧ p L e) ∨ ((e.call.task = task → P e.call.op) ∧ Since task P p L) := by
  constructor
  · rintro ⟨newer, v, older, hsplit, ht, hp, hall⟩
    cases newer with
    | nil =>
      cases hsplit
      exact .inl ⟨ht, hp⟩
    | cons n newer =>
      cases hsplit
      exact .inr ⟨hall _ (List.mem_cons_self ..), newer, v, older, rfl, ht, hp,
        fun n hn => hall n (List.mem_cons_of_mem _ hn)⟩
  · rintro (⟨ht, hp⟩ | ⟨he, newer, v, older, rfl, ht, hp, hall⟩)
    · exact ⟨[], e, L, rfl, ht, hp, fun n hn => by cases hn⟩
    · refine ⟨e :: newer, v, older, rfl, ht, hp, fun n hn hnt => ?_⟩
      rcases List.mem_cons.mp hn with rfl | hn
      · exact he hnt
      · exact hall n hn hnt

instance Since.decidable {task : Nat} {P : w.Op → Prop} {p : List w.Event → w.Event → Prop}
    [DecidablePred P] [∀ L e, Decidable (p L e)] :
    (L : List w.Event) → Decidable (Since task P p L)
  | [] => isFalse (fun ⟨_, _, _, h, _⟩ => by simp at h)
  | _ :: L =>
    have : Decidable (Since task P p L) := Since.decidable L
    decidable_of_iff _ since_cons.symm

namespace Since

variable {task : Nat} {P : w.Op → Prop} {p q : List w.Event → w.Event → Prop} {L : List w.Event}

theorem now {v : w.Event} (ht : v.call.task = task) (hp : p L v) : Since task P p (v :: L) :=
  ⟨[], v, L, rfl, ht, hp, fun n hn => by cases hn⟩

theorem kept (task : Nat) (P : w.Op → Prop) (p : List w.Event → w.Event → Prop) :
    Safe.Kept task P (Since (w := w) task P p) where
  later L L' h hl := by
    obtain ⟨newer, v, older, rfl, ht, hp, hall⟩ := h
    obtain ⟨M, rfl, hM⟩ := hl
    refine ⟨M ++ newer, v, older, by simp, ht, hp, fun n hn hnt => ?_⟩
    rcases List.mem_append.mp hn with hn | hn
    · exact absurd hnt (hM n hn)
    · exact hall n hn hnt
  own L s op input h hop := Iff.mpr since_cons (.inr ⟨fun _ => hop, h⟩)

end Since

/-- The tasks of a log ran one after the other. -/
def InTurn (L : List w.Event) : Prop :=
  L.Pairwise (fun newer older => older.call.task ≤ newer.call.task)

/-- If tasks run one after the other, nobody else was there since a step. -/
theorem Since.alone {task : Nat} {P : w.Op → Prop} {p : List w.Event → w.Event → Prop}
    {e : w.Event} {L : List w.Event} (h : Since task P p L) (ht : e.call.task = task)
    (hturn : InTurn (e :: L)) :
    ∃ newer v older, L = newer ++ v :: older ∧ p older v ∧ ∀ n ∈ newer, P n.call.op := by
  obtain ⟨newer, v, older, rfl, hv, hp, hall⟩ := h
  refine ⟨newer, v, older, rfl, hp, fun n hn => hall n hn ?_⟩
  obtain ⟨hbelow, hrest⟩ := List.pairwise_cons.mp hturn
  have hupper : n.call.task ≤ task := ht ▸ hbelow n (List.mem_append_left _ hn)
  have hlower : v.call.task ≤ n.call.task :=
    (List.pairwise_append.mp hrest).2.2 n hn v (List.mem_cons_self ..)
  omega

/-- A task's own part of a log. -/
def own (task : Nat) (L : List w.Event) : List w.Event := L.filter (fun e => e.call.task = task)

theorem own_cons_self {task : Nat} {e : w.Event} (h : e.call.task = task) (L : List w.Event) :
    own task (e :: L) = e :: own task L := List.filter_cons_of_pos (by simpa using h)

theorem own_cons_other {task : Nat} {e : w.Event} (h : e.call.task ≠ task) (L : List w.Event) :
    own task (e :: L) = own task L := List.filter_cons_of_neg (by simpa using h)

/-- A cut of a task's part of a log is a cut of the log. -/
theorem own_split {task : Nat} {L new rest : List w.Event} {e : w.Event}
    (h : own task L = new ++ e :: rest) : ∃ newer older, L = newer ++ e :: older ∧
      e.call.task = task ∧ own task older = rest := by
  obtain ⟨L₁, L₂, rfl, -, h₂⟩ := List.filter_eq_append_iff.mp h
  obtain ⟨L₃, L₄, rfl, -, he, hrest⟩ := List.filter_eq_cons_iff.mp h₂
  exact ⟨L₁ ++ L₃, L₄, by simp, by simpa using he, hrest⟩

theorem own_append (task : Nat) (newer older : List w.Event) :
    own task (newer ++ older) = own task newer ++ own task older := List.filter_append ..

theorem Later.own_eq {task : Nat} {L L' : List w.Event} (h : Later task L L') :
    Shared.own task L' = Shared.own task L := by
  obtain ⟨M, rfl, hM⟩ := h
  unfold Shared.own
  rw [List.filter_append, List.filter_eq_nil_iff.mpr (by simpa using hM), List.nil_append]

/-- Whatever the others do in between, `R` holds of the program's own part of
the log where it returns, and `X` where it raises. `A` is what a task may
assume of the state that it meets with its part of the log. -/
def Ends (A : List w.Event → σ → Prop) (task : Nat) {α : Type} :
    Prog w.Op w.Reply α → List w.Event → (α → List w.Event → Prop) → (List w.Event → Prop) → Prop
  | .ret a, mine, R, _ => R a mine
  | .fail, mine, _, X => X mine
  | .ask op k, mine, R, X => ∀ s input, A mine s →
    Ends A task (k (w.step op input s).1) (⟨s, ⟨task, op, input⟩⟩ :: mine) R X

theorem Ends.conseq {A : List w.Event → σ → Prop} {task : Nat} {α : Type}
    {p : Prog w.Op w.Reply α} {mine : List w.Event} {R S : α → List w.Event → Prop}
    {X : List w.Event → Prop} (h : Ends A task p mine R X)
    (hR : ∀ a mine', R a mine' → S a mine') : Ends A task p mine S X := by
  induction p generalizing mine with
  | ret a => exact hR a mine h
  | fail => exact h
  | ask op k ih =>
    intro s input ha
    exact ih _ (h s input ha)

theorem Ends.raises {A : List w.Event → σ → Prop} {task : Nat} {α : Type}
    {p : Prog w.Op w.Reply α} {mine : List w.Event} {R : α → List w.Event → Prop}
    {X Y : List w.Event → Prop} (h : Ends A task p mine R X) (hX : ∀ mine', X mine' → Y mine') :
    Ends A task p mine R Y := by
  induction p generalizing mine with
  | ret a => exact h
  | fail => exact hX mine h
  | ask op k ih =>
    intro s input ha
    exact ih _ (h s input ha)

theorem Ends.bind {A : List w.Event → σ → Prop} {task : Nat} {α β : Type}
    {p : Prog w.Op w.Reply α} {f : α → Prog w.Op w.Reply β} {mine : List w.Event}
    {R : α → List w.Event → Prop} {S : β → List w.Event → Prop} {X : List w.Event → Prop}
    (h : Ends A task p mine R X) (hf : ∀ a mine', R a mine' → Ends A task (f a) mine' S X) :
    Ends A task (p >>= f) mine S X := by
  induction p generalizing mine with
  | ret a => exact hf a mine h
  | fail => exact h
  | ask op k ih =>
    intro s input ha
    exact ih _ (h s input ha)

/-- What no request of the program takes away holds where it ends. -/
theorem Ends.of_asks {A : List w.Event → σ → Prop} {task : Nat} {α : Type} {P : w.Op → Prop}
    {I : List w.Event → Prop} (step : ∀ mine s op input, I mine → P op →
      I (⟨s, ⟨task, op, input⟩⟩ :: mine))
    {p : Prog w.Op w.Reply α} (h : p.Asks P) {mine : List w.Event} (hI : I mine) :
    Ends A task p mine (fun _ => I) I := by
  induction p generalizing mine with
  | ret a => exact hI
  | fail => exact hI
  | ask op k ih =>
    intro s input _
    exact ih _ (h.2 _) (step mine s op input hI h.1)

/-- A loop, with what is so before each of its rounds. -/
theorem Ends.foldlM {A : List w.Event → σ → Prop} {task : Nat} {β γ : Type}
    {f : β → γ → Prog w.Op w.Reply β} {I : List γ → List w.Event → Prop}
    {X : List w.Event → Prop}
    (round : ∀ b x xs mine, I (x :: xs) mine → Ends A task (f b x) mine (fun _ => I xs) X)
    {xs : List γ} {b : β} {mine : List w.Event} (hI : I xs mine) :
    Ends A task (xs.foldlM f b) mine (fun _ => I []) X := by
  induction xs generalizing b mine with
  | nil => exact hI
  | cons x xs ih =>
    rw [List.foldlM_cons]
    exact (round b x xs mine hI).bind (fun b mine hI => ih hI)

/-- What every world keeps whose programs end in `R` or `X`. -/
structure World.Ending (A : List w.Event → σ → Prop) (R X : Nat → List w.Event → Prop)
    (W : w.World) : Prop where
  ends : ∀ task p, W.tasks task = some p → Ends A task p (own task W.log) (fun _ => R task) (X task)
  started : ∀ task p, W.tasks task = some p → task < W.next
  logged : ∀ e ∈ W.log, e.call.task < W.next

/-- In every world the tasks end as their programs say. -/
theorem World.Reach.ending {launch : Prog w.Op w.Reply Unit → Prop} {W : w.World}
    {A : List w.Event → σ → Prop} {R X : Nat → List w.Event → Prop} (h : World.Reach launch W)
    (assume : ∀ W, World.Reach launch W → ∀ task, A (own task W.log) W.state)
    (ends : ∀ p, launch p → ∀ task, Ends A task p [] (fun _ => R task) (X task)) :
    W.Ending A R X := by
  induction h with
  | start =>
    refine ⟨fun task p hp => ?_, fun task p hp => ?_, fun e he => ?_⟩
    · cases hp
    · cases hp
    · cases he
  | @move W m hreach allowed ih =>
    cases m with
    | spawn p =>
      refine ⟨fun task q hq => ?_, fun task q hq => ?_,
        fun e he => Nat.lt_succ_of_lt (ih.logged e he)⟩
      · simp only [World.move, World.setTask] at hq ⊢
        split at hq
        · rename_i ht
          cases hq
          have hnone : own task W.log = [] := List.filter_eq_nil_iff.mpr (fun e he => by
            simpa using Nat.ne_of_lt (ht ▸ ih.logged e he))
          rw [hnone]
          exact ends p (allowed p rfl) task
        · exact ih.ends task q hq
      · simp only [World.move, World.setTask] at hq ⊢
        split at hq
        · omega
        · exact Nat.lt_succ_of_lt (ih.started task q hq)
    | stop t =>
      refine ⟨fun task q hq => ?_, fun task q hq => ?_, ih.logged⟩
      · simp only [World.move, World.setTask] at hq
        split at hq
        · cases hq
        · exact ih.ends task q hq
      · simp only [World.move, World.setTask] at hq
        split at hq
        · cases hq
        · exact ih.started task q hq
    | act t input =>
      simp only [World.move, World.act]
      split
      · rename_i op k hk
        refine ⟨fun task q hq => ?_, fun task q hq => ?_, fun e he => ?_⟩
        · simp only [World.setTask] at hq
          split at hq
          · rename_i ht
            subst ht
            cases hq
            have hown : own task (⟨W.state, ⟨task, op, input⟩⟩ :: W.log) =
                ⟨W.state, ⟨task, op, input⟩⟩ :: own task W.log := own_cons_self rfl W.log
            exact hown ▸ ih.ends task _ hk W.state input (assume W hreach task)
          · rename_i ht
            have hown : own task (⟨W.state, ⟨t, op, input⟩⟩ :: W.log) = own task W.log :=
              own_cons_other (fun hc => ht hc.symm) W.log
            exact hown ▸ ih.ends task q hq
        · simp only [World.setTask] at hq
          split at hq
          · rename_i ht
            exact ht ▸ ih.started t _ hk
          · exact ih.started task q hq
        · rcases List.mem_cons.mp he with rfl | he
          · exact ih.started t _ hk
          · exact ih.logged e he
      · exact ih

/-- A program that can be launched at any time. -/
def Launchable (permits : w.Discipline) (p : Prog w.Op w.Reply Unit) : Prop :=
  ∀ task, Safe permits task p [] (fun _ _ => True)

/-- What every world of launchable programs keeps. -/
structure World.Disciplined (permits : w.Discipline) (W : w.World) : Prop where
  run : w.machine.Run permits W.log W.state
  safe : ∀ task p, W.tasks task = some p → Safe permits task p W.log (fun _ _ => True)
  started : ∀ task p, W.tasks task = some p → task < W.next
  logged : ∀ e ∈ W.log, e.call.task < W.next

namespace World.Disciplined

variable {permits : w.Discipline} {W : w.World}

theorem start : (World.start w).Disciplined permits where
  run := .start
  safe task p hp := by cases hp
  started task p hp := by cases hp
  logged e he := by cases he

theorem spawn {p : Prog w.Op w.Reply Unit} (h : W.Disciplined permits)
    (hp : Launchable permits p) : (W.move (.spawn p)).Disciplined permits where
  run := h.run
  safe task q hq := by
    simp only [World.move, World.setTask] at hq
    split at hq
    · cases hq
      rename_i ht
      -- a new task has no event of its own
      refine (hp task).later ⟨W.log, by simp [World.move], fun e he => ?_⟩
      exact Nat.ne_of_lt (ht ▸ h.logged e he)
    · exact h.safe task q hq
  started task q hq := by
    simp only [World.move, World.setTask] at hq ⊢
    split at hq
    · omega
    · exact Nat.lt_succ_of_lt (h.started task q hq)
  logged e he := Nat.lt_succ_of_lt (h.logged e he)

theorem stop (h : W.Disciplined permits) (t : Nat) : (W.move (.stop t)).Disciplined permits where
  run := h.run
  safe task q hq := by
    simp only [World.move, World.setTask] at hq
    split at hq
    · cases hq
    · exact h.safe task q hq
  started task q hq := by
    simp only [World.move, World.setTask] at hq
    split at hq
    · cases hq
    · exact h.started task q hq
  logged := h.logged

theorem act (h : W.Disciplined permits) (t : Nat) (input : w.Input) :
    (W.act t input).Disciplined permits := by
  unfold World.act
  split
  · rename_i op k hk
    obtain ⟨hpermit, hnext⟩ := h.safe t _ hk W.log W.state h.run (.refl t W.log) input
    refine ⟨h.run.step hpermit, fun task q hq => ?_, fun task q hq => ?_, fun e he => ?_⟩
    · simp only [World.setTask] at hq
      split at hq
      · rename_i ht
        cases hq
        exact ht ▸ hnext
      · rename_i ht
        exact (h.safe task q hq).later ⟨[_], rfl, by simpa using fun hn => ht hn.symm⟩
    · simp only [World.setTask] at hq
      split at hq
      · rename_i ht
        exact ht ▸ h.started t _ hk
      · exact h.started task q hq
    · rcases List.mem_cons.mp he with rfl | he
      · exact h.started t _ hk
      · exact h.logged e he
  · exact h

end World.Disciplined

/-- The log of a world of launchable programs is a run that keeps the
discipline. -/
theorem World.Reach.disciplined {permits : w.Discipline}
    {launch : Prog w.Op w.Reply Unit → Prop} {W : w.World}
    (safe : ∀ p, launch p → Launchable permits p) (h : World.Reach launch W) :
    W.Disciplined permits := by
  induction h with
  | start => exact .start
  | @move W m _ allowed ih =>
    cases m with
    | spawn p => exact ih.spawn (safe p (allowed p rfl))
    | act task input => exact ih.act task input
    | stop task => exact ih.stop task

end Shared

end Solvio.Lib
