import Solvio.Lib.Runs

namespace Solvio.Lib

/-- What asynchronous programs are written over: what they can wait for, what
they raise, and what the outside brings into every stretch between two awaits,
such as the clock. -/
structure Async (σ : Type) where
  Query : Type
  Answer : Query → Type
  Exn : Type
  Input : Type
  enter : Input → σ → σ

/-- A coroutine over a shared state. It gives way at its awaits and nowhere else. -/
inductive Coro {σ : Type} (ℓ : Async σ) (α : Type) where
  | ret (a : α)
  | raise (e : ℓ.Exn)
  | get (k : σ → Coro ℓ α)
  | put (s : σ) (k : Coro ℓ α)
  | await (q : ℓ.Query) (k : ℓ.Answer q → Coro ℓ α)

namespace Coro

variable {σ : Type} {ℓ : Async σ} {α β : Type}

def bind : Coro ℓ α → (α → Coro ℓ β) → Coro ℓ β
  | ret a, f => f a
  | raise e, _ => raise e
  | get k, f => get (fun s => (k s).bind f)
  | put s k, f => put s (k.bind f)
  | await q k, f => await q (fun a => (k a).bind f)

instance : Monad (Coro ℓ) where
  pure := ret
  bind := bind

/-- `try` with a handler for every exception. -/
def handle : Coro ℓ α → (ℓ.Exn → Coro ℓ α) → Coro ℓ α
  | ret a, _ => ret a
  | raise e, h => h e
  | get k, h => get (fun s => (k s).handle h)
  | put s k, h => put s (k.handle h)
  | await q k, h => await q (fun a => (k a).handle h)

/-- The shared state. -/
def state : Coro ℓ σ := get ret

def modify (f : σ → σ) : Coro ℓ Unit := get (fun s => put (f s) (ret ()))

def query (q : ℓ.Query) : Coro ℓ (ℓ.Answer q) := await q ret

/-- Where a stretch of a coroutine ends. -/
inductive Halt (ℓ : Async σ) (α : Type) where
  | done (a : α)
  | raised (e : ℓ.Exn)
  | waits (q : ℓ.Query) (k : ℓ.Answer q → Coro ℓ α)

def run : Coro ℓ α → σ → Halt ℓ α × σ
  | ret a, s => (.done a, s)
  | raise e, s => (.raised e, s)
  | get k, s => (k s).run s
  | put s k, _ => k.run s
  | await q k, s => (.waits q k, s)

/-- What a stretch has left behind when the process ends after its `n + 1`-st
write, or before its first one if it makes fewer. -/
def cut (n : Nat) : Coro ℓ α → σ → σ
  | ret _, s | raise _, s | await _ _, s => s
  | get k, s => (k s).cut n s
  | put s' k, _ =>
    match n with
    | 0 => s'
    | n + 1 => k.cut n s'

/-- The coroutine runs to its end, and `R` is what the others do at its awaits. -/
inductive Ends (R : σ → σ → Prop) : Coro ℓ α → σ → Except ℓ.Exn α → σ → Prop where
  | ret {a s} : Ends R (ret a) s (.ok a) s
  | raise {e s} : Ends R (raise e) s (.error e) s
  | get {k s r s'} (h : Ends R (k s) s r s') : Ends R (get k) s r s'
  | put {t k s r s'} (h : Ends R k t r s') : Ends R (put t k) s r s'
  | await {q k s s₁ a i r s'} (hR : R s s₁) (h : Ends R (k a) (ℓ.enter i s₁) r s') :
      Ends R (await q k) s r s'

end Coro

/-! ### Contracts -/

/-- Under which conditions a coroutine runs beside others: what holds at every
await, what each of its writes does, what the others do at its awaits, what it
does itself between two awaits, and which answers it may count on. -/
structure Contract {σ : Type} (ℓ : Async σ) where
  inv : σ → Prop
  kept : σ → σ → Prop
  rely : σ → σ → Prop
  guar : σ → σ → Prop
  ok : (q : ℓ.Query) → ℓ.Answer q → σ → Prop

namespace Coro

variable {σ : Type} {ℓ : Async σ} {α β : Type} {c : Contract ℓ}

/-- The coroutine keeps the contract from a state on, in a stretch that began
in `s₀`, and ends in `Q` or raises in `X`. -/
def Sat (c : Contract ℓ) : Coro ℓ α → σ → σ → (α → σ → σ → Prop) → (ℓ.Exn → σ → σ → Prop) → Prop
  | ret a, s₀, s, Q, _ => Q a s₀ s
  | raise e, s₀, s, _, X => X e s₀ s
  | get k, s₀, s, Q, X => (k s).Sat c s₀ s Q X
  | put s' k, s₀, s, Q, X => c.kept s s' ∧ k.Sat c s₀ s' Q X
  | await q k, s₀, s, Q, X => c.inv s ∧ c.guar s₀ s ∧
    ∀ s₁, c.rely s s₁ → c.inv s₁ → ∀ a, c.ok q a s₁ → ∀ i, (k a).Sat c s₁ (ℓ.enter i s₁) Q X

section rules
variable {s₀ s : σ} {Q : α → σ → σ → Prop} {X : ℓ.Exn → σ → σ → Prop}

@[simp] theorem sat_pure (a : α) : Sat c (pure a) s₀ s Q X ↔ Q a s₀ s := Iff.rfl

@[simp] theorem sat_raise (e : ℓ.Exn) : Sat c (raise e : Coro ℓ α) s₀ s Q X ↔ X e s₀ s := Iff.rfl

@[simp] theorem sat_state {Q : σ → σ → σ → Prop} : Sat c state s₀ s Q X ↔ Q s s₀ s := Iff.rfl

@[simp] theorem sat_modify (f : σ → σ) {Q : Unit → σ → σ → Prop} :
    Sat c (modify f) s₀ s Q X ↔ c.kept s (f s) ∧ Q () s₀ (f s) := Iff.rfl

theorem sat_query (q : ℓ.Query) {Q : ℓ.Answer q → σ → σ → Prop} :
    Sat c (query q) s₀ s Q X ↔ c.inv s ∧ c.guar s₀ s ∧
      ∀ s₁, c.rely s s₁ → c.inv s₁ → ∀ a, c.ok q a s₁ → ∀ i, Q a s₁ (ℓ.enter i s₁) := Iff.rfl

@[simp] theorem sat_bind (p : Coro ℓ α) (f : α → Coro ℓ β) {Q : β → σ → σ → Prop} :
    Sat c (p >>= f) s₀ s Q X ↔ Sat c p s₀ s (fun a s₀ s => Sat c (f a) s₀ s Q X) X := by
  change Sat c (p.bind f) s₀ s Q X ↔ _
  induction p generalizing s₀ s with
  | ret a => rfl
  | raise e => rfl
  | get k ih => exact ih s
  | put s k ih => exact and_congr_right (fun _ => ih)
  | await q k ih =>
    refine and_congr_right (fun _ => and_congr_right (fun _ => ?_))
    exact forall_congr' fun s₁ => forall_congr' fun _ => forall_congr' fun _ =>
      forall_congr' fun a => forall_congr' fun _ => forall_congr' fun _ => ih a

@[simp] theorem sat_handle (p : Coro ℓ α) (h : ℓ.Exn → Coro ℓ α) :
    Sat c (p.handle h) s₀ s Q X ↔ Sat c p s₀ s Q (fun e s₀ s => Sat c (h e) s₀ s Q X) := by
  induction p generalizing s₀ s with
  | ret a => rfl
  | raise e => rfl
  | get k ih => exact ih s
  | put s k ih => exact and_congr_right (fun _ => ih)
  | await q k ih =>
    refine and_congr_right (fun _ => and_congr_right (fun _ => ?_))
    exact forall_congr' fun s₁ => forall_congr' fun _ => forall_congr' fun _ =>
      forall_congr' fun a => forall_congr' fun _ => forall_congr' fun _ => ih a

theorem Sat.mono {p : Coro ℓ α} {R : α → σ → σ → Prop} {Y : ℓ.Exn → σ → σ → Prop}
    (h : Sat c p s₀ s Q X) (hQ : ∀ a s₀ s, Q a s₀ s → R a s₀ s)
    (hX : ∀ e s₀ s, X e s₀ s → Y e s₀ s) : Sat c p s₀ s R Y := by
  induction p generalizing s₀ s with
  | ret a => exact hQ a s₀ s h
  | raise e => exact hX e s₀ s h
  | get k ih => exact ih s h
  | put s k ih => exact ⟨h.1, ih h.2⟩
  | await q k ih =>
    exact ⟨h.1, h.2.1, fun s₁ hr hi a ha i => ih a (h.2.2 s₁ hr hi a ha i)⟩

/-- What every write does, a whole stretch does. -/
theorem Sat.run_kept {p : Coro ℓ α} {T : σ → σ → Prop} (h : Sat c p s₀ s Q X) (refl : ∀ s, T s s)
    (trans : ∀ s s' s'', T s s' → T s' s'' → T s s'') (hT : ∀ s s', c.kept s s' → T s s') :
    T s (p.run s).2 := by
  induction p generalizing s with
  | ret a => exact refl s
  | raise e => exact refl s
  | get k ih => exact ih s h
  | put s' k ih => exact trans _ _ _ (hT _ _ h.1) (ih h.2)
  | await q k ih => exact refl s

/-- What every write preserves, a stretch that is cut off preserves. -/
theorem Sat.cut_kept {p : Coro ℓ α} {D : σ → Prop} {n : Nat} (h : Sat c p s₀ s Q X) (hs : D s)
    (hD : ∀ s s', D s → c.kept s s' → D s') : D (p.cut n s) := by
  induction p generalizing n s with
  | ret a => exact hs
  | raise e => exact hs
  | get k ih => exact ih s h hs
  | put s' k ih =>
    cases n with
    | zero => exact hD _ _ hs h.1
    | succ n => exact ih h.2 (hD _ _ hs h.1)
  | await q k ih => exact hs

end rules

/-- The contract of a coroutine of which only the end counts. -/
def endsIn (R : σ → σ → Prop) : Contract ℓ :=
  ⟨fun _ => True, fun _ _ => True, R, fun _ _ => True, fun _ _ _ => True⟩

theorem Sat.ends {R : σ → σ → Prop} {p : Coro ℓ α} {s₀ s s' : σ} {r : Except ℓ.Exn α}
    {Q : α → σ → σ → Prop} {X : ℓ.Exn → σ → σ → Prop} (h : Sat (endsIn R) p s₀ s Q X)
    (he : Ends R p s r s') :
    ∃ s₁, (∀ a, r = .ok a → Q a s₁ s') ∧ ∀ e, r = .error e → X e s₁ s' := by
  induction he generalizing s₀ with
  | ret => exact ⟨s₀, fun a ha => (by cases ha; exact h), fun e he => (by cases he)⟩
  | raise => exact ⟨s₀, fun a ha => (by cases ha), fun e he => (by cases he; exact h)⟩
  | get _ ih => exact ih h
  | put _ ih => exact ih h.2
  | await hR _ ih => exact ih (h.2.2 _ hR trivial _ trivial _)

/-- What a stretch of a coroutine that keeps its contract ends in. -/
def Halt.Sat (c : Contract ℓ) (s₀ s : σ) (Q : α → σ → σ → Prop) (X : ℓ.Exn → σ → σ → Prop) :
    Halt ℓ α → Prop
  | done a => Q a s₀ s
  | raised e => X e s₀ s
  | waits q k => Coro.Sat c (.await q k) s₀ s Q X

theorem run_sat {p : Coro ℓ α} {s₀ s : σ} {Q : α → σ → σ → Prop} {X : ℓ.Exn → σ → σ → Prop}
    (h : Sat c p s₀ s Q X) : (p.run s).1.Sat c s₀ (p.run s).2 Q X := by
  induction p generalizing s with
  | ret a => exact h
  | raise e => exact h
  | get k ih => exact ih s h
  | put s k ih => exact ih h.2
  | await q k ih => exact h

end Coro

/-! ### The loop -/

/-- A single-threaded event loop. Of its exclusive tasks one runs at a time;
`restart` is what a new process finds and does first. -/
structure Loop (σ : Type) extends Async σ where
  Task : Type
  exclusive : Task → Bool
  code : Task → Coro toAsync Unit
  restart : σ → σ
  init : σ

namespace Loop

variable {σ : Type} {ℓ : Loop σ}

/-- A task at an await. -/
structure Waiting (ℓ : Loop σ) where
  task : ℓ.Task
  query : ℓ.Query
  k : ℓ.Answer query → Coro ℓ.toAsync Unit

structure World (ℓ : Loop σ) where
  shared : σ
  waiting : List ℓ.Waiting

def World.busy (w : ℓ.World) : Bool := w.waiting.any (fun f => ℓ.exclusive f.task)

/-- A task starts, or one that waits gets its answer. -/
inductive Stretch (ℓ : Loop σ) where
  | start (t : ℓ.Task) (i : ℓ.Input)
  | resume (n : Nat) (answers : (q : ℓ.Query) → ℓ.Answer q) (i : ℓ.Input)

/-- What a stretch runs, and who waits besides. -/
structure Opening (ℓ : Loop σ) where
  task : ℓ.Task
  code : Coro ℓ.toAsync Unit
  input : ℓ.Input
  before : List ℓ.Waiting
  after : List ℓ.Waiting

def Stretch.opens (w : ℓ.World) : ℓ.Stretch → Option ℓ.Opening
  | start t i => if ℓ.exclusive t && w.busy then none else some ⟨t, ℓ.code t, i, w.waiting, []⟩
  | resume n answers i =>
    match w.waiting[n]? with
    | none => none
    | some f => some ⟨f.task, f.k (answers f.query), i, w.waiting.take n, w.waiting.drop (n + 1)⟩

def halted (t : ℓ.Task) : Coro.Halt ℓ.toAsync Unit → List ℓ.Waiting
  | .waits q k => [⟨t, q, k⟩]
  | _ => []

def Opening.runs (o : ℓ.Opening) (s : σ) : ℓ.World :=
  let r := o.code.run (ℓ.enter o.input s)
  ⟨r.2, o.before ++ halted o.task r.1 ++ o.after⟩

/-- What happens next: a stretch is run, or the process ends between two
stretches or in the middle of one, and a new one starts. -/
inductive Turn (ℓ : Loop σ) where
  | go (f : ℓ.Stretch)
  | restart (i : ℓ.Input)
  | crash (f : ℓ.Stretch) (n : Nat) (i : ℓ.Input)

/-- What the next process finds. -/
def Turn.met (w : ℓ.World) : ℓ.Turn → Option σ
  | go _ => none
  | restart _ => some w.shared
  | crash f n _ => (f.opens w).map (fun o => o.code.cut n (ℓ.enter o.input w.shared))

def step (turn : ℓ.Turn) (w : ℓ.World) : ℓ.World :=
  match turn with
  | .go f =>
    match f.opens w with
    | none => w
    | some o => o.runs w.shared
  | .restart i | .crash _ _ i =>
    match turn.met w with
    | none => w
    | some s => ⟨ℓ.restart (ℓ.enter i s), []⟩

abbrev machine (ℓ : Loop σ) : Machine ℓ.World where
  Call := ℓ.Turn
  Reply _ := Unit
  step t w := ((), step t w)
  init := ⟨ℓ.init, []⟩

abbrev Entry (ℓ : Loop σ) : Type := ℓ.machine.Entry

/-! ### What every run keeps -/

/-- The contract of the tasks beside the exclusive ones: `T` is what everyone
does, `G` what one of their stretches does and `H` what one of their writes does. -/
def bystander (ℓ : Loop σ) (T G H : σ → σ → Prop) : Contract ℓ.toAsync :=
  ⟨fun _ => True, H, T, G, fun _ _ _ => True⟩

/-- What the tasks of a loop do to the shared state. -/
structure Terms (ℓ : Loop σ) where
  main : Contract ℓ.toAsync
  /-- what an exclusive task finds and leaves -/
  rest : σ → Prop
  /-- what is left of everything when the process ends -/
  durable : σ → Prop
  common : σ → σ → Prop
  side : σ → σ → Prop
  sideWrite : σ → σ → Prop
  /-- what a new process can begin with -/
  restarts : σ → Prop

abbrev Terms.sides (c : ℓ.Terms) : Contract ℓ.toAsync := ℓ.bystander c.common c.side c.sideWrite

/-- The exclusive tasks keep their contract and leave `rest` behind, which
every other task preserves. -/
structure Proven (c : ℓ.Terms) : Prop where
  rest_inv : ∀ s, c.rest s → c.main.inv s
  rely_refl : ∀ s, c.main.rely s s
  rely_step : ∀ s s₁ s₂, c.main.rely s s₁ → c.side s₁ s₂ → c.main.rely s s₂
  inv_stable : ∀ s s', c.main.inv s → c.side s s' → c.main.inv s'
  rest_stable : ∀ s s', c.rest s → c.side s s' → c.rest s'
  common_refl : ∀ s, c.common s s
  common_trans : ∀ s s' s'', c.common s s' → c.common s' s'' → c.common s s''
  common_enter : ∀ i s, c.common s (ℓ.enter i s)
  main_common : ∀ s s', c.main.kept s s' → c.common s s'
  side_common : ∀ s s', c.sideWrite s s' → c.common s s'
  inv_durable : ∀ s, c.main.inv s → c.durable s
  enter_durable : ∀ i s, c.durable s → c.durable (ℓ.enter i s)
  main_durable : ∀ s s', c.durable s → c.main.kept s s' → c.durable s'
  side_durable : ∀ s s', c.durable s → c.sideWrite s s' → c.durable s'
  main : ∀ t, ℓ.exclusive t = true → ∀ s i, c.rest s →
    (ℓ.code t).Sat c.main s (ℓ.enter i s) (fun _ _ s => c.rest s) (fun _ _ s => c.rest s)
  side : ∀ t, ℓ.exclusive t = false → ∀ s i, (ℓ.code t).Sat c.sides s (ℓ.enter i s)
    (fun _ s₀ s => c.side s₀ s) (fun _ s₀ s => c.side s₀ s)
  restart : ∀ s i, c.durable s → c.restarts s → c.rest (ℓ.restart (ℓ.enter i s))
  init : c.rest ℓ.init

/-- The answer that a stretch begins with is one that its task may count on. -/
def Answered (c : ℓ.Terms) (w : ℓ.World) : ℓ.Stretch → Prop
  | .start _ _ => True
  | .resume n answers _ => ∀ f, w.waiting[n]? = some f → ℓ.exclusive f.task = true →
    c.main.ok f.query (answers f.query) w.shared

/-- The turns that the terms speak about. -/
def Fine (c : ℓ.Terms) (w : ℓ.World) (turn : ℓ.Turn) : Prop :=
  (match turn with
    | .go f | .crash f _ _ => Answered c w f
    | .restart _ => True) ∧ ∀ s, turn.met w = some s → c.restarts s

def exclusives (fs : List ℓ.Waiting) : Nat := fs.countP (fun f => ℓ.exclusive f.task)

theorem exclusives_zero {fs : List ℓ.Waiting} :
    exclusives fs = 0 ↔ ∀ f ∈ fs, ℓ.exclusive f.task = false := by
  simp [exclusives, List.countP_eq_zero]

theorem busy_false {w : ℓ.World} (h : w.busy = false) : exclusives w.waiting = 0 := by
  rw [exclusives_zero]
  simpa [World.busy] using h

section kept
variable {c : ℓ.Terms} {w : ℓ.World}

structure Kept (c : ℓ.Terms) (w : ℓ.World) : Prop where
  inv : c.main.inv w.shared
  idle : exclusives w.waiting = 0 → c.rest w.shared
  alone : exclusives w.waiting ≤ 1
  main : ∀ f ∈ w.waiting, ℓ.exclusive f.task = true → ∃ s, c.main.rely s w.shared ∧
    ∀ s₁, c.main.rely s s₁ → c.main.inv s₁ → ∀ a, c.main.ok f.query a s₁ → ∀ i,
      (f.k a).Sat c.main s₁ (ℓ.enter i s₁) (fun _ _ s => c.rest s) (fun _ _ s => c.rest s)
  side : ∀ f ∈ w.waiting, ℓ.exclusive f.task = false → ∃ s, c.common s w.shared ∧
    ∀ s₁, c.common s s₁ → ∀ a i, (f.k a).Sat c.sides s₁ (ℓ.enter i s₁)
      (fun _ s₀ s => c.side s₀ s) (fun _ s₀ s => c.side s₀ s)

/-- What is known of a stretch before it runs. -/
structure Opened (c : ℓ.Terms) (w : ℓ.World) (o : ℓ.Opening) : Prop where
  others : ∀ f ∈ o.before ++ o.after, f ∈ w.waiting
  mine : exclusives w.waiting ≤ exclusives (o.before ++ o.after) +
    if ℓ.exclusive o.task then 1 else 0
  alone : exclusives (o.before ++ o.after) + (if ℓ.exclusive o.task then 1 else 0) ≤ 1
  main : ℓ.exclusive o.task = true → o.code.Sat c.main w.shared (ℓ.enter o.input w.shared)
    (fun _ _ s => c.rest s) (fun _ _ s => c.rest s)
  side : ℓ.exclusive o.task = false → o.code.Sat c.sides w.shared (ℓ.enter o.input w.shared)
    (fun _ s₀ s => c.side s₀ s) (fun _ s₀ s => c.side s₀ s)

theorem Kept.opened (hp : Proven c) (hk : Kept c w) {f : ℓ.Stretch} {o : ℓ.Opening}
    (hf : Answered c w f) (ho : f.opens w = some o) : Opened c w o := by
  cases f with
  | start t i =>
    simp only [Stretch.opens] at ho
    split at ho
    · cases ho
    · rename_i hfree
      cases ho
      have hnone : ℓ.exclusive t = true → exclusives w.waiting = 0 :=
        fun ht => busy_false (by simpa [ht] using hfree)
      refine ⟨fun f hf => (by simpa using hf), (by simp), ?_, fun ht => ?_, fun ht => ?_⟩
      · simp only [List.append_nil]
        cases ht : ℓ.exclusive t with
        | true => simp [hnone ht]
        | false => simpa using hk.alone
      · exact hp.main t ht w.shared i (hk.idle (hnone ht))
      · exact hp.side t ht w.shared i
  | resume n answers i =>
    simp only [Stretch.opens] at ho
    split at ho
    · cases ho
    · rename_i f hn
      cases ho
      have hmem : f ∈ w.waiting := List.mem_of_getElem? hn
      obtain ⟨hlt, hget⟩ := List.getElem?_eq_some_iff.mp hn
      have hcut : w.waiting = w.waiting.take n ++ f :: w.waiting.drop (n + 1) := by
        rw [← hget, ← List.drop_eq_getElem_cons hlt, List.take_append_drop]
      have hcount : exclusives w.waiting =
          exclusives (w.waiting.take n ++ w.waiting.drop (n + 1)) +
            if ℓ.exclusive f.task then 1 else 0 := by
        have hperm : w.waiting.Perm (f :: (w.waiting.take n ++ w.waiting.drop (n + 1))) := by
          conv_lhs => rw [hcut]
          exact List.perm_middle
        have hcong := hperm.countP_eq (fun f => ℓ.exclusive f.task)
        rw [List.countP_cons] at hcong
        exact hcong
      refine ⟨fun g hg => ?_, hcount.le, hcount ▸ hk.alone, fun ht => ?_, fun ht => ?_⟩
      · rcases List.mem_append.mp hg with hg | hg
        · exact List.mem_of_mem_take hg
        · exact List.mem_of_mem_drop hg
      · obtain ⟨s, hr, hcont⟩ := hk.main f hmem ht
        exact hcont w.shared hr hk.inv (answers f.query) (hf f hn ht) i
      · obtain ⟨s, hr, hcont⟩ := hk.side f hmem ht
        exact hcont w.shared hr (answers f.query) i

/-- Everyone moves as the common relation says. -/
theorem Opened.moves (hp : Proven c) {o : ℓ.Opening} (h : Opened c w o) :
    c.common w.shared (o.code.run (ℓ.enter o.input w.shared)).2 := by
  refine hp.common_trans _ _ _ (hp.common_enter o.input w.shared) ?_
  cases ht : ℓ.exclusive o.task with
  | true => exact (h.main ht).run_kept hp.common_refl hp.common_trans hp.main_common
  | false => exact (h.side ht).run_kept hp.common_refl hp.common_trans hp.side_common

/-- The tasks that wait beside a stretch can go on after it. -/
theorem Opened.beside (hp : Proven c) (hk : Kept c w) {o : ℓ.Opening} (h : Opened c w o)
    {f : ℓ.Waiting} (hf : f ∈ o.before ++ o.after) (he : ℓ.exclusive f.task = false) :
    ∃ s, c.common s (o.code.run (ℓ.enter o.input w.shared)).2 ∧
      ∀ s₁, c.common s s₁ → ∀ a i, (f.k a).Sat c.sides s₁ (ℓ.enter i s₁)
        (fun _ s₀ s => c.side s₀ s) (fun _ s₀ s => c.side s₀ s) := by
  obtain ⟨s, hs, hcont⟩ := hk.side f (h.others f hf) he
  exact ⟨s, hp.common_trans _ _ _ hs (h.moves hp), hcont⟩

theorem mem_runs {o : ℓ.Opening} {s : σ} {f : ℓ.Waiting} (hf : f ∈ (o.runs s).waiting) :
    f ∈ o.before ++ o.after ∨ f ∈ halted o.task (o.code.run (ℓ.enter o.input s)).1 := by
  simp only [Opening.runs, List.mem_append] at hf ⊢
  tauto

theorem exclusives_runs (o : ℓ.Opening) (s : σ) : exclusives (o.runs s).waiting =
    exclusives (o.before ++ o.after) +
      exclusives (halted o.task (o.code.run (ℓ.enter o.input s)).1) := by
  simp only [Opening.runs, exclusives, List.countP_append]
  omega

/-- A stretch of a task beside the others. -/
theorem Kept.sideStep (hp : Proven c) (hk : Kept c w) {o : ℓ.Opening} (h : Opened c w o)
    (ht : ℓ.exclusive o.task = false) : Kept c (o.runs w.shared) := by
  have hhalt := Coro.run_sat (h.side ht)
  have hmoves := h.moves hp
  have hbeside := fun f => h.beside hp hk (f := f)
  have hcount := exclusives_runs o w.shared
  have hmem := fun f => mem_runs (o := o) (s := w.shared) (f := f)
  have hmine := h.mine
  have halone := h.alone
  simp only [Opening.runs] at hcount hmem ⊢
  generalize o.code.run (ℓ.enter o.input w.shared) = r at hhalt hmoves hbeside hcount hmem
  obtain ⟨halt, s'⟩ := r
  simp only [ht, Bool.false_eq_true, if_false, Nat.add_zero] at hmine halone
  simp only at hhalt hmoves hbeside hcount hmem ⊢
  have hG : c.side w.shared s' := by
    cases halt with
    | done a => exact hhalt
    | raised e => exact hhalt
    | waits q k => exact hhalt.2.1
  have hnew : exclusives (halted o.task halt) = 0 := by
    cases halt <;> simp [halted, exclusives, ht]
  refine ⟨hp.inv_stable _ _ hk.inv hG, fun h0 => ?_, ?_, fun f hf he => ?_, fun f hf he => ?_⟩
  · exact hp.rest_stable _ _ (hk.idle (by rw [hcount] at h0; omega)) hG
  · rw [hcount]
    omega
  · rcases hmem f hf with hf | hf
    · obtain ⟨s, hr, hcont⟩ := hk.main f (h.others f hf) he
      exact ⟨s, hp.rely_step _ _ _ hr hG, hcont⟩
    · rw [exclusives_zero] at hnew
      rw [hnew f hf] at he
      cases he
  · rcases hmem f hf with hf | hf
    · exact hbeside f hf he
    · cases halt with
      | done a => cases hf
      | raised e => cases hf
      | waits q k =>
        cases List.mem_singleton.mp hf
        exact ⟨s', hp.common_refl s', fun s₁ hs a i => hhalt.2.2 s₁ hs trivial a trivial i⟩

/-- A stretch of the exclusive task, beside tasks of the other kind. -/
theorem Kept.mainStep (hp : Proven c) (hk : Kept c w) {o : ℓ.Opening} (h : Opened c w o)
    (ht : ℓ.exclusive o.task = true) : Kept c (o.runs w.shared) := by
  have hhalt := Coro.run_sat (h.main ht)
  have hbeside := fun f => h.beside hp hk (f := f)
  have hcount := exclusives_runs o w.shared
  have hmem := fun f => mem_runs (o := o) (s := w.shared) (f := f)
  have halone := h.alone
  simp only [Opening.runs] at hcount hmem ⊢
  generalize o.code.run (ℓ.enter o.input w.shared) = r at hhalt hbeside hcount hmem
  obtain ⟨halt, s'⟩ := r
  simp only [ht, if_true] at halone
  simp only at hhalt hbeside hcount hmem ⊢
  have hold : exclusives (o.before ++ o.after) = 0 := by omega
  have hside := Iff.mp exclusives_zero hold
  have hinv : c.main.inv s' ∧ (exclusives (halted o.task halt) = 0 → c.rest s') := by
    cases halt with
    | done a => exact ⟨hp.rest_inv _ hhalt, fun _ => hhalt⟩
    | raised e => exact ⟨hp.rest_inv _ hhalt, fun _ => hhalt⟩
    | waits q k =>
      refine ⟨hhalt.1, fun h0 => ?_⟩
      have hex := Iff.mp exclusives_zero h0 ⟨o.task, q, k⟩ (List.mem_singleton_self _)
      rw [ht] at hex
      cases hex
  refine ⟨hinv.1, fun h0 => hinv.2 (by rw [hcount] at h0; omega), ?_, fun f hf he => ?_,
    fun f hf he => ?_⟩
  · have hnew : exclusives (halted o.task halt) ≤ 1 := by
      cases halt <;> simp [halted, exclusives, ht]
    rw [hcount]
    omega
  · rcases hmem f hf with hf | hf
    · rw [hside f hf] at he
      cases he
    · cases halt with
      | done a => cases hf
      | raised e => cases hf
      | waits q k =>
        cases List.mem_singleton.mp hf
        exact ⟨s', hp.rely_refl s', fun s₁ hr hi a ha i => hhalt.2.2 s₁ hr hi a ha i⟩
  · rcases hmem f hf with hf | hf
    · exact hbeside f hf he
    · cases halt with
      | done a => cases hf
      | raised e => cases hf
      | waits q k =>
        cases List.mem_singleton.mp hf
        rw [ht] at he
        cases he

/-- What a process that ends leaves is durable. -/
theorem Kept.met_durable (hp : Proven c) (hk : Kept c w) {turn : ℓ.Turn} (hf : Fine c w turn)
    {s : σ} (hs : turn.met w = some s) : c.durable s := by
  cases turn with
  | go f => cases hs
  | restart i =>
    cases hs
    exact hp.inv_durable _ hk.inv
  | crash f n i =>
    obtain ⟨o, ho, rfl⟩ := Option.map_eq_some_iff.mp hs
    have hopen := hk.opened hp hf.1 ho
    have hbegin := hp.enter_durable o.input _ (hp.inv_durable _ hk.inv)
    cases ht : ℓ.exclusive o.task with
    | true => exact (hopen.main ht).cut_kept hbegin hp.main_durable
    | false => exact (hopen.side ht).cut_kept hbegin hp.side_durable

theorem Proven.begins (hp : Proven c) {s : σ} (hs : c.rest s) : Kept c ⟨s, []⟩ :=
  ⟨hp.rest_inv _ hs, fun _ => hs, Nat.zero_le 1, fun f hf => (by cases hf),
    fun f hf => (by cases hf)⟩

theorem Kept.step (hp : Proven c) (hk : Kept c w) {turn : ℓ.Turn} (hf : Fine c w turn) :
    Kept c (step turn w) := by
  have hmet := fun s => hk.met_durable hp hf (s := s)
  cases turn with
  | go f =>
    simp only [Loop.step]
    cases ho : f.opens w with
    | none => exact hk
    | some o =>
      have hopen := hk.opened hp hf.1 ho
      cases ht : ℓ.exclusive o.task with
      | true => exact hk.mainStep hp hopen ht
      | false => exact hk.sideStep hp hopen ht
  | restart i => exact hp.begins (hp.restart _ i (hmet _ rfl) (hf.2 _ rfl))
  | crash f n i =>
    simp only [Loop.step]
    cases hs : Turn.met w (.crash f n i) with
    | none => exact hk
    | some s => exact hp.begins (hp.restart _ i (hmet _ hs) (hf.2 _ hs))

/-- In every run of fine turns the contracts are kept. -/
theorem Proven.reach {permits : List ℓ.Entry → ℓ.Turn → Prop} {h : List ℓ.Entry} {w : ℓ.World}
    (hp : Proven c) (hrun : ℓ.machine.Run permits h w) (hfine : ∀ e ∈ h, Fine c e.pre e.call) :
    Kept c w := by
  induction hrun with
  | start => exact hp.begins hp.init
  | step hrun hc ih =>
    exact (ih (fun e he => hfine e (List.mem_cons_of_mem _ he))).step hp
      (hfine _ (List.mem_cons_self ..))

end kept

end Loop

end Solvio.Lib
