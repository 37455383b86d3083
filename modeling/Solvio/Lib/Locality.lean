import Solvio.Lib.Coroutines

namespace Solvio.Lib

variable {σ ι V α β : Type} {ℓ : Async σ}

/-- What is asked of the parts that a shared state consists of: what holds of
each at an await, what a write may make of one, what the others make of it at
an await, and which answers there are. -/
structure Duties (ℓ : Async σ) (ι V : Type) where
  sound : V → Prop
  step : V → V → Prop
  beside : V → V → Prop
  ok : (q : ℓ.Query) → ℓ.Answer q → (ι → V) → Prop

def Duties.contract (P : Duties ℓ ι V) (view : σ → ι → V) : Contract ℓ where
  inv s := ∀ i, P.sound (view s i)
  kept s s' := ∀ i, view s' i = view s i ∨ P.step (view s i) (view s' i)
  rely s s' := ∀ i, P.beside (view s i) (view s' i)
  guar _ _ := True
  ok q a s := P.ok q a (view s)

/-- A claim about every part lasts while the others act. -/
def Duties.Lasting (P : Duties ℓ ι V) (I : ι → V → Prop) : Prop :=
  ∀ i v, I i v → P.sound v ∧ ∀ v', P.beside v v' → P.sound v' → I i v'

/-- The coroutine works on the part under `j`: from `v` on it ends in `Q` or
raises in `X`, whatever the other parts are of which `I` holds, and it still
holds of them then. -/
def Local (P : Duties ℓ ι V) (view : σ → ι → V) (I : ι → V → Prop) (j : ι) (p : Coro ℓ α) (v : V)
    (Q : α → V → Prop) (X : ℓ.Exn → V → Prop) : Prop :=
  ∀ s₀ s, view s j = v → (∀ i, i ≠ j → I i (view s i)) → p.Sat (P.contract view) s₀ s
    (fun a _ s' => Q a (view s' j) ∧ ∀ i, i ≠ j → I i (view s' i))
    (fun e _ s' => X e (view s' j) ∧ ∀ i, i ≠ j → I i (view s' i))

namespace Local

variable {P : Duties ℓ ι V} {view : σ → ι → V} {I : ι → V → Prop} {j : ι} {v : V}
  {Q : α → V → Prop} {X : ℓ.Exn → V → Prop}

theorem pure {a : α} (h : Q a v) : Local P view I j (Pure.pure a) v Q X := by
  intro s₀ s hv hI
  subst hv
  exact ⟨h, hI⟩

theorem raise {e : ℓ.Exn} (h : X e v) : Local P view I j (Coro.raise e : Coro ℓ α) v Q X := by
  intro s₀ s hv hI
  subst hv
  exact ⟨h, hI⟩

theorem bind {p : Coro ℓ β} {f : β → Coro ℓ α}
    (h : Local P view I j p v (fun b w => Local P view I j (f b) w Q X) X) :
    Local P view I j (p >>= f) v Q X := by
  intro s₀ s hv hI
  rw [Coro.sat_bind]
  exact (h s₀ s hv hI).mono (fun b s₀ s' h => h.1 s₀ s' rfl h.2) (fun _ _ _ h => h)

theorem handle {p : Coro ℓ α} {h : ℓ.Exn → Coro ℓ α}
    (hp : Local P view I j p v Q (fun e w => Local P view I j (h e) w Q X)) :
    Local P view I j (p.handle h) v Q X := by
  intro s₀ s hv hI
  rw [Coro.sat_handle]
  exact (hp s₀ s hv hI).mono (fun _ _ _ h => h) (fun e s₀ s' h => h.1 s₀ s' rfl h.2)

theorem mono {p : Coro ℓ α} {R : α → V → Prop} {Y : ℓ.Exn → V → Prop}
    (h : Local P view I j p v Q X) (hQ : ∀ a w, Q a w → R a w) (hX : ∀ e w, X e w → Y e w) :
    Local P view I j p v R Y :=
  fun s₀ s hv hI => (h s₀ s hv hI).mono (fun a _ _ h => ⟨hQ a _ h.1, h.2⟩)
    (fun e _ _ h => ⟨hX e _ h.1, h.2⟩)

theorem state {f : σ → Coro ℓ α} (h : ∀ s, view s j = v → Local P view I j (f s) v Q X) :
    Local P view I j (Coro.state >>= f) v Q X := by
  intro s₀ s hv hI
  rw [Coro.sat_bind, Coro.sat_state]
  exact h s hv s₀ s hv hI

/-- A write to the one part. -/
theorem modify [DecidableEq ι] {f : σ → σ} {Q : Unit → V → Prop} {w : V}
    (hview : ∀ s, view s j = v → ∀ i, view (f s) i = if i = j then w else view s i)
    (hstep : w = v ∨ P.step v w) (h : Q () w) : Local P view I j (Coro.modify f) v Q X := by
  intro s₀ s hv hI
  rw [Coro.sat_modify]
  refine ⟨fun i => ?_, ?_, fun i hi => ?_⟩
  · rw [hview s hv]
    split
    · rename_i hi
      rw [hi, hv]
      exact hstep
    · exact Or.inl rfl
  · rw [hview s hv, if_pos rfl]
    exact h
  · rw [hview s hv, if_neg hi]
    exact hI i hi

/-- A write that no part shows. -/
theorem unseen {f : σ → σ} {Q : Unit → V → Prop} (hview : ∀ s, view (f s) = view s)
    (h : Q () v) : Local P view I j (Coro.modify f) v Q X := by
  classical
  refine modify (fun s hv i => ?_) (Or.inl rfl) h
  rw [hview]
  split
  · rename_i hi
    rw [hi, hv]
  · rfl

theorem query {q : ℓ.Query} {Q : ℓ.Answer q → V → Prop}
    (henter : ∀ i s, view (ℓ.enter i s) = view s) (hI : P.Lasting I) (hs : P.sound v)
    (h : ∀ v₁, P.beside v v₁ → P.sound v₁ → ∀ vs : ι → V, vs j = v₁ → ∀ a, P.ok q a vs → Q a v₁) :
    Local P view I j (Coro.query q) v Q X := by
  intro s₀ s hv hother
  rw [Coro.sat_query]
  refine ⟨fun i => ?_, trivial, fun s₁ hr hinv a ha i => ?_⟩
  · by_cases hi : i = j
    · rw [hi, hv]
      exact hs
    · exact (hI i _ (hother i hi)).1
  · rw [henter]
    subst hv
    exact ⟨h _ (hr j) (hinv j) _ rfl a ha,
      fun k hk => (hI k _ (hother k hk)).2 _ (hr k) (hinv k)⟩

end Local

end Solvio.Lib
