import Solvio.Lib.Coroutines
import Mathlib.Logic.Relation

namespace Solvio.Lib
namespace Coro

variable {σ α β : Type} {ℓ : Async σ} {R : σ → σ → Prop}

/-- What the others do at an await leaves a condition alone. -/
def Stable (R : σ → σ → Prop) (A : σ → Prop) : Prop := ∀ s s', A s → R s s' → A s'

/-- From `A` on, beside others that do `R`, a coroutine ends in `B` or raises in `X`. -/
def Triple (R : σ → σ → Prop) (p : Coro ℓ α) (A : σ → Prop) (B : α → σ → Prop)
    (X : ℓ.Exn → σ → Prop) : Prop :=
  ∀ s₀ s, A s → Sat (endsIn R) p s₀ s (fun a _ s => B a s) (fun e _ s => X e s)

namespace Triple

variable {A A' : σ → Prop} {B C : α → σ → Prop} {X Y : ℓ.Exn → σ → Prop} {p : Coro ℓ α}

theorem ends {s s' : σ} {r : Except ℓ.Exn α} (h : Triple R p A B X) (hs : A s)
    (he : Ends R p s r s') : (∀ a, r = .ok a → B a s') ∧ ∀ e, r = .error e → X e s' := by
  obtain ⟨-, hok, herror⟩ := (h s s hs).ends he
  exact ⟨hok, herror⟩

theorem pure {a : α} (h : ∀ s, A s → B a s) : Triple R (pure a : Coro ℓ α) A B X :=
  fun _ s hs => h s hs

theorem raise {e : ℓ.Exn} (h : ∀ s, A s → X e s) : Triple R (Coro.raise e : Coro ℓ α) A B X :=
  fun _ s hs => h s hs

theorem state {B : σ → σ → Prop} (h : ∀ s, A s → B s s) :
    Triple R (Coro.state : Coro ℓ σ) A B X :=
  fun _ s hs => h s hs

theorem modify {f : σ → σ} {B : Unit → σ → Prop} (h : ∀ s, A s → B () (f s)) :
    Triple R (Coro.modify f : Coro ℓ Unit) A B X :=
  fun _ s hs => ⟨trivial, h s hs⟩

theorem bind {f : α → Coro ℓ β} {D : β → σ → Prop} (hp : Triple R p A B X)
    (hf : ∀ a, Triple R (f a) (B a) D X) : Triple R (p >>= f) A D X := by
  intro s₀ s hs
  rw [sat_bind]
  exact (hp s₀ s hs).mono (fun a s₀ s ha => hf a s₀ s ha) (fun _ _ _ h => h)

theorem handle {h : ℓ.Exn → Coro ℓ α} (hp : Triple R p A B Y)
    (hh : ∀ e, Triple R (h e) (Y e) B X) : Triple R (p.handle h) A B X := by
  intro s₀ s hs
  rw [sat_handle]
  exact (hp s₀ s hs).mono (fun _ _ _ h => h) (fun e s₀ s he => hh e s₀ s he)

theorem mono (h : Triple R p A' B X) (hA : ∀ s, A s → A' s) (hB : ∀ a s, B a s → C a s)
    (hX : ∀ e s, X e s → Y e s) : Triple R p A C Y :=
  fun s₀ s hs => (h s₀ s (hA s hs)).mono (fun a _ s => hB a s) (fun e _ s => hX e s)

theorem pre (h : Triple R p A' B X) (hA : ∀ s, A s → A' s) : Triple R p A B X :=
  fun s₀ s hs => h s₀ s (hA s hs)

/-- A query, where nothing but time passes. -/
theorem query {q : ℓ.Query} {B : ℓ.Answer q → σ → Prop} (hA : Stable R A)
    (h : ∀ a s, A s → ∀ i, B a (ℓ.enter i s)) :
    Triple R (Coro.query q : Coro ℓ (ℓ.Answer q)) A B X :=
  fun _ s hs => ⟨trivial, trivial, fun s₁ hR _ a _ i => h a s₁ (hA s s₁ hs hR) i⟩

end Triple

/-- A coroutine that nobody disturbs, with an answer to every query. -/
def play (answer : (q : ℓ.Query) → ℓ.Answer q) (i : ℓ.Input) :
    Coro ℓ α → σ → Except ℓ.Exn α × σ
  | ret a, s => (.ok a, s)
  | raise e, s => (.error e, s)
  | get k, s => (k s).play answer i s
  | put s k, _ => k.play answer i s
  | await q k, s => (k (answer q)).play answer i (ℓ.enter i s)

theorem play_ends (hR : ∀ s, R s s) (answer : (q : ℓ.Query) → ℓ.Answer q) (i : ℓ.Input)
    (p : Coro ℓ α) (s : σ) : Ends R p s (p.play answer i s).1 (p.play answer i s).2 := by
  induction p generalizing s with
  | ret a => exact .ret
  | raise e => exact .raise
  | get k ih => exact .get (ih s s)
  | put s' k ih => exact .put (ih s')
  | await q k ih => exact .await (hR s) (ih (answer q) (ℓ.enter i s))

end Coro
end Solvio.Lib
