import Solvio.Lib.Programs

namespace Solvio.Lib.Shared

variable {σ : Type} {w : Shared σ}

/-- Which answers make a task the holder of a thing (`some true`), and which make
it give the thing back (`some false`). -/
abbrev Hold (w : Shared σ) : Type := (op : w.Op) → w.Reply op → Option Bool

/-- A program that takes only what it does not hold, gives back only what it
holds, and does not end with it. -/
def Hold.Fits (hold : Hold w) : Bool → Prog w.Op w.Reply Unit → Prop
  | holds, .ret _ => holds = false
  | holds, .fail => holds = false
  | holds, .ask op k => ∀ r, match hold op r with
    | none => hold.Fits holds (k r)
    | some true => holds = false ∧ hold.Fits true (k r)
    | some false => holds = true ∧ hold.Fits false (k r)

/-- At most this task holds the thing. -/
structure World.Held (hold : Hold w) (W : w.World) (holder : Option Nat) : Prop where
  fits : ∀ t p, W.tasks t = some p → hold.Fits (decide (holder = some t)) p
  spawned : ∀ t p, W.tasks t = some p → t < W.next
  alive : ∀ t, holder = some t → (W.tasks t).isSome

namespace World

theorem set_task_self (tasks : Nat → Option (Prog w.Op w.Reply Unit)) (task : Nat)
    (p : Option (Prog w.Op w.Reply Unit)) : setTask tasks task p task = p := by
  simp [setTask]

theorem set_task_other (tasks : Nat → Option (Prog w.Op w.Reply Unit)) {task t : Nat}
    (p : Option (Prog w.Op w.Reply Unit)) (h : t ≠ task) : setTask tasks task p t = tasks t := by
  simp [setTask, h]

/-- Only what has been spawned is there. -/
theorem Reach.spawned {launch : Prog w.Op w.Reply Unit → Prop} {W : w.World}
    (h : Reach launch W) {t : Nat} {p : Prog w.Op w.Reply Unit} (ht : W.tasks t = some p) :
    t < W.next := by
  induction h generalizing t p with
  | start => cases ht
  | @move W m _ _ ih =>
    cases m with
    | spawn q =>
      by_cases heq : t = W.next
      · exact heq ▸ Nat.lt_succ_self _
      · simp only [World.move, set_task_other _ _ heq] at ht
        exact Nat.lt_succ_of_lt (ih ht)
    | stop u =>
      by_cases heq : t = u
      · simp [World.move, setTask, heq] at ht
      · simp only [World.move, set_task_other _ _ heq] at ht
        exact ih ht
    | act u input =>
      cases hu : W.tasks u with
      | none =>
        rw [act_other (fun op k hask => by rw [hu] at hask; cases hask)] at ht ⊢
        exact ih ht
      | some q =>
        cases q with
        | ask op k =>
          rw [act_ask hu] at ht ⊢
          by_cases heq : t = u
          · rw [heq]
            exact ih hu
          · simp only [set_task_other _ _ heq] at ht
            exact ih ht
        | _ =>
          rw [act_other (fun op k hask => by rw [hu] at hask; cases hask)] at ht ⊢
          exact ih ht

namespace Held

variable {hold : Hold w} {W : w.World} {holder : Option Nat}

theorem start : Held hold (World.start w) none where
  fits _ _ h := by cases h
  spawned _ _ h := by cases h
  alive _ h := by cases h

theorem held_spawned (h : Held hold W holder) {t : Nat} (ht : holder = some t) : t < W.next := by
  obtain ⟨p, hp⟩ := Option.isSome_iff_exists.mp (h.alive t ht)
  exact h.spawned t p hp

theorem spawn (h : Held hold W holder) {p : Prog w.Op w.Reply Unit} (hp : hold.Fits false p) :
    Held hold (W.move (.spawn p)) holder where
  fits t q hq := by
    by_cases ht : t = W.next
    · subst ht
      have hq : some p = some q := by simpa [World.move, setTask] using hq
      cases hq
      have hne : holder ≠ some W.next := fun heq => Nat.lt_irrefl _ (h.held_spawned heq)
      simpa [hne] using hp
    · simp only [World.move, set_task_other _ _ ht] at hq
      exact h.fits t q hq
  spawned t q hq := by
    by_cases ht : t = W.next
    · exact ht ▸ Nat.lt_succ_self _
    · simp only [World.move, set_task_other _ _ ht] at hq
      exact Nat.lt_succ_of_lt (h.spawned t q hq)
  alive t ht := by
    simp only [World.move, set_task_other _ _ (Nat.ne_of_lt (h.held_spawned ht))]
    exact h.alive t ht

variable {t : Nat} {op : w.Op} {k : w.Reply op → Prog w.Op w.Reply Unit}

/-- Only the task that acts changes, and with it the holder. -/
theorem changed (h : Held hold W holder) (ht : W.tasks t = some (.ask op k)) (input : w.Input)
    {holder' : Option Nat}
    (hnew : hold.Fits (decide (holder' = some t)) (k (w.step op input W.state).1))
    (hothers : ∀ u, u ≠ t → (holder' = some u ↔ holder = some u)) :
    Held hold (W.move (.act t input)) holder' := by
  rw [act_ask ht]
  refine ⟨fun u p hp => ?_, fun u p hp => ?_, fun u hu => ?_⟩
  · by_cases hu : u = t
    · subst hu
      simp only [set_task_self, Option.some.injEq] at hp
      exact hp ▸ hnew
    · simp only [set_task_other _ _ hu] at hp
      simpa only [hothers u hu] using h.fits u p hp
  · by_cases hu : u = t
    · exact hu ▸ h.spawned t _ ht
    · simp only [set_task_other _ _ hu] at hp
      exact h.spawned u p hp
  · by_cases hut : u = t
    · simp [hut, setTask]
    · simp only [set_task_other _ _ hut]
      exact h.alive u ((hothers u hut).mp hu)

theorem keep (h : Held hold W holder) (ht : W.tasks t = some (.ask op k)) (input : w.Input)
    (hop : hold op (w.step op input W.state).1 = none) :
    Held hold (W.move (.act t input)) holder := by
  refine h.changed ht input ?_ (fun _ _ => Iff.rfl)
  have hfits := h.fits t _ ht (w.step op input W.state).1
  rwa [hop] at hfits

theorem take (h : Held hold W none) (ht : W.tasks t = some (.ask op k)) (input : w.Input)
    (hop : hold op (w.step op input W.state).1 = some true) :
    Held hold (W.move (.act t input)) (some t) := by
  have hfits := h.fits t _ ht (w.step op input W.state).1
  rw [hop] at hfits
  refine h.changed ht input (by simpa using hfits.2) (fun u hu => ?_)
  exact ⟨fun heq => absurd (Option.some.inj heq).symm hu, fun heq => by cases heq⟩

/-- Only the holder can give back. -/
theorem holds (h : Held hold W holder) (ht : W.tasks t = some (.ask op k)) {r : w.Reply op}
    (hop : hold op r = some false) : holder = some t := by
  have hfits := h.fits t _ ht r
  rw [hop] at hfits
  exact of_decide_eq_true hfits.1

theorem give (h : Held hold W holder) (ht : W.tasks t = some (.ask op k)) (input : w.Input)
    (hop : hold op (w.step op input W.state).1 = some false) :
    holder = some t ∧ Held hold (W.move (.act t input)) none := by
  have hheld := h.holds ht hop
  have hfits := h.fits t _ ht (w.step op input W.state).1
  rw [hop] at hfits
  refine ⟨hheld, h.changed ht input (by simpa using hfits.2) (fun u hu => ?_)⟩
  rw [hheld]
  exact ⟨fun heq => (by cases heq), fun heq => absurd (Option.some.inj heq).symm hu⟩

/-- When every task has ended, nobody holds the thing. -/
theorem ended (h : Held hold W holder)
    (hended : ∀ t p, W.tasks t = some p → p = .ret () ∨ p = .fail) : holder = none := by
  cases holder with
  | none => rfl
  | some t =>
    obtain ⟨p, hp⟩ := Option.isSome_iff_exists.mp (h.alive t rfl)
    have hfits := h.fits t p hp
    rcases hended t p hp with rfl | rfl
    · simp [Hold.Fits] at hfits
    · simp [Hold.Fits] at hfits

end Held

end World

end Solvio.Lib.Shared
