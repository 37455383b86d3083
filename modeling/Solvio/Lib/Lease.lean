import Mathlib.Data.Finset.Card
import Solvio.Lib.Holder

namespace Solvio.Lib.Shared

variable {σ κ : Type} {w : Shared σ}

/-- Which answers open a thing under a key, which requests give it back, and
after which answers a program that has opened one must go on. -/
structure Lease (w : Shared σ) (κ : Type) where
  opens : (op : w.Op) → w.Reply op → Option κ
  gives : w.Op → Option κ
  smooth : (op : w.Op) → w.Reply op → Prop

/-- Moves that are in order wherever they are made. -/
theorem World.ReachIf.moves {launch : Prog w.Op w.Reply Unit → Prop}
    {ok : w.World → w.Move → Prop} {W : w.World} {ms : List w.Move}
    (h : World.ReachIf launch ok W) (allowed : ∀ p, Move.spawn p ∈ ms → launch p)
    (hok : ∀ m ∈ ms, ∀ W, ok W m) : World.ReachIf launch ok (W.moves ms) := by
  induction ms generalizing W with
  | nil => exact h
  | cons m ms ih =>
    refine ih (h.move (fun p hp => allowed p (by simp [hp])) (hok m (List.mem_cons_self ..) W))
      (fun p hp => allowed p (List.mem_cons_of_mem m hp))
      (fun m hm => hok m (List.mem_cons_of_mem _ hm))

theorem Since.mono {task : Nat} {P Q : w.Op → Prop} {p q : List w.Event → w.Event → Prop}
    {L : List w.Event} (h : Since task P p L) (hP : ∀ op, P op → Q op)
    (hp : ∀ older e, p older e → q older e) : Since task Q q L := by
  obtain ⟨newer, v, older, hsplit, ht, hv, hall⟩ := h
  exact ⟨newer, v, older, hsplit, ht, hp older v hv, fun n hn hnt => hP _ (hall n hn hnt)⟩

namespace Lease

variable {lease : Lease w κ}

/-- A program that does not end before it gives the key back. -/
def Owes (lease : Lease w κ) (key : κ) {α : Type} : Prog w.Op w.Reply α → Prop
  | .ret _ => False
  | .fail => False
  | .ask op k => lease.gives op = some key ∨
    (lease.gives op = none ∧ ∀ r, lease.smooth op r → lease.Owes key (k r))

/-- A program that owes whatever it opens. -/
def Fits (lease : Lease w κ) {α : Type} : Prog w.Op w.Reply α → Prop
  | .ret _ => True
  | .fail => True
  | .ask op k => ∀ r, (∀ key, lease.opens op r = some key → lease.Owes key (k r)) ∧ lease.Fits (k r)

variable {α β : Type}

theorem Owes.bind {key : κ} {p : Prog w.Op w.Reply α} (f : α → Prog w.Op w.Reply β)
    (h : lease.Owes key p) : lease.Owes key (p >>= f) := by
  induction p with
  | ret a => cases h
  | fail => cases h
  | ask op k ih =>
    rcases h with hgives | ⟨hnone, hnext⟩
    · exact .inl hgives
    · exact .inr ⟨hnone, fun r hr => ih r (hnext r hr)⟩

theorem Owes.attempt {key : κ} {p : Prog w.Op w.Reply α} (h : lease.Owes key p) :
    lease.Owes key p.attempt := by
  induction p with
  | ret a => cases h
  | fail => cases h
  | ask op k ih =>
    rcases h with hgives | ⟨hnone, hnext⟩
    · exact .inl hgives
    · exact .inr ⟨hnone, fun r hr => ih r (hnext r hr)⟩

/-- What owes something is not at its end. -/
theorem Owes.asks {key : κ} {p : Prog w.Op w.Reply α} (h : lease.Owes key p) :
    ∃ op k, p = .ask op k := by
  cases p with
  | ask op k => exact ⟨op, k, rfl⟩
  | _ => cases h

theorem Fits.bind {p : Prog w.Op w.Reply α} {f : α → Prog w.Op w.Reply β} (h : lease.Fits p)
    (hf : ∀ a, lease.Fits (f a)) : lease.Fits (p >>= f) := by
  induction p with
  | ret a => exact hf a
  | fail => trivial
  | ask op k ih => exact fun r => ⟨fun key hkey => ((h r).1 key hkey).bind f, ih r (h r).2⟩

theorem Fits.attempt {p : Prog w.Op w.Reply α} (h : lease.Fits p) : lease.Fits p.attempt := by
  induction p with
  | ret a => trivial
  | fail => trivial
  | ask op k ih => exact fun r => ⟨fun key hkey => ((h r).1 key hkey).attempt, ih r (h r).2⟩

/-- A program that opens nothing owes nothing. -/
theorem Fits.of_asks {P : w.Op → Prop} (hP : ∀ op r, P op → lease.opens op r = none)
    {p : Prog w.Op w.Reply α} (h : p.Asks P) : lease.Fits p := by
  induction p with
  | ret a => trivial
  | fail => trivial
  | ask op k ih =>
    refine fun r => ⟨fun key hkey => ?_, ih r (h.2 r)⟩
    rw [hP op r h.1] at hkey
    cases hkey

/-- Since a task opened the key it has given nothing back. -/
def Holding (lease : Lease w κ) (task : Nat) (key : κ) (L : List w.Event) : Prop :=
  Since task (fun op => lease.gives op = none)
    (fun _ e => lease.opens e.call.op e.reply = some key) L

theorem holding_other {task : Nat} {key : κ} {e : w.Event} {L : List w.Event}
    (he : e.call.task ≠ task) : lease.Holding task key (e :: L) ↔ lease.Holding task key L := by
  unfold Holding
  rw [since_cons]
  constructor
  · rintro (⟨ht, -⟩ | ⟨-, h⟩)
    · exact absurd ht he
    · exact h
  · exact fun h => .inr ⟨fun ht => absurd ht he, h⟩

/-- A task that holds something is not stopped, and does not meet an answer that
makes it end. -/
def Regular (lease : Lease w κ) (W : w.World) : w.Move → Prop
  | .spawn _ => True
  | .stop t => ∀ key, ¬ lease.Holding t key W.log
  | .act t input => ∀ op k key, W.tasks t = some (.ask op k) → lease.Holding t key W.log →
    lease.smooth op (w.step op input W.state).1

/-- Only answers that open a key add it, and giving it back takes it away. -/
def Tracks (lease : Lease w κ) (opened : σ → κ → Prop) : Prop :=
  (∀ key, ¬ opened w.init key) ∧ ∀ op input s key, opened (w.step op input s).2 key →
    (opened s key ∧ lease.gives op ≠ some key) ∨ lease.opens op (w.step op input s).1 = some key

/-- Every open key is owed by a task that holds it. -/
structure Kept (lease : Lease w κ) (opened : σ → κ → Prop) (W : w.World) : Prop where
  fits : ∀ t p, W.tasks t = some p → lease.Fits p
  owed : ∀ key, opened W.state key →
    ∃ t p, W.tasks t = some p ∧ lease.Owes key p ∧ lease.Holding t key W.log

namespace Kept

open World

variable {opened : σ → κ → Prop} {W : w.World}

theorem start (tracks : lease.Tracks opened) : Kept lease opened (World.start w) where
  fits _ _ h := by cases h
  owed key h := absurd h (tracks.1 key)

theorem spawn (h : Kept lease opened W) (spawned : ∀ t p, W.tasks t = some p → t < W.next)
    {q : Prog w.Op w.Reply Unit} (hq : lease.Fits q) : Kept lease opened (W.move (.spawn q)) where
  fits t p hp := by
    by_cases ht : t = W.next
    · subst ht
      have hp : some q = some p := by simpa [World.move, setTask] using hp
      cases hp
      exact hq
    · simp only [World.move, set_task_other _ _ ht] at hp
      exact h.fits t p hp
  owed key hkey := by
    obtain ⟨t, p, hp, howes, hholding⟩ := h.owed key hkey
    refine ⟨t, p, ?_, howes, hholding⟩
    simpa only [World.move, set_task_other _ _ (Nat.ne_of_lt (spawned t p hp))] using hp

theorem stop (h : Kept lease opened W) {u : Nat} (hu : ∀ key, ¬ lease.Holding u key W.log) :
    Kept lease opened (W.move (.stop u)) where
  fits t p hp := by
    by_cases ht : t = u
    · simp [World.move, setTask, ht] at hp
    · simp only [World.move, set_task_other _ _ ht] at hp
      exact h.fits t p hp
  owed key hkey := by
    obtain ⟨t, p, hp, howes, hholding⟩ := h.owed key hkey
    have ht : t ≠ u := fun heq => hu key (heq ▸ hholding)
    exact ⟨t, p, by simpa only [World.move, set_task_other _ _ ht] using hp, howes, hholding⟩

variable {u : Nat} {op : w.Op} {k : w.Reply op → Prog w.Op w.Reply Unit}

/-- A request moves what is owed to the rest of the program. -/
theorem act (h : Kept lease opened W) (tracks : lease.Tracks opened)
    (hu : W.tasks u = some (.ask op k)) (input : w.Input)
    (hsmooth : ∀ key, lease.Holding u key W.log → lease.smooth op (w.step op input W.state).1) :
    Kept lease opened (W.move (.act u input)) := by
  rw [act_ask hu]
  have hfits := h.fits u _ hu (w.step op input W.state).1
  refine ⟨fun t p hp => ?_, fun key hkey => ?_⟩
  · by_cases ht : t = u
    · subst ht
      simp only [set_task_self, Option.some.injEq] at hp
      exact hp ▸ hfits.2
    · simp only [set_task_other _ _ ht] at hp
      exact h.fits t p hp
  · rcases tracks.2 op input W.state key hkey with ⟨hopened, hgives⟩ | hopens
    · obtain ⟨t, p, hp, howes, hholding⟩ := h.owed key hopened
      by_cases ht : t = u
      · subst ht
        rw [hu] at hp
        cases hp
        rcases howes with hgiven | ⟨hnone, hnext⟩
        · exact absurd hgiven hgives
        · refine ⟨t, _, set_task_self .., hnext _ (hsmooth key hholding), ?_⟩
          exact since_cons.mpr (.inr ⟨fun _ => hnone, hholding⟩)
      · refine ⟨t, p, by simpa only [set_task_other _ _ ht] using hp, howes, ?_⟩
        exact (holding_other (fun heq => ht heq.symm)).mpr hholding
    · exact ⟨u, _, set_task_self .., hfits.1 key hopens, Since.now rfl hopens⟩

end Kept

/-- As long as no holder is cut short, what is open is held by a task that is
still at it. -/
theorem held_open {launch : Prog w.Op w.Reply Unit → Prop} {ok : w.World → w.Move → Prop}
    {opened : σ → κ → Prop} {W : w.World} (tracks : lease.Tracks opened)
    (fits : ∀ p, launch p → lease.Fits p) (regular : ∀ W m, ok W m → lease.Regular W m)
    (h : World.ReachIf launch ok W) : Kept lease opened W := by
  induction h with
  | start => exact .start tracks
  | @move W m hreach allowed hok ih =>
    have hregular := regular W m hok
    cases m with
    | spawn p => exact ih.spawn (fun t q hq => hreach.reach.spawned hq) (fits p (allowed p rfl))
    | stop u => exact ih.stop hregular
    | act u input =>
      cases hu : W.tasks u with
      | none =>
        rw [World.act_other (fun op k hask => by rw [hu] at hask; cases hask)]
        exact ih
      | some q =>
        cases q with
        | ask op k => exact ih.act tracks hu input (fun key => hregular op k key hu)
        | _ =>
          rw [World.act_other (fun op k hask => by rw [hu] at hask; cases hask)]
          exact ih

end Lease

/-! ### One for one -/

/-- If every step of one kind was earned by a step of its task that has not been
used up since, there are no more of the first kind than of the second. -/
theorem earned_count {P : w.Op → Prop} {earns uses : w.Event → Bool} {L : List w.Event}
    (hearns : ∀ e, earns e = true → uses e = false) (huses : ∀ e, uses e = true → ¬ P e.call.op)
    (h : ∀ newer e older, L = newer ++ e :: older → uses e = true →
      Since e.call.task P (fun _ v => earns v = true) older) :
    L.countP uses ≤ L.countP earns := by
  suffices hs : ∃ S : Finset Nat, (∀ t, Since t P (fun _ v => earns v = true) L → t ∈ S) ∧
      L.countP uses + S.card ≤ L.countP earns by
    obtain ⟨S, -, hcard⟩ := hs
    omega
  induction L with
  | nil => exact ⟨∅, fun t ⟨_, _, _, hsplit, _⟩ => by simp at hsplit, by simp⟩
  | cons e L ih =>
    obtain ⟨S, hS, hcard⟩ := ih (fun newer v older heq => h (e :: newer) v older (heq ▸ rfl))
    by_cases hearn : earns e = true
    · refine ⟨insert e.call.task S, fun t ht => ?_, ?_⟩
      · rcases since_cons.mp ht with ⟨rfl, -⟩ | ⟨-, ht⟩
        · exact Finset.mem_insert_self ..
        · exact Finset.mem_insert_of_mem (hS t ht)
      · have hle := Finset.card_insert_le e.call.task S
        simp only [List.countP_cons, hearn, hearns e hearn, if_true]
        simp only [Bool.false_eq_true, if_false]
        omega
    · have hrest : ∀ t, Since t P (fun _ v => earns v = true) (e :: L) →
          (e.call.task = t → P e.call.op) ∧ t ∈ S := by
        intro t ht
        rcases since_cons.mp ht with ⟨-, hp⟩ | ⟨hop, ht⟩
        · exact absurd hp hearn
        · exact ⟨hop, hS t ht⟩
      by_cases huse : uses e = true
      · have hmem : e.call.task ∈ S := hS _ (h [] e L rfl huse)
        refine ⟨S.erase e.call.task, fun t ht => ?_, ?_⟩
        · obtain ⟨hop, ht⟩ := hrest t ht
          exact Finset.mem_erase.mpr ⟨fun heq => huses e huse (hop heq.symm), ht⟩
        · have hpos := Finset.card_pos.mpr ⟨_, hmem⟩
          rw [List.countP_cons, List.countP_cons, if_pos huse, if_neg hearn,
            Finset.card_erase_of_mem hmem]
          omega
      · refine ⟨S, fun t ht => (hrest t ht).2, ?_⟩
        rw [List.countP_cons, List.countP_cons, if_neg huse, if_neg hearn]
        exact hcard

end Solvio.Lib.Shared
