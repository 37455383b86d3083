import Solvio.Lib.Holder

namespace Solvio.Voice.Endpoint
open Solvio.Lib

/-! ### The lock of the server -/

/-- `_busy`, and how many sessions are live. -/
structure Server where
  busy : Bool := false
  live : Nat := 0
deriving DecidableEq

/-- An awaited call returns, or something is raised there: an error, or a cancellation. -/
inductive Ended where
  | returned | raised
deriving DecidableEq

/-- The stretches of a connection, each with the await that it begins with. -/
inductive Op where
  | ownerDevice
  | look
  | upgrade
  | sessionProof
  | authenticate
  | tryTake
  | refuse
  | pump
  | close
  | farewell
deriving DecidableEq

/-- How the awaited ends, and whether the peer has proven who it is. -/
structure Outside where
  ended : Ended := .returned
  proven : Bool := true

abbrev Reply : Op → Type
  | .ownerDevice => Option Bool
  | .authenticate => Option Bool
  | .look => Bool
  | .tryTake => Bool
  | _ => Ended

def proof (o : Outside) : Option Bool := if o.ended = .returned then some o.proven else none

def Server.opened (s : Server) : Server := { busy := true, live := s.live + 1 }

/-- The connection is over without having given anything back. -/
def Server.dropped (s : Server) : Server := { s with live := s.live - 1 }

def step : (op : Op) → Outside → Server → Reply op × Server
  | .ownerDevice, o, s => (proof o, s)
  | .authenticate, o, s => (proof o, s)
  | .look, _, s => (s.busy, s)
  | .tryTake, _, s => if s.busy then (false, s) else (true, s.opened)
  | .upgrade, o, s => (o.ended, if o.ended = .returned then s.opened else s)
  | .sessionProof, o, s => (o.ended, if o.ended = .returned then s else s.dropped)
  | .close, o, s =>
    (o.ended, if o.ended = .returned then { s.dropped with busy := false } else s.dropped)
  | .refuse, o, s => (o.ended, s)
  | .pump, o, s => (o.ended, s)
  | .farewell, o, s => (o.ended, s)

abbrev server : Shared Server where
  Op := Op
  Input := Outside
  Reply := Reply
  step := step
  init := {}

abbrev Proc (α : Type) : Type := Prog Op Reply α

def ask (op : Op) : Proc (Reply op) := Prog.request op

/-! ### The connections -/

/-- `try` and `finally` around the pump. Whatever ends it, the session is closed;
what closing raises goes past the rest. -/
def served : Proc Unit := do
  let _ ← ask .pump
  match ← ask .close with
  | .raised => Prog.fail
  | .returned =>
    let _ ← ask .farewell
    return ()

/-- `_handle`, of an iPhone. The session proof is awaited before the `try`. -/
def handle : Proc Unit := do
  match ← ask .ownerDevice with
  | none => Prog.fail
  | some false => return ()
  | some true =>
    if ← ask .look then return ()
    else
      match ← ask .upgrade with
      | .raised => Prog.fail
      | .returned =>
        match ← ask .sessionProof with
        | .raised => Prog.fail
        | .returned => served

/-- `_handle_pi`, of a satellite. -/
def handlePi : Proc Unit := do
  match ← ask .authenticate with
  | none => Prog.fail
  | some false => return ()
  | some true =>
    if ← ask .tryTake then served
    else
      let _ ← ask .refuse
      return ()

inductive Launch : Proc Unit → Prop
  | phone : Launch handle
  | satellite : Launch handlePi

abbrev World : Type := server.World

/-! ### The property -/

/-- Every connection has ended. -/
def AllEnded (W : World) : Prop := ∀ t p, W.tasks t = some p → p = .ret () ∨ p = .fail

/-- The next connection that has proven itself is let in. -/
def Accepts (s : Server) : Prop := ∀ o, (step .look o s).1 = false ∧ (step .tryTake o s).1 = true

/-- One conversation at a time, and the lock is given back. -/
structure OneConversation (W : World) : Prop where
  alone : W.state.live ≤ 1
  locked : W.state.busy = true ↔ W.state.live = 1
  free : AllEnded W → W.state.busy = false ∧ Accepts W.state

/-- What must not happen: another connection has the lock when the upgrade of a
phone returns, the session proof or the closing of a session does not return, a
task is gone without its `finally`. -/
def Regular (W : World) : server.Move → Prop
  | .spawn _ => True
  | .stop _ => False
  | .act t o => ∀ op k, W.tasks t = some (.ask op k) → match op with
    | .upgrade => o.ended = .returned → W.state.busy = false
    | .sessionProof => o.ended = .returned
    | .close => o.ended = .returned
    | _ => True

/-! ### Who holds the lock -/

/-- Who has a session, from the upgrade or the taken lock on. -/
def hold : Shared.Hold server
  | .upgrade, .returned => some true
  | .tryTake, true => some true
  | .sessionProof, .raised => some false
  | .close, _ => some false
  | _, _ => none

theorem served_fits : hold.Fits true served := by
  intro pumped
  refine fun closed => ⟨rfl, ?_⟩
  cases closed with
  | raised => rfl
  | returned => exact fun _ => rfl

theorem handle_fits : hold.Fits false handle := by
  intro owner
  rcases owner with _ | _ | _
  · rfl
  · rfl
  · intro busy
    cases busy with
    | true => rfl
    | false =>
      intro upgraded
      cases upgraded with
      | raised => rfl
      | returned =>
        refine ⟨rfl, fun proven => ?_⟩
        cases proven with
        | raised => exact ⟨rfl, rfl⟩
        | returned => exact served_fits

theorem handle_pi_fits : hold.Fits false handlePi := by
  intro owner
  rcases owner with _ | _ | _
  · rfl
  · rfl
  · intro taken
    cases taken with
    | true => exact ⟨rfl, served_fits⟩
    | false => exact fun _ => rfl

theorem launch_fits {p : Proc Unit} (h : Launch p) : hold.Fits false p := by
  cases h with
  | phone => exact handle_fits
  | satellite => exact handle_pi_fits

/-- The lock is held by the one that has a session. -/
structure Kept (W : World) (holder : Option Nat) : Prop where
  held : Shared.World.Held hold W holder
  busy : W.state.busy = holder.isSome
  live : W.state.live = if holder.isSome then 1 else 0

theorem Kept.one {W : World} {holder : Option Nat} (h : Kept W holder) : OneConversation W where
  alone := by
    rw [h.live]
    split <;> decide
  locked := by
    rw [h.busy, h.live]
    cases holder <;> simp
  free hended := by
    have hbusy : W.state.busy = false := by rw [h.busy, h.held.ended hended]; rfl
    refine ⟨hbusy, fun o => ?_⟩
    simp [step, hbusy]

theorem moved_state {W : World} {t : Nat} {op : Op} {k : Reply op → Proc Unit}
    (ht : W.tasks t = some (.ask op k)) (o : Outside) :
    (W.move (.act t o)).state = (step op o W.state).2 := by
  rw [Shared.World.act_ask ht]

/-- A stretch that neither takes nor gives back leaves the server alone. -/
theorem idle_state {op : Op} {o : Outside} {s : Server}
    (h : hold op (step op o s).1 = none) : (step op o s).2 = s := by
  cases op with
  | upgrade => cases ho : o.ended <;> simp [step, hold, ho] at h ⊢
  | sessionProof => cases ho : o.ended <;> simp [step, hold, ho] at h ⊢
  | tryTake => cases hb : s.busy <;> simp [step, hold, hb] at h ⊢
  | close => cases h
  | _ => rfl

theorem Kept.idle {W : World} {holder : Option Nat} (h : Kept W holder) {t : Nat} {op : Op}
    {k : Reply op → Proc Unit} (ht : W.tasks t = some (.ask op k)) {o : Outside}
    (hop : hold op (step op o W.state).1 = none) : Kept (W.move (.act t o)) holder where
  held := h.held.keep ht o hop
  busy := by rw [moved_state ht, idle_state hop, h.busy]
  live := by rw [moved_state ht, idle_state hop, h.live]

theorem Kept.opens {W : World} {holder : Option Nat} (h : Kept W holder) {t : Nat} {op : Op}
    {k : Reply op → Proc Unit} (ht : W.tasks t = some (.ask op k)) {o : Outside}
    (hfree : W.state.busy = false) (hop : hold op (step op o W.state).1 = some true)
    (hstate : (step op o W.state).2 = W.state.opened) : Kept (W.move (.act t o)) (some t) := by
  have hnone : holder = none := by
    rw [h.busy] at hfree
    simpa using hfree
  subst hnone
  have hlive : W.state.live = 0 := h.live
  refine ⟨h.held.take ht o hop, ?_, ?_⟩
  · rw [moved_state ht, hstate]
    rfl
  · rw [moved_state ht, hstate, Server.opened, hlive]
    rfl

theorem Kept.closes {W : World} {holder : Option Nat} (h : Kept W holder) {t : Nat}
    {k : Reply .close → Proc Unit} (ht : W.tasks t = some (.ask .close k)) {o : Outside}
    (ho : o.ended = .returned) : Kept (W.move (.act t o)) none := by
  obtain ⟨hholder, hheld⟩ := h.held.give ht o rfl
  have hlive : W.state.live = 1 := by simpa [hholder] using h.live
  refine ⟨hheld, ?_, ?_⟩
  · rw [moved_state ht]
    simp [step, ho]
  · rw [moved_state ht]
    simp [step, ho, Server.dropped, hlive]

/-- One stretch of a connection. -/
theorem Kept.step {W : World} {holder : Option Nat} (h : Kept W holder) {t : Nat} {o : Outside}
    (hregular : Regular W (.act t o)) : ∃ holder', Kept (W.move (.act t o)) holder' := by
  cases ht : W.tasks t with
  | none =>
    rw [Shared.World.act_other (fun op k hask => by rw [ht] at hask; cases hask)]
    exact ⟨holder, h⟩
  | some p =>
    cases p with
    | ret a =>
      rw [Shared.World.act_other (fun op k hask => by rw [ht] at hask; cases hask)]
      exact ⟨holder, h⟩
    | fail =>
      rw [Shared.World.act_other (fun op k hask => by rw [ht] at hask; cases hask)]
      exact ⟨holder, h⟩
    | ask op k =>
      have hop := hregular op k ht
      cases op with
      | upgrade =>
        cases ho : o.ended with
        | returned =>
          exact ⟨some t, h.opens ht (hop ho) (by simp [Endpoint.step, hold, ho])
            (by simp [Endpoint.step, ho])⟩
        | raised => exact ⟨holder, h.idle ht (by simp [Endpoint.step, hold, ho])⟩
      | sessionProof =>
        have ho : o.ended = .returned := hop
        exact ⟨holder, h.idle ht (by simp [Endpoint.step, hold, ho])⟩
      | tryTake =>
        cases hb : W.state.busy with
        | false =>
          exact ⟨some t, h.opens ht hb (by simp [Endpoint.step, hold, hb])
            (by simp [Endpoint.step, hb])⟩
        | true => exact ⟨holder, h.idle ht (by simp [Endpoint.step, hold, hb])⟩
      | close => exact ⟨none, h.closes ht hop⟩
      | _ => exact ⟨holder, h.idle ht rfl⟩

theorem Kept.spawn {W : World} {holder : Option Nat} (h : Kept W holder) {p : Proc Unit}
    (hp : Launch p) : Kept (W.move (.spawn p)) holder where
  held := h.held.spawn (launch_fits hp)
  busy := h.busy
  live := h.live

theorem kept_start : Kept (Shared.World.start server) none where
  held := Shared.World.Held.start
  busy := rfl
  live := rfl

theorem run_kept {W : World} (h : Shared.World.ReachIf Launch Regular W) :
    ∃ holder, Kept W holder := by
  induction h with
  | start => exact ⟨none, kept_start⟩
  | @move W m _ hlaunch hregular ih =>
    obtain ⟨holder, hkept⟩ := ih
    cases m with
    | spawn p => exact ⟨holder, hkept.spawn (hlaunch p rfl)⟩
    | act t o => exact hkept.step hregular
    | stop t => exact hregular.elim

/-- What is not regular breaks it. -/
theorem Kept.breaks {W : World} {holder : Option Nat} (h : Kept W holder) {t : Nat} {o : Outside}
    (hirregular : ¬ Regular W (.act t o)) : ¬ OneConversation (W.move (.act t o)) := by
  intro hone
  refine hirregular (fun op k ht => ?_)
  have hlocked := hone.locked
  have halone := hone.alone
  rw [moved_state ht] at hlocked halone
  cases op with
  | upgrade =>
    intro ho
    by_contra hbusy
    have hlive := h.one.locked.mp (by simpa using hbusy)
    simp [Endpoint.step, ho, Server.opened, hlive] at halone
  | sessionProof =>
    cases ho : o.ended with
    | returned => rfl
    | raised =>
      have hholder := h.held.holds ht (r := .raised) rfl
      have hbusy : W.state.busy = true := by rw [h.busy, hholder]; rfl
      have hlive : W.state.live = 1 := h.one.locked.mp hbusy
      simp [Endpoint.step, ho, Server.dropped, hbusy, hlive] at hlocked
  | close =>
    cases ho : o.ended with
    | returned => rfl
    | raised =>
      have hholder := h.held.holds ht (r := .raised) rfl
      have hbusy : W.state.busy = true := by rw [h.busy, hholder]; rfl
      have hlive : W.state.live = 1 := h.one.locked.mp hbusy
      simp [Endpoint.step, ho, Server.dropped, hbusy, hlive] at hlocked
  | _ => trivial

/-- In every regular run there is one conversation at a time and the lock is given
back; the first step that is not regular breaks it. -/
theorem one_conversation {W : World} (h : Shared.World.ReachIf Launch Regular W) :
    OneConversation W ∧ ∀ t o, Regular W (.act t o) ↔ OneConversation (W.move (.act t o)) := by
  obtain ⟨holder, hkept⟩ := run_kept h
  refine ⟨hkept.one, fun t o => ⟨fun hregular => ?_, fun hone => ?_⟩⟩
  · obtain ⟨_, hkept'⟩ := hkept.step hregular
    exact hkept'.one
  · by_contra hirregular
    exact hkept.breaks hirregular hone

/-- A satellite that is in a conversation. -/
def talking : World :=
  (((Shared.World.start server).move (.spawn handlePi)).move (.act 0 {})).move (.act 0 {})

theorem talking_regular : Shared.World.ReachIf Launch Regular talking := by
  refine .move (.move (.move .start ?_ trivial) (fun p hp => by cases hp) ?_)
    (fun p hp => by cases hp) ?_
  · intro p hp
    cases hp
    exact .satellite
  · intro op k hask
    cases hask
    trivial
  · intro op k hask
    cases hask
    trivial

theorem one_conversation_talking : OneConversation talking ∧ talking.state.live = 1 :=
  ⟨(one_conversation talking_regular).1, rfl⟩

/-- Two phones look before either has been upgraded. -/
def bothUpgraded : World :=
  Shared.World.play server [handle, handle] [(0, {}), (0, {}), (1, {}), (1, {}), (0, {}), (1, {})]

/-- A phone hangs up while its session proof is awaited. -/
def unproven : World :=
  Shared.World.play server [handle] [(0, {}), (0, {}), (0, {}), (0, { ended := .raised })]

theorem sample_launch {ps : List (Proc Unit)} (h : ∀ p ∈ ps, p = handle) : ∀ p ∈ ps, Launch p := by
  intro p hp
  rw [h p hp]
  exact .phone

/-- Two conversations at a time, and a lock that nobody gives back. -/
theorem conversations_overlap :
    (∃ W, Shared.World.Reach Launch W ∧ ¬ OneConversation W ∧ W.state.live = 2) ∧
    ∃ W, Shared.World.Reach Launch W ∧ AllEnded W ∧ W.state.busy = true ∧ ¬ OneConversation W := by
  refine ⟨⟨bothUpgraded, .play (sample_launch (by simp)) _, fun h => ?_, rfl⟩,
    ⟨unproven, .play (sample_launch (by simp)) _, ?_, rfl, fun h => ?_⟩⟩
  · exact absurd h.alone (by decide)
  · intro t p hp
    have hreach : Shared.World.Reach Launch unproven := .play (sample_launch (by simp)) _
    have hnext : unproven.next = 1 := rfl
    obtain rfl : t = 0 := Nat.lt_one_iff.mp (hnext ▸ hreach.spawned hp)
    exact .inr (Option.some.inj hp).symm
  · exact absurd (h.locked.mp rfl) (by decide)

end Solvio.Voice.Endpoint
