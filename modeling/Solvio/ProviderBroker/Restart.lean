import Solvio.ProviderBroker.Hosted
import Solvio.ProviderBroker.DayCap

namespace Solvio.ProviderBroker
open Solvio.Lib

/-! ### The day after a restart -/

/-- A new process counts on where the old one was. -/
def CountsOn (z : HostZone) (d : Service) (name token : String) (now : Time) : Prop :=
  ∀ p, d.broker.books name = some p →
    ∃ q, (Service.registerPrincipal z name token now ⟨.init, d.ledger⟩).broker.books name =
        some q ∧
      q.day = (p.rollDay now).day ∧ q.requestsToday = (p.rollDay now).requestsToday ∧
      q.tokensToday = (p.rollDay now).tokensToday

def Act.rotates {z : HostZone} : Act z → Bool
  | turn s => match s.turn with
    | .start (Visit.rotateNow _ _) => true
    | _ => false
  | restart _ => false

/-- All that the step meets is of the day of the one reading. -/
def Deed.within {z : HostZone} (n : Time) (e : Deed z) : Bool :=
  decide (e.call.now = n) && !e.call.rotates &&
    e.pre.waiting.all (fun s => decide (utcDay n ≤ utcDay (Seat.frame s).moment)) &&
    e.pre.shared.broker.registry.principals.rows.all
      (fun q => q.day.all (fun d => decide (d ≤ utcDay n))) &&
    e.pre.shared.ledger.rows.all
      (fun row => decide (z.utcMidnight n ≤ row.moment ∧ utcDay row.moment = utcDay n)) &&
    decide (e.pre.shared.ledger.rows.length < maxRows)

theorem Meets.of_within {z : HostZone} {n : Time} {older : List (Deed z)} {e : Deed z}
    (holder : ∀ e' ∈ older, e'.within n = true) (h : e.within n = true) : Meets older e := by
  have hnow : ∀ e' : Deed z, e'.within n = true → e'.call.now = n := by
    intro e' he'
    simp only [Deed.within, Bool.and_eq_true, decide_eq_true_eq] at he'
    exact he'.1.1.1.1.1
  simp only [Deed.within, Bool.and_eq_true, decide_eq_true_eq, List.all_eq_true,
    Option.all_eq_true, Bool.not_eq_true'] at h
  obtain ⟨⟨⟨⟨⟨hcall, hrotates⟩, hseats⟩, hdays⟩, hrows⟩, hshort⟩ := h
  refine ⟨fun e' he' => ?_, ?_, ?_, ?_, ?_⟩
  · rw [hnow e' (holder e' he'), hcall]
  · rintro ⟨s, i, heard, seat, name, m, p, day, -, -, hat, ht, hp, hday, hlate⟩
    obtain ⟨q, hq, rfl⟩ := Option.map_eq_some_iff.mp hp
    have hle : day ≤ utcDay n := hdays q (Table.mem_of_find hq) day hday
    have hge : utcDay n ≤ utcDay seat.frame.moment := hseats seat (List.mem_of_getElem? hat)
    rw [touches_moment ht] at hlate
    exact absurd (Int.le_trans hle hge) (Int.not_le.mpr hlate)
  · intro s name token hs _ row hrow _
    have hn : s.now = n := by rw [← hcall, hs]; rfl
    obtain ⟨hmidnight, hday⟩ := hrows row hrow
    rw [hn]
    exact ⟨fun _ => hday, fun _ => hmidnight⟩
  · intro s name token hs hturn
    rw [hs, Act.rotates, hturn] at hrotates
    cases hrotates
  · intro row hrow
    rw [Nat.sub_eq_zero_of_le hshort, List.take_zero] at hrow
    cases hrow

theorem meets_of_within {z : HostZone} {n : Time} {log : List (Deed z)}
    (h : ∀ e ∈ log, e.within n = true) : Machine.Each Meets log := by
  induction log with
  | nil => trivial
  | cons e log ih =>
    have hlog := fun e' he' => h e' (List.mem_cons_of_mem e he')
    exact ⟨.of_within hlog (h e (List.mem_cons_self ..)), ih hlog⟩

/-- Central European time in 2024. -/
def sampleZone : HostZone where
  mktime x := if 1711850400000 ≤ x ∧ x < 1729998000000 then x - 7200000 else x - 3600000
  timezone := -3600000

/-- A request that goes out. -/
def sampleSpending (now : Time) : List (Act sampleZone) :=
  [.turn ⟨now, .start (Visit.registerPrincipal "agent-runtime" "k")⟩,
    .turn ⟨now, .start (Visit.openLease "agent-runtime" "task" (now + sampleDay) "lease-1")⟩,
    .turn ⟨now, .start (Visit.request .forward { request := sampleRequest, method := "POST" })⟩,
    .turn ⟨now, .resume 0 ⟨.read sampleBody true, .noCredential⟩⟩,
    .turn ⟨now, .resume 0 ⟨.read [] true, .noCredential⟩⟩]

def sampleSpent (now : Time) : Host sampleZone :=
  (hosted sampleZone).after (hosted sampleZone).init (sampleSpending now)

def sampleDeeds (now : Time) : List (Deed sampleZone) :=
  (hosted sampleZone).history [] (hosted sampleZone).init (sampleSpending now)

theorem sample_spent (now : Time) :
    (hosted sampleZone).Run (fun _ _ => True) (sampleDeeds now) (sampleSpent now) :=
  Machine.Run.history .start (fun _ _ _ => trivial)

theorem sample_past (now later : Time) (h : now ≤ later) : Past (sampleDeeds now) later := by
  intro e he
  rcases Machine.mem_history he with he | he
  · cases he
  · have hcalls : ∀ a ∈ sampleSpending now, a.now = now := by
      intro a ha
      simp only [sampleSpending, List.mem_cons, List.not_mem_nil, or_false] at ha
      rcases ha with rfl | rfl | rfl | rfl | rfl <;> rfl
    exact (hcalls e.call he).trans_le h

end Solvio.ProviderBroker
