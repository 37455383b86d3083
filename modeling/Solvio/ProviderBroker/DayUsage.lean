import Solvio.ProviderBroker.Booked
import Solvio.ProviderBroker.Runs

namespace Solvio.ProviderBroker
open Solvio.Lib

/-! ### The usage of a day -/

def Row.onDay (name : String) (d : Int) (row : Row) : Bool :=
  row.spentBy name && decide (utcDay row.moment = d)

/-- What the ledger has of a principal's UTC day. -/
def BrokerLedger.usedOn (l : BrokerLedger) (name : String) (d : Int) : BrokerLedger.Usage :=
  usageOf (l.rows.filter (Row.onDay name d))

/-- What the counters have of a day. -/
def Principal.usedOn (p : Principal) (d : Int) : BrokerLedger.Usage :=
  if p.day = some d then ⟨p.requestsToday, p.tokensToday⟩ else ⟨0, 0⟩

theorem BrokerLedger.usage_append (rows : List Row) (row : Row) :
    usageOf (rows ++ [row]) =
      ⟨(usageOf rows).requests + 1, (usageOf rows).tokens + row.entry.tokens⟩ := by
  simp [usageOf]

theorem BrokerLedger.usage_ext {u v : Usage} (hr : u.requests = v.requests)
    (ht : u.tokens = v.tokens) : u = v := by
  cases u
  cases v
  simp_all

/-! ### The registration -/

/-- The registration seeds the counters with the rows of the UTC day, and counts
no other ones. -/
structure SeedsToday (z : HostZone) (d : Service) (name token : String) (now : Time) : Prop where
  seeded : ∃ p, (d.registerPrincipal z name token now).broker.books name = some p ∧
    p.day = some (utcDay now) ∧ p.usedOn (utcDay now) = d.ledger.usedOn name (utcDay now)
  rows : d.ledger.rows.filter
      (fun row => row.spentBy name && decide (z.utcMidnight now ≤ row.moment)) =
    d.ledger.rows.filter (Row.onDay name (utcDay now))

/-- The computed midnight parts the principal's rows as the UTC day does. -/
def HostZone.Parts (z : HostZone) (l : BrokerLedger) (name : String) (now : Time) : Prop :=
  ∀ row ∈ l.rows, row.spentBy name = true →
    (z.utcMidnight now ≤ row.moment ↔ utcDay row.moment = utcDay now)

theorem register_books (z : HostZone) (d : Service) (name token : String) (now : Time) :
    (∃ q, (d.registerPrincipal z name token now).broker.books name = some q ∧
      q.day = some (utcDay now) ∧
      q.requestsToday = (d.ledger.usageSince name (z.utcMidnight now)).requests ∧
      q.tokensToday = (d.ledger.usageSince name (z.utcMidnight now)).tokens) ∧
    ∀ k, k ≠ name →
      (d.registerPrincipal z name token now).broker.books k = d.broker.books k := by
  have hset : ∀ k, (d.registerPrincipal z name token now).broker.books k = if k = name then
      (Broker.books { d.broker with
        registry := d.broker.registry.register name (some (registeredCaps name)) token } name).map
        (·.seedDay (d.ledger.usageSince name (z.utcMidnight now)).requests
          (d.ledger.usageSince name (z.utcMidnight now)).tokens now)
      else Broker.books { d.broker with
        registry := d.broker.registry.register name (some (registeredCaps name)) token } k :=
    fun k => Broker.books_set _ _ _ _ _ _ (fun q => rfl)
  constructor
  · rw [hset, if_pos rfl, Broker.books_register, if_pos rfl]
    exact ⟨_, rfl, rfl, rfl, rfl⟩
  · intro k hk
    rw [hset, if_neg hk, Broker.books_register, if_neg hk]

theorem filter_eq_iff {α : Type} {p q : α → Bool} {xs : List α} :
    xs.filter p = xs.filter q ↔ ∀ x ∈ xs, p x = q x := by
  refine ⟨fun h x hx => ?_, fun h => List.filter_congr h⟩
  have hmem : x ∈ xs.filter p ↔ x ∈ xs.filter q := by rw [h]
  rw [List.mem_filter, List.mem_filter] at hmem
  exact Bool.eq_iff_iff.mpr (by simpa [hx] using hmem)

/-- The seed is right exactly if the computed midnight parts the rows. -/
theorem seeds_iff (z : HostZone) (d : Service) (name token : String) (now : Time) :
    SeedsToday z d name token now ↔ z.Parts d.ledger name now := by
  have hrows : d.ledger.rows.filter
        (fun row => row.spentBy name && decide (z.utcMidnight now ≤ row.moment)) =
      d.ledger.rows.filter (Row.onDay name (utcDay now)) ↔ z.Parts d.ledger name now := by
    rw [filter_eq_iff]
    refine forall_congr' fun row => imp_congr_right fun _ => ?_
    unfold Row.onDay
    cases row.spentBy name <;> simp
  refine ⟨fun h => hrows.mp h.rows, fun h => ⟨?_, hrows.mpr h⟩⟩
  obtain ⟨⟨q, hq, hday, hreq, htok⟩, -⟩ := register_books z d name token now
  refine ⟨q, hq, hday, ?_⟩
  rw [Principal.usedOn, if_pos hday, hreq, htok, BrokerLedger.usedOn, ← hrows.mpr h]
  rfl

/-- A zone that has its standard offset at that midnight, and no row of a later
day: then the midnight is the right one. -/
theorem HostZone.parts_standard {z : HostZone} {l : BrokerLedger} {name : String} {now : Time}
    (hz : z.mktime (utcDay now * 86400000) = utcDay now * 86400000 + z.timezone)
    (hlater : ∀ row ∈ l.rows, row.spentBy name = true → utcDay row.moment ≤ utcDay now) :
    z.Parts l name now := by
  intro row hrow hspent
  have hle := hlater row hrow hspent
  have hmidnight : z.utcMidnight now = utcDay now * 86400000 := by
    unfold utcMidnight
    rw [hz]
    exact Int.add_sub_cancel _ _
  have hday : utcDay now * 86400000 ≤ row.moment ↔ utcDay now ≤ utcDay row.moment :=
    (Int.le_ediv_iff_mul_le (by decide)).symm
  rw [hmidnight, hday]
  exact ⟨fun h => Int.le_antisymm hle h, fun h => Int.le_of_eq h.symm⟩

/-! ### The ledger's usage of a day -/

namespace BrokerLedger

/-- The rows are numbered, and the next number is fresh. -/
structure Numbered (l : BrokerLedger) : Prop where
  nodup : (l.rows.map Row.id).Nodup
  below : ∀ row ∈ l.rows, row.id < l.nextId

theorem newest_concat (rows : List Row) (row : Row) :
    newest (rows ++ [row]) = rows.drop (rows.length + 1 - maxRows) ++ [row] := by
  have hlen : rows.length + 1 - maxRows ≤ rows.length := by
    unfold maxRows
    omega
  unfold newest
  rw [List.length_append, List.length_singleton, List.drop_append_of_le_length hlen]

theorem mem_newest {rows : List Row} {row r : Row} (h : r ∈ newest (rows ++ [row])) :
    r ∈ rows ∨ r = row := by
  have hmem : r ∈ rows ++ [row] := List.mem_of_mem_drop h
  simpa using hmem

/-- What is not among the oldest rows is kept. -/
theorem kept_row {rows : List Row} {r : Row} (row : Row) (hr : r ∈ rows)
    (hold : r ∉ rows.take (rows.length + 1 - maxRows)) : r ∈ newest (rows ++ [row]) := by
  rw [newest_concat]
  rw [← List.take_append_drop (rows.length + 1 - maxRows) rows] at hr
  exact List.mem_append_left _ ((List.mem_append.mp hr).resolve_left hold)

theorem filter_newest {rows : List Row} {P : Row → Bool} (row : Row)
    (hold : ∀ r ∈ rows.take (rows.length + 1 - maxRows), P r = false) :
    (newest (rows ++ [row])).filter P = (rows ++ [row]).filter P := by
  have hnil : (rows.take (rows.length + 1 - maxRows)).filter P = [] :=
    List.filter_eq_nil_iff.mpr (fun r hr => by simp [hold r hr])
  have hrows : rows.filter P = (rows.drop (rows.length + 1 - maxRows)).filter P := by
    conv_lhs => rw [← List.take_append_drop (rows.length + 1 - maxRows) rows]
    rw [List.filter_append, hnil, List.nil_append]
  rw [newest_concat, List.filter_append, List.filter_append, hrows]

theorem Numbered.record {l l' : BrokerLedger} {m : Time} {e : Entry} (h : l.Numbered)
    (hrows : l'.rows = newest (l.rows ++ [⟨l.nextId, m, e⟩])) (hnext : l'.nextId = l.nextId + 1) :
    l'.Numbered where
  nodup := by
    rw [hrows]
    refine List.Nodup.sublist ((List.drop_sublist _ _).map Row.id) ?_
    rw [List.map_append, List.map_singleton, List.nodup_append]
    refine ⟨h.nodup, List.nodup_singleton _, fun a ha b hb => ?_⟩
    obtain ⟨row, hrow, rfl⟩ := List.mem_map.mp ha
    rw [List.mem_singleton] at hb
    subst hb
    exact Nat.ne_of_lt (h.below row hrow)
  below row hrow := by
    rw [hrows] at hrow
    rw [hnext]
    rcases mem_newest hrow with hrow | rfl
    · exact Nat.lt_succ_of_lt (h.below row hrow)
    · exact Nat.lt_succ_self _

theorem settle_ids (l : BrokerLedger) (id i o b c : Nat) (x : Outcome) (t : TokenSource) :
    (l.settle id i o b c x t).rows.map Row.id = l.rows.map Row.id := by
  unfold settle
  rw [List.map_map]
  refine List.map_congr_left (fun row _ => ?_)
  simp only [Function.comp]
  split <;> rfl

theorem Numbered.settle {l : BrokerLedger} (h : l.Numbered) (id i o b c : Nat) (x : Outcome)
    (t : TokenSource) : (l.settle id i o b c x t).Numbered where
  nodup := by
    rw [settle_ids]
    exact h.nodup
  below row hrow := by
    obtain ⟨r, hr, rfl⟩ := List.mem_map.mp hrow
    have hlt : r.id < l.nextId := h.below r hr
    split <;> exact hlt

/-- A row that does not count is on no day. -/
theorem used_noted {l l' : BrokerLedger} {m : Time} (h : Noted l m l') {name : String} {d : Int}
    (hold : ∀ r ∈ l.rows.take (l.rows.length + 1 - maxRows), r.onDay name d = false) :
    l'.usedOn name d = l.usedOn name d := by
  cases h with
  | same => rfl
  | row e l' hc hrows hnext =>
    have hnew : Row.onDay name d ⟨l.nextId, m, e⟩ = false := by
      simp [Row.onDay, Row.spentBy, hc]
    rw [usedOn, hrows, filter_newest _ hold, List.filter_append,
      List.filter_cons_of_neg (by simp [hnew]), List.filter_nil, List.append_nil]
    rfl

/-- A forwarding's row is on the day of its reading. -/
theorem used_forwarded {l l' : BrokerLedger} {m : Time} {e : Entry} (he : e.outcome = .forwarded)
    (hrows : l'.rows = newest (l.rows ++ [⟨l.nextId, m, e⟩])) {name : String} {d : Int}
    (hold : ∀ r ∈ l.rows.take (l.rows.length + 1 - maxRows), r.onDay name d = false) :
    l'.usedOn name d = if e.principal = name ∧ utcDay m = d then
      ⟨(l.usedOn name d).requests + 1, (l.usedOn name d).tokens + e.tokens⟩
      else l.usedOn name d := by
  have hnew : Row.onDay name d ⟨l.nextId, m, e⟩ =
      decide (e.principal = name ∧ utcDay m = d) := by
    simp [Row.onDay, Row.spentBy, he, Outcome.counts]
  rw [usedOn, hrows, filter_newest _ hold, List.filter_append]
  by_cases hon : e.principal = name ∧ utcDay m = d
  · rw [List.filter_cons_of_pos (by rw [hnew]; simpa using hon), List.filter_nil, if_pos hon]
    exact usage_append _ _
  · rw [List.filter_cons_of_neg (by rw [hnew]; simpa using hon), List.filter_nil, if_neg hon,
      List.append_nil]
    rfl

/-- The sum over rows with one row changed. -/
theorem sum_changed {estimate : Nat} (rows : List Row) (id n : Nat)
    (hnd : (rows.map Row.id).Nodup) (hrow : ∀ r ∈ rows, r.id = id → r.entry.tokens = estimate) :
    (rows.map (fun r => if r.id = id then n else r.entry.tokens)).sum +
        (if id ∈ rows.map Row.id then estimate else 0) =
      (rows.map (fun r => r.entry.tokens)).sum + if id ∈ rows.map Row.id then n else 0 := by
  induction rows with
  | nil => rfl
  | cons r rows ih =>
    rw [List.map_cons, List.nodup_cons] at hnd
    have ih := ih hnd.2 (fun r' hr' => hrow r' (List.mem_cons_of_mem _ hr'))
    simp only [List.map_cons, List.sum_cons, List.mem_cons]
    by_cases hid : r.id = id
    · have hrest : id ∉ rows.map Row.id := hid ▸ hnd.1
      rw [if_neg hrest, if_neg hrest] at ih
      rw [if_pos hid, if_pos (Or.inl hid.symm), if_pos (Or.inl hid.symm),
        hrow r (List.mem_cons_self ..) hid]
      omega
    · have hiff : (id = r.id ∨ id ∈ rows.map Row.id) ↔ id ∈ rows.map Row.id :=
        ⟨fun h => h.resolve_left (Ne.symm hid), Or.inr⟩
      rw [if_neg hid]
      simp only [hiff]
      omega

/-- What the settlement of a forwarding does to a day's usage. -/
theorem used_settled {l : BrokerLedger} (h : l.Numbered) {id i o b c : Nat} {x : Outcome}
    {t : TokenSource} (hx : x.counts = true) {p : Posted}
    (hrow : ∀ r ∈ l.rows, r.id = id → r.moment = p.moment ∧ r.entry.principal = p.principal ∧
      r.entry.outcome.counts = true ∧ r.entry.tokens = p.estimate) (name : String) (d : Int) :
    ((l.settle id i o b c x t).usedOn name d).requests = (l.usedOn name d).requests ∧
    ((l.settle id i o b c x t).usedOn name d).tokens +
        (if id ∈ (l.rows.filter (Row.onDay name d)).map Row.id then p.estimate else 0) =
      (l.usedOn name d).tokens +
        if id ∈ (l.rows.filter (Row.onDay name d)).map Row.id then i + o else 0 := by
  have hon : ∀ r ∈ l.rows, Row.onDay name d (if r.id = id then
      { r with entry := { r.entry with
        inputTokens := i, outputTokens := o, responseBytes := b, statusCode := c, outcome := x
        tokensSource := some t } } else r) = Row.onDay name d r := by
    intro r hr
    split
    · rename_i hid
      simp only [Row.onDay, Row.spentBy, hx, (hrow r hr hid).2.2.1]
    · rfl
  have hfilter : (l.settle id i o b c x t).rows.filter (Row.onDay name d) =
      (l.rows.filter (Row.onDay name d)).map (fun r => if r.id = id then
        { r with entry := { r.entry with
          inputTokens := i, outputTokens := o, responseBytes := b, statusCode := c, outcome := x
          tokensSource := some t } } else r) := by
    unfold settle
    rw [List.filter_map]
    exact congrArg _ (List.filter_congr hon)
  have hsum := sum_changed (l.rows.filter (Row.onDay name d)) id (i + o)
    (h.nodup.sublist (List.filter_sublist.map Row.id))
    (fun r hr hid => (hrow r (List.mem_filter.mp hr).1 hid).2.2.2)
  simp only [usedOn, usageOf, hfilter, List.length_map, List.map_map]
  refine ⟨trivial, ?_⟩
  rw [← hsum]
  congr 2
  refine List.map_congr_left (fun r _ => ?_)
  simp only [Function.comp]
  split <;> rfl

end BrokerLedger

namespace Principal

/-- Rolling on leaves what is counted for the days from there on. -/
theorem used_roll {p : Principal} {m : Time} {d : Int}
    (hday : ∀ d', p.day = some d' → d' ≤ utcDay m) (hd : utcDay m ≤ d) :
    (p.rollDay m).usedOn d = p.usedOn d := by
  by_cases hsame : p.day = some (utcDay m)
  · rw [roll_same hsame]
  · have hnot : p.day ≠ some d := fun h =>
      hsame (h.trans (congrArg some (Int.le_antisymm (hday d h) hd)))
    obtain ⟨hreq, htok⟩ := roll_other hsame
    unfold usedOn
    rw [roll_day, if_neg hnot, hreq, htok]
    split <;> rfl

theorem used_precharge {p : Principal} {m : Time} {estimate : Nat} {d : Int}
    (hday : ∀ d', p.day = some d' → d' ≤ utcDay m) (hd : utcDay m ≤ d)
    (hok : (p.precharge estimate m).1 = .ok ()) :
    (p.precharge estimate m).2.usedOn d = if utcDay m = d then
      ⟨(p.usedOn d).requests + 1, (p.usedOn d).tokens + estimate⟩ else p.usedOn d := by
  obtain ⟨-, hpre⟩ := precharge_ok hok
  have hroll := used_roll hday hd
  rw [hpre, ← hroll]
  unfold usedOn
  simp only [roll_day, Option.some.injEq]
  split <;> simp_all

theorem used_replaced {p : Principal} {m : Time} {estimate reported : Nat} {d : Int}
    (hday : ∀ d', p.day = some d' → d' ≤ utcDay m) (hd : utcDay m ≤ d) :
    (p.replaceEstimate estimate reported m).usedOn d = if utcDay m = d then
      ⟨(p.usedOn d).requests, (p.usedOn d).tokens + reported - estimate⟩ else p.usedOn d := by
  have hroll := used_roll hday hd
  have hpost : p.replaceEstimate estimate reported m = { p.rollDay m with
      tokensToday := (p.rollDay m).tokensToday + reported - estimate } := rfl
  rw [hpost, ← hroll]
  unfold usedOn
  simp only [roll_day, Option.some.injEq]
  split <;> simp_all

theorem used_settled {q : Principal} {p : Posted} {reported : Option Nat} {d : Int}
    (hday : reported.isSome → ∀ d', q.day = some d' → d' ≤ utcDay p.moment)
    (hd : utcDay p.moment ≤ d) :
    (q.settled p reported).usedOn d = if utcDay p.moment = d then
      ⟨(q.usedOn d).requests, (q.usedOn d).tokens + reported.getD p.estimate - p.estimate⟩
      else q.usedOn d := by
  cases reported with
  | none =>
    rw [Option.getD_none, Nat.add_sub_cancel, ite_self]
    rfl
  | some n => exact used_replaced (p := { q with inflight := q.inflight - 1 }) (hday rfl) hd

end Principal

end Solvio.ProviderBroker
