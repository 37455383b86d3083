import Solvio.ProviderBroker.DayUsage

namespace Solvio.ProviderBroker
open Solvio.Lib

/-! ### The process and its restarts -/

/-- What happens to the service: a turn of its loop, or the start of a new
process, which finds the ledger only. -/
inductive Act (z : HostZone) where
  | turn (s : EventLoop.Step (service z))
  | restart (now : Time)

def Act.now {z : HostZone} : Act z → Time
  | turn s => s.now
  | restart now => now

abbrev Host (z : HostZone) : Type := EventLoop.World (service z)

def hosted (z : HostZone) : Machine (Host z) where
  Call := Act z
  Reply _ := Unit
  step a w := ((), match a with
    | .turn s => (EventLoop.run s w).2
    | .restart _ => ⟨⟨.init, w.shared.ledger⟩, []⟩)
  init := ⟨⟨.init, {}⟩, []⟩

abbrev Deed (z : HostZone) : Type := (hosted z).Entry

/-- The reading that the loop has used, and the one that it has now. -/
def Seat.row? : Seat → Option Nat
  | reading _ _ => none
  | forwarding row _ _ _ => some row

/-- A turn that books with a reading of an earlier day than the principal's. -/
def Deed.late {z : HostZone} (e : Deed z) : Prop :=
  ∃ s i h seat name m p day, e.call = .turn s ∧ s.turn = .resume i h ∧
    e.pre.waiting[i]? = some seat ∧
    touches e.pre.shared.broker seat.frame (Heard.answer h) = some (name, m) ∧
    e.pre.shared.broker.books name = some p ∧ p.day = some day ∧ utcDay m < day

/-- What a step may do for the counters to stay the ledger's. -/
structure Meets {z : HostZone} (older : List (Deed z)) (e : Deed z) : Prop where
  clock : ∀ n ∈ older, n.call.now ≤ e.call.now
  punctual : ¬ e.late
  parts : ∀ s name token, e.call = .turn s → s.turn = .start (Visit.registerPrincipal name token) →
    z.Parts e.pre.shared.ledger name s.now
  known : ∀ s name token, e.call = .turn s → s.turn = .start (Visit.rotateNow name token) →
    e.pre.shared.broker.books name ≠ none
  room : ∀ row ∈ e.pre.shared.ledger.rows.take (e.pre.shared.ledger.rows.length + 1 - maxRows),
    row.entry.outcome.counts = true → utcDay row.moment < utcDay e.call.now

/-! ### The counters are the ledger's -/

/-- No reading of the history is of a later day. -/
def Current {z : HostZone} (h : List (Deed z)) (d : Int) : Prop :=
  ∀ e ∈ h, utcDay e.call.now ≤ d

def Past {z : HostZone} (h : List (Deed z)) (now : Time) : Prop := ∀ e ∈ h, e.call.now ≤ now

/-- The row of a forwarding in progress. -/
structure Outstanding (l : BrokerLedger) (d : Int → Prop) (row : Nat) (o : Outcome) (p : Posted) :
    Prop where
  counts : o.counts = true
  only : ∀ r ∈ l.rows, r.id = row → r.moment = p.moment ∧ r.entry.principal = p.principal ∧
    r.entry.outcome.counts = true ∧ r.entry.tokens = p.estimate
  there : d (utcDay p.moment) → ∃ r ∈ l.rows, r.id = row

/-- Along a history, the counters of a day that is not over are the ledger's. -/
structure Level {z : HostZone} (h : List (Deed z)) (w : Host z) : Prop where
  numbered : w.shared.ledger.Numbered
  dated : ∀ now, Past h now → ∀ row ∈ w.shared.ledger.rows, row.moment ≤ now
  reads : ∀ now, Past h now → ∀ s ∈ w.waiting, (Seat.frame s).moment ≤ now
  days : ∀ now, Past h now → ∀ name p d, w.shared.broker.books name = some p →
    p.day = some d → d ≤ utcDay now
  apart : (w.waiting.filterMap Seat.row?).Nodup
  issued : ∀ s ∈ w.waiting, ∀ row ∈ Seat.row? s, row < w.shared.ledger.nextId
  outstanding : ∀ row o p phase, Seat.forwarding row o p phase ∈ w.waiting →
    Outstanding w.shared.ledger (Current h) row o p
  level : ∀ name p d, w.shared.broker.books name = some p → Current h d →
    p.usedOn d = w.shared.ledger.usedOn name d

/-- The row of a forwarding is counted on the day of its reading. -/
theorem Outstanding.on_day {l : BrokerLedger} {D : Int → Prop} {row : Nat} {o : Outcome}
    {p : Posted} (h : Outstanding l D row o p) {name : String} {d : Int} (hd : D d) :
    row ∈ (l.rows.filter (Row.onDay name d)).map Row.id ↔
      p.principal = name ∧ utcDay p.moment = d := by
  constructor
  · intro hmem
    obtain ⟨r, hr, hid⟩ := List.mem_map.mp hmem
    obtain ⟨hr, hon⟩ := List.mem_filter.mp hr
    obtain ⟨hmoment, hprincipal, -, -⟩ := h.only r hr hid
    simp only [Row.onDay, Row.spentBy, Bool.and_eq_true, decide_eq_true_eq] at hon
    exact ⟨hprincipal ▸ hon.1.1, hmoment ▸ hon.2⟩
  · rintro ⟨rfl, rfl⟩
    obtain ⟨r, hr, hid⟩ := h.there hd
    obtain ⟨hmoment, hprincipal, hcounts, -⟩ := h.only r hr hid
    refine List.mem_map.mpr ⟨r, List.mem_filter.mpr ⟨hr, ?_⟩, hid⟩
    simp only [Row.onDay, Row.spentBy, hmoment, hprincipal, hcounts, decide_true, Bool.and_self]

/-- The row is charged with what the counters are. -/
theorem Posted.settled_tokens (p : Posted) (aborted : Bool) :
    (settledCharge p.sniffer.seen p.sniffer.inputTokens p.sniffer.outputTokens p.estimate
        p.requestBytes p.sent aborted p.status).1 +
      (settledCharge p.sniffer.seen p.sniffer.inputTokens p.sniffer.outputTokens p.estimate
        p.requestBytes p.sent aborted p.status).2.1 = p.charge aborted := by
  unfold charge reported settledCharge
  split
  · rfl
  · split <;> rfl

theorem Current.cons {z : HostZone} {h : List (Deed z)} {e : Deed z} {d : Int}
    (hd : Current (e :: h) d) : utcDay e.call.now ≤ d ∧ Current h d :=
  ⟨hd e (List.mem_cons_self ..), fun n hn => hd n (List.mem_cons_of_mem e hn)⟩

theorem Past.cons {z : HostZone} {h : List (Deed z)} {e : Deed z} {now : Time}
    (hp : Past (e :: h) now) : e.call.now ≤ now ∧ Past h now :=
  ⟨hp e (List.mem_cons_self ..), fun n hn => hp n (List.mem_cons_of_mem e hn)⟩

theorem day_le {a b : Time} (h : a ≤ b) : utcDay a ≤ utcDay b := Int.ediv_le_ediv (by decide) h

namespace Meets

variable {z : HostZone} {h : List (Deed z)} {e : Deed z}

/-- The rows that may fall out are on no day that is not over. -/
theorem old (hm : Meets h e) {name : String} {d : Int} (hd : utcDay e.call.now ≤ d) :
    ∀ r ∈ e.pre.shared.ledger.rows.take (e.pre.shared.ledger.rows.length + 1 - maxRows),
      r.onDay name d = false := by
  intro r hr
  by_contra hon
  simp only [Row.onDay, Row.spentBy, Bool.not_eq_false, Bool.and_eq_true, decide_eq_true_eq] at hon
  obtain ⟨⟨-, hcounts⟩, hday⟩ := hon
  exact absurd (hm.room r hr hcounts) (Int.not_lt.mpr (hday ▸ hd))

theorem outstanding (hm : Meets h e) {l : BrokerLedger} {m : Time} {x : Entry}
    (hrows : l.rows = BrokerLedger.newest
      (e.pre.shared.ledger.rows ++ [⟨e.pre.shared.ledger.nextId, m, x⟩])) {row : Nat} {o : Outcome}
    {p : Posted} (hrow : row < e.pre.shared.ledger.nextId)
    (ho : Outstanding e.pre.shared.ledger (Current h) row o p) :
    Outstanding l (Current (e :: h)) row o p where
  counts := ho.counts
  only r hr hid := by
    rw [hrows] at hr
    rcases BrokerLedger.mem_newest hr with hr | rfl
    · exact ho.only r hr hid
    · exact absurd hid.symm (Nat.ne_of_lt hrow)
  there hd := by
    obtain ⟨hnow, hcur⟩ := hd.cons
    obtain ⟨r, hr, hid⟩ := ho.there hcur
    refine ⟨r, ?_, hid⟩
    rw [hrows]
    refine BrokerLedger.kept_row _ hr (fun hold => ?_)
    obtain ⟨hmoment, -, hcounts, -⟩ := ho.only r hr hid
    exact absurd (hm.room r hold hcounts) (Int.not_lt.mpr (hmoment ▸ hnow))

end Meets

/-- The same counts from a day on, and no later day than the reading's. -/
structure SameFrom (now : Time) (p p' : Principal) : Prop where
  used : ∀ d, utcDay now ≤ d → p'.usedOn d = p.usedOn d
  day : ∀ d, p'.day = some d → d ≤ utcDay now ∨ p.day = some d

theorem SameFrom.refl (now : Time) (p : Principal) : SameFrom now p p :=
  ⟨fun _ _ => rfl, fun _ h => Or.inr h⟩

theorem SameFrom.roll {p : Principal} {m now : Time} (hm : m ≤ now)
    (hday : ∀ d, p.day = some d → d ≤ utcDay m) : SameFrom now p (p.rollDay m) where
  used d hd := Principal.used_roll hday (Int.le_trans (day_le hm) hd)
  day d hd := by
    rw [Principal.roll_day] at hd
    cases hd
    exact Or.inl (day_le hm)

/-- A seat that was there, a new request, or a forwarding at its next await. -/
inductive FromSeats (now : Time) (before : List Seat) : Seat → Prop
  | same (s : Seat) : s ∈ before → FromSeats now before s
  | reading (w : Wire) (r : Reading) : r.moment ≤ now → FromSeats now before (.reading w r)
  | forwarding (row : Nat) (o o' : Outcome) (p p' : Posted) (phase phase' : Phase) :
      .forwarding row o p phase ∈ before → (o.counts = true → o'.counts = true) →
      p'.principal = p.principal → p'.moment = p.moment → p'.estimate = p.estimate →
      FromSeats now before (.forwarding row o' p' phase')

namespace Broker

theorem rotate_books {b : Broker} {name : String} (hname : b.books name ≠ none)
    (token k : String) : (b.rotate name token).books k = b.books k := by
  rcases b.rotate_opened name token k with hk | ⟨hnone, -⟩
  · exact hk
  · by_cases hn : k = name
    · exact absurd (hn ▸ hnone) hname
    · rw [rotate, books_abort, books_register, if_neg hn]

/-- A closed lease is a known principal's. -/
theorem close_books (b : Broker) (leaseId token : String) (now : Time) (k : String) :
    (b.start (.closeLease leaseId token) now).2.books k = b.books k := by
  have hclose : ∀ k, Broker.books { b with
      registry := (b.registry.closeLease leaseId now).2 } k = b.books k :=
    fun k => Registry.books_close ..
  have hknown : ∀ name, (b.registry.closeLease leaseId now).1 = some name →
      b.books name ≠ none := by
    intro name hname
    unfold Registry.closeLease at hname
    split at hname
    · cases hname
    · rename_i p hp
      simp only at hname
      split at hname <;> cases hname
      have hfind := Table.find_of_mem (List.mem_of_find?_eq_some hp)
      unfold books Registry.books Registry.principal?
      rw [show b.registry.principals.find? p.name = some p from hfind]
      nofun
  simp only [start]
  split
  · exact hclose k
  · rename_i name hname
    simp only
    split
    · exact hclose k
    · rw [rotate_books]
      · exact hclose k
      · rw [hclose]
        exact hknown name hname

end Broker

/-! ### The seats around a turn -/

section Seats

variable {seats seats' before behind : List Seat} {s s' : Seat}

theorem seat_mem (hseats : seats = before ++ s :: behind) : s ∈ seats := by
  rw [hseats]
  exact List.mem_append_right _ (List.mem_cons_self ..)

theorem seat_turned (hseats : seats = before ++ s :: behind)
    (hseats' : seats' = before ++ [s'] ++ behind) {x : Seat} (hx : x ∈ seats') :
    x ∈ seats ∨ x = s' := by
  rw [hseats'] at hx
  rw [hseats]
  simp only [List.append_assoc, List.singleton_append, List.mem_append, List.mem_cons] at hx ⊢
  tauto

theorem seat_left (hseats : seats = before ++ s :: behind) (hseats' : seats' = before ++ behind)
    {x : Seat} (hx : x ∈ seats') : x ∈ seats := by
  rw [hseats'] at hx
  rw [hseats]
  rw [List.mem_append] at hx ⊢
  exact hx.imp_right (List.mem_cons_of_mem s)

/-- A new row is no other seat's. -/
theorem apart_posted {row : Nat} (hapart : (seats.filterMap Seat.row?).Nodup)
    (hseats : seats = before ++ s :: behind) (hseats' : seats' = before ++ [s'] ++ behind)
    (hs : s.row? = none) (hs' : s'.row? = some row)
    (hfresh : ∀ x ∈ seats, ∀ n ∈ x.row?, n < row) : (seats'.filterMap Seat.row?).Nodup := by
  rw [hseats, List.filterMap_append, List.filterMap_cons_none hs] at hapart
  rw [hseats', List.append_assoc, List.filterMap_append, List.singleton_append,
    List.filterMap_cons_some hs']
  refine List.nodup_middle.mpr (List.nodup_cons.mpr ⟨fun hin => ?_, hapart⟩)
  rw [← List.filterMap_append, List.mem_filterMap] at hin
  obtain ⟨x, hx, hrow⟩ := hin
  exact Nat.lt_irrefl _ (hfresh x (seat_left hseats rfl hx) _ hrow)

theorem apart_turned (hapart : (seats.filterMap Seat.row?).Nodup)
    (hseats : seats = before ++ s :: behind) (hseats' : seats' = before ++ [s'] ++ behind)
    (hrow : s'.row? = s.row?) : (seats'.filterMap Seat.row?).Nodup := by
  have hsame : seats'.filterMap Seat.row? = seats.filterMap Seat.row? := by
    rw [hseats, hseats', List.append_assoc, List.singleton_append, List.filterMap_append,
      List.filterMap_append]
    cases hs : s.row? with
    | none => rw [List.filterMap_cons_none hs, List.filterMap_cons_none (hrow.trans hs)]
    | some n => rw [List.filterMap_cons_some hs, List.filterMap_cons_some (hrow.trans hs)]
  rw [hsame]
  exact hapart

theorem apart_left (hapart : (seats.filterMap Seat.row?).Nodup)
    (hseats : seats = before ++ s :: behind) (hseats' : seats' = before ++ behind) :
    (seats'.filterMap Seat.row?).Nodup ∧
      ∀ x ∈ seats', ∀ n ∈ x.row?, s.row? ≠ some n := by
  have hsub : ((before ++ behind).filterMap Seat.row?).Sublist
      ((before ++ s :: behind).filterMap Seat.row?) :=
    List.Sublist.filterMap _ (List.Sublist.append_left (List.sublist_cons_self s behind) before)
  rw [hseats] at hapart
  rw [hseats']
  refine ⟨hapart.sublist hsub, fun x hx n hn hs => ?_⟩
  rw [List.filterMap_append, List.filterMap_cons_some hs] at hapart
  obtain ⟨hnot, -⟩ := List.nodup_cons.mp (List.nodup_middle.mp hapart)
  rw [← List.filterMap_append] at hnot
  exact hnot (List.mem_filterMap.mpr ⟨x, hx, hn⟩)

end Seats

namespace Level

variable {z : HostZone} {h : List (Deed z)} {e : Deed z} {w' : Host z}

/-- A turn that counts nothing. -/
theorem quiet (hl : Level h e.pre) (hm : Meets h e) {m : Time} (hmoment : m ≤ e.call.now)
    (hnoted : Noted e.pre.shared.ledger m w'.shared.ledger)
    (hbooks : ∀ k p', w'.shared.broker.books k = some p' →
      ∃ p, e.pre.shared.broker.books k = some p ∧ SameFrom e.call.now p p')
    (hapart : (w'.waiting.filterMap Seat.row?).Nodup)
    (hseats : ∀ s ∈ w'.waiting, FromSeats e.call.now e.pre.waiting s) : Level (e :: h) w' := by
  have hnext : e.pre.shared.ledger.nextId ≤ w'.shared.ledger.nextId := by
    generalize w'.shared.ledger = l at hnoted
    cases hnoted with
    | same => exact Nat.le_refl _
    | row _ _ _ _ hnext => omega
  have hout : ∀ row o p phase, Seat.forwarding row o p phase ∈ e.pre.waiting →
      Outstanding w'.shared.ledger (Current (e :: h)) row o p := by
    intro row o p phase hs
    have ho := hl.outstanding row o p phase hs
    have hrow := hl.issued _ hs row rfl
    generalize w'.shared.ledger = l at hnoted
    cases hnoted with
    | same => exact ⟨ho.counts, ho.only, fun hd => ho.there hd.cons.2⟩
    | row x l hc hrows hid => exact hm.outstanding hrows hrow ho
  refine ⟨?_, fun now hnow row hrow => ?_, fun now hnow s hs => ?_,
    fun now hnow name p d hp hd => ?_, hapart, fun s hs row hrow => ?_, fun row o p phase hs => ?_,
    fun name p d hp hd => ?_⟩
  · generalize w'.shared.ledger = l at hnoted
    cases hnoted with
    | same => exact hl.numbered
    | row x l hc hrows hid => exact hl.numbered.record hrows hid
  · obtain ⟨hle, hpast⟩ := hnow.cons
    generalize w'.shared.ledger = l at hnoted hrow
    cases hnoted with
    | same => exact hl.dated now hpast row hrow
    | row x l hc hrows hid =>
      rw [hrows] at hrow
      rcases BrokerLedger.mem_newest hrow with hrow | rfl
      · exact hl.dated now hpast row hrow
      · exact Int.le_trans hmoment hle
  · obtain ⟨hle, hpast⟩ := hnow.cons
    cases hseats s hs with
    | same s hmem => exact hl.reads now hpast s hmem
    | reading w r hr => exact Int.le_trans hr hle
    | forwarding row o o' p p' phase phase' hmem ho hp hmom hest =>
      have hread : p.moment ≤ now := hl.reads now hpast _ hmem
      change p'.moment ≤ now
      rw [hmom]
      exact hread
  · obtain ⟨hle, hpast⟩ := hnow.cons
    obtain ⟨q, hq, hsame⟩ := hbooks name p hp
    rcases hsame.day d hd with hd | hd
    · exact Int.le_trans hd (day_le hle)
    · exact hl.days now hpast name q d hq hd
  · cases hseats s hs with
    | same s hmem => exact Nat.lt_of_lt_of_le (hl.issued s hmem row hrow) hnext
    | reading w r hr => cases hrow
    | forwarding row' o o' p p' phase phase' hmem ho hp hmom hest =>
      cases hrow
      exact Nat.lt_of_lt_of_le (hl.issued _ hmem row rfl) hnext
  · cases hseats _ hs with
    | same s hmem => exact hout row o p phase hmem
    | forwarding row o₀ o' p₀ p' phase₀ phase' hmem ho hp hmom hest =>
      have hold := hout row o₀ p₀ phase₀ hmem
      refine ⟨ho hold.counts, fun r hr hid => ?_, fun hd => ?_⟩
      · rw [hmom, hp, hest]
        exact hold.only r hr hid
      · rw [hmom] at hd
        exact hold.there hd
  · obtain ⟨hnow, hcur⟩ := hd.cons
    obtain ⟨q, hq, hsame⟩ := hbooks name p hp
    rw [hsame.used d hnow, hl.level name q d hq hcur,
      BrokerLedger.used_noted hnoted (hm.old hnow)]

/-- A registration whose midnight parts the rows. -/
theorem registered (hl : Level h e.pre) (hm : Meets h e) {name token : String}
    (hparts : z.Parts e.pre.shared.ledger name e.call.now)
    (hshared : w'.shared = e.pre.shared.registerPrincipal z name token e.call.now)
    (hwaiting : w'.waiting = e.pre.waiting) : Level (e :: h) w' := by
  obtain ⟨⟨q, hq, hqday, hreq, htok⟩, hothers⟩ :=
    register_books z e.pre.shared name token e.call.now
  obtain ⟨p, hp, hpday, hused⟩ :=
    ((seeds_iff z e.pre.shared name token e.call.now).mpr hparts).seeded
  have hledger : w'.shared.ledger = e.pre.shared.ledger := by rw [hshared]; rfl
  have hrows : ∀ row ∈ e.pre.shared.ledger.rows, row.moment ≤ e.call.now :=
    hl.dated _ hm.clock
  have hdays : ∀ now, Past (e :: h) now → ∀ k p d, w'.shared.broker.books k = some p →
      p.day = some d → d ≤ utcDay now := by
    intro now hnow k p' d hp' hd
    rw [hshared] at hp'
    by_cases hk : k = name
    · subst hk
      rw [hq] at hp'
      cases hp'
      rw [hqday] at hd
      cases hd
      exact day_le hnow.cons.1
    · rw [hothers k hk] at hp'
      exact hl.days now hnow.cons.2 k p' d hp' hd
  refine ⟨?_, ?_, ?_, hdays, ?_, ?_, ?_, fun k p' d hp' hd => ?_⟩
  · rw [hledger]
    exact hl.numbered
  · rw [hledger]
    exact fun now hnow => hl.dated now hnow.cons.2
  · rw [hwaiting]
    exact fun now hnow => hl.reads now hnow.cons.2
  · rw [hwaiting]
    exact hl.apart
  · rw [hwaiting, hledger]
    exact hl.issued
  · rw [hwaiting, hledger]
    intro row o p phase hs
    have ho := hl.outstanding row o p phase hs
    exact ⟨ho.counts, ho.only, fun hd => ho.there hd.cons.2⟩
  · obtain ⟨hnow, hcur⟩ := hd.cons
    rw [hledger]
    rw [hshared] at hp'
    by_cases hk : k = name
    · subst hk
      rw [hp] at hp'
      cases hp'
      by_cases hday : d = utcDay e.call.now
      · rw [hday]
        exact hused
      · -- no row is of a day that has not begun
        have hnone : e.pre.shared.ledger.rows.filter (Row.onDay k d) = [] := by
          refine List.filter_eq_nil_iff.mpr (fun row hrow hon => ?_)
          simp only [Row.onDay, Bool.and_eq_true, decide_eq_true_eq] at hon
          exact hday (Int.le_antisymm (hon.2 ▸ day_le (hrows row hrow)) hnow)
        have hother : p.day ≠ some d := by
          rw [hpday]
          exact fun h => hday (Option.some.inj h).symm
        rw [Principal.usedOn, if_neg hother, BrokerLedger.usedOn, hnone]
        rfl
    · rw [hothers k hk] at hp'
      exact hl.level k p' d hp' hcur

/-- A request that goes out: one row more, and one place in the counters. -/
theorem forwarded (hl : Level h e.pre) (hm : Meets h e) {w : Wire} {r : Reading} {p : Posted}
    {phase : Phase} {q : Principal} {x : Entry} {before behind : List Seat}
    (hwaiting : e.pre.waiting = before ++ .reading w r :: behind)
    (hwaiting' : w'.waiting = before ++
      [.forwarding e.pre.shared.ledger.nextId .upstreamError p phase] ++ behind)
    (hrows : w'.shared.ledger.rows = BrokerLedger.newest
      (e.pre.shared.ledger.rows ++ [⟨e.pre.shared.ledger.nextId, r.moment, x⟩]))
    (hid : w'.shared.ledger.nextId = e.pre.shared.ledger.nextId + 1)
    (hprincipal : x.principal = r.principal) (hx : x.outcome = .forwarded)
    (htokens : x.tokens = p.estimate) (hq : e.pre.shared.broker.books r.principal = some q)
    (hday : ∀ d, q.day = some d → d ≤ utcDay r.moment)
    (hp : p.principal = r.principal) (hmom : p.moment = r.moment)
    (hok : (q.precharge p.estimate r.moment).1 = .ok ())
    (hbooks : w'.shared.broker.books = fun k => if k = r.principal then
      some { (q.precharge p.estimate r.moment).2 with inflight := q.inflight + 1 }
      else e.pre.shared.broker.books k) : Level (e :: h) w' := by
  have hread : r.moment ≤ e.call.now := hl.reads _ hm.clock _ (seat_mem hwaiting)
  have hold : ∀ s ∈ w'.waiting, s ∈ e.pre.waiting ∨
      s = .forwarding e.pre.shared.ledger.nextId .upstreamError p phase :=
    fun s hs => seat_turned hwaiting hwaiting' hs
  refine ⟨hl.numbered.record hrows hid, fun now hnow row hrow => ?_, fun now hnow s hs => ?_,
    fun now hnow name p' d hp' hd => ?_, ?_, fun s hs row hrow => ?_,
    fun row o p' phase' hs => ?_, fun name p' d hp' hd => ?_⟩
  · obtain ⟨hle, hpast⟩ := hnow.cons
    rw [hrows] at hrow
    rcases BrokerLedger.mem_newest hrow with hrow | rfl
    · exact hl.dated now hpast row hrow
    · exact Int.le_trans hread hle
  · obtain ⟨hle, hpast⟩ := hnow.cons
    rcases hold s hs with hs | rfl
    · exact hl.reads now hpast s hs
    · change p.moment ≤ now
      rw [hmom]
      exact Int.le_trans hread hle
  · obtain ⟨hle, hpast⟩ := hnow.cons
    rw [hbooks] at hp'
    simp only at hp'
    split at hp'
    · cases hp'
      have hpost := Dated.precharge_day q p.estimate r.moment
      rw [show _ = some d from hd] at hpost
      cases hpost
      exact day_le (Int.le_trans hread hle)
    · exact hl.days now hpast name p' d hp' hd
  · exact apart_posted hl.apart hwaiting hwaiting' rfl rfl hl.issued
  · rw [hid]
    rcases hold s hs with hs | rfl
    · exact Nat.lt_succ_of_lt (hl.issued s hs row hrow)
    · cases hrow
      exact Nat.lt_succ_self _
  · rcases hold _ hs with hs | heq
    · exact hm.outstanding hrows (hl.issued _ hs row rfl) (hl.outstanding row o p' phase' hs)
    · cases heq
      refine ⟨rfl, fun r' hr' hid' => ?_, fun _ => ⟨⟨_, r.moment, x⟩, ?_, rfl⟩⟩
      · rw [hrows] at hr'
        rcases BrokerLedger.mem_newest hr' with hr' | rfl
        · exact absurd hid' (Nat.ne_of_lt (hl.numbered.below r' hr'))
        · exact ⟨hmom.symm, hprincipal.trans hp.symm, by rw [hx]; rfl, htokens⟩
      · rw [hrows, BrokerLedger.newest_concat]
        simp
  · obtain ⟨hnow, hcur⟩ := hd.cons
    have hle : utcDay r.moment ≤ d := Int.le_trans (day_le hread) hnow
    rw [BrokerLedger.used_forwarded hx hrows (hm.old hnow), hprincipal, htokens]
    rw [hbooks] at hp'
    simp only at hp'
    split at hp'
    · rename_i hk
      subst hk
      cases hp'
      have hpre := Principal.used_precharge hday hle hok
      rw [hl.level r.principal q d hq hcur] at hpre
      simp only [true_and]
      exact hpre
    · rename_i hk
      rw [if_neg (fun hand => hk hand.1.symm)]
      exact hl.level name p' d hp' hcur

/-- A settlement: in both books the charge takes the place of the estimate. -/
theorem settled (hl : Level h e.pre) (hm : Meets h e) {row : Nat} {o : Outcome} {p : Posted}
    {aborted : Bool} {before behind : List Seat}
    (hwaiting : e.pre.waiting = before ++ .forwarding row o p .closing :: behind)
    (hwaiting' : w'.waiting = before ++ behind) {i out b c : Nat} {t : TokenSource}
    (hledger : w'.shared.ledger = e.pre.shared.ledger.settle row i out b c o t)
    (hcharge : i + out = p.charge aborted)
    (hday : (p.reported aborted).isSome → ∀ q d, e.pre.shared.broker.books p.principal = some q →
      q.day = some d → d ≤ utcDay p.moment)
    (hbooks : w'.shared.broker.books = fun k => if k = p.principal then
      (e.pre.shared.broker.books p.principal).map (·.settled p (p.reported aborted))
      else e.pre.shared.broker.books k) : Level (e :: h) w' := by
  have hread : p.moment ≤ e.call.now := hl.reads _ hm.clock _ (seat_mem hwaiting)
  have hold : ∀ s ∈ w'.waiting, s ∈ e.pre.waiting :=
    fun s hs => seat_left hwaiting hwaiting' hs
  obtain ⟨hapart, hother⟩ := apart_left hl.apart hwaiting hwaiting'
  have hout := hl.outstanding row o p .closing (seat_mem hwaiting)
  have hrow : ∀ r' ∈ w'.shared.ledger.rows, ∃ r ∈ e.pre.shared.ledger.rows,
      r'.id = r.id ∧ r'.moment = r.moment ∧ (r.id ≠ row → r' = r) := by
    intro r' hr'
    rw [hledger] at hr'
    obtain ⟨r, hr, rfl⟩ := List.mem_map.mp hr'
    refine ⟨r, hr, ?_⟩
    split
    · rename_i hid
      exact ⟨rfl, rfl, fun hne => absurd hid hne⟩
    · exact ⟨rfl, rfl, fun _ => rfl⟩
  refine ⟨?_, fun now hnow r' hr' => ?_, fun now hnow s hs => ?_,
    fun now hnow name p' d hp' hd => ?_, hapart, fun s hs n hn => ?_,
    fun n o' p' phase hs => ?_, fun name p' d hp' hd => ?_⟩
  · rw [hledger]
    exact hl.numbered.settle ..
  · obtain ⟨r, hr, -, hmoment, -⟩ := hrow r' hr'
    rw [hmoment]
    exact hl.dated now hnow.cons.2 r hr
  · exact hl.reads now hnow.cons.2 s (hold s hs)
  · obtain ⟨hle, hpast⟩ := hnow.cons
    rw [hbooks] at hp'
    simp only at hp'
    split at hp'
    · obtain ⟨q, hq, rfl⟩ := Option.map_eq_some_iff.mp hp'
      rcases Dated.settled_day hd with hd | rfl
      · exact hl.days now hpast _ q d hq hd
      · exact day_le (Int.le_trans hread hle)
    · exact hl.days now hpast name p' d hp' hd
  · rw [hledger]
    exact hl.issued s (hold s hs) n hn
  · have ho := hl.outstanding n o' p' phase (hold _ hs)
    have hne : row ≠ n := fun h => hother _ hs n rfl (congrArg some h)
    refine ⟨ho.counts, fun r' hr' hid => ?_, fun hd => ?_⟩
    · obtain ⟨r, hr, hid', -, hsame⟩ := hrow r' hr'
      have heq : r' = r := hsame (fun h => hne (h.symm.trans (hid'.symm.trans hid)))
      exact heq ▸ ho.only r hr (hid'.symm.trans hid)
    · obtain ⟨r, hr, hid⟩ := ho.there hd.cons.2
      have hmem : n ∈ w'.shared.ledger.rows.map Row.id := by
        rw [hledger, BrokerLedger.settle_ids]
        exact List.mem_map.mpr ⟨r, hr, hid⟩
      exact List.mem_map.mp hmem
  · obtain ⟨hnow, hcur⟩ := hd.cons
    have hle : utcDay p.moment ≤ d := Int.le_trans (day_le hread) hnow
    obtain ⟨hreq, htok⟩ := BrokerLedger.used_settled hl.numbered (i := i) (o := out) (b := b)
      (c := c) (t := t) hout.counts hout.only name d
    simp only [hout.on_day hcur, hcharge, ← hledger] at htok
    rw [← hledger] at hreq
    rw [hbooks] at hp'
    simp only at hp'
    split at hp'
    · rename_i hk
      subst hk
      obtain ⟨q, hq, rfl⟩ := Option.map_eq_some_iff.mp hp'
      rw [Principal.used_settled (fun h d' hd' => hday h q d' hq hd') hle,
        hl.level p.principal q d hq hcur]
      by_cases hon : utcDay p.moment = d
      · rw [if_pos ⟨rfl, hon⟩, if_pos ⟨rfl, hon⟩] at htok
        rw [if_pos hon, ← hreq]
        exact congrArg _ (Nat.sub_eq_of_eq_add htok.symm)
      · rw [if_neg (fun h => hon h.2), if_neg (fun h => hon h.2)] at htok
        rw [if_neg hon]
        exact BrokerLedger.usage_ext hreq.symm htok.symm
    · rename_i hk
      have hoff : ¬ (p.principal = name ∧ utcDay p.moment = d) := fun h => hk h.1.symm
      rw [if_neg hoff, if_neg hoff] at htok
      rw [hl.level name p' d hp' hcur]
      exact BrokerLedger.usage_ext hreq.symm htok.symm

/-- A turn of a request that waited. -/
theorem resumed (hl : Level h e.pre) (hm : Meets h e) {s : EventLoop.Step (service z)} {i : Nat}
    {heard : Heard} {seat : Seat} {before behind : List Seat} (hcall : e.call = .turn s)
    (hturn : s.turn = .resume i heard) (hat : e.pre.waiting[i]? = some seat)
    (hwaiting : e.pre.waiting = before ++ seat :: behind)
    (hshared : w'.shared = (e.pre.shared.resume seat heard).2)
    (hwaiting' : w'.waiting = before ++ (e.pre.shared.resume seat heard).1.seat.toList ++ behind) :
    Level (e :: h) w' := by
  obtain ⟨hbroker, hframe, hwrote⟩ := e.pre.shared.resume_turn seat heard s.now
  have hresumed := e.pre.shared.broker.resume_books seat.frame heard.answer s.now
  rw [← hbroker, ← hframe, ← hshared] at hresumed
  rw [← hshared] at hwrote
  have hread : seat.frame.moment ≤ e.call.now := hl.reads _ hm.clock _ (seat_mem hwaiting)
  have hpunctual : ∀ name m, touches e.pre.shared.broker seat.frame heard.answer = some (name, m) →
      ∀ q d, e.pre.shared.broker.books name = some q → q.day = some d → d ≤ utcDay m :=
    fun name m ht q d hq hd => Int.not_lt.mp (fun hlate =>
      hm.punctual ⟨s, i, heard, seat, name, m, q, d, hcall, hturn, hat, ht, hq, hd, hlate⟩)
  have hstay : w'.shared.broker.books = e.pre.shared.broker.books →
      ∀ k p', w'.shared.broker.books k = some p' →
        ∃ p, e.pre.shared.broker.books k = some p ∧ SameFrom e.call.now p p' :=
    fun h k p' hp' => ⟨p', h ▸ hp', .refl ..⟩
  generalize (e.pre.shared.resume seat heard).1.seat = next at hwrote hresumed hwaiting'
  generalize heard.answer = a at hwrote hresumed hpunctual
  generalize hledger : w'.shared.ledger = l at hwrote
  generalize hbooks : w'.shared.broker.books = books at hresumed
  have hleft : next = none → (w'.waiting.filterMap Seat.row?).Nodup ∧
      ∀ x ∈ w'.waiting, FromSeats e.call.now e.pre.waiting x := by
    rintro rfl
    rw [Option.toList_none, List.append_nil] at hwaiting'
    exact ⟨(apart_left hl.apart hwaiting hwaiting').1,
      fun x hx => .same x (seat_left hwaiting hwaiting' hx)⟩
  have hnext : ∀ x, next = some x → x.row? = seat.row? → FromSeats e.call.now e.pre.waiting x →
      (w'.waiting.filterMap Seat.row?).Nodup ∧
      ∀ x ∈ w'.waiting, FromSeats e.call.now e.pre.waiting x := by
    rintro x rfl hrow hx
    refine ⟨apart_turned hl.apart hwaiting hwaiting' hrow, fun y hy => ?_⟩
    rcases seat_turned hwaiting hwaiting' hy with hy | rfl
    · exact .same y hy
    · exact hx
  cases hwrote with
  | noted w r _ _ hnoted =>
    obtain ⟨hapart, hseats⟩ := hleft rfl
    refine hl.quiet hm hread (hledger ▸ hnoted) ?_ hapart hseats
    simp only [Option.map_none, Seat.frame] at hresumed hpunctual
    cases hresumed with
    | rejected _ _ => exact hstay hbooks
    | refused r' q hr hq ht =>
      cases hr
      intro k p' hp'
      rw [hbooks] at hp'
      simp only at hp'
      split at hp'
      · rename_i hk
        cases hp'
        exact ⟨q, hk ▸ hq, .roll hread (hpunctual _ _ ht q · hq)⟩
      · exact ⟨p', hp', .refl ..⟩
    | abandoned _ hf => cases hf
    | settled _ hf => cases hf
  | reads w r r' =>
    simp only [Option.map_some, Seat.frame] at hresumed
    cases hresumed with
    | goes _ hgoes =>
      obtain ⟨hapart, hseats⟩ := hnext _ rfl rfl (.reading w r'
        (Int.le_trans (Int.le_of_eq hgoes.moment_eq) hread))
      exact hl.quiet hm hread (hledger ▸ .same) (hstay hbooks) hapart hseats
  | forwards w r _ p phase _ x hrows hid hprincipal hx htokens =>
    simp only [Option.map_some, Seat.frame] at hresumed hpunctual
    cases hresumed with
    | goes _ hgoes => cases hgoes
    | precharged r' q _ _ hr hq ht hreq hp hmom hforward hok =>
      cases hr
      exact hl.forwarded hm hwaiting hwaiting' (hledger ▸ hrows) (hledger ▸ hid) hprincipal hx
        htokens hq (hpunctual _ _ ht q · hq) hp hmom hok hbooks
  | goes row o o' p p' phase phase' _ hcounts =>
    simp only [Option.map_some, Seat.frame] at hresumed
    cases hresumed with
    | goes _ hgoes =>
      have hmoment : p'.moment = p.moment := hgoes.moment_eq
      have hprincipal : p'.principal = p.principal := hgoes.principal_eq
      have hestimate : p'.estimate = p.estimate := by cases hgoes; rfl
      obtain ⟨hapart, hseats⟩ := hnext _ rfl rfl (.forwarding row o o' p p' phase phase'
        (seat_mem hwaiting) hcounts hprincipal hmoment hestimate)
      exact hl.quiet hm hread (hledger ▸ .same) (hstay hbooks) hapart hseats
    | precharged _ _ _ _ hf => cases hf
  | abandoned row o p =>
    obtain ⟨hapart, hseats⟩ := hleft rfl
    refine hl.quiet hm hread (hledger ▸ .same) ?_ hapart hseats
    simp only [Option.map_none, Seat.frame] at hresumed
    cases hresumed with
    | rejected _ hf => cases hf
    | refused _ _ hf => cases hf
    | abandoned _ _ _ => exact hstay hbooks
    | settled _ _ hne => exact absurd rfl hne
  | settled row o p _ hne =>
    simp only [Option.map_none, Seat.frame] at hresumed hpunctual
    cases hresumed with
    | rejected _ hf => cases hf
    | refused _ _ hf => cases hf
    | abandoned _ _ ha => exact absurd ha hne
    | settled p' hf _ ht =>
      cases hf
      refine hl.settled hm hwaiting (hwaiting'.trans (by simp; rfl)) hledger
        (p.settled_tokens _) (fun hr q d hq hd => ?_) hbooks
      exact hpunctual _ _ (ht hr) q d hq hd

theorem restarted (hl : Level h e.pre)
    (hw : w' = ⟨⟨.init, e.pre.shared.ledger⟩, []⟩) : Level (e :: h) w' := by
  subst hw
  exact {
    numbered := hl.numbered
    dated := fun now hnow => hl.dated now hnow.cons.2
    reads := nofun
    days := nofun
    apart := List.nodup_nil
    issued := nofun
    outstanding := nofun
    level := nofun }

/-- A new task. -/
theorem started (hl : Level h e.pre) (hm : Meets h e) {s : EventLoop.Step (service z)}
    {v : Visit} {seats : List Seat} (hcall : e.call = .turn s) (hturn : s.turn = .start v)
    (hseats : e.pre.waiting = seats)
    (hshared : w'.shared = (e.pre.shared.start z v s.now).2)
    (hwaiting' : w'.waiting = seats ++ (e.pre.shared.start z v s.now).1.toList) :
    Level (e :: h) w' := by
  have hnow : e.call.now = s.now := by rw [hcall]; rfl
  have hapart : (seats.filterMap Seat.row?).Nodup := hseats ▸ hl.apart
  have hstill : (e.pre.shared.start z v s.now).2.ledger = e.pre.shared.ledger →
      (e.pre.shared.start z v s.now).2.broker.books = e.pre.shared.broker.books →
      (e.pre.shared.start z v s.now).1 = none → Level (e :: h) w' := by
    intro hledger hbooks hseat
    rw [hseat, Option.toList_none, List.append_nil] at hwaiting'
    refine hl.quiet hm (Int.le_refl _) ?_ (fun k p' hp' => ⟨p', ?_, .refl ..⟩)
      (hwaiting' ▸ hapart) (fun x hx => .same x ?_)
    · rw [hshared, hledger]
      exact .same
    · rw [← hbooks, ← hshared]
      exact hp'
    · rw [hseats, ← hwaiting']
      exact hx
  cases v with
  | registerPrincipal name token =>
    have hparts := hm.parts s name token hcall hturn
    rw [← hnow] at hparts hshared
    exact registered hl hm hparts hshared (hwaiting'.trans ((List.append_nil _).trans hseats.symm))
  | request handler w =>
    obtain ⟨hrolls, hnoted, hseat⟩ := e.pre.shared.handle_began handler w s.now
    change w'.shared = (e.pre.shared.handle handler w s.now).2 at hshared
    change w'.waiting = seats ++ (e.pre.shared.handle handler w s.now).1.seat.toList at hwaiting'
    rw [← hshared] at hrolls hnoted
    have hbooks : ∀ k p', w'.shared.broker.books k = some p' →
        ∃ p, e.pre.shared.broker.books k = some p ∧ SameFrom e.call.now p p' := by
      intro k p' hp'
      rcases hrolls k with hk | ⟨q, hq, hk⟩
      · exact ⟨p', hk ▸ hp', .refl ..⟩
      · rw [hk] at hp'
        cases hp'
        rw [← hnow]
        exact ⟨q, hq, .roll (Int.le_refl _) (fun d hd => hl.days _ hm.clock k q d hq hd)⟩
    refine hl.quiet hm (Int.le_of_eq hnow.symm) hnoted hbooks ?_ (fun x hx => ?_)
    · rw [hwaiting']
      cases hnext : (e.pre.shared.handle handler w s.now).1.seat with
      | none => rw [Option.toList_none, List.append_nil]; exact hapart
      | some x =>
        obtain ⟨w₀, r, rfl, -⟩ := hseat x hnext
        rw [Option.toList_some, List.filterMap_append, List.filterMap_cons_none rfl]
        simpa using hapart
    · have hx' : x ∈ seats ++ (e.pre.shared.handle handler w s.now).1.seat.toList := hwaiting' ▸ hx
      rcases List.mem_append.mp hx' with hx' | hx'
      · exact .same x (hseats ▸ hx')
      · obtain ⟨w₀, r, rfl, hmoment⟩ := hseat x (Option.mem_toList.mp hx')
        exact .reading w₀ r (Int.le_of_eq (hmoment.trans hnow.symm))
  | openLease name ref deadline leaseId =>
    exact hstill rfl (funext fun k => Registry.books_open ..) rfl
  | closeLease leaseId token =>
    exact hstill rfl (funext fun k => Broker.close_books ..) rfl
  | rotateNow name token =>
    refine hstill rfl (funext fun k => Broker.rotate_books ?_ ..) rfl
    exact hm.known s name token hcall hturn
  | stop => exact hstill rfl rfl rfl

theorem step {a : Act z} {w : Host z} (hl : Level h w) (hm : Meets h ⟨w, a⟩) :
    Level (⟨w, a⟩ :: h) ((hosted z).step a w).2 := by
  cases a with
  | restart now => exact restarted (e := ⟨w, .restart now⟩) hl rfl
  | turn s =>
    change Level _ (EventLoop.run s w).2
    rcases EventLoop.run_cases s w with ⟨v, hs, hr⟩ |
      ⟨i, a, seat, before, behind, hs, hat, hwaiting, hr⟩ | ⟨i, a, hs, hat, hr⟩
    · rw [hr]
      exact started (e := ⟨w, .turn s⟩) hl hm rfl hs rfl rfl rfl
    · rw [hr]
      exact resumed (e := ⟨w, .turn s⟩) hl hm rfl hs hat hwaiting rfl rfl
    · rw [hr]
      exact quiet (e := ⟨w, .turn s⟩) hl hm (Int.le_refl _) .same
        (fun k p' hp' => ⟨p', hp', .refl ..⟩) hl.apart (fun x hx => .same x hx)

theorem start (z : HostZone) : Level [] (hosted z).init where
  numbered := ⟨List.nodup_nil, nofun⟩
  dated := nofun
  reads := nofun
  days := nofun
  apart := List.nodup_nil
  issued := nofun
  outstanding := nofun
  level := nofun

theorem of_run {z : HostZone} {log : List (Deed z)} {w : Host z}
    (hrun : (hosted z).Run (fun _ _ => True) log w) (hmeets : Machine.Each Meets log) :
    Level log w := by
  induction hrun with
  | start => exact start z
  | step hr _ ih => exact (ih hmeets.2).step hmeets.1

end Level

end Solvio.ProviderBroker
