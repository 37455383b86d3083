import Mathlib.Data.List.Sort
import Mathlib.Order.Defs.LinearOrder
import Mathlib.Data.String.Basic
import Solvio.Lib.Choice

namespace Solvio.Storage
open Solvio.Lib

/-! ### `plan_retention` -/

/-- What the standard library makes of the name of a set: `strptime`, the ISO
week of a moment and its month. -/
structure Clock (Stamp : Type) where
  setDatetime : String → Option Stamp
  week : Stamp → Int × Int
  month : Stamp → Int × Int

/-- `KEEP_DAILY`, `KEEP_WEEKLY`, `KEEP_MONTHLY`. -/
structure Limits where
  daily : Nat := 14
  weekly : Nat := 8
  monthly : Nat := 12

/-- `setdefault` of an ordered dict, whose keys these are. -/
def setDefault (keep : List String) (name : String) : List String :=
  if name ∈ keep then keep else keep ++ [name]

variable {Stamp : Type} [LinearOrder Stamp] (C : Clock Stamp) (limits : Limits)

/-- The names that are moments, the newest first; equal moments stay in order. -/
def dated (names : List String) : List (String × Stamp) :=
  (names.filterMap (fun n => (C.setDatetime n).map (fun dt => (n, dt)))).insertionSort
    (fun p q => q.2 ≤ p.2)

/-- The names to keep, and the names to drop. -/
def planRetention (names : List String) : List String × List String :=
  let sets := dated C names
  let daily := sets.take limits.daily
  let weekly := chosen (fun p => C.week p.2) limits.weekly [] sets
  let monthly := chosen (fun p => C.month p.2) limits.monthly [] sets
  let keep := ((daily ++ weekly ++ monthly).map Prod.fst).foldl setDefault []
  (keep, (sets.map Prod.fst).filter (fun n => n ∉ keep))

/-! ### `prune` -/

/-- A finished set. `_protected` finds a label in its manifest. -/
structure Stored where
  name : String
  labelled : Bool
deriving DecidableEq

/-- `list_sets`. -/
def listSets (sets : List Stored) : List String := (sets.map Stored.name).insertionSort (· ≤ ·)

def isProtected (sets : List Stored) (name : String) : Bool :=
  sets.any (fun s => s.name = name ∧ s.labelled)

/-- What `prune` reports. -/
structure Pruned where
  kept : Nat
  removed : List String
  keptByLabel : List String

def report (sets : List Stored) : Pruned :=
  let (keep, drop) := planRetention C limits (listSets sets)
  let keptByLabel := drop.filter (isProtected sets)
  { kept := keep.length + keptByLabel.length
    removed := drop.filter (fun n => ¬ isProtected sets n)
    keptByLabel := keptByLabel }

/-- The sets that are left. `rmtree` ignores its errors, and some sets are stuck. -/
def prune (stuck : List String) (sets : List Stored) : List Stored :=
  sets.filter (fun s => s.name ∉ (report C limits sets).removed ∨ s.name ∈ stuck)

/-! ### The history of a disk -/

inductive Event where
  | save (s : Stored)
  | prune (stuck : List String)

/-- A set is moved into its place, which must be free. -/
def save (s : Stored) (sets : List Stored) : List Stored :=
  if s.name ∈ sets.map Stored.name then sets else sets ++ [s]

def step (sets : List Stored) : Event → List Stored
  | .save s => save s sets
  | .prune stuck => prune C limits stuck sets

def disk (events : List Event) : List Stored := events.foldl (step C limits) []

def Event.name? : Event → Option String
  | .save s => some s.name
  | .prune _ => none

/-- The names of all sets there ever were. -/
def everSaved (events : List Event) : List String :=
  (events.filterMap Event.name?).dedup.insertionSort (· ≤ ·)

/-! ### The order of the sets -/

/-- Newer, or of the same moment with a smaller name. -/
def Before (p q : String × Stamp) : Prop := q.2 < p.2 ∨ p.2 = q.2 ∧ p.1 < q.1

instance : Std.Antisymm (fun p q : String × Stamp => Before p q) where
  antisymm p q hpq hqp := by
    rcases hpq with h | ⟨h, hname⟩
    · rcases hqp with h' | ⟨h', -⟩
      · exact absurd h (lt_asymm h')
      · exact absurd h (h' ▸ lt_irrefl _)
    · rcases hqp with h' | ⟨-, hname'⟩
      · exact absurd h' (h ▸ lt_irrefl _)
      · exact absurd hname (lt_asymm hname')

theorem before_insert {a : String × Stamp} {sets : List (String × Stamp)}
    (hsets : sets.Pairwise Before) (ha : ∀ b ∈ sets, a.1 < b.1) :
    (sets.orderedInsert (fun p q => q.2 ≤ p.2) a).Pairwise Before := by
  induction sets with
  | nil => exact List.pairwise_singleton ..
  | cons b sets ih =>
    obtain ⟨hb, hrest⟩ := List.pairwise_cons.mp hsets
    by_cases hle : b.2 ≤ a.2
    · rw [List.orderedInsert_cons, if_pos hle]
      refine List.pairwise_cons.mpr ⟨fun c hc => ?_, hsets⟩
      have hname := ha c hc
      have hcb : c.2 ≤ b.2 := by
        rcases List.mem_cons.mp hc with rfl | hc
        · exact le_rfl
        · rcases hb c hc with h | ⟨h, -⟩
          · exact h.le
          · exact h.ge
      rcases (hcb.trans hle).lt_or_eq with h | h
      · exact .inl h
      · exact .inr ⟨h.symm, hname⟩
    · rw [List.orderedInsert_cons, if_neg hle]
      refine List.pairwise_cons.mpr ⟨fun c hc => ?_,
        ih hrest (fun c hc => ha c (List.mem_cons_of_mem _ hc))⟩
      rcases (List.mem_orderedInsert _).mp hc with rfl | hc
      · exact .inl (not_le.mp hle)
      · exact hb c hc

theorem mem_dated {names : List String} {p : String × Stamp} :
    p ∈ dated C names ↔ p.1 ∈ names ∧ C.setDatetime p.1 = some p.2 := by
  rw [dated, List.mem_insertionSort, List.mem_filterMap]
  constructor
  · rintro ⟨n, hn, hp⟩
    obtain ⟨dt, hdt, rfl⟩ := Option.map_eq_some_iff.mp hp
    exact ⟨hn, hdt⟩
  · rintro ⟨hn, hdt⟩
    exact ⟨p.1, hn, by rw [hdt]; rfl⟩

/-- The stable sort of sorted names is in this order. -/
theorem dated_before {names : List String} (h : names.Pairwise (· < ·)) :
    (dated C names).Pairwise Before := by
  induction names with
  | nil => exact .nil
  | cons n names ih =>
    obtain ⟨hn, hrest⟩ := List.pairwise_cons.mp h
    cases hdt : C.setDatetime n with
    | none =>
      have hskip : dated C (n :: names) = dated C names := by simp [dated, hdt]
      rw [hskip]
      exact ih hrest
    | some dt =>
      have hcons : dated C (n :: names) =
          (dated C names).orderedInsert (fun p q => q.2 ≤ p.2) (n, dt) := by simp [dated, hdt]
      rw [hcons]
      exact before_insert (ih hrest) (fun b hb => hn b.1 ((mem_dated C).mp hb).1)

theorem dated_nodup {names : List String} (h : names.Pairwise (· < ·)) :
    (dated C names).Nodup := by
  refine (dated_before C h).imp (fun {p q} hpq => ?_)
  rintro rfl
  rcases hpq with hlt | ⟨-, hlt⟩
  · exact lt_irrefl _ hlt
  · exact lt_irrefl _ hlt

/-- Less names are a part of the same order. -/
theorem dated_sublist {names all : List String} (hnames : names.Pairwise (· < ·))
    (hall : all.Pairwise (· < ·)) (hsub : names ⊆ all) :
    (dated C names).Sublist (dated C all) := by
  refine List.sublist_of_subperm_of_pairwise ?_ (dated_before C hnames) (dated_before C hall)
  refine (dated_nodup C hnames).subperm (fun p hp => ?_)
  obtain ⟨hn, hdt⟩ := (mem_dated C).mp hp
  exact (mem_dated C).mpr ⟨hsub hn, hdt⟩

theorem sorted_names {names : List String} (h : names.Nodup) :
    (names.insertionSort (· ≤ ·)).Pairwise (· < ·) := by
  have hle := List.pairwise_insertionSort (· ≤ ·) names
  have hne : (names.insertionSort (· ≤ ·)).Nodup :=
    (List.perm_insertionSort (· ≤ ·) names).nodup_iff.mpr h
  exact (hle.and hne).imp (fun h => lt_of_le_of_ne h.1 h.2)

/-! ### What the plan keeps -/

/-- The three rules. -/
def rules : List (List (String × Stamp) → List (String × Stamp)) :=
  [List.take limits.daily, chosen (fun p => C.week p.2) limits.weekly [],
    chosen (fun p => C.month p.2) limits.monthly []]

theorem rules_consistent : ∀ f ∈ rules C limits, Consistent f := by
  intro f hf
  simp only [rules, List.mem_cons, List.not_mem_nil, or_false] at hf
  rcases hf with rfl | rfl | rfl
  · exact consistent_take _
  · exact consistent_chosen _ _
  · exact consistent_chosen _ _

theorem keep_eq (names : List String) : (planRetention C limits names).1 =
    (((rules C limits).flatMap (fun f => f (dated C names))).map Prod.fst).foldl
      setDefault [] := by
  simp [planRetention, rules]

theorem mem_set_defaults {n : String} (names keep : List String) :
    n ∈ names.foldl setDefault keep ↔ n ∈ keep ∨ n ∈ names := by
  induction names generalizing keep with
  | nil => simp
  | cons m names ih =>
    rw [List.foldl_cons, ih, setDefault]
    split
    · rename_i hin
      simp only [List.mem_cons]
      constructor
      · rintro (h | h)
        · exact .inl h
        · exact .inr (.inr h)
      · rintro (h | rfl | h)
        · exact .inl h
        · exact .inl hin
        · exact .inr h
    · simp only [List.mem_append, List.mem_cons]
      tauto

theorem mem_keep {n : String} {names : List String} : n ∈ (planRetention C limits names).1 ↔
    ∃ f ∈ rules C limits, ∃ dt, (n, dt) ∈ f (dated C names) := by
  rw [keep_eq, mem_set_defaults]
  simp only [List.not_mem_nil, false_or, List.mem_map, List.mem_flatMap]
  constructor
  · rintro ⟨⟨m, dt⟩, ⟨f, hf, hm⟩, rfl⟩
    exact ⟨f, hf, dt, hm⟩
  · rintro ⟨f, hf, dt, hm⟩
    exact ⟨(n, dt), ⟨f, hf, hm⟩, rfl⟩

theorem keep_dated {n : String} {names : List String}
    (h : n ∈ (planRetention C limits names).1) :
    n ∈ names ∧ ∃ dt, C.setDatetime n = some dt := by
  obtain ⟨f, hf, dt, hm⟩ := (mem_keep C limits).mp h
  obtain ⟨hn, hdt⟩ := (mem_dated C).mp ((rules_consistent C limits f hf).sublist _ |>.subset hm)
  exact ⟨hn, dt, hdt⟩

theorem mem_drop {n : String} {names : List String} : n ∈ (planRetention C limits names).2 ↔
    n ∈ names ∧ (∃ dt, C.setDatetime n = some dt) ∧ n ∉ (planRetention C limits names).1 := by
  have hdated : n ∈ (dated C names).map Prod.fst ↔
      n ∈ names ∧ ∃ dt, C.setDatetime n = some dt := by
    rw [List.mem_map]
    constructor
    · rintro ⟨p, hp, rfl⟩
      obtain ⟨hn, hdt⟩ := (mem_dated C).mp hp
      exact ⟨hn, p.2, hdt⟩
    · rintro ⟨hn, dt, hdt⟩
      exact ⟨(n, dt), (mem_dated C).mpr ⟨hn, hdt⟩, rfl⟩
  have hdrop : (planRetention C limits names).2 = ((dated C names).map Prod.fst).filter
    (fun n => n ∉ (planRetention C limits names).1) := rfl
  rw [hdrop, List.mem_filter, hdated]
  simp [and_assoc]

/-- The plan of a part that holds the plan of the whole. -/
theorem keep_of_part {names all : List String} (hnames : names.Pairwise (· < ·))
    (hall : all.Pairwise (· < ·)) (hsub : names ⊆ all)
    (hkept : ∀ n ∈ (planRetention C limits all).1, n ∈ names) :
    (planRetention C limits names).1 = (planRetention C limits all).1 := by
  have hpart := dated_sublist C hnames hall hsub
  have hrule : ∀ f ∈ rules C limits, f (dated C names) = f (dated C all) := by
    intro f hf
    apply (rules_consistent C limits f hf).outcast hpart (dated_nodup C hall)
    intro p hp
    have hin := (rules_consistent C limits f hf).sublist _ |>.subset hp
    exact (mem_dated C).mpr ⟨hkept p.1 ((mem_keep C limits).mpr ⟨f, hf, p.2, hp⟩),
      ((mem_dated C).mp hin).2⟩
  rw [keep_eq, keep_eq, List.flatMap_congr hrule]

/-- A set that is kept among more is kept among less. -/
theorem keep_of_less {names all : List String} (hnames : names.Pairwise (· < ·))
    (hall : all.Pairwise (· < ·)) (hsub : names ⊆ all) {n : String} (hn : n ∈ names)
    (h : n ∈ (planRetention C limits all).1) : n ∈ (planRetention C limits names).1 := by
  obtain ⟨f, hf, dt, hm⟩ := (mem_keep C limits).mp h
  have hc := rules_consistent C limits f hf
  have hdt := ((mem_dated C).mp ((hc.sublist _).subset hm)).2
  exact (mem_keep C limits).mpr ⟨f, hf, dt, hc.heritage (dated_sublist C hnames hall hsub)
    (dated_nodup C hall) ((mem_dated C).mpr ⟨hn, hdt⟩) hm⟩

/-! ### The plan in words -/

instance (p q : String × Stamp) : Decidable (Before p q) := inferInstanceAs (Decidable (_ ∨ _))

/-- The sets that are newer than this one. -/
def newer (names : List String) (p : String × Stamp) : List (String × Stamp) :=
  (dated C names).filter (fun q => Before q p)

/-- The newest of its group, and of the newest groups. -/
def Stands {γ : Type} [DecidableEq γ] (names : List String) (group : Stamp → γ) (k : Nat)
    (p : String × Stamp) : Prop :=
  group p.2 ∉ (newer C names p).map (fun q => group q.2) ∧
    ((newer C names p).map (fun q => group q.2)).toFinset.card < k

theorem newer_split {names : List String} (h : names.Pairwise (· < ·)) {p : String × Stamp}
    (hp : p ∈ dated C names) : ∃ later, dated C names = newer C names p ++ p :: later := by
  obtain ⟨first, later, hsplit⟩ := List.append_of_mem hp
  have hpair := dated_before C h
  rw [hsplit] at hpair
  obtain ⟨-, hlater, hfirst⟩ := List.pairwise_append.mp hpair
  have hfront : first.filter (fun q => Before q p) = first :=
    List.filter_eq_self.mpr (fun q hq => decide_eq_true (hfirst q hq p (List.mem_cons_self ..)))
  have hback : (p :: later).filter (fun q => Before q p) = [] := by
    rw [List.filter_eq_nil_iff]
    intro q hq hbefore
    have hnodup := dated_nodup C h
    rw [hsplit] at hnodup
    rcases List.mem_cons.mp hq with rfl | hq
    · have hne : ∀ q : String × Stamp, ¬ Before q q := by
        rintro q (hlt | ⟨-, hlt⟩)
        · exact lt_irrefl _ hlt
        · exact lt_irrefl _ hlt
      exact hne q (of_decide_eq_true hbefore)
    · have hsame := Std.Antisymm.antisymm p q ((List.pairwise_cons.mp hlater).1 q hq)
        (of_decide_eq_true hbefore)
      subst hsame
      exact (List.nodup_cons.mp (List.nodup_append.mp hnodup).2.1).1 hq
  refine ⟨later, ?_⟩
  rw [newer, hsplit, List.filter_append, hfront, hback, List.append_nil]

/-- A set is kept for a day, for its week or for its month. -/
theorem mem_keep_iff {names : List String} (h : names.Pairwise (· < ·)) {n : String}
    {dt : Stamp} (hn : n ∈ names) (hdt : C.setDatetime n = some dt) :
    n ∈ (planRetention C limits names).1 ↔ (newer C names (n, dt)).length < limits.daily ∨
      Stands C names C.week limits.weekly (n, dt) ∨
      Stands C names C.month limits.monthly (n, dt) := by
  obtain ⟨later, hsplit⟩ := newer_split C h ((mem_dated C (p := (n, dt))).mpr ⟨hn, hdt⟩)
  have hnodup := dated_nodup C h
  rw [hsplit] at hnodup
  have hsame : ∀ f ∈ rules C limits,
      (∃ dt', (n, dt') ∈ f (dated C names)) ↔ (n, dt) ∈ f (dated C names) := by
    intro f hf
    constructor
    · rintro ⟨dt', hm⟩
      have hdt' := ((mem_dated C).mp
        (((rules_consistent C limits f hf).sublist _).subset hm)).2
      rw [hdt] at hdt'
      rwa [Option.some.inj hdt']
    · exact fun hm => ⟨dt, hm⟩
  have hdaily : (n, dt) ∈ (dated C names).take limits.daily ↔
      (newer C names (n, dt)).length < limits.daily := by
    rw [hsplit]
    exact mem_take_iff hnodup
  rw [mem_keep]
  simp only [rules, List.mem_cons, List.not_mem_nil, or_false] at hsame
  simp only [rules, List.mem_cons, List.not_mem_nil, or_false, exists_eq_or_imp, exists_eq_left]
  rw [hsame _ (.inl rfl), hsame _ (.inr (.inl rfl)), hsame _ (.inr (.inr rfl)), hdaily, hsplit,
    mem_chosen_iff hnodup, mem_chosen_iff hnodup]
  rfl

theorem set_defaults_length (names keep : List String) :
    (names.foldl setDefault keep).length ≤ keep.length + names.length := by
  induction names generalizing keep with
  | nil => exact le_rfl
  | cons n names ih =>
    have hone : (setDefault keep n).length ≤ keep.length + 1 := by
      unfold setDefault
      split
      · exact Nat.le_succ _
      · exact (List.length_append ..).le
    have hrest := ih (setDefault keep n)
    rw [List.foldl_cons, List.length_cons]
    omega

/-- The plan never keeps more sets than its limits add up to. -/
theorem keep_length (names : List String) : (planRetention C limits names).1.length ≤
    limits.daily + limits.weekly + limits.monthly := by
  have hlen := set_defaults_length
    (((rules C limits).flatMap (fun f => f (dated C names))).map Prod.fst) []
  have hdaily := List.length_take_le limits.daily (dated C names)
  have hweekly := chosen_length (g := fun p : String × Stamp => C.week p.2) (k := limits.weekly)
    [] (dated C names)
  have hmonthly := chosen_length (g := fun p : String × Stamp => C.month p.2)
    (k := limits.monthly) [] (dated C names)
  rw [keep_eq]
  simp only [rules, List.flatMap_cons, List.flatMap_nil, List.append_nil, List.length_map,
    List.length_append, List.length_nil] at hlen hweekly hmonthly ⊢
  omega

/-! ### Every run of saving and pruning -/

variable {C limits}

structure Sound (C : Clock Stamp) (limits : Limits) (events : List Event) : Prop where
  distinct : ((disk C limits events).map Stored.name).Nodup
  saved : ∀ n ∈ (disk C limits events).map Stored.name, n ∈ everSaved events
  kept : ∀ n ∈ (planRetention C limits (everSaved events)).1,
    n ∈ (disk C limits events).map Stored.name

theorem ever_sorted (events : List Event) : (everSaved events).Pairwise (· < ·) :=
  sorted_names (List.nodup_dedup _)

theorem mem_ever {n : String} {events : List Event} :
    n ∈ everSaved events ↔ n ∈ events.filterMap Event.name? := by
  rw [everSaved, List.mem_insertionSort, List.mem_dedup]

theorem mem_list_sets {n : String} {sets : List Stored} :
    n ∈ listSets sets ↔ n ∈ sets.map Stored.name := List.mem_insertionSort _

theorem mem_removed {n : String} {sets : List Stored} : n ∈ (report C limits sets).removed ↔
    n ∈ sets.map Stored.name ∧ (∃ dt, C.setDatetime n = some dt) ∧
      n ∉ (planRetention C limits (listSets sets)).1 ∧ isProtected sets n = false := by
  have hremoved : (report C limits sets).removed =
    (planRetention C limits (listSets sets)).2.filter (fun n => ¬ isProtected sets n) := rfl
  rw [hremoved, List.mem_filter, mem_drop, mem_list_sets]
  simp [and_assoc]

/-- A name stands for one set, so its label is the label of that set. -/
theorem label_of {sets : List Stored} (h : (sets.map Stored.name).Nodup) {s : Stored}
    (hs : s ∈ sets) : isProtected sets s.name = s.labelled := by
  rw [Bool.eq_iff_iff, isProtected, List.any_eq_true]
  constructor
  · rintro ⟨s', hs', hsame⟩
    obtain ⟨hname, hlabel⟩ := of_decide_eq_true hsame
    rwa [List.inj_on_of_nodup_map h hs' hs hname] at hlabel
  · intro hlabel
    exact ⟨s, hs, decide_eq_true ⟨rfl, hlabel⟩⟩

theorem Sound.plan {events : List Event} (h : Sound C limits events) :
    (planRetention C limits (listSets (disk C limits events))).1 =
      (planRetention C limits (everSaved events)).1 :=
  keep_of_part C limits (sorted_names h.distinct) (ever_sorted events)
    (fun n hn => h.saved n (mem_list_sets.mp hn))
    (fun n hn => mem_list_sets.mpr (h.kept n hn))

theorem sound (events : List Event) : Sound C limits events := by
  induction events using List.reverseRecOn with
  | nil => exact ⟨List.nodup_nil, by simp [disk], by
      intro n hn
      exact absurd (keep_dated C limits hn).1 (by simp [everSaved])⟩
  | append_singleton events e ih =>
    have hdisk : disk C limits (events ++ [e]) = step C limits (disk C limits events) e := by
      simp [disk]
    have hold : everSaved events ⊆ everSaved (events ++ [e]) := by
      intro n hn
      rw [mem_ever] at hn ⊢
      simp only [List.filterMap_append, List.mem_append]
      exact .inl hn
    cases e with
    | save s =>
      have hnew : s.name ∈ everSaved (events ++ [.save s]) := by
        rw [mem_ever]
        simp [Event.name?]
      have hlast : ∀ n ∈ everSaved (events ++ [.save s]), n = s.name ∨ n ∈ everSaved events := by
        intro n hn
        rw [mem_ever] at hn ⊢
        simp only [List.filterMap_append, List.mem_append] at hn
        rcases hn with hn | hn
        · exact .inr hn
        · exact .inl (by simpa [Event.name?] using hn)
      have hnames : ∀ n, n ∈ (disk C limits (events ++ [.save s])).map Stored.name ↔
          n = s.name ∨ n ∈ (disk C limits events).map Stored.name := by
        intro n
        rw [hdisk, step, save]
        split
        · rename_i hin
          constructor
          · exact .inr
          · rintro (rfl | h)
            · exact hin
            · exact h
        · rw [List.map_append, List.mem_append, List.map_singleton, List.mem_singleton]
          exact Or.comm
      refine ⟨?_, fun n hn => ?_, fun n hn => ?_⟩
      · rw [hdisk, step, save]
        split
        · exact ih.distinct
        · rename_i hfree
          rw [List.map_append, List.map_singleton]
          exact List.nodup_append.mpr ⟨ih.distinct, List.nodup_singleton _, by
            rintro a ha b hb rfl
            exact hfree (List.mem_singleton.mp hb ▸ ha)⟩
      · rcases (hnames n).mp hn with rfl | hn
        · exact hnew
        · exact hold (ih.saved n hn)
      · rw [hnames]
        rcases hlast n (keep_dated C limits hn).1 with rfl | hin
        · exact .inl rfl
        · exact .inr (ih.kept n (keep_of_less C limits (ever_sorted _) (ever_sorted _) hold hin hn))
    | prune stuck =>
      have hnone : [Event.prune stuck].filterMap Event.name? = [] := rfl
      have hsame : everSaved (events ++ [.prune stuck]) = everSaved events := by
        rw [everSaved, List.filterMap_append, hnone, List.append_nil, everSaved]
      have hpart : (disk C limits (events ++ [.prune stuck])).Sublist (disk C limits events) := by
        rw [hdisk]
        exact List.filter_sublist
      refine ⟨ih.distinct.sublist (hpart.map _), fun n hn => ?_, fun n hn => ?_⟩
      · rw [hsame]
        exact ih.saved n ((hpart.map _).subset hn)
      · rw [hsame] at hn
        obtain ⟨s, hs, rfl⟩ := List.mem_map.mp (ih.kept n hn)
        refine List.mem_map_of_mem ?_
        rw [hdisk, step, prune, List.mem_filter]
        refine ⟨hs, decide_eq_true (.inl (fun hremoved => ?_))⟩
        rw [mem_removed, ih.plan] at hremoved
        exact hremoved.2.2.1 hn

/-- Which of all the sets there ever were have a place in the plan. -/
theorem planned_iff (events : List Event) (n : String) :
    (n ∈ (planRetention C limits (everSaved events)).1 ↔ n ∈ everSaved events ∧
      ∃ dt, C.setDatetime n = some dt ∧
        ((newer C (everSaved events) (n, dt)).length < limits.daily ∨
          Stands C (everSaved events) C.week limits.weekly (n, dt) ∨
          Stands C (everSaved events) C.month limits.monthly (n, dt))) ∧
    (planRetention C limits (everSaved events)).1.length ≤
      limits.daily + limits.weekly + limits.monthly := by
  refine ⟨?_, keep_length C limits _⟩
  constructor
  · intro h
    obtain ⟨hn, dt, hdt⟩ := keep_dated C limits h
    exact ⟨hn, dt, hdt, (mem_keep_iff C limits (ever_sorted events) hn hdt).mp h⟩
  · rintro ⟨hn, dt, hdt, h⟩
    exact (mem_keep_iff C limits (ever_sorted events) hn hdt).mpr h

/-- At every prune of every run, what goes are the unlabelled dated sets that the
plan over all the sets there ever were does not keep; and what this plan keeps
is still there. -/
theorem prune_as_if_all (events : List Event) :
    (planRetention C limits (listSets (disk C limits events))).1 =
        (planRetention C limits (everSaved events)).1 ∧
      (∀ n ∈ (planRetention C limits (everSaved events)).1,
        n ∈ (disk C limits events).map Stored.name) ∧
      ∀ s ∈ disk C limits events, s ∈ prune C limits [] (disk C limits events) ↔
        s.name ∈ (planRetention C limits (everSaved events)).1 ∨
          C.setDatetime s.name = none ∨ s.labelled = true := by
  have h : Sound C limits events := sound events
  refine ⟨h.plan, h.kept, fun s hs => ?_⟩
  rw [prune, List.mem_filter, decide_eq_true_iff, mem_removed, h.plan,
    label_of h.distinct hs]
  have hname := List.mem_map_of_mem (f := Stored.name) hs
  cases hdt : C.setDatetime s.name with
  | none => simp [hs]
  | some dt =>
    simp only [hs, hname, List.not_mem_nil, or_false, true_and, Option.some.injEq, exists_eq',
      not_and, Bool.not_eq_false, reduceCtorEq, false_or]
    tauto

end Solvio.Storage
