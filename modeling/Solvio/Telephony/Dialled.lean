import Solvio.Capabilities.MobileApproval
import Solvio.Communication.Tables

namespace Solvio.Telephony.Dialled
open Solvio.Lib Solvio.Capabilities Solvio.Communication
open Solvio.Capabilities.MobileApproval (Site Signed)

/-! ### How long it may take -/

def spokenSeconds (n : Int) : List Char :=
  if n = 1 then "1 Sekunde".toList else Json.renderInt n ++ " Sekunden".toList

def spokenMinutes (n : Int) : List Char :=
  if n = 1 then "1 Minute".toList else Json.renderInt n ++ " Minuten".toList

/-- `spoken_duration`. -/
def spokenDuration (n : Int) : String :=
  String.ofList (
    if n < 60 then spokenSeconds n
    else if n % 60 = 0 then spokenMinutes (n / 60)
    else spokenMinutes (n / 60) ++ ' ' :: spokenSeconds (n % 60))

theorem spoken_seconds (n : Int) : ∃ unit, spokenSeconds n = Json.renderInt n ++ ' ' :: unit ∧
    unit.head? = some 'S' := by
  unfold spokenSeconds
  split
  · rename_i h
    subst h
    exact ⟨"Sekunde".toList, by decide, by decide⟩
  · exact ⟨"Sekunden".toList, rfl, by decide⟩

theorem spoken_minutes (n : Int) : ∃ unit, spokenMinutes n = Json.renderInt n ++ ' ' :: unit ∧
    unit.head? = some 'M' := by
  unfold spokenMinutes
  split
  · rename_i h
    subst h
    exact ⟨"Minute".toList, by decide, by decide⟩
  · exact ⟨"Minuten".toList, rfl, by decide⟩

theorem render_int_word (n : Int) : ' ' ∉ Json.renderInt n := by
  intro h
  rcases Json.render_int_chars n _ h with heq | hdigit
  · exact absurd heq (by decide)
  · exact absurd hdigit (by decide)

/-- A number is told from the words behind it. -/
theorem number_cancel {m n : Int} {r r' : List Char}
    (h : Json.renderInt m ++ ' ' :: r = Json.renderInt n ++ ' ' :: r') : m = n ∧ r = r' := by
  obtain ⟨hword, hrest⟩ := word_cancel (render_int_word m) (render_int_word n) h
  exact ⟨Json.render_int_injective hword, hrest⟩

theorem spoken_seconds_injective {m n : Int} (h : spokenSeconds m = spokenSeconds n) : m = n := by
  obtain ⟨u, hu, -⟩ := spoken_seconds m
  obtain ⟨u', hu', -⟩ := spoken_seconds n
  rw [hu, hu'] at h
  exact (number_cancel h).1

/-- From a minute on, minutes are spoken first. -/
theorem spoken_long {n : Int} (h : ¬ n < 60) : ∃ unit,
    (spokenDuration n).toList = Json.renderInt (n / 60) ++ ' ' :: unit ∧ unit.head? = some 'M' := by
  obtain ⟨u, hu, hhead⟩ := spoken_minutes (n / 60)
  unfold spokenDuration
  rw [if_neg h, String.toList_ofList]
  split
  · exact ⟨u, hu, hhead⟩
  · refine ⟨u ++ ' ' :: spokenSeconds (n % 60), by rw [hu]; simp, ?_⟩
    rw [List.head?_append, hhead]
    rfl

theorem spoken_short {n : Int} (h : n < 60) :
    (spokenDuration n).toList = spokenSeconds n := by
  simp [spokenDuration, h]

/-- Nothing is rounded. -/
theorem spoken_duration_injective {m n : Int} (h : spokenDuration m = spokenDuration n) :
    m = n := by
  have hlists := congrArg String.toList h
  by_cases hm : m < 60
  · rw [spoken_short hm] at hlists
    by_cases hn : n < 60
    · rw [spoken_short hn] at hlists
      exact spoken_seconds_injective hlists
    · obtain ⟨u, hu, hS⟩ := spoken_seconds m
      obtain ⟨u', hu', hM⟩ := spoken_long hn
      rw [hu, hu'] at hlists
      rw [(number_cancel hlists).2, hM] at hS
      cases hS
  · by_cases hn : n < 60
    · rw [spoken_short hn] at hlists
      obtain ⟨u, hu, hS⟩ := spoken_seconds n
      obtain ⟨u', hu', hM⟩ := spoken_long hm
      rw [hu, hu'] at hlists
      rw [← (number_cancel hlists).2, hM] at hS
      cases hS
    · have hminutes : m / 60 = n / 60 := by
        obtain ⟨u, hu, -⟩ := spoken_long hm
        obtain ⟨u', hu', -⟩ := spoken_long hn
        rw [hu, hu'] at hlists
        exact (number_cancel hlists).1
      have hrest : m % 60 = n % 60 := by
        simp only [spokenDuration, if_neg hm, if_neg hn, String.toList_ofList, hminutes] at hlists
        split at hlists
        · rename_i hm0
          split at hlists
          · rename_i hn0
            rw [hm0, hn0]
          · simp at hlists
        · split at hlists
          · simp at hlists
          · have hseconds := List.append_cancel_left hlists
            exact spoken_seconds_injective (List.cons.inj hseconds).2
      omega

/-! ### The call that is described -/

variable {T : Writing}

/-- The arguments of `telephony_call`. -/
structure Arguments where
  aliasName : String
  message : String
  objective : String := ""
  maxDuration : Option Int := none
deriving DecidableEq

/-- What `start_call` is given. -/
structure Call where
  number : String
  name : String
  message : String
  objective : String
  seconds : Int
deriving DecidableEq

/-- The objective that is put on the wire. -/
def Call.wireObjective (c : Call) : String :=
  if c.objective = "" then "Eine Nachricht ausrichten." else c.objective

/-- `_phone_handle`. -/
def phoneHandle (row : Row T) : String :=
  (((row.handles.filter (fun h => lowerStripped T.toTextTables h.channel = "phone")).map
    (fun h => stripped h.value)).find? (· ≠ "")).getD ""

/-- `_resolve`. -/
def resolve (s : Store T) (aliasName : String) : Option (Row T × String) :=
  if stripped aliasName = "" then none
  else match s.get (stripped aliasName) with
    | none => none
    | some row => if phoneHandle row = "" then none else some (row, phoneHandle row)

/-- `_duration`: what is out of range is declined. -/
def durationOf (byDefault : Int) : Option Int → Option Int
  | none => some byDefault
  | some n => if n < 30 ∨ n > 300 then none else some n

/-- What describer and handler make of the arguments. -/
def planned (byDefault : Int) (a : Arguments) (s : Store T) : Option (Row T × Call) := do
  let (row, number) ← resolve s a.aliasName
  if stripped a.message = "" then none
  else
    let seconds ← durationOf byDefault a.maxDuration
    return (row, {
      number := number
      name := if row.displayName = "" then row.aliasName else row.displayName
      message := stripped a.message
      objective := stripped a.objective
      seconds := seconds })

/-- The dict that `describe_call` returns. -/
def shownOf (c : Call) : ShownArguments :=
  [("anrufen", .text c.name), ("bei_nummer", .text c.number), ("nachricht", .text c.message),
    ("zeitrahmen", .text (spokenDuration c.seconds))] ++
  if c.objective = "" then [] else [("worum_es_geht", .text c.objective)]

/-- What `_fingerprint` hashes. -/
def printBytes (row : Row T) (c : Call) : Bytes :=
  encodeUtf8 (Data.list [.string row.aliasName, .string row.displayName, .string c.number,
    .string c.message, .string c.objective, .scalar (.int c.seconds)]).dumps

/-- `_fingerprint`. -/
@[irreducible] def fingerprint (row : Row T) (c : Call) : String :=
  toHex (sha256 (printBytes row c))

theorem print_hash {row row' : Row T} {c c' : Call} (h : fingerprint row c = fingerprint row' c') :
    sha256 (printBytes row c) = sha256 (printBytes row' c') := by
  unfold fingerprint at h
  exact to_hex_injective h

/-! ### The capability -/

/-- An entry of `_described`. -/
structure Snapshot where
  aliasName : String
  print : String
deriving DecidableEq

instance : Keyed Snapshot String := ⟨Snapshot.aliasName⟩

/-- The bindings, which others change, and what was described last. -/
structure Slots (T : Writing) where
  store : Store T
  described : Table Snapshot

/-- The clock, and whether the ledger knows no earlier attempt of this execution. -/
structure Outside where
  now : Nat := 0
  fresh : Bool := true

/-- `confirm` of another process or another capability. -/
structure Rebinding where
  wanted : Wanted
  expected : String

variable (byDefault : Int)

/-- `describe_call`. -/
def describeCall (a : Arguments) (_ : Outside) (s : Slots T) :
    Option ShownArguments × Slots T :=
  match planned byDefault a s.store with
  | none => (none, s)
  | some (row, c) =>
    (some (shownOf c),
      { s with described := s.described.assign ⟨row.aliasName, fingerprint row c⟩ })

/-- `call`, up to the wire. -/
def call (a : Arguments) (o : Outside) (s : Slots T) : Option Call × Slots T :=
  match planned byDefault a s.store with
  | none => (none, s)
  | some (row, c) =>
    if (s.described.find? row.aliasName).map Snapshot.print ≠ some (fingerprint row c) then (none, s)
    else if o.fresh then (some c, s)
    else (none, s)

theorem shown_labels (c : Call) : ActionLabels.telephonyCall.Labels (shownOf c) := by
  intro a ha
  unfold shownOf at ha
  split at ha
  · simp only [List.append_nil, List.mem_cons, List.not_mem_nil, or_false] at ha
    rcases ha with rfl | rfl | rfl | rfl
    all_goals simp [ActionLabels.telephonyCall]
  · simp only [List.cons_append, List.nil_append, List.mem_cons, List.not_mem_nil, or_false] at ha
    rcases ha with rfl | rfl | rfl | rfl | rfl
    all_goals simp [ActionLabels.telephonyCall]

theorem described_shown {a : Arguments} {o : Outside} {s : Slots T} {xs : ShownArguments}
    (h : (describeCall byDefault a o s).1 = some xs) :
    ∃ row c, planned byDefault a s.store = some (row, c) ∧ xs = shownOf c := by
  unfold describeCall at h
  split at h
  · cases h
  · rename_i row c hplan
    exact ⟨row, c, hplan, (Option.some.inj h).symm⟩

@[simp] theorem call_same (a : Arguments) (o : Outside) (s : Slots T) :
    (call byDefault a o s).2 = s := by
  unfold call
  split
  · rfl
  split
  · rfl
  split
  · rfl
  · rfl

/-- The capability of one core with its default duration. -/
abbrev telephony (T : Writing) (byDefault : Int) : Site where
  State := Slots T
  Args := Arguments
  Outside := Outside
  Done := Call
  Change := Rebinding
  tool := "telephony_call"
  wording := ActionLabels.telephonyCall
  describe := describeCall byDefault
  handle := call byDefault
  settle _ s := s
  change c o s := { s with store := (s.store.confirm c.wanted c.expected o.now).2 }
  shownOf := shownOf
  clear := ActionLabels.all_clear _ (by simp)
  described_labels h := by
    obtain ⟨row, c, -, rfl⟩ := described_shown byDefault h
    exact shown_labels c
  done_labels := shown_labels

/-! ### What a text determines -/

theorem mem_shown_of {c : Call} {a : String × Shown} : a ∈ shownOf c ↔
    a = ("anrufen", .text c.name) ∨ a = ("bei_nummer", .text c.number) ∨
      a = ("nachricht", .text c.message) ∨
      a = ("zeitrahmen", .text (spokenDuration c.seconds)) ∨
      (c.objective ≠ "" ∧ a = ("worum_es_geht", .text c.objective)) := by
  unfold shownOf
  split
  · rename_i h
    simp [h]
  · rename_i h
    simp [h]

theorem shown_objective {c c' : Call} (h : ∀ a, a ∈ shownOf c → a ∈ shownOf c')
    (hne : c.objective ≠ "") : c.objective = c'.objective := by
  have := Iff.mp mem_shown_of (h _ (Iff.mpr mem_shown_of (.inr (.inr (.inr (.inr ⟨hne, rfl⟩))))))
  simp only [Prod.mk.injEq, String.reduceEq, false_and, true_and, Shown.text.injEq,
    false_or] at this
  exact this.2

/-- What is shown determines the call. -/
theorem shown_injective {c c' : Call} (h : ∀ a, a ∈ shownOf c ↔ a ∈ shownOf c') : c = c' := by
  have hname := Iff.mp mem_shown_of ((h _).mp (Iff.mpr mem_shown_of (.inl rfl)))
  have hnumber := Iff.mp mem_shown_of ((h _).mp (Iff.mpr mem_shown_of (.inr (.inl rfl))))
  have hmessage := Iff.mp mem_shown_of ((h _).mp (Iff.mpr mem_shown_of (.inr (.inr (.inl rfl)))))
  have htime :=
    Iff.mp mem_shown_of ((h _).mp (Iff.mpr mem_shown_of (.inr (.inr (.inr (.inl rfl))))))
  simp only [Prod.mk.injEq, String.reduceEq, false_and, true_and, and_false, Shown.text.injEq,
    or_false, false_or] at hname hnumber hmessage htime
  have hobjective : c.objective = c'.objective := by
    by_cases hc : c.objective = ""
    · by_contra hne
      have hc' : c'.objective ≠ "" := fun hempty => hne (hc.trans hempty.symm)
      exact hne (shown_objective (fun a ha => (h a).mpr ha) hc').symm
    · exact shown_objective (fun a ha => (h a).mp ha) hc
  have hseconds := spoken_duration_injective htime
  obtain ⟨number, name, message, objective, seconds⟩ := c
  simp only at hname hnumber hmessage hobjective hseconds
  subst hname hnumber hmessage hobjective hseconds
  rfl

/-- The text that is approved determines from where and which call. -/
theorem call_of_text {c c' : Call} {origin origin' : OriginClass}
    (h : (telephony T byDefault).text (shownOf c) origin =
      (telephony T byDefault).text (shownOf c') origin') : originLabel origin = originLabel origin' ∧
        c = c' := by
  obtain ⟨horigin, hshown⟩ := Wording.render_action_injective (telephony T byDefault).clear
    (origin_label_line origin) (origin_label_line origin') (origin_label_ne origin)
    (origin_label_ne origin') (shown_labels c) (shown_labels c') h
  exact ⟨horigin, shown_injective hshown⟩

theorem dumps_int_last {m n : Int} (h : Json.renderInt m ++ [']'] = Json.renderInt n ++ [']']) :
    m = n := Json.render_int_injective (List.append_cancel_right h)

/-- What is hashed determines the alias and the call. -/
theorem print_bytes_injective {row row' : Row T} {c c' : Call}
    (h : printBytes row c = printBytes row' c') : row.aliasName = row'.aliasName ∧
      row.displayName = row'.displayName ∧ c.number = c'.number ∧ c.message = c'.message ∧
      c.objective = c'.objective ∧ c.seconds = c'.seconds := by
  have htext := String.ofList_injective (encode_utf8_injective h)
  simp only [Data.dumpChars, Data.dumpElements, Data.string, Data.dumpScalar, List.cons.injEq,
    true_and, List.append_assoc, List.cons_append] at htext
  obtain ⟨halias, htext⟩ := quoted_cancel htext
  obtain ⟨hname, htext⟩ := quoted_cancel (List.cons.inj (List.cons.inj htext).2).2
  obtain ⟨hnumber, htext⟩ := quoted_cancel (List.cons.inj (List.cons.inj htext).2).2
  obtain ⟨hmessage, htext⟩ := quoted_cancel (List.cons.inj (List.cons.inj htext).2).2
  obtain ⟨hobjective, htext⟩ := quoted_cancel (List.cons.inj (List.cons.inj htext).2).2
  exact ⟨halias, hname, hnumber, hmessage, hobjective,
    dumps_int_last (List.cons.inj (List.cons.inj htext).2).2⟩

theorem planned_call {a : Arguments} {s : Store T} {row : Row T} {c : Call}
    (h : planned byDefault a s = some (row, c)) : c.name = row.displayName ∧
      c.message = stripped a.message ∧ c.objective = stripped a.objective ∧
      durationOf byDefault a.maxDuration = some c.seconds := by
  unfold planned at h
  obtain ⟨⟨row', number⟩, -, h⟩ := Option.bind_eq_some_iff.mp h
  simp only at h
  split at h
  · cases h
  · obtain ⟨seconds, hseconds, h⟩ := Option.bind_eq_some_iff.mp h
    cases h
    exact ⟨if_neg row.named, rfl, rfl, hseconds⟩

/-- What is hashed determines what is dialled. -/
theorem planned_of_print {a a' : Arguments} {s s' : Store T} {row row' : Row T} {c c' : Call}
    (h : planned byDefault a s = some (row, c)) (h' : planned byDefault a' s' = some (row', c'))
    (heq : printBytes row c = printBytes row' c') : row.aliasName = row'.aliasName ∧ c = c' := by
  obtain ⟨halias, hdisplay, hnumber, hmessage, hobjective, hseconds⟩ := print_bytes_injective heq
  have hname : c.name = c'.name := by
    rw [(planned_call byDefault h).1, (planned_call byDefault h').1, hdisplay]
  refine ⟨halias, ?_⟩
  obtain ⟨number, name, message, objective, seconds⟩ := c
  simp only at hname hnumber hmessage hobjective hseconds
  subst hname hnumber hmessage hobjective hseconds
  rfl

/-- The arguments give the rest of a call. -/
theorem same_arguments {a : Arguments} {s s' : Store T} {row row' : Row T} {c c' : Call}
    (h : planned byDefault a s = some (row, c)) (h' : planned byDefault a s' = some (row', c'))
    (hnumber : c.number = c'.number) (hname : c.name = c'.name) : c = c' := by
  obtain ⟨-, hmessage, hobjective, hseconds⟩ := planned_call byDefault h
  obtain ⟨-, hmessage', hobjective', hseconds'⟩ := planned_call byDefault h'
  have hsec := Option.some.inj (hseconds.symm.trans hseconds')
  rw [← hmessage'] at hmessage
  rw [← hobjective'] at hobjective
  obtain ⟨number, name, message, objective, seconds⟩ := c
  simp only at hnumber hname hmessage hobjective hsec
  subst hnumber hname hmessage hobjective hsec
  rfl

/-! ### Runs -/

variable {byDefault} {bindings : Store T}

/-- Nothing has been described yet. -/
abbrev started (bindings : Store T) : Slots T := ⟨bindings, .empty⟩

abbrev World (T : Writing) (byDefault : Int) (bindings : Store T) : Type :=
  MobileApproval.World (telephony T byDefault) (started bindings)

abbrev Event (T : Writing) (byDefault : Int) (bindings : Store T) : Type :=
  MobileApproval.Event (telephony T byDefault) (started bindings)

/-- The call that a step describes. -/
def describedCall (e : Event T byDefault bindings) : Option (Row T × Call) :=
  match e.call.op with
  | .describe a _ _ => planned byDefault a e.pre.site.store
  | _ => none

/-- The call that a handler would make by what is stored now. -/
def dueCall (e : Event T byDefault bindings) : Option (Row T × Call) :=
  match e.call.op with
  | .handle _ a _ => planned byDefault a e.pre.site.store
  | _ => none

/-- The last description under an alias. -/
def lastDescribed (name : String) (L : List (Event T byDefault bindings)) :
    Option (Row T × Call) :=
  L.findSome? (fun e => (describedCall e).filter (fun p => p.1.aliasName = name))

/-- The fingerprints that are taken at a step. -/
def printedAt (e : Event T byDefault bindings) : List Bytes :=
  ((describedCall e).toList ++ (dueCall e).toList).map (fun p => printBytes p.1 p.2)

/-- No two texts and no two fingerprints of a log collide. -/
def NoCollision (L : List (Event T byDefault bindings)) : Prop :=
  MobileApproval.NoCollision L ∧
    ∀ x ∈ L.flatMap printedAt, ∀ y ∈ L.flatMap printedAt, sha256 x = sha256 y → x = y

/-- The contact has another number or another name than the call itself has described,
and what it has now is the last that was described under its alias. -/
def Swapped (older : List (Event T byDefault bindings)) (e : Event T byDefault bindings) : Prop :=
  e.call.input.outside.fresh = true ∧ ∃ row c row' v rowᵥ cᵥ, dueCall e = some (row, c) ∧
    lastDescribed row.aliasName older = some (row', c) ∧ v ∈ older ∧ v.call.task = e.call.task ∧
    describedCall v = some (rowᵥ, cᵥ) ∧ (cᵥ.number ≠ c.number ∨ cᵥ.name ≠ c.name)

variable {L newer older : List (Event T byDefault bindings)} {e v : Event T byDefault bindings}

theorem printed_described {p : Row T × Call} (hv : v ∈ L) (h : describedCall v = some p) :
    printBytes p.1 p.2 ∈ L.flatMap printedAt :=
  List.mem_flatMap.mpr ⟨v, hv, by simp [printedAt, h]⟩

theorem printed_due {p : Row T × Call} (he : e ∈ L) (h : dueCall e = some p) :
    printBytes p.1 p.2 ∈ L.flatMap printedAt :=
  List.mem_flatMap.mpr ⟨e, he, by simp [printedAt, h]⟩

theorem last_described {name : String} {p : Row T × Call}
    (h : lastDescribed name L = some p) :
    p.1.aliasName = name ∧ ∃ v ∈ L, describedCall v = some p := by
  obtain ⟨v, hv, hsome⟩ := List.exists_of_findSome?_eq_some h
  obtain ⟨hdescribed, hname⟩ := Option.filter_eq_some_iff.mp hsome
  exact ⟨by simpa using hname, v, hv, hdescribed⟩

theorem described_call {a : Arguments} {origin : OriginClass} {shown : ShownArguments}
    (h : MobileApproval.described v = some (a, origin, shown)) : ∃ row c,
      describedCall v = some (row, c) ∧ planned byDefault a v.pre.site.store = some (row, c) ∧
        shown = shownOf c := by
  obtain ⟨given, hop⟩ := MobileApproval.described_op h
  simp only [MobileApproval.described, hop] at h
  obtain ⟨xs, hxs, heq⟩ := Option.map_eq_some_iff.mp h
  cases heq
  obtain ⟨row, c, hplan, hshown⟩ := described_shown byDefault hxs
  exact ⟨row, c, by simp [describedCall, hop, hplan], hplan, hshown⟩

theorem last_described_none (name : String) (h : describedCall e = none) :
    lastDescribed name (e :: L) = lastDescribed name L := by
  simp [lastDescribed, h]

theorem last_described_some (name : String) {p : Row T × Call} (h : describedCall e = some p) :
    lastDescribed name (e :: L) =
      if p.1.aliasName = name then some p else lastDescribed name L := by
  by_cases hname : p.1.aliasName = name
  · simp [lastDescribed, h, hname]
  · simp [lastDescribed, h, hname, Option.filter_some]

theorem described_planned {p : Row T × Call} (h : describedCall v = some p) : ∃ a origin,
    planned byDefault a v.pre.site.store = some p ∧
      MobileApproval.described v = some (a, origin, shownOf p.2) := by
  unfold describedCall at h
  split at h
  · rename_i a given origin hop
    exact ⟨a, origin, h, by simp [MobileApproval.described, hop, describeCall, h]⟩
  · cases h

/-- What stands in `_described` is what was described last. -/
theorem snapshot_last {s : MobileApproval.Desk (telephony T byDefault)}
    (h : (MobileApproval.desk (telephony T byDefault) (started bindings)).machine.Run
      (MobileApproval.permits _ _) L s) (name : String) :
    (s.site.described.find? name).map Snapshot.print =
      (lastDescribed name L).map (fun p => fingerprint p.1 p.2) := by
  refine h.induct (fun L s => (s.site.described.find? name).map Snapshot.print =
    (lastDescribed name L).map (fun p => fingerprint p.1 p.2)) rfl (fun L s act _ _ ih => ?_)
  have hsite := MobileApproval.step_site act.op act.input s
  rw [show ((MobileApproval.desk (telephony T byDefault) (started bindings)).machine.step act s).2
    = (MobileApproval.step act.op act.input s).2 from rfl, hsite]
  cases hop : act.op with
  | describe a given origin =>
    simp only [MobileApproval.siteAfter, describeCall]
    cases hplan : planned byDefault a s.site.store with
    | none => rw [last_described_none name (by simp [describedCall, hop, hplan]), ih]
    | some p =>
      rw [last_described_some (p := p) name (by simp [describedCall, hop, hplan]),
        Table.find_assign, show Keyed.key (Snapshot.mk p.1.aliasName (fingerprint p.1 p.2)) =
          p.1.aliasName from rfl]
      by_cases hname : p.1.aliasName = name
      · rw [if_pos hname.symm, if_pos hname]
        rfl
      · rw [if_neg (Ne.symm hname), if_neg hname, ih]
  | handle id a origin =>
    rw [last_described_none name (by simp [describedCall, hop])]
    simp only [MobileApproval.siteAfter, call_same, ih]
  | _ =>
    rw [last_described_none name (by simp [describedCall, hop])]
    exact ih

theorem due_op {p : Row T × Call} (h : dueCall e = some p) : ∃ id a origin,
    e.call.op = .handle id a origin ∧ planned byDefault a e.pre.site.store = some p := by
  unfold dueCall at h
  split at h
  · rename_i id a origin hop
    exact ⟨id, a, origin, hop, h⟩
  · cases h

/-- A handler dials what is stored now, if that is what was described last. -/
theorem dials_iff {id : Nat} {a : Arguments} {origin : OriginClass} {c : Call}
    (hop : e.call.op = .handle id a origin) :
    MobileApproval.done e = some (id, a, origin, c) ↔ e.call.input.outside.fresh = true ∧ ∃ row,
      dueCall e = some (row, c) ∧
      (e.pre.site.described.find? row.aliasName).map Snapshot.print = some (fingerprint row c) := by
  constructor
  · intro h
    simp only [MobileApproval.done, hop] at h
    obtain ⟨d, hd, heq⟩ := Option.map_eq_some_iff.mp h
    cases heq
    unfold call at hd
    split at hd
    · cases hd
    · rename_i row c' hplan
      split at hd
      · cases hd
      · rename_i hprint
        split at hd
        · rename_i hfresh
          cases hd
          exact ⟨hfresh, row, by simp [dueCall, hop, hplan], not_not.mp hprint⟩
        · cases hd
  · rintro ⟨hfresh, row, hdue, hprint⟩
    simp only [dueCall, hop] at hdue
    simp [MobileApproval.done, hop, call, hdue, hprint, hfresh]

/-- What stands in the way of dialling what was signed is that the contact was swapped. -/
theorem signed_unless_swapped {s : MobileApproval.Desk (telephony T byDefault)}
    (h : (MobileApproval.desk (telephony T byDefault) (started bindings)).machine.Run
      (MobileApproval.permits _ _) L s) (hsha : NoCollision L) (hL : L = newer ++ e :: older)
    {id : Nat} {a : Arguments} {origin : OriginClass} (hop : e.call.op = .handle id a origin) :
    (∀ c, MobileApproval.done e = some (id, a, origin, c) →
      Signed older id ((telephony T byDefault).digest (shownOf c) origin)) ↔ ¬ Swapped older e := by
  have hrun : (MobileApproval.desk (telephony T byDefault) (started bindings)).machine.Run
      (MobileApproval.permits _ _) older e.pre := (hL ▸ h).split.1
  have he : e ∈ L := by simp [hL]
  have holder : ∀ {v}, v ∈ older → v ∈ L := fun hv => by simp [hL, hv]
  constructor
  · rintro hall ⟨hfresh, row, c, row', v, rowᵥ, cᵥ, hdue, hlast, hv, ht, hown, hother⟩
    obtain ⟨halias, u, -, hu⟩ := last_described hlast
    obtain ⟨_, _, hplanᵤ, -⟩ := described_planned hu
    obtain ⟨_, _, _, -, hplan⟩ := due_op hdue
    have hdisplay : row'.displayName = row.displayName := by
      rw [← (planned_call byDefault hplanᵤ).1, (planned_call byDefault hplan).1]
    have hbytes : printBytes row' c = printBytes row c := by
      unfold printBytes
      rw [show row'.aliasName = row.aliasName from halias, hdisplay]
    have hprint := snapshot_last hrun row.aliasName
    rw [hlast, Option.map_some, fingerprint, hbytes, ← fingerprint] at hprint
    have hdone := (dials_iff hop).mpr ⟨hfresh, row, hdue, hprint⟩
    obtain ⟨aᵥ, originᵥ, -, hshown⟩ := described_planned hown
    have htext := (MobileApproval.signed_iff h hsha.1 hL hdone).mp (hall c hdone) v hv ht _ hshown
    have heq := (call_of_text byDefault htext).2
    rcases hother with hnumber | hname
    · exact hnumber (congrArg Call.number heq)
    · exact hname (congrArg Call.name heq)
  · intro hswapped c hdone
    obtain ⟨hfresh, row, hdue, hprint⟩ := (dials_iff hop).mp hdone
    obtain ⟨v, hv, ht, shown, hshown, hsigned⟩ := MobileApproval.handled h hL hdone
    obtain ⟨rowᵥ, cᵥ, hown, hplan, rfl⟩ := described_call hshown
    obtain ⟨id', a', origin', hop', hplan'⟩ := due_op hdue
    cases hop.symm.trans hop'
    suffices heq : cᵥ = c by rwa [heq] at hsigned
    rw [snapshot_last hrun] at hprint
    obtain ⟨⟨row', c'⟩, hlast, hsame⟩ := Option.map_eq_some_iff.mp hprint
    obtain ⟨-, u, hu, hdescribed⟩ := last_described hlast
    obtain ⟨_, _, hplanᵤ, -⟩ := described_planned hdescribed
    have hhash : sha256 (printBytes row' c') = sha256 (printBytes row c) := print_hash hsame
    have hbytes := hsha.2 _ (printed_described (holder hu) hdescribed) _ (printed_due he hdue) hhash
    obtain ⟨-, rfl⟩ := planned_of_print byDefault hplanᵤ hplan' hbytes
    by_contra hne
    refine hswapped ⟨hfresh, row, c', row', v, rowᵥ, cᵥ, hdue, hlast, hv, ht, hown, ?_⟩
    by_contra hsame
    rw [not_or, not_not, not_not] at hsame
    exact hne (same_arguments byDefault hplan hplan' hsame.1 hsame.2)

/-- An approved text determines what is dialled. And whatever the calls, the device and
those who rebind do, a handler dials what was signed exactly unless the contact was
swapped since its call described it. -/
theorem number_dialled_is_signed (byDefault : Int) (bindings : Store T) :
    (∀ a a' (s s' : Store T) row row' c c' origin origin', planned byDefault a s = some (row, c) →
      planned byDefault a' s' = some (row', c') →
      (telephony T byDefault).text (shownOf c) origin =
        (telephony T byDefault).text (shownOf c') origin' →
      c.number = c'.number ∧ c.message = c'.message ∧ c.wireObjective = c'.wireObjective ∧
        c.seconds = c'.seconds) ∧
    ∀ W : World T byDefault bindings, Shared.World.Reach (MobileApproval.Launch _) W →
      NoCollision W.log → ∀ newer e older, W.log = newer ++ e :: older →
      ∀ id a origin, e.call.op = .handle id a origin →
      ((∀ c, MobileApproval.done e = some (id, a, origin, c) →
        Signed older id ((telephony T byDefault).digest (shownOf c) origin)) ↔
          ¬ Swapped older e) := by
  refine ⟨fun a a' s s' row row' c c' origin origin' _ _ htext => ?_,
    fun W h hsha newer e older hL id a origin hop => ?_⟩
  · rw [(call_of_text byDefault htext).2]
    exact ⟨rfl, rfl, rfl, rfl⟩
  · exact signed_unless_swapped (h.disciplined (fun _ => MobileApproval.launchable)).run hsha hL hop

/-! ### Samples -/

def papa (number : String) (version : Nat) (h : cleanHandles asciiWriting [⟨"phone", number⟩] =
    [⟨"phone", number⟩] ∧ [Handle.mk "phone" number].all Handle.full = true) :
    Row asciiWriting where
  aliasNorm := "papa"
  aliasName := "Papa"
  displayName := "Ada"
  handles := [⟨"phone", number⟩]
  confirmedAt := 1
  source := "user_confirmed"
  version := version
  named := by decide
  reachable := by simp
  full := h.2
  settled := h.1

def papaFirst : Row asciiWriting := papa "+49 1" 1 (by decide)

def papaThen : Row asciiWriting := papa "+49 2" 2 (by decide)

def known : Store asciiWriting := Table.empty.assign papaFirst

def sampleArguments : Arguments := { aliasName := "Papa", message := "Bin da" }

def sampleCall (number : String) : Call := ⟨number, "Ada", "Bin da", "", 180⟩

def rebinding : Rebinding where
  wanted := ⟨"Papa", "Ada", [⟨"phone", "+49 2"⟩], "user_confirmed"⟩
  expected := Communication.fingerprint (some papaFirst)

theorem rebound : (known.confirm rebinding.wanted rebinding.expected 1).2 =
    known.assign papaThen := by
  have hname : normalizeAlias asciiTables (collapsed rebinding.wanted.aliasName) ≠ "" := by
    decide +kernel
  have hcurrent : known.get (normalizeAlias asciiTables (collapsed rebinding.wanted.aliasName)) =
      some papaFirst := by decide +kernel
  have hrow : rebinding.wanted.row asciiWriting 1 2 = some papaThen := by decide +kernel
  exact congrArg Prod.snd (confirm_writes hname hcurrent hrow)

theorem planned_first : planned 180 sampleArguments known =
    some (papaFirst, sampleCall "+49 1") := by decide +kernel

theorem planned_then : planned 180 sampleArguments (known.assign papaThen) =
    some (papaThen, sampleCall "+49 2") := by decide +kernel

def calm : Outside := { now := 1 }

/-- A call after whose description nothing changes, or the contact is rebound. -/
def sampleWorld (c : Rebinding) : World asciiWriting 180 known :=
  MobileApproval.overtaken (D := telephony asciiWriting 180) (started known) sampleArguments c
    .localOwner calm calm

/-- A change that is incomplete, and so changes nothing. -/
def noRebinding : Rebinding := ⟨⟨"", "", [], ""⟩, ""⟩

/-- What stands under the alias once a description was made. -/
def noted (row : Row asciiWriting) (number : String) (described : Table Snapshot) :
    Table Snapshot := described.assign ⟨"Papa", fingerprint row (sampleCall number)⟩

theorem noted_find (row : Row asciiWriting) (number : String) (described : Table Snapshot) :
    (noted row number described).find? "Papa" =
      some ⟨"Papa", fingerprint row (sampleCall number)⟩ := by
  simp [noted, Keyed.key]

theorem described_planned_as {row : Row asciiWriting} {number : String}
    (slots : Slots asciiWriting) (halias : row.aliasName = "Papa")
    (h : planned 180 sampleArguments slots.store = some (row, sampleCall number)) :
    describeCall 180 sampleArguments calm slots = (some (shownOf (sampleCall number)),
      ⟨slots.store, noted row number slots.described⟩) := by
  unfold describeCall
  rw [h]
  simp [halias, noted]

theorem called_as {row : Row asciiWriting} {number : String} (slots : Slots asciiWriting)
    (halias : row.aliasName = "Papa")
    (h : planned 180 sampleArguments slots.store = some (row, sampleCall number))
    (hnoted : slots.described.find? "Papa" =
      some ⟨"Papa", fingerprint row (sampleCall number)⟩) :
    (call 180 sampleArguments calm slots).1 = some (sampleCall number) := by
  unfold call
  rw [h]
  simp [halias, hnoted, calm]

theorem no_rebinding (slots : Slots asciiWriting) :
    (telephony asciiWriting 180).change noRebinding calm slots = slots := by
  have hsame : (slots.store.confirm noRebinding.wanted noRebinding.expected calm.now).2 =
      slots.store := by
    have hempty : normalizeAlias asciiWriting.toTextTables (collapsed noRebinding.wanted.aliasName) =
        "" := by decide +kernel
    unfold Store.confirm
    simp only [hempty, if_true]
  simp only [hsame]

/-- Who is called has been rebound, and described again, after the approval. -/
theorem other_number_dialled : ∃ W : World asciiWriting 180 known,
    Shared.World.Reach (MobileApproval.Launch _) W ∧ ∃ e older, W.log = e :: older ∧
      ∃ id a origin signed dialled, MobileApproval.done e = some (id, a, origin, dialled) ∧
        Signed older id ((telephony asciiWriting 180).digest (shownOf signed) origin) ∧
        dialled.number ≠ signed.number := by
  have hfirst : ∀ described, (telephony asciiWriting 180).describe sampleArguments calm
      ⟨known, described⟩ = (some (shownOf (sampleCall "+49 1")),
        ⟨known, noted papaFirst "+49 1" described⟩) :=
    fun _ => described_planned_as ⟨known, _⟩ rfl planned_first
  have hthen : ∀ described, (telephony asciiWriting 180).describe sampleArguments calm
      ((telephony asciiWriting 180).change rebinding calm ⟨known, described⟩) =
        (some (shownOf (sampleCall "+49 2")),
          ⟨known.assign papaThen, noted papaThen "+49 2" described⟩) := by
    intro described
    exact (congrArg (describeCall 180 sampleArguments calm)
      (congrArg (fun s => Slots.mk s described) rebound)).trans
        (described_planned_as ⟨known.assign papaThen, described⟩ rfl planned_then)
  obtain ⟨older, hlog, hsigned⟩ := MobileApproval.overtaken_signed (D := telephony asciiWriting 180)
    (started known) rebinding .localOwner calm (hfirst _) (hfirst _) (hthen _)
  refine ⟨sampleWorld rebinding, MobileApproval.overtaken_reach .., _, older, hlog, 0,
    sampleArguments, .localOwner, sampleCall "+49 1", sampleCall "+49 2", ?_, hsigned, by decide⟩
  have hcall := called_as ⟨known.assign papaThen, noted papaThen "+49 2"
    (noted papaFirst "+49 1" (noted papaFirst "+49 1" .empty))⟩ rfl planned_then (noted_find ..)
  simp only [MobileApproval.done, hcall, Option.map_some]

theorem first_described (described : Table Snapshot) :
    (telephony asciiWriting 180).describe sampleArguments calm ⟨known, described⟩ =
      (some (shownOf (sampleCall "+49 1")), ⟨known, noted papaFirst "+49 1" described⟩) :=
  described_planned_as ⟨known, described⟩ rfl planned_first

/-- What stands in `_described` after so many descriptions. -/
def notedTimes : Nat → Table Snapshot
  | 0 => .empty
  | n + 1 => noted papaFirst "+49 1" (notedTimes n)

/-- What a step of such a run can describe, and what nobody but its handler makes of it. -/
structure Quiet (v : Event asciiWriting 180 known) : Prop where
  store : v.pre.site.store = known
  describes : (∃ given, v.call.op = .describe sampleArguments given .localOwner ∧
    v.call.input.outside = calm) ∨ (MobileApproval.described v = none ∧ describedCall v = none)
  idle : MobileApproval.done v = none ∧ dueCall v = none

theorem quiet_log : ∃ older e, (sampleWorld noRebinding).log = e :: older ∧
    e = ⟨⟨⟨known, notedTimes 3⟩, MobileApproval.asked (telephony asciiWriting 180) .localOwner
        (shownOf (sampleCall "+49 1")) .executing, none, 1⟩,
      ⟨2, .handle 0 sampleArguments .localOwner, ⟨calm, true, false⟩⟩⟩ ∧ ∀ v ∈ older, Quiet v := by
  have hlog := MobileApproval.overtaken_log (D := telephony asciiWriting 180) (started known)
    noRebinding .localOwner calm (first_described (notedTimes 0))
    (first_described (notedTimes 1)) (by rw [no_rebinding]; exact first_described (notedTimes 2))
  refine ⟨_, _, hlog, rfl, fun v hv => ?_⟩
  simp only [List.mem_cons, List.not_mem_nil, or_false] at hv
  rcases hv with rfl | rfl | rfl | rfl | rfl | rfl | rfl | rfl | rfl | rfl
  · exact ⟨congrArg Slots.store (no_rebinding ⟨known, notedTimes 2⟩), .inl ⟨_, rfl, rfl⟩, rfl, rfl⟩
  · exact ⟨rfl, .inr ⟨rfl, rfl⟩, rfl, rfl⟩
  · exact ⟨rfl, .inr ⟨rfl, rfl⟩, rfl, rfl⟩
  · exact ⟨rfl, .inr ⟨rfl, rfl⟩, rfl, rfl⟩
  · exact ⟨rfl, .inr ⟨rfl, rfl⟩, rfl, rfl⟩
  · exact ⟨rfl, .inl ⟨_, rfl, rfl⟩, rfl, rfl⟩
  · exact ⟨rfl, .inr ⟨rfl, rfl⟩, rfl, rfl⟩
  · exact ⟨rfl, .inr ⟨rfl, rfl⟩, rfl, rfl⟩
  · exact ⟨rfl, .inr ⟨rfl, rfl⟩, rfl, rfl⟩
  · exact ⟨rfl, .inl ⟨_, rfl, rfl⟩, rfl, rfl⟩

theorem Quiet.call {v : Event asciiWriting 180 known} (h : Quiet v) {p : Row asciiWriting × Call}
    (hp : describedCall v = some p) : p = (papaFirst, sampleCall "+49 1") := by
  rcases h.describes with ⟨given, hop, -⟩ | ⟨-, hnone⟩
  · simp only [describedCall, hop, h.store, planned_first] at hp
    exact (Option.some.inj hp).symm
  · rw [hnone] at hp
    cases hp

theorem Quiet.shown {v : Event asciiWriting 180 known} (h : Quiet v)
    {x : Arguments × OriginClass × ShownArguments} (hx : MobileApproval.described v = some x) :
    x = (sampleArguments, .localOwner, shownOf (sampleCall "+49 1")) := by
  rcases h.describes with ⟨given, hop, hcalm⟩ | ⟨hnone, -⟩
  · simp only [MobileApproval.described, hop, hcalm] at hx
    obtain ⟨shown, hshown, rfl⟩ := Option.map_eq_some_iff.mp hx
    obtain ⟨row, c, hplan, rfl⟩ := described_shown 180 hshown
    rw [h.store, planned_first] at hplan
    cases hplan
    rfl
  · rw [hnone] at hx
    cases hx

/-- One text is asked for, and one fingerprint is taken. -/
theorem quiet_hashes {e : Event asciiWriting 180 known} {older : List (Event asciiWriting 180 known)}
    (hdone : MobileApproval.done e = some (0, sampleArguments, .localOwner, sampleCall "+49 1"))
    (hdue : dueCall e = some (papaFirst, sampleCall "+49 1")) (h : ∀ v ∈ older, Quiet v) :
    NoCollision (e :: older) := by
  have hop := MobileApproval.done_op hdone
  have hnothing : MobileApproval.described e = none ∧ describedCall e = none :=
    ⟨by simp [MobileApproval.described, hop], by simp [describedCall, hop]⟩
  have htext : ∀ x ∈ (e :: older).flatMap MobileApproval.hashedAt, x = approvalBytes
      "telephony_call" ((telephony asciiWriting 180).text (shownOf (sampleCall "+49 1")) .localOwner) := by
    intro x hmem
    obtain ⟨v, hv, hx⟩ := List.mem_flatMap.mp hmem
    rcases List.mem_cons.mp hv with rfl | hv
    · simpa [MobileApproval.hashedAt, hdone, hnothing.1] using hx
    · cases hd : MobileApproval.described v with
      | none => simp [MobileApproval.hashedAt, hd, (h v hv).idle.1] at hx
      | some y =>
        obtain rfl := (h v hv).shown hd
        simpa [MobileApproval.hashedAt, hd, (h v hv).idle.1] using hx
  have hprint : ∀ x ∈ (e :: older).flatMap printedAt, x = printBytes papaFirst (sampleCall "+49 1") := by
    intro x hmem
    obtain ⟨v, hv, hx⟩ := List.mem_flatMap.mp hmem
    rcases List.mem_cons.mp hv with rfl | hv
    · simpa [printedAt, hdue, hnothing.2] using hx
    · cases hd : describedCall v with
      | none => simp [printedAt, hd, (h v hv).idle.2] at hx
      | some p =>
        obtain rfl := (h v hv).call hd
        simpa [printedAt, hd, (h v hv).idle.2] using hx
  exact ⟨fun x hx y hy _ => (htext x hx).trans (htext y hy).symm,
    fun x hx y hy _ => (hprint x hx).trans (hprint y hy).symm⟩

/-- What was signed is dialled. -/
theorem signed_number_dialled : ∃ W : World asciiWriting 180 known,
    Shared.World.Reach (MobileApproval.Launch _) W ∧ ∃ e older, W.log = e :: older ∧
      ∃ id a origin c, MobileApproval.done e = some (id, a, origin, c) ∧
        Signed older id ((telephony asciiWriting 180).digest (shownOf c) origin) := by
  obtain ⟨older, e, hlog, he, hquiet⟩ := quiet_log
  have hop : e.call.op = .handle 0 sampleArguments .localOwner := by rw [he]
  have hdue : dueCall e = some (papaFirst, sampleCall "+49 1") := by
    simp only [dueCall, he, planned_first]
  have hdone : MobileApproval.done e =
      some (0, sampleArguments, .localOwner, sampleCall "+49 1") := by
    refine (dials_iff hop).mpr ⟨by rw [he]; rfl, papaFirst, hdue, ?_⟩
    rw [he]
    exact congrArg (Option.map Snapshot.print) (noted_find papaFirst "+49 1" (notedTimes 2))
  have hswapped : ¬ Swapped older e := by
    rintro ⟨-, row, c, row', v, rowᵥ, cᵥ, hdue', hlast, hv, -, hcall, hother⟩
    cases hdue.symm.trans hdue'
    cases (hquiet v hv).call hcall
    simp at hother
  have hreach : Shared.World.Reach (MobileApproval.Launch _) (sampleWorld noRebinding) :=
    MobileApproval.overtaken_reach ..
  exact ⟨sampleWorld noRebinding, hreach, e, older, hlog, 0, sampleArguments, .localOwner,
    sampleCall "+49 1", hdone, ((number_dialled_is_signed 180 known).2 _ hreach
      (hlog ▸ quiet_hashes hdone hdue hquiet) [] e older hlog 0 sampleArguments .localOwner hop).mpr
      hswapped _ hdone⟩

end Solvio.Telephony.Dialled
