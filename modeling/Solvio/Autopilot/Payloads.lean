import Mathlib.Data.Rat.Init
import Solvio.Autopilot.Ledger
import Solvio.Lib.JsonPrefix
import Solvio.Lib.Runs

namespace Solvio.Autopilot.Payloads
open Solvio.Lib

/-! ### Texts of payloads -/

mutual

/-- `int.__repr__` refuses a number of more than 4300 digits. -/
def printable : Json → Bool
  | .int n => n.natAbs < 10 ^ 4300
  | .arr xs => printableElements xs
  | .obj kvs => printableMembers kvs
  | _ => true

def printableElements : List Json → Bool
  | [] => true
  | x :: xs => printable x && printableElements xs

def printableMembers : List (Text × Json) → Bool
  | [] => true
  | (_, v) :: kvs => printable v && printableMembers kvs

end

/-- A dictionary of JSON values. -/
structure Payload where
  members : List (Text × Json)
  numeric : Json.NumericMembers members

def Payload.json (p : Payload) : Json := .obj p.members

def Payload.none : Payload := ⟨[], trivial⟩

/-- The text of `json.dumps(payload, ensure_ascii=False)`. -/
def Payload.text (p : Payload) : List Char := Json.write [' '] p.json

def maxJson : Nat := 8000
def maxSummary : Nat := 1000

/-- What a column keeps of a payload. Neither a long number nor, in the part that is
kept, a lone surrogate gets there. -/
def stored (p : Payload) : Option (List Char) :=
  if printable p.json && decide ('\x00' ∉ p.text.take maxJson) then some (p.text.take maxJson)
  else none

/-! ### The tables -/

structure EvidenceRow where
  evidenceId : String
  milestoneId : String
  kind : String
  commit : String
  envFingerprint : String
  ok : Bool
  summary : String
  payloadJson : List Char := []
  measuredAt : Rat
deriving DecidableEq

instance : Keyed EvidenceRow String := ⟨EvidenceRow.evidenceId⟩

structure HandoffRow where
  handoffId : String
  milestoneId : String
  payloadJson : List Char := []
  createdAt : Rat
deriving DecidableEq

instance : Keyed HandoffRow String := ⟨HandoffRow.handoffId⟩

structure CapacityRow where
  milestoneId : String
  role : String
  provider : String
  state : String
  signalsJson : List Char := []
  measuredAt : Rat
deriving DecidableEq

instance : Keyed CapacityRow (String × String) := ⟨fun r => (r.milestoneId, r.role)⟩

/-- `ROLES`. -/
def roles : List String := ["technical_lead", "builder", "advisor"]

structure Book where
  milestones : List String
  evidence : Table EvidenceRow
  handoffs : Table HandoffRow
  capacity : Table CapacityRow

/-- A write that is refused, and a text that a reader cannot parse. -/
inductive Raised where
  | refused
  | unreadable
deriving DecidableEq

namespace Book

def empty : Book := ⟨[], .empty, .empty, .empty⟩

/-- `json.loads(text or "{}")`. -/
def readJson (text : List Char) : Except Raised Json :=
  match Json.loads (if text = [] then ['{', '}'] else text) with
  | some v => .ok v
  | none => .error .unreadable

/-- `record_evidence`. -/
def recordEvidence (row : EvidenceRow) (p : Payload) (b : Book) : Except Raised Book :=
  match stored p with
  | none => .error .refused
  | some text =>
    if row.milestoneId ∈ b.milestones then
      match b.evidence.insert?
          { row with summary := cap row.summary maxSummary, payloadJson := text } with
      | some t => .ok { b with evidence := t }
      | none => .error .refused
    else .error .refused

/-- The newer of two measurements, by their ids where they are as old. -/
def newer (r s : EvidenceRow) : Bool :=
  s.measuredAt < r.measuredAt || (s.measuredAt = r.measuredAt && s.evidenceId < r.evidenceId)

/-- `fresh_evidence`. -/
def freshEvidence (b : Book) (milestoneId kind commit envFingerprint : String) :
    Option EvidenceRow :=
  (b.evidence.rows.filter (fun r => r.milestoneId = milestoneId && r.kind = kind &&
    r.commit = commit && r.envFingerprint = envFingerprint)).foldl
      (fun best r => match best with
        | none => some r
        | some s => if newer r s then some r else some s) none

/-- `record_gate`. What was measured before is read, and what is measured is recorded. -/
def recordGate (reuse : Bool) (row : EvidenceRow) (result : Payload) (b : Book) :
    Except Raised (Json × Book) :=
  match if reuse then b.freshEvidence row.milestoneId "test_report" row.commit row.envFingerprint
    else none with
  | some found => (readJson found.payloadJson).map (fun v => (v, b))
  | none => (b.recordEvidence { row with kind := "test_report" } result).map
      (fun b => (result.json, b))

/-- `record_handoff`. -/
def recordHandoff (row : HandoffRow) (p : Payload) (b : Book) : Except Raised Book :=
  match stored p with
  | none => .error .refused
  | some text =>
    if row.milestoneId ∈ b.milestones then
      match b.handoffs.insert? { row with payloadJson := text } with
      | some t => .ok { b with handoffs := t }
      | none => .error .refused
    else .error .refused

/-- `set_capacity`, which replaces the row of the role. -/
def setCapacity (row : CapacityRow) (signals : Payload) (b : Book) : Except Raised Book :=
  if row.role ∈ roles then
    match stored signals with
    | none => .error .refused
    | some text => .ok { b with capacity := b.capacity.put { row with signalsJson := text } }
  else .error .refused

/-! ### The readers -/

/-- `capacity`: the signals of every role. -/
def capacityOf (b : Book) (milestoneId : String) : Except Raised (List (String × Json)) :=
  (b.capacity.rows.filter (fun r => r.milestoneId = milestoneId)).mapM
    (fun r => (readJson r.signalsJson).map (fun v => (r.role, v)))

/-- The gate that the driver hands on. -/
def gateOf (b : Book) (evidenceId : String) : Option (Except Raised Json) :=
  (b.evidence.find? evidenceId).map (fun r => match Json.loads r.payloadJson with
    | some v => .ok v
    | none => .error .unreadable)

end Book

/-- The row that a payload is kept in. -/
inductive Place where
  | evidence (id : String)
  | handoff (id : String)
  | capacity (milestoneId role : String)
deriving DecidableEq

/-- The text at a place. -/
def Book.textAt (b : Book) : Place → Option (List Char)
  | .evidence id => (b.evidence.find? id).map EvidenceRow.payloadJson
  | .handoff id => (b.handoffs.find? id).map HandoffRow.payloadJson
  | .capacity milestoneId role => (b.capacity.find? (milestoneId, role)).map CapacityRow.signalsJson

inductive Call where
  | createMilestone (id : String)
  | recordEvidence (row : EvidenceRow) (p : Payload)
  | recordGate (reuse : Bool) (row : EvidenceRow) (result : Payload)
  | recordHandoff (row : HandoffRow) (p : Payload)
  | setCapacity (row : CapacityRow) (signals : Payload)

/-- The payload that a call hands over. -/
def Call.payload : Call → Option Payload
  | .createMilestone _ => none
  | .recordEvidence _ p => some p
  | .recordGate _ _ p => some p
  | .recordHandoff _ p => some p
  | .setCapacity _ p => some p

/-- The measurement that `record_gate` uses again. -/
def Book.reused (b : Book) (reuse : Bool) (row : EvidenceRow) : Option EvidenceRow :=
  if reuse then b.freshEvidence row.milestoneId "test_report" row.commit row.envFingerprint
  else none

/-- Where the payload of a call goes if it is written. -/
def Call.place (b : Book) : Call → Option Place
  | .createMilestone _ => none
  | .recordEvidence row _ => some (.evidence row.evidenceId)
  | .recordGate reuse row _ =>
    if (b.reused reuse row).isSome then none else some (.evidence row.evidenceId)
  | .recordHandoff row _ => some (.handoff row.handoffId)
  | .setCapacity row _ => some (.capacity row.milestoneId row.role)

def Call.perform (b : Book) : Call → Except Raised Book
  | .createMilestone id => .ok { b with milestones := id :: b.milestones }
  | .recordEvidence row p => b.recordEvidence row p
  | .recordGate reuse row p => (b.recordGate reuse row p).map Prod.snd
  | .recordHandoff row p => b.recordHandoff row p
  | .setCapacity row p => b.setCapacity row p

/-! ### What a text keeps of its payload -/

theorem blank_space : Json.Blank [' '] := by
  intro c hc
  rw [List.mem_singleton.mp hc]
  rfl

theorem text_ne_nil (p : Payload) : p.text.take maxJson ≠ [] := by
  obtain ⟨t, ht⟩ := Json.write_object [' '] p.members
  rw [Payload.text, Payload.json, ht, maxJson, List.take_succ_cons]
  exact List.cons_ne_nil _ _

/-- A stored text is the payload's as long as nothing has been cut off, and nothing at
all otherwise. -/
theorem loads_stored {p : Payload} {text : List Char} (h : stored p = some text) :
    text = p.text.take maxJson ∧
      Json.loads text = if p.text.length ≤ maxJson then some p.json else none := by
  unfold stored at h
  split at h
  · rename_i hkept
    obtain rfl := Option.some.inj h
    have hmark := of_decide_eq_true (Bool.and_eq_true_iff.mp hkept).2
    refine ⟨rfl, ?_⟩
    split
    · rename_i hlen
      rw [List.take_of_length_le hlen] at hmark ⊢
      exact Json.loads_write blank_space (Json.readable_of_write p.json p.numeric hmark)
    · rename_i hlen
      refine Json.loads_cut blank_space p.numeric (List.take_append_drop maxJson p.text).symm
        (fun hnil => ?_) hmark
      exact hlen (List.drop_eq_nil_iff.mp hnil)
  · cases h

/-- A stored payload can be read if and only if its text was short enough. -/
theorem stored_readable {p : Payload} {text : List Char} (h : stored p = some text) :
    Json.loads text = some p.json ↔ p.text.length ≤ maxJson := by
  rw [(loads_stored h).2]
  split
  · rename_i hlen
    simp [hlen]
  · rename_i hlen
    simp [hlen]

/-! ### What a call does to the texts -/

section texts
variable {b b' : Book} {p : Payload}

theorem evidence_written {row : EvidenceRow} (h : b.recordEvidence row p = .ok b') :
    ∃ text, stored p = some text ∧ ∀ place, b'.textAt place =
      if place = .evidence row.evidenceId then some text else b.textAt place := by
  unfold Book.recordEvidence at h
  split at h
  · cases h
  · rename_i text htext
    refine ⟨text, htext, ?_⟩
    split at h
    · split at h
      · rename_i t hins
        cases h
        intro place
        cases place with
        | evidence id =>
          have hfind := Table.find_insert hins id
          simp only [Book.textAt, Place.evidence.injEq] at hfind ⊢
          rw [hfind]
          change (if row.evidenceId = id then _ else _ : Option EvidenceRow).map _ = _
          by_cases hid : row.evidenceId = id
          · rw [if_pos hid, if_pos hid.symm]
            rfl
          · rw [if_neg hid, if_neg (Ne.symm hid)]
        | handoff id => rfl
        | capacity m r => rfl
      · cases h
    · cases h

theorem handoff_written {row : HandoffRow} (h : b.recordHandoff row p = .ok b') :
    ∃ text, stored p = some text ∧ ∀ place, b'.textAt place =
      if place = .handoff row.handoffId then some text else b.textAt place := by
  unfold Book.recordHandoff at h
  split at h
  · cases h
  · rename_i text htext
    refine ⟨text, htext, ?_⟩
    split at h
    · split at h
      · rename_i t hins
        cases h
        intro place
        cases place with
        | handoff id =>
          have hfind := Table.find_insert hins id
          simp only [Book.textAt, Place.handoff.injEq] at hfind ⊢
          rw [hfind]
          change (if row.handoffId = id then _ else _ : Option HandoffRow).map _ = _
          by_cases hid : row.handoffId = id
          · rw [if_pos hid, if_pos hid.symm]
            rfl
          · rw [if_neg hid, if_neg (Ne.symm hid)]
        | evidence id => rfl
        | capacity m r => rfl
      · cases h
    · cases h

theorem capacity_written {row : CapacityRow} (h : b.setCapacity row p = .ok b') :
    ∃ text, stored p = some text ∧ ∀ place, b'.textAt place =
      if place = .capacity row.milestoneId row.role then some text else b.textAt place := by
  unfold Book.setCapacity at h
  split at h
  · split at h
    · cases h
    · rename_i text htext
      cases h
      refine ⟨text, htext, fun place => ?_⟩
      cases place with
      | capacity m r =>
        simp only [Book.textAt, Table.find_put, Place.capacity.injEq]
        change (if (m, r) = (row.milestoneId, row.role) then _ else _ :
          Option CapacityRow).map _ = _
        by_cases hkey : (m, r) = (row.milestoneId, row.role)
        · rw [if_pos hkey, if_pos (Prod.mk.inj hkey)]
          rfl
        · rw [if_neg hkey, if_neg (fun hboth => hkey (by rw [hboth.1, hboth.2]))]
      | evidence id => rfl
      | handoff id => rfl
  · cases h

/-- A call writes its payload to its place, and no other text. -/
theorem performed {c : Call} (h : c.perform b = .ok b') :
    (c.place b = none ∧ ∀ place, b'.textAt place = b.textAt place) ∨
      ∃ at_ p text, c.place b = some at_ ∧ c.payload = some p ∧ stored p = some text ∧
        ∀ place, b'.textAt place = if place = at_ then some text else b.textAt place := by
  cases c with
  | createMilestone id =>
    cases h
    exact .inl ⟨rfl, fun place => by cases place <;> rfl⟩
  | recordEvidence row p =>
    obtain ⟨text, htext, hall⟩ := evidence_written h
    exact .inr ⟨_, p, text, rfl, rfl, htext, hall⟩
  | recordGate reuse row p =>
    simp only [Call.perform, Book.recordGate] at h
    cases hfound : b.reused reuse row with
    | some found =>
      simp only [Book.reused] at hfound
      rw [hfound] at h
      simp only [Book.readJson] at h
      split at h
      · cases h
        refine .inl ⟨?_, fun place => rfl⟩
        simp [Call.place, Book.reused, hfound]
      · cases h
    | none =>
      simp only [Book.reused] at hfound
      rw [hfound] at h
      simp only at h
      cases hrec : b.recordEvidence { row with kind := "test_report" } p with
      | error e =>
        rw [hrec] at h
        cases h
      | ok b'' =>
        rw [hrec] at h
        cases h
        obtain ⟨text, htext, hall⟩ := evidence_written hrec
        refine .inr ⟨.evidence row.evidenceId, p, text, ?_, rfl, htext, hall⟩
        simp [Call.place, Book.reused, hfound]
  | recordHandoff row p =>
    obtain ⟨text, htext, hall⟩ := handoff_written h
    exact .inr ⟨_, p, text, rfl, rfl, htext, hall⟩
  | setCapacity row p =>
    obtain ⟨text, htext, hall⟩ := capacity_written h
    exact .inr ⟨_, p, text, rfl, rfl, htext, hall⟩

end texts

/-! ### Runs -/

/-- The book, with what has been handed over for every place. -/
structure Desk where
  book : Book
  handed : Place → Option Payload

/-- A call, of which a refusal leaves everything as it was. -/
def Desk.step (c : Call) (d : Desk) : Except Raised Unit × Desk :=
  match c.perform d.book with
  | .error e => (.error e, d)
  | .ok b => (.ok (), {
      book := b
      handed := fun place => if c.place d.book = some place then c.payload else d.handed place })

def desk : Machine Desk where
  Call := Call
  Reply _ := Except Raised Unit
  step := Desk.step
  init := ⟨.empty, fun _ => none⟩

/-- What stands at a place is the text of what was handed over, as far as it was kept. -/
def Kept (d : Desk) : Prop := ∀ place, d.book.textAt place = (d.handed place).bind stored

theorem kept_step {d : Desk} (c : Call) (h : Kept d) : Kept (d.step c).2 := by
  intro place
  unfold Desk.step
  split
  · exact h place
  · rename_i b hb
    rcases performed hb with ⟨hnone, hsame⟩ | ⟨at_, p, text, hplace, hpayload, htext, hall⟩
    · simp only [hnone, reduceCtorEq, if_false]
      rw [hsame]
      exact h place
    · simp only [hall, hplace, Option.some.injEq, hpayload]
      by_cases hat : place = at_
      · rw [if_pos hat, if_pos hat.symm, Option.bind_some, htext]
      · rw [if_neg hat, if_neg (Ne.symm hat)]
        exact h place

/-- The text of the payload that is handed over, if there is one, is short enough. -/
def Call.Fits (c : Call) : Prop := ∀ p, c.payload = some p → p.text.length ≤ maxJson

/-- What was handed over can be read where it was put. -/
def Readable (d : Desk) : Prop :=
  ∀ place p, d.handed place = some p →
    ∃ text, d.book.textAt place = some text ∧ Json.loads text = some p.json

theorem readable_step {d : Desk} {c : Call} (hfits : c.Fits) (h : Readable d) :
    Readable (d.step c).2 := by
  intro place p hp
  unfold Desk.step at hp ⊢
  split at hp
  · exact h place p hp
  · rename_i b hb
    rcases performed hb with ⟨hnone, hsame⟩ | ⟨at_, q, text, hplace, hpayload, htext, hall⟩
    · simp only [hnone, reduceCtorEq, if_false] at hp
      simp only [hsame]
      exact h place p hp
    · simp only [hplace, Option.some.injEq, hpayload] at hp
      simp only [hall]
      by_cases hat : place = at_
      · rw [if_pos hat.symm] at hp
        obtain rfl := Option.some.inj hp
        rw [if_pos hat]
        exact ⟨text, rfl, (stored_readable htext).mpr (hfits q hpayload)⟩
      · rw [if_neg (Ne.symm hat)] at hp
        rw [if_neg hat]
        exact h place p hp

/-- The readers meet the payloads that were handed over, and raise nowhere. -/
structure ReadBack (d : Desk) : Prop where
  stands : ∀ place, (d.book.textAt place).isSome = (d.handed place).isSome
  texts : Readable d
  gate : ∀ id r, d.book.gateOf id = some r →
    ∃ p, d.handed (.evidence id) = some p ∧ r = .ok p.json
  capacity : ∀ milestoneId, ∃ signals, d.book.capacityOf milestoneId = .ok signals ∧
    ∀ s ∈ signals, ∃ p, d.handed (.capacity milestoneId s.1) = some p ∧ s.2 = p.json
  reused : ∀ reuse row found, d.book.reused reuse row = some found →
    ∃ p, d.handed (.evidence found.evidenceId) = some p ∧
      ∀ result, d.book.recordGate reuse row result = .ok (p.json, d.book)

theorem reads_text {d : Desk} (hkept : Kept d) (h : Readable d) {place : Place}
    {text : List Char} (ht : d.book.textAt place = some text) :
    ∃ p, d.handed place = some p ∧ Json.loads text = some p.json ∧
      Book.readJson text = .ok p.json := by
  have hstored := hkept place
  rw [ht] at hstored
  obtain ⟨p, hp, hstored⟩ := Option.bind_eq_some_iff.mp hstored.symm
  obtain ⟨text', ht', hloads⟩ := h place p hp
  obtain rfl := Option.some.inj (ht.symm.trans ht')
  refine ⟨p, hp, hloads, ?_⟩
  have hne : text ≠ [] := by
    rw [(loads_stored hstored).1]
    exact text_ne_nil p
  rw [Book.readJson, if_neg hne, hloads]

theorem newest_mem {rows : List EvidenceRow} {best : Option EvidenceRow} {found : EvidenceRow}
    (h : rows.foldl (fun best r => match best with
      | none => some r
      | some s => if Book.newer r s then some r else some s) best = some found) :
    found ∈ rows ∨ best = some found := by
  induction rows generalizing best with
  | nil => exact .inr h
  | cons r rows ih =>
    rcases ih h with hmem | hbest
    · exact .inl (List.mem_cons_of_mem r hmem)
    · simp only at hbest
      split at hbest
      · obtain rfl := Option.some.inj hbest
        exact .inl (List.mem_cons_self ..)
      · split at hbest
        · obtain rfl := Option.some.inj hbest
          exact .inl (List.mem_cons_self ..)
        · exact .inr hbest

theorem reused_mem {b : Book} {reuse : Bool} {row found : EvidenceRow}
    (h : b.reused reuse row = some found) : found ∈ b.evidence := by
  unfold Book.reused Book.freshEvidence at h
  split at h
  · rcases newest_mem h with hmem | hnone
    · exact (List.mem_filter.mp hmem).1
    · cases hnone
  · cases h

theorem capacity_read {d : Desk} (hkept : Kept d) (h : Readable d) (milestoneId : String)
    (rows : List CapacityRow)
    (hrows : ∀ r ∈ rows, r ∈ d.book.capacity ∧ r.milestoneId = milestoneId) :
    ∃ signals, rows.mapM (fun r => (Book.readJson r.signalsJson).map (fun v => (r.role, v))) =
      .ok signals ∧
      ∀ s ∈ signals, ∃ p, d.handed (.capacity milestoneId s.1) = some p ∧ s.2 = p.json := by
  induction rows with
  | nil => exact ⟨[], rfl, fun s hs => by cases hs⟩
  | cons r rows ih =>
    obtain ⟨hmem, hmilestone⟩ := hrows r (List.mem_cons_self ..)
    have ht : d.book.textAt (.capacity milestoneId r.role) = some r.signalsJson := by
      have hfind := Table.find_of_mem hmem
      rw [← hmilestone]
      exact congrArg (Option.map CapacityRow.signalsJson) hfind
    obtain ⟨p, hp, -, hread⟩ := reads_text hkept h ht
    obtain ⟨signals, hsignals, hall⟩ := ih (fun r hr => hrows r (List.mem_cons_of_mem _ hr))
    refine ⟨(r.role, p.json) :: signals, ?_, fun s hs => ?_⟩
    · rw [List.mapM_cons, hread, hsignals]
      rfl
    · rcases List.mem_cons.mp hs with rfl | hs
      · exact ⟨p, hp, rfl⟩
      · exact hall s hs

theorem read_back {d : Desk} (hkept : Kept d) (h : Readable d) : ReadBack d where
  stands place := by
    cases hp : d.handed place with
    | none => rw [hkept place, hp]; rfl
    | some p =>
      obtain ⟨text, ht, -⟩ := h place p hp
      rw [ht]
      rfl
  texts := h
  gate id r hr := by
    obtain ⟨row, hrow, rfl⟩ := Option.map_eq_some_iff.mp hr
    have ht : d.book.textAt (.evidence id) = some row.payloadJson :=
      congrArg (Option.map EvidenceRow.payloadJson) hrow
    obtain ⟨p, hp, hloads, -⟩ := reads_text hkept h ht
    exact ⟨p, hp, by rw [hloads]⟩
  capacity milestoneId := by
    refine capacity_read hkept h milestoneId _ (fun r hr => ?_)
    obtain ⟨hmem, hmilestone⟩ := List.mem_filter.mp hr
    exact ⟨hmem, by simpa using hmilestone⟩
  reused reuse row found hfound := by
    have ht : d.book.textAt (.evidence found.evidenceId) = some found.payloadJson := by
      have hfind := Table.find_of_mem (reused_mem hfound)
      exact congrArg (Option.map EvidenceRow.payloadJson) hfind
    obtain ⟨p, hp, -, hread⟩ := reads_text hkept h ht
    refine ⟨p, hp, fun result => ?_⟩
    unfold Book.reused at hfound
    rw [Book.recordGate, hfound]
    simp only [hread]
    rfl

/-- A payload that is written can be read if and only if its text was not cut off. -/
theorem written_readable {b b' : Book} {c : Call} {place : Place} {p : Payload}
    (h : c.perform b = .ok b') (hplace : c.place b = some place) (hpayload : c.payload = some p) :
    (∃ text, b'.textAt place = some text ∧ Json.loads text = some p.json) ↔
      p.text.length ≤ maxJson := by
  rcases performed h with ⟨hnone, -⟩ | ⟨at_, q, text, hat, hq, htext, hall⟩
  · rw [hnone] at hplace
    cases hplace
  · obtain rfl := Option.some.inj (hat.symm.trans hplace)
    obtain rfl := Option.some.inj (hq.symm.trans hpayload)
    rw [hall, if_pos rfl, ← stored_readable htext]
    exact ⟨fun ⟨_, he, h⟩ => Option.some.inj he ▸ h, fun h => ⟨text, rfl, h⟩⟩

theorem payloads_read_back (b b' : Book) (c : Call) (place : Place) (p : Payload)
    (hc : c.perform b = .ok b') (hplace : c.place b = some place) (hp : c.payload = some p)
    (log : List desk.Entry) (d : Desk) :
    ((∃ text, b'.textAt place = some text ∧ Json.loads text = some p.json) ↔
      p.text.length ≤ maxJson) ∧
    (desk.Run (fun _ c => Call.Fits c) log d → ReadBack d) := by
  refine ⟨written_readable hc hplace hp, fun hrun => ?_⟩
  have hkept : Kept d := hrun.invariant Kept (fun place => by cases place <;> rfl)
    (fun _ s c _ h => kept_step c h)
  have hreadable : Readable d := hrun.invariant Readable
    (fun _ _ hp => by cases hp) (fun _ s c hfits h => readable_step hfits h)
  exact read_back hkept hreadable

/-! ### A long payload -/

/-- The tail of an output. -/
def longOutput (n : Nat) : Payload :=
  ⟨[(Text.ofString "tail", .str (List.replicate n 97))], trivial, trivial⟩

theorem long_output_text (n : Nat) : (longOutput n).text =
    "\x7b\"tail\": \"".toList ++ (List.replicate n 'a' ++ ['"', '}']) := by
  have hbody : (List.replicate n 97).flatMap Json.escapeChar = List.replicate n 'a' := by
    induction n with
    | zero => rfl
    | succ n ih =>
      rw [List.replicate_succ, List.flatMap_cons, ih, List.replicate_succ]
      rfl
  have hkey : (Text.ofString "tail").flatMap Json.escapeChar = "tail".toList := by decide
  have hlead : "\x7b\"tail\": \"".toList = '{' :: '"' :: ("tail".toList ++ ['"', ':', ' ', '"']) := by
    decide
  simp only [longOutput, Payload.text, Payload.json, Json.write, Json.writeMembers, Json.quote,
    hbody, hkey, hlead, List.cons_append, List.append_assoc, List.nil_append]

theorem long_output_stored (n : Nat) :
    stored (longOutput n) = some ((longOutput n).text.take maxJson) := by
  unfold stored
  rw [if_pos]
  rw [Bool.and_eq_true, decide_eq_true_iff]
  refine ⟨rfl, fun hmark => ?_⟩
  have hmark := List.mem_of_mem_take hmark
  rw [long_output_text, List.mem_append, List.mem_append] at hmark
  rcases hmark with hmark | hmark | hmark
  · exact absurd hmark (by decide)
  · exact absurd (List.eq_of_mem_replicate hmark) (by decide)
  · exact absurd hmark (by decide)

def sampleRow : CapacityRow where
  milestoneId := "m-1"
  role := "builder"
  provider := "claude"
  state := "available"
  measuredAt := 0

def setting (n : Nat) : Call := .setCapacity sampleRow (longOutput n)

theorem setting_performed (n : Nat) : ∃ b, (setting n).perform .empty = .ok b := by
  simp only [setting, Call.perform, Book.setCapacity, long_output_stored]
  exact ⟨_, rfl⟩

theorem long_output_length (n : Nat) : (longOutput n).text.length = n + 12 := by
  rw [long_output_text, List.length_append, List.length_append, List.length_replicate]
  change 10 + (n + 2) = n + 12
  omega

theorem payloads_read_back_sample : ∃ b,
    (setting 100).perform .empty = .ok b ∧
      ∃ text, b.textAt (.capacity "m-1" "builder") = some text ∧
        Json.loads text = some (longOutput 100).json := by
  obtain ⟨b, hb⟩ := setting_performed 100
  refine ⟨b, hb, (payloads_read_back _ b (setting 100) _ _ hb rfl rfl [] desk.init).1.mpr ?_⟩
  rw [long_output_length]
  decide

/-- A long output is stored, and no reader can parse what is stored. -/
theorem long_payload_unreadable : ∃ b, (setting 8000).perform .empty = .ok b ∧
    ¬ ∃ text, b.textAt (.capacity "m-1" "builder") = some text ∧
      Json.loads text = some (longOutput 8000).json := by
  obtain ⟨b, hb⟩ := setting_performed 8000
  refine ⟨b, hb, fun hread => ?_⟩
  have hlen := (written_readable hb rfl rfl).mp hread
  rw [long_output_length] at hlen
  exact absurd hlen (by decide)

end Solvio.Autopilot.Payloads
