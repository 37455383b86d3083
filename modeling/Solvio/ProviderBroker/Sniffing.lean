import Mathlib.Data.List.Induction
import Mathlib.Data.List.Infix
import Solvio.Lib.Chunks
import Solvio.ProviderBroker.Proxy

namespace Solvio.ProviderBroker
open Solvio.Lib

/-- The JSON document of a line: the line itself, or what follows `data:`. -/
def lineBody (line : Bytes) : Option Json :=
  let payload := stripBytes line
  let payload := if (asciiBytes "data:").isPrefixOf payload then stripBytes (payload.drop 5)
    else payload
  if (asciiBytes "\x7b").isPrefixOf payload then
    (decodeUtf8 payload).bind (fun text => Json.loads text.toList)
  else none

/-- The usage that a line reports. -/
def lineRecords (line : Bytes) : List (Nat × Nat) :=
  if asciiBytes "\"usage\"" <:+: line then
    ((lineBody line).elim [] usageCandidates).filterMap readUsage
  else []

/-- The usage that a stream reports, in its order. -/
def usageRecords (stream : Bytes) : List (Nat × Nat) := (allLines 10 stream).flatMap lineRecords

/-- What the last of these records says. -/
def lastReport (records : List (Nat × Nat)) : Bool × Nat × Nat :=
  match records.getLast? with
  | none => (false, 0, 0)
  | some r => (true, r.1, r.2)

namespace UsageSniffer

def reported (u : UsageSniffer) : Bool × Nat × Nat := (u.seen, u.inputTokens, u.outputTokens)

def note (u : UsageSniffer) (got : Nat × Nat) : UsageSniffer :=
  { u with inputTokens := got.1, outputTokens := got.2, seen := true }

/-- The same counts holding another buffer. -/
def holding (u : UsageSniffer) (b : Bytes) : UsageSniffer := { u with buffer := b }

def noteAll (u : UsageSniffer) (records : List (Nat × Nat)) : UsageSniffer := records.foldl note u

theorem candidates_noted (candidates : List Json) (u : UsageSniffer) :
    candidates.foldl (fun u candidate => match readUsage candidate with
      | some got => { u with inputTokens := got.1, outputTokens := got.2, seen := true }
      | none => u) u = u.noteAll (candidates.filterMap readUsage) := by
  induction candidates generalizing u with
  | nil => rfl
  | cons c cs ih =>
    rw [List.foldl_cons, List.filterMap_cons, ih]
    cases readUsage c with
    | none => rfl
    | some got => rfl

theorem consider_eq (u : UsageSniffer) (line : Bytes) :
    u.consider line = u.noteAll (lineRecords line) := by
  unfold consider lineRecords lineBody
  by_cases hname : asciiBytes "\"usage\"" <:+: line
  · rw [if_neg (not_not.mpr hname), if_pos hname]
    dsimp only
    generalize (if (asciiBytes "data:").isPrefixOf (stripBytes line) = true then _ else _) = payload
    by_cases hbrace : (asciiBytes "\x7b").isPrefixOf payload = true
    · rw [if_neg (not_not.mpr hbrace), if_pos hbrace]
      cases (decodeUtf8 payload).bind (fun text => Json.loads text.toList) with
      | none => rfl
      | some body => exact candidates_noted _ u
    · rw [if_pos hbrace, if_neg hbrace]
      rfl
  · rw [if_pos hname, if_neg hname]
    rfl

theorem note_all_holding (u : UsageSniffer) (b : Bytes) (records : List (Nat × Nat)) :
    (u.holding b).noteAll records = (u.noteAll records).holding b := by
  induction records generalizing u with
  | nil => rfl
  | cons r records ih => exact ih (u.note r)

theorem note_all_append (u : UsageSniffer) (rs rs' : List (Nat × Nat)) :
    u.noteAll (rs ++ rs') = (u.noteAll rs).noteAll rs' := List.foldl_append ..

theorem note_all_buffer (u : UsageSniffer) (records : List (Nat × Nat)) :
    (u.noteAll records).buffer = u.buffer := by
  induction records generalizing u with
  | nil => rfl
  | cons r records ih => exact ih (u.note r)

/-- Reading the finished lines of a buffer leaves the open one. -/
theorem lines_eq (u : UsageSniffer) (b : Bytes) {fuel : Nat} (hfuel : b.length < fuel) :
    lines fuel (u.holding b) =
      (u.noteAll ((cut 10 b).1.flatMap lineRecords)).holding (cut 10 b).2 := by
  induction b using cut_induction (10 : UInt8) generalizing u fuel with
  | tail b h =>
    obtain ⟨fuel, rfl⟩ := Nat.exists_eq_add_of_lt hfuel
    rw [cut_open h, lines]
    have hspan : (u.holding b).buffer.span (· ≠ 10) = (b, []) := span_open h
    rw [hspan]
    rfl
  | line line rest h ih =>
    obtain ⟨fuel, rfl⟩ : ∃ n, fuel = n + 1 := ⟨fuel - 1, by omega⟩
    have hspan : (u.holding (line ++ 10 :: rest)).buffer.span (· ≠ 10) = (line, 10 :: rest) :=
      span_line h rest
    have hrest : rest.length < fuel := by
      rw [List.length_append, List.length_cons] at hfuel
      omega
    rw [cut_line h, lines, hspan]
    change lines fuel ((u.holding rest).consider line) = _
    rw [consider_eq, note_all_holding, ih _ hrest, List.flatMap_cons, note_all_append]

/-- Where the open line fits, a chunk adds its finished lines and goes on with
the open one. -/
theorem feed_eq (u : UsageSniffer) (chunk : Bytes)
    (hfit : (cut 10 (u.buffer ++ chunk)).2.length ≤ maxLine) :
    u.feed chunk = (u.noteAll ((cut 10 (u.buffer ++ chunk)).1.flatMap lineRecords)).holding
      (cut 10 (u.buffer ++ chunk)).2 := by
  have hlines := lines_eq u (u.buffer ++ chunk) (Nat.lt_succ_self _)
  change (let v := lines ((u.buffer ++ chunk).length + 1) (u.holding (u.buffer ++ chunk))
    if maxLine < v.buffer.length then { v with buffer := v.buffer.drop (v.buffer.length - maxLine) }
    else v) = _
  rw [hlines]
  exact if_neg (not_lt.mpr hfit)

/-- The sniffer after some chunks, from what it holds before them. -/
theorem feed_all (chunks : List Bytes) (u : UsageSniffer) (hopen : 10 ∉ u.buffer)
    (hfit : ∀ line ∈ allLines 10 (u.buffer ++ chunks.flatten), line.length ≤ maxLine) :
    chunks.foldl feed u =
      (u.noteAll ((cut 10 (u.buffer ++ chunks.flatten)).1.flatMap lineRecords)).holding
        (cut 10 (u.buffer ++ chunks.flatten)).2 := by
  induction chunks generalizing u with
  | nil =>
    simp only [List.flatten_nil, List.append_nil, cut_open hopen, List.flatMap_nil]
    rfl
  | cons chunk chunks ih =>
    rw [List.flatten_cons, ← List.append_assoc] at hfit ⊢
    obtain ⟨line, hline, hpre⟩ : ∃ line ∈ allLines 10 (u.buffer ++ chunk ++ chunks.flatten),
        (cut 10 (u.buffer ++ chunk)).2 <+: line :=
      open_line_prefix (u.buffer ++ chunk) chunks.flatten
    have hchunk := feed_eq u chunk (hpre.length_le.trans (hfit line hline))
    rw [List.foldl_cons, hchunk, ih]
    · change (UsageSniffer.holding _ _) = _
      rw [cut_append (u.buffer ++ chunk), List.flatMap_append, note_all_append, note_all_holding]
      rfl
    · exact cut_rest_open _
    · intro l hl
      apply hfit
      rw [allLines, cut_append, List.append_assoc]
      exact List.mem_append_right _ hl

theorem finish_eq (u : UsageSniffer) :
    u.finish.reported = (u.noteAll (lineRecords u.buffer)).reported := by
  unfold finish
  split
  · rename_i h
    rw [h, show lineRecords [] = [] from rfl]
    rfl
  · rw [consider_eq]
    rfl

/-- Only the last record counts. -/
theorem note_all_reported (records : List (Nat × Nat)) :
    (noteAll {} records).reported = lastReport records := by
  induction records using List.reverseRecOn with
  | nil => rfl
  | append_singleton records r _ =>
    rw [note_all_append]
    simp [lastReport, noteAll, note, reported]

theorem sniffed (chunks : List Bytes)
    (hfit : ∀ line ∈ allLines 10 chunks.flatten, line.length ≤ maxLine) :
    (chunks.foldl feed {}).finish.reported = lastReport (usageRecords chunks.flatten) := by
  rw [finish_eq, feed_all chunks {} (by simp) hfit]
  change ((noteAll {} _).holding _ |>.noteAll (lineRecords (cut 10 chunks.flatten).2)).reported = _
  rw [note_all_holding, usageRecords, allLines, List.flatMap_append, List.flatMap_singleton,
    ← note_all_reported, note_all_append]
  rfl

end UsageSniffer

/-- Two events, cut inside a field and after an empty chunk. -/
def sampleChunks : List Bytes := [
  asciiBytes "data: \x7b\"usage\": \x7b\"input_tokens\": 3, \"output_to", [],
  asciiBytes "kens\": 0\x7d\x7d\n\ndata: \x7b\"response\": \x7b\"usage\": \x7b\"input_tokens\": 3,",
  asciiBytes " \"output_tokens\": 4\x7d\x7d\x7d"]

end Solvio.ProviderBroker
