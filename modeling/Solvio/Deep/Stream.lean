import Solvio.Deep.Journal
import Solvio.Lib.Feed

namespace Solvio.Deep
open Solvio.Lib

variable {P R : Type}

/-! ### One reader -/

/-- Where `stream` stands. A closed one may leave replayed events unread. -/
inductive Phase (P : Type) where
  | asks
  | replays (rest : List (DeepEvent P))
  | asksTask
  | answered (ended : Bool)
  | live
  | ended (byEvent : Bool)
  | closed (unread : List (DeepEvent P))

namespace Phase

def subscribed : Phase P → Bool
  | .ended _ | .closed _ => false
  | _ => true

def rest : Phase P → List (DeepEvent P)
  | .replays es | .closed es => es
  | _ => []

end Phase

/-- A run of `stream`. The last three fields are for the proofs: how long the
log was when the reader hung in, how much of it the reader has covered, and
whether an event never reached its queue. -/
structure Reader (P : Type) where
  taskId : String
  afterSeq : Int
  phase : Phase P
  queue : List (DeepEvent P)
  seen : Int
  delivered : List (DeepEvent P)
  born : Nat
  read : Nat
  lost : Bool

/-- `maxsize` of a queue. -/
def queueSize : Nat := 512

namespace Reader

variable (r : Reader P)

/-- The number of the first event that is wanted. -/
def start : Nat := (r.afterSeq + 1).toNat

/-- `put_nowait` for one reader. -/
def hear (e : DeepEvent P) : Reader P :=
  if e.taskId = r.taskId ∧ r.phase.subscribed then
    if r.queue.length < queueSize then { r with queue := r.queue ++ [e] }
    else { r with lost := true }
  else r

/-- The caller that was to publish is gone. -/
def miss (e : DeepEvent P) : Reader P :=
  if e.taskId = r.taskId ∧ r.phase.subscribed then { r with lost := true } else r

/-- The worker does what the reader waits for. -/
def served (j : Journal P R) : Reader P :=
  match r.phase with
  | .asks => { r with
      phase := .replays (j.replay r.taskId r.afterSeq), read := (j.log r.taskId).length }
  | .asksTask => { r with
      phase := .answered ((j.tasks.find? r.taskId).any (fun t => t.status.terminal)) }
  | _ => r

/-- The reader goes on, as far as its next await or `yield`. -/
def next : Reader P :=
  match r.phase with
  | .replays (e :: es) => { r with
      phase := .replays es, seen := e.seq, delivered := r.delivered ++ [e] }
  | .replays [] => { r with phase := .asksTask }
  | .answered true => { r with phase := .ended false }
  | .answered false => { r with phase := .live }
  | .live =>
    match r.queue with
    | [] => r
    | e :: queue =>
      if e.seq ≤ r.seen then { r with queue := queue }
      else { r with
        queue := queue
        seen := e.seq
        delivered := r.delivered ++ [e]
        read := r.read + 1
        phase := if e.kind.terminal then .ended true else .live }
  | _ => r

def close : Reader P :=
  if r.phase.subscribed then { r with phase := .closed r.phase.rest } else r

end Reader

/-! ### The loop and the worker -/

/-- The journal, the events whose callers have not woken up yet, and all readers. -/
structure World (P R : Type) where
  journal : Journal P R
  outbox : List (DeepEvent P)
  readers : List (Reader P)

inductive Move (P R : Type) where
  | call (c : Journal.Call P R)
  | wake (heard : Bool)
  | subscribe (id : String) (afterSeq : Int)
  | serve (i : Nat)
  | next (i : Nat)
  | close (i : Nat)

namespace World

variable (w : World P R)

/-- A caller wakes up in the order of the calls, unless it was cancelled. -/
def wake (heard : Bool) : World P R :=
  match w.outbox with
  | [] => w
  | e :: rest => { w with
      outbox := rest
      readers := w.readers.map (fun r => if heard then r.hear e else r.miss e) }

def subscribe (id : String) (afterSeq : Int) : World P R :=
  { w with readers := w.readers ++
      [⟨id, afterSeq, .asks, [], afterSeq, [], (w.journal.log id).length, 0, false⟩] }

def step : Move P R → World P R
  | .call c =>
    let (answer, journal) := w.journal.step c
    { w with journal := journal, outbox := w.outbox ++ (Journal.published c answer).toList }
  | .wake heard => w.wake heard
  | .subscribe id afterSeq => w.subscribe id afterSeq
  | .serve i => { w with readers := w.readers.modify i (fun r => r.served w.journal) }
  | .next i => { w with readers := w.readers.modify i Reader.next }
  | .close i => { w with readers := w.readers.modify i Reader.close }

def machine (P R : Type) : Machine (World P R) where
  Call := Move P R
  Reply _ := Unit
  step m w := ((), w.step m)
  init := ⟨.empty, [], []⟩

end World

/-! ### Nothing twice, nothing foreign -/

/-- What a reader has, is about to yield and has queued are events of the log,
and what it yields has rising numbers. -/
structure Reader.Orderly (j : Journal P R) (r : Reader P) : Prop where
  sorted : (r.delivered ++ r.phase.rest).Pairwise (fun e e' => e.seq < e'.seq)
  known : ∀ e ∈ r.delivered ++ r.phase.rest, e ∈ j.log r.taskId ∧ r.afterSeq < e.seq
  queued : ∀ e ∈ r.queue, e ∈ j.log r.taskId
  behind : ∀ e ∈ r.delivered, (e.seq : Int) ≤ r.seen
  wanted : r.afterSeq ≤ r.seen
  untouched : r.phase = .asks → r.delivered = []

section Orderly

variable {j j' : Journal P R} {r : Reader P} {e : DeepEvent P}

theorem Reader.Orderly.later (h : r.Orderly j) (hlater : j.Later j') : r.Orderly j' where
  sorted := h.sorted
  known e he := ⟨(hlater.logs r.taskId).subset (h.known e he).1, (h.known e he).2⟩
  queued e he := (hlater.logs r.taskId).subset (h.queued e he)
  behind := h.behind
  wanted := h.wanted
  untouched := h.untouched

theorem Reader.Orderly.hear (h : r.Orderly j) (he : e ∈ j.log e.taskId) : (r.hear e).Orderly j := by
  unfold Reader.hear
  split
  · rename_i hmine
    split
    · refine { h with queued := fun e' he' => ?_ }
      rcases List.mem_append.mp he' with he' | he'
      · exact h.queued e' he'
      · rw [List.mem_singleton.mp he', ← hmine.1]
        exact he
    · exact { h with }
  · exact h

theorem Reader.Orderly.miss (h : r.Orderly j) (e : DeepEvent P) : (r.miss e).Orderly j := by
  unfold Reader.miss
  split
  · exact { h with }
  · exact h

theorem Reader.Orderly.served (h : r.Orderly j) (hj : j.Sound) : (r.served j).Orderly j := by
  obtain ⟨id, after, phase, queue, seen, delivered, born, read, lost⟩ := r
  cases phase with
  | asks =>
    obtain rfl : delivered = [] := h.untouched rfl
    have hreplay := replay_eq hj id after
    refine ⟨?_, fun e he => ?_, h.queued, h.behind, h.wanted, fun hasks => (by cases hasks)⟩
    · change (j.replay id after).Pairwise _
      rw [hreplay]
      exact (log_sorted hj id).drop
    · change e ∈ j.replay id after at he
      rw [Journal.replay, (List.perm_insertionSort _ _).mem_iff, List.mem_filter] at he
      exact ⟨he.1, of_decide_eq_true he.2⟩
  | asksTask => exact ⟨h.sorted, h.known, h.queued, h.behind, h.wanted, fun hasks => (by cases hasks)⟩
  | replays rest => exact h
  | answered ended => exact h
  | live => exact h
  | ended byEvent => exact h
  | closed unread => exact h

theorem Reader.Orderly.next (h : r.Orderly j) : r.next.Orderly j := by
  obtain ⟨id, after, phase, queue, seen, delivered, born, read, lost⟩ := r
  obtain ⟨hsorted, hknown, hqueued, hbehind, hwanted, huntouched⟩ := h
  cases phase with
  | replays rest =>
    cases rest with
    | nil => exact ⟨hsorted, hknown, hqueued, hbehind, hwanted, fun hasks => (by cases hasks)⟩
    | cons e es =>
      simp only [Phase.rest] at hsorted hknown
      refine ⟨?_, ?_, hqueued, fun e' he' => ?_, ?_, fun hasks => (by cases hasks)⟩
      · change (delivered ++ [e] ++ es).Pairwise _
        rw [List.append_assoc]
        exact hsorted
      · change ∀ e' ∈ delivered ++ [e] ++ es, _
        rw [List.append_assoc]
        exact hknown
      · rcases List.mem_append.mp he' with he' | he'
        · have hlt := (List.pairwise_append.mp hsorted).2.2 e' he' e List.mem_cons_self
          exact Int.ofNat_le.mpr (Nat.le_of_lt hlt)
        · rw [List.mem_singleton.mp he']
          exact Int.le_refl _
      · exact Int.le_of_lt (hknown e (List.mem_append_right _ List.mem_cons_self)).2
  | answered ended =>
    cases ended <;> exact ⟨hsorted, hknown, hqueued, hbehind, hwanted, fun hasks => (by cases hasks)⟩
  | live =>
    cases queue with
    | nil => exact ⟨hsorted, hknown, hqueued, hbehind, hwanted, huntouched⟩
    | cons e queue =>
      have hrest : ∀ e' ∈ queue, e' ∈ j.log id := fun e' he' =>
        hqueued e' (List.mem_cons_of_mem e he')
      simp only [Phase.rest, List.append_nil] at hsorted hknown
      by_cases hold : (e.seq : Int) ≤ seen
      · simp only [Reader.next, hold, if_true]
        refine ⟨?_, ?_, hrest, hbehind, hwanted, fun hasks => (by cases hasks)⟩
        · simpa only [Phase.rest, List.append_nil] using hsorted
        · simpa only [Phase.rest, List.append_nil] using hknown
      · simp only [Reader.next, hold, if_false]
        have hnone : ∀ b : Bool, (if b then Phase.ended true else .live : Phase P).rest = [] := by
          intro b
          cases b <;> rfl
        have hlt := Int.lt_of_not_ge hold
        refine ⟨?_, ?_, hrest, fun e' he' => ?_, ?_, fun hasks => ?_⟩
        · simp only [hnone, List.append_nil]
          refine List.pairwise_append.mpr ⟨hsorted, List.pairwise_singleton _ _, ?_⟩
          intro e₁ he₁ e₂ he₂
          rw [List.mem_singleton.mp he₂]
          exact Int.ofNat_lt.mp (Int.lt_of_le_of_lt (hbehind e₁ he₁) hlt)
        · simp only [hnone, List.append_nil]
          intro e' he'
          rcases List.mem_append.mp he' with he' | he'
          · exact hknown e' he'
          · rw [List.mem_singleton.mp he']
            exact ⟨hqueued e List.mem_cons_self, Int.lt_of_le_of_lt hwanted hlt⟩
        · rcases List.mem_append.mp he' with he' | he'
          · exact Int.le_trans (hbehind e' he') (Int.le_of_lt hlt)
          · rw [List.mem_singleton.mp he']
        · exact Int.le_trans hwanted (Int.le_of_lt hlt)
        · simp only at hasks
          split at hasks <;> cases hasks
  | asks => exact ⟨hsorted, hknown, hqueued, hbehind, hwanted, huntouched⟩
  | asksTask => exact ⟨hsorted, hknown, hqueued, hbehind, hwanted, huntouched⟩
  | ended byEvent => exact ⟨hsorted, hknown, hqueued, hbehind, hwanted, huntouched⟩
  | closed unread => exact ⟨hsorted, hknown, hqueued, hbehind, hwanted, huntouched⟩

theorem Reader.Orderly.close (h : r.Orderly j) : r.close.Orderly j := by
  unfold Reader.close
  split
  · exact { h with untouched := fun hasks => (by cases hasks) }
  · exact h

end Orderly

/-! ### No hole -/

/-- What is on its way to a reader. -/
def Reader.feed (r : Reader P) (outbox : List (DeepEvent P)) : List (DeepEvent P) :=
  r.queue ++ outbox.filter (fun e => e.taskId = r.taskId)

abbrev EndsTask (e : DeepEvent P) : Bool := e.kind.terminal

/-- Unless the task ended in the first `n` events, the feed follows the log from there. -/
def Follows (n : Nat) (feed log : List (DeepEvent P)) : Prop :=
  (∀ e ∈ log.take n, EndsTask e = false) → Fed DeepEvent.seq EndsTask n feed log

/-- What holds at each place of a reader that has lost nothing. -/
def Phase.Place (j : Journal P R) (feed : List (DeepEvent P)) (r : Reader P) : Phase P → Prop
  | .asks => r.read = 0 ∧ r.delivered = [] ∧ Follows r.born feed (j.log r.taskId)
  | .replays _ | .asksTask => r.born ≤ r.read ∧ Follows r.born feed (j.log r.taskId)
  | .answered finished => r.born ≤ r.read ∧ Follows r.born feed (j.log r.taskId) ∧
    (finished = false → ∀ e ∈ (j.log r.taskId).take r.read, EndsTask e = false)
  | .live => r.born ≤ r.read ∧ (∀ e ∈ (j.log r.taskId).take r.read, EndsTask e = false) ∧
    Fed DeepEvent.seq EndsTask r.read feed (j.log r.taskId)
  | .ended true => r.born ≤ r.read ∧ ∃ before e, r.delivered = before ++ [e] ∧
    (∀ e ∈ before, EndsTask e = false) ∧ EndsTask e = true
  | .ended false => r.born ≤ r.read
  | .closed _ => True

/-- What a reader has yielded and is about to yield is the log that it covered. -/
structure Reader.Tracks (j : Journal P R) (feed : List (DeepEvent P)) (r : Reader P) : Prop where
  born : r.born ≤ (j.log r.taskId).length
  read : r.read ≤ (j.log r.taskId).length
  covers : r.delivered ++ r.phase.rest = ((j.log r.taskId).take r.read).drop r.start
  seen : (r.seen + 1).toNat = r.start + r.delivered.length
  place : r.phase.Place j feed r

section Tracks

variable {j j' : Journal P R} {r : Reader P} {feed : List (DeepEvent P)} {e : DeepEvent P}
  {pushed : Option (DeepEvent P)} {n : Nat}

/-- What one call writes for a task that exists, and what of it is published. -/
theorem effect_log (heffect : Effect j j' pushed) (hj : j.Sound) {id : String}
    (hid : j.log id ≠ []) :
    (j'.log id = j.log id ∧ pushed.toList.filter (fun e => e.taskId = id) = []) ∨
    (∃ e, j'.log id = j.log id ++ [e] ∧ pushed.toList.filter (fun e => e.taskId = id) = [e]) ∨
    (∃ late, j'.log id = j.log id ++ late ∧ ∃ e ∈ j.log id, EndsTask e = true) := by
  cases heffect with
  | quiet events rows => exact Or.inl ⟨log_same events, rfl⟩
  | @created e row' new events rows first next =>
    refine Or.inl ⟨?_, rfl⟩
    rw [log_snoc events, if_neg]
    rintro rfl
    exact hid (hj.owned new)
  | @appended e row row' _ old events rows next running finished =>
    by_cases heq : e.taskId = id
    · subst heq
      cases hdone : row.status.terminal with
      | false =>
        rw [(running hdone).2]
        refine Or.inr (Or.inl ⟨e, by rw [log_snoc events, if_pos rfl], ?_⟩)
        rw [Option.toList_some, List.filter_singleton, decide_eq_true rfl]
        rfl
      | true =>
        refine Or.inr (Or.inr ⟨[e], by rw [log_snoc events, if_pos rfl], ?_⟩)
        have hcount := hj.ended old
        rw [hdone, if_pos rfl] at hcount
        exact List.countP_pos_iff.mp (by rw [hcount]; exact Nat.zero_lt_one)
    · refine Or.inl ⟨by rw [log_snoc events, if_neg heq], ?_⟩
      have hpushed : ∀ e' ∈ pushed, e' = e := by
        cases hdone : row.status.terminal with
        | false =>
          rw [(running hdone).2]
          exact fun e' he' => (Option.some.inj he').symm
        | true => exact (finished hdone).2.2.2.2
      refine List.filter_eq_nil_iff.mpr (fun e' he' => ?_)
      rw [hpushed e' (Option.mem_toList.mp he')]
      simpa using heq

theorem Follows.call {id : String} (heffect : Effect j j' pushed) (hj : j.Sound)
    (hn : n ≤ (j.log id).length) (hid : j.log id ≠ []) (h : Follows n feed (j.log id)) :
    Follows n (feed ++ pushed.toList.filter (fun e => e.taskId = id)) (j'.log id) := by
  intro hopen
  have htake : (j'.log id).take n = (j.log id).take n := by
    obtain ⟨more, hmore⟩ := (effect_later heffect).logs id
    rw [← hmore, List.take_append_of_le_length hn]
  rw [htake] at hopen
  rcases effect_log heffect hj hid with ⟨hlog, hnone⟩ | ⟨e, hlog, hone⟩ | ⟨late, hlog, e, he, hend⟩
  · rw [hlog, hnone, List.append_nil]
    exact h hopen
  · rw [hlog, hone]
    exact (h hopen).publish hn e
  · rw [hlog]
    refine (h hopen).silent hn ⟨e, ?_, hend⟩ _ _
    rw [← List.take_append_drop n (j.log id)] at he
    rcases List.mem_append.mp he with he | he
    · have hfalse := hopen e he
      rw [hend] at hfalse
      cases hfalse
    · exact he

theorem numbered_by_length (hj : j.Sound) (id : String) :
    (j.log id).map DeepEvent.seq = List.range (j.log id).length := by
  obtain ⟨n, hn⟩ := log_numbered hj id
  have hlen : (j.log id).length = n := by
    rw [← List.length_map (f := DeepEvent.seq), hn, List.length_range]
  rw [hn, hlen]

theorem Reader.Tracks.call (h : r.Tracks j feed) (heffect : Effect j j' pushed) (hj : j.Sound)
    (hborn : 0 < r.born) :
    r.Tracks j' (feed ++ pushed.toList.filter (fun e => e.taskId = r.taskId)) := by
  have hlog : j.log r.taskId ≠ [] := List.ne_nil_of_length_pos (Nat.lt_of_lt_of_le hborn h.born)
  have hlater := (effect_later heffect).logs r.taskId
  have htake {n : Nat} (hn : n ≤ (j.log r.taskId).length) :
      (j'.log r.taskId).take n = (j.log r.taskId).take n := by
    obtain ⟨more, hmore⟩ := hlater
    rw [← hmore, List.take_append_of_le_length hn]
  refine ⟨Nat.le_trans h.born hlater.length_le, Nat.le_trans h.read hlater.length_le,
    by rw [htake h.read, h.covers], h.seen, ?_⟩
  have hplace := h.place
  revert hplace
  cases r.phase with
  | asks => exact fun hp => ⟨hp.1, hp.2.1, hp.2.2.call heffect hj h.born hlog⟩
  | replays rest => exact fun hp => ⟨hp.1, hp.2.call heffect hj h.born hlog⟩
  | asksTask => exact fun hp => ⟨hp.1, hp.2.call heffect hj h.born hlog⟩
  | answered finished =>
    exact fun hp => ⟨hp.1, hp.2.1.call heffect hj h.born hlog, by rw [htake h.read]; exact hp.2.2⟩
  | live =>
    intro hp
    have hfollows : Follows r.read feed (j.log r.taskId) := fun _ => hp.2.2
    refine ⟨hp.1, by rw [htake h.read]; exact hp.2.1, ?_⟩
    exact hfollows.call heffect hj h.read hlog (by rw [htake h.read]; exact hp.2.1)
  | ended byEvent => exact fun hp => by cases byEvent <;> exact hp
  | closed unread => exact fun _ => trivial

/-- One that has gone does not care what is on its way. -/
theorem Phase.Place.gone {feed' : List (DeepEvent P)} (hgone : r.phase.subscribed = false)
    (h : r.phase.Place j feed r) : r.phase.Place j feed' r := by
  revert hgone h
  cases r.phase with
  | ended byEvent => exact fun _ h => by cases byEvent <;> exact h
  | closed unread => exact fun _ h => trivial
  | asks => exact fun hgone => (by cases hgone)
  | replays rest => exact fun hgone => (by cases hgone)
  | asksTask => exact fun hgone => (by cases hgone)
  | answered finished => exact fun hgone => (by cases hgone)
  | live => exact fun hgone => (by cases hgone)

theorem Reader.Tracks.gone {feed' : List (DeepEvent P)} (hgone : r.phase.subscribed = false)
    (h : r.Tracks j feed) : r.Tracks j feed' :=
  ⟨h.born, h.read, h.covers, h.seen, h.place.gone hgone⟩

theorem feed_foreign {outbox : List (DeepEvent P)} (h : e.taskId ≠ r.taskId) :
    r.feed (e :: outbox) = r.feed outbox := by
  rw [Reader.feed, List.filter_cons_of_neg (by simpa using h), Reader.feed]

theorem Reader.Tracks.hear {outbox : List (DeepEvent P)} (h : r.Tracks j (r.feed (e :: outbox)))
    (hlost : (r.hear e).lost = false) : (r.hear e).Tracks j ((r.hear e).feed outbox) := by
  unfold Reader.hear at hlost ⊢
  split
  · rename_i hmine
    rw [if_pos hmine] at hlost
    split
    · have hfeed : ({ r with queue := r.queue ++ [e] } : Reader P).feed outbox =
          r.feed (e :: outbox) := by
        rw [Reader.feed, Reader.feed, List.filter_cons_of_pos (by simpa using hmine.1),
          List.append_assoc]
        rfl
      rw [hfeed]
      exact ⟨h.born, h.read, h.covers, h.seen, h.place⟩
    · rename_i hfull
      rw [if_neg hfull] at hlost
      cases hlost
  · rename_i hother
    by_cases hid : e.taskId = r.taskId
    · exact h.gone (Bool.eq_false_iff.mpr (fun hsub => hother ⟨hid, hsub⟩))
    · rw [← feed_foreign hid]
      exact h

theorem Reader.Tracks.miss {outbox : List (DeepEvent P)} (h : r.Tracks j (r.feed (e :: outbox)))
    (hlost : (r.miss e).lost = false) : (r.miss e).Tracks j ((r.miss e).feed outbox) := by
  unfold Reader.miss at hlost ⊢
  split
  · rename_i hmine
    rw [if_pos hmine] at hlost
    cases hlost
  · rename_i hother
    by_cases hid : e.taskId = r.taskId
    · exact h.gone (Bool.eq_false_iff.mpr (fun hsub => hother ⟨hid, hsub⟩))
    · rw [← feed_foreign hid]
      exact h

theorem Reader.Tracks.served (h : r.Tracks j feed) (hj : j.Sound) :
    (r.served j).Tracks j feed := by
  obtain ⟨id, after, phase, queue, seen, delivered, born, read, lost⟩ := r
  cases phase with
  | asks =>
    obtain ⟨-, hnil, hfollows⟩ := h.place
    obtain rfl : delivered = [] := hnil
    refine ⟨h.born, Nat.le_refl _, ?_, h.seen, h.born, hfollows⟩
    change j.replay id after = ((j.log id).take (j.log id).length).drop _
    rw [replay_eq hj, List.take_length]
    rfl
  | asksTask =>
    refine ⟨h.born, h.read, h.covers, h.seen, h.place.1, h.place.2, fun hanswer e he => ?_⟩
    have hmem : e ∈ j.log id := List.take_subset _ _ he
    cases hrow : j.tasks.find? id with
    | none =>
      rw [hj.owned hrow] at hmem
      cases hmem
    | some row =>
      rw [hrow] at hanswer
      have hrunning : row.status.terminal = false := hanswer
      have hcount := hj.ended hrow
      rw [hrunning] at hcount
      exact Bool.eq_false_iff.mpr (List.countP_eq_zero.mp hcount e hmem)
  | replays rest => exact h
  | answered finished => exact h
  | live => exact h
  | ended byEvent => exact h
  | closed unread => exact h

/-- A reader that yields nothing of the replay has seen what it covered. -/
theorem Reader.Tracks.seen_read (h : r.Tracks j feed) (hrest : r.phase.rest = [])
    (hread : r.start ≤ r.read) : (r.seen + 1).toNat = r.read := by
  have hcovers := congrArg List.length h.covers
  rw [hrest, List.append_nil, List.length_drop, List.length_take_of_le h.read] at hcovers
  rw [h.seen, hcovers]
  omega

/-- The next event of the replay. -/
theorem next_replayed {es : List (DeepEvent P)} (hj : j.Sound) (hphase : r.phase = .replays (e :: es))
    (h : r.Tracks j feed) : r.next.Tracks j feed := by
  obtain ⟨id, after, phase, queue, seen, delivered, born, read, lost⟩ := r
  obtain rfl : phase = .replays (e :: es) := hphase
  have hcovers : delivered ++ e :: es = ((j.log id).take read).drop (after + 1).toNat := h.covers
  have hget : (j.log id)[(after + 1).toNat + delivered.length]? = some e := by
    have hmid : (delivered ++ e :: es)[delivered.length]? = some e := by simp
    rw [hcovers, List.getElem?_drop, List.getElem?_take] at hmid
    split at hmid
    · exact hmid
    · cases hmid
  have hseq := Fed.seq_getElem (numbered_by_length hj id) hget
  refine ⟨h.born, h.read, ?_, ?_, h.place⟩
  · change delivered ++ [e] ++ es = _
    rw [List.append_assoc]
    exact hcovers
  · change ((e.seq : Int) + 1).toNat = (after + 1).toNat + (delivered ++ [e]).length
    rw [List.length_append, List.length_singleton]
    omega

/-- The next event of the queue. -/
theorem next_live (hj : j.Sound) (hphase : r.phase = .live) {queue : List (DeepEvent P)}
    (hqueue : r.queue = e :: queue) {outbox : List (DeepEvent P)} (hstart : r.start ≤ r.born)
    (h : r.Tracks j (r.feed outbox)) : r.next.Tracks j (r.next.feed outbox) := by
  have hread := h.seen_read (by rw [hphase]; rfl)
  obtain ⟨id, after, phase, q, seen, delivered, born, read, lost⟩ := r
  obtain rfl : phase = .live := hphase
  obtain rfl : q = e :: queue := hqueue
  obtain ⟨hborn, hopen, hfed⟩ := h.place
  have hread : (seen + 1).toNat = read := hread (Nat.le_trans hstart hborn)
  have hnumbered := numbered_by_length hj id
  have hcovers : delivered ++ [] = ((j.log id).take read).drop (after + 1).toNat := h.covers
  rw [List.append_nil] at hcovers
  by_cases hold : (e.seq : Int) ≤ seen
  · simp only [Reader.next, hold, if_true]
    refine ⟨h.born, h.read, h.covers, h.seen, hborn, hopen, ?_⟩
    have hlt : e.seq < read := by omega
    exact Fed.skip hnumbered hfed hlt
  · have hle : read ≤ e.seq := by omega
    obtain ⟨hseq, hdrop, hrest⟩ := Fed.take (n := read) hnumbered hfed hle
    have hget : (j.log id)[read]? = some e := by
      rw [← List.head?_drop, hdrop]
      rfl
    have hlt : read < (j.log id).length := (List.getElem?_eq_some_iff.mp hget).1
    have htake : (j.log id).take (read + 1) = (j.log id).take read ++ [e] := by
      rw [List.take_add_one, hget]
      rfl
    have hcovers' : delivered ++ [e] = ((j.log id).take (read + 1)).drop (after + 1).toNat := by
      rw [htake, List.drop_append_of_le_length, ← hcovers]
      rw [List.length_take_of_le h.read]
      exact Nat.le_trans hstart hborn
    have hseen : ((e.seq : Int) + 1).toNat = (after + 1).toNat + (delivered ++ [e]).length := by
      have hlen := congrArg List.length hcovers'
      rw [List.length_drop, List.length_take_of_le hlt] at hlen
      have hle : (after + 1).toNat ≤ read := Nat.le_trans hstart hborn
      omega
    simp only [Reader.next, hold, if_false]
    cases hend : e.kind.terminal with
    | true =>
      refine ⟨h.born, hlt, ?_, hseen, Nat.le_succ_of_le hborn, delivered, e, rfl, ?_, hend⟩
      · exact (List.append_nil _).trans hcovers'
      · intro e' he'
        rw [hcovers] at he'
        exact hopen e' (List.drop_subset _ _ he')
    | false =>
      refine ⟨h.born, hlt, ?_, hseen, Nat.le_succ_of_le hborn, ?_, hrest hend⟩
      · exact (List.append_nil _).trans hcovers'
      · intro e' he'
        change e' ∈ (j.log id).take (read + 1) at he'
        rw [htake] at he'
        rcases List.mem_append.mp he' with he' | he'
        · exact hopen e' he'
        · rw [List.mem_singleton.mp he']
          exact hend

theorem Reader.Tracks.next (hj : j.Sound) {outbox : List (DeepEvent P)} (hstart : r.start ≤ r.born)
    (h : r.Tracks j (r.feed outbox)) : r.next.Tracks j (r.next.feed outbox) := by
  cases hphase : r.phase with
  | replays rest =>
    cases rest with
    | cons e es =>
      have hfeed : r.next.feed outbox = r.feed outbox := by
        simp only [Reader.next, hphase]
        rfl
      rw [hfeed]
      exact next_replayed hj hphase h
    | nil =>
      obtain ⟨hborn, hread, hcovers, hseen, hplace⟩ := h
      rw [hphase] at hcovers hplace
      simp only [Reader.next, hphase]
      exact ⟨hborn, hread, hcovers, hseen, hplace⟩
  | answered finished =>
    obtain ⟨hborn, hread, hcovers, hseen, hplace⟩ := h
    rw [hphase] at hcovers hplace
    obtain ⟨hbefore, hfollows, hopen⟩ := hplace
    cases finished with
    | true =>
      simp only [Reader.next, hphase]
      exact ⟨hborn, hread, hcovers, hseen, hbefore⟩
    | false =>
      have hnone := hopen rfl
      have hfed := hfollows (fun e he => hnone e (List.take_subset_take_left _ hbefore he))
      simp only [Reader.next, hphase]
      refine ⟨hborn, hread, hcovers, hseen, hbefore, hnone, ?_⟩
      exact Fed.advance (numbered_by_length hj r.taskId) hfed hbefore hread hnone
  | live =>
    cases hqueue : r.queue with
    | nil => simpa only [Reader.next, hphase, hqueue] using h
    | cons e queue => exact next_live hj hphase hqueue hstart h
  | asks => simpa only [Reader.next, hphase] using h
  | asksTask => simpa only [Reader.next, hphase] using h
  | ended byEvent => simpa only [Reader.next, hphase] using h
  | closed unread => simpa only [Reader.next, hphase] using h

theorem Reader.Tracks.close (h : r.Tracks j feed) : r.close.Tracks j feed := by
  unfold Reader.close
  split
  · exact ⟨h.born, h.read, h.covers, h.seen, trivial⟩
  · exact h

end Tracks

/-! ### Whole runs -/

/-- What a reader's own moves leave alone. -/
structure Reader.Kept (r r' : Reader P) : Prop where
  taskId : r'.taskId = r.taskId
  afterSeq : r'.afterSeq = r.afterSeq
  born : r'.born = r.born
  lost : r'.lost = false → r.lost = false

section Kept

variable (r : Reader P)

theorem Reader.kept_hear (e : DeepEvent P) : r.Kept (r.hear e) := by
  unfold Reader.hear
  split
  · split
    · exact ⟨rfl, rfl, rfl, id⟩
    · exact ⟨rfl, rfl, rfl, fun hlost => (by cases hlost)⟩
  · exact ⟨rfl, rfl, rfl, id⟩

theorem Reader.kept_miss (e : DeepEvent P) : r.Kept (r.miss e) := by
  unfold Reader.miss
  split
  · exact ⟨rfl, rfl, rfl, fun hlost => (by cases hlost)⟩
  · exact ⟨rfl, rfl, rfl, id⟩

theorem Reader.kept_served (j : Journal P R) : r.Kept (r.served j) := by
  unfold Reader.served
  split <;> exact ⟨rfl, rfl, rfl, id⟩

theorem Reader.kept_next : r.Kept r.next := by
  unfold Reader.next
  split
  case h_5 =>
    split
    · exact ⟨rfl, rfl, rfl, id⟩
    · split <;> exact ⟨rfl, rfl, rfl, id⟩
  all_goals exact ⟨rfl, rfl, rfl, id⟩

theorem Reader.kept_close : r.Kept r.close := by
  unfold Reader.close
  split <;> exact ⟨rfl, rfl, rfl, id⟩

end Kept

/-- The reader knew the task when it hung in, and its last event. -/
def Reader.Caught (r : Reader P) : Prop := 0 < r.born ∧ r.start ≤ r.born

theorem Reader.Kept.caught {r r' : Reader P} (h : r.Kept r') (hc : r'.Caught) : r.Caught := by
  obtain ⟨hpos, hstart⟩ := hc
  rw [Reader.start, h.afterSeq, h.born] at hstart
  exact ⟨h.born ▸ hpos, hstart⟩

def Reader.Good (j : Journal P R) (outbox : List (DeepEvent P)) (r : Reader P) : Prop :=
  r.Orderly j ∧ (r.lost = false → r.Caught → r.Tracks j (r.feed outbox))

structure World.Good (w : World P R) : Prop where
  sound : w.journal.Sound
  sent : ∀ e ∈ w.outbox, e ∈ w.journal.log e.taskId
  readers : ∀ r ∈ w.readers, r.Good w.journal w.outbox

section Steps

variable {w : World P R}

theorem mem_modify_reader {rs : List (Reader P)} {i : Nat} {f : Reader P → Reader P}
    {r' : Reader P} (h : r' ∈ rs.modify i f) : r' ∈ rs ∨ ∃ r ∈ rs, r' = f r := by
  obtain ⟨k, hk⟩ := List.mem_iff_getElem?.mp h
  rw [List.getElem?_modify] at hk
  cases hget : rs[k]? with
  | none =>
    rw [hget] at hk
    cases hk
  | some r =>
    rw [hget] at hk
    have hmem := List.mem_of_getElem? hget
    by_cases hik : i = k
    · simp only [hik, if_true, Option.map_some, Option.map_eq_map] at hk
      exact Or.inr ⟨r, hmem, (Option.some.inj hk).symm⟩
    · simp only [hik, if_false, Option.map_some, Option.map_eq_map] at hk
      exact Or.inl (Option.some.inj hk ▸ hmem)

theorem World.Good.modify (h : w.Good) (i : Nat) (f : Reader P → Reader P)
    (hf : ∀ r, r.Good w.journal w.outbox → (f r).Good w.journal w.outbox) :
    World.Good { w with readers := w.readers.modify i f } := by
  refine ⟨h.sound, h.sent, fun r' hr' => ?_⟩
  rcases mem_modify_reader hr' with hr | ⟨r, hr, rfl⟩
  · exact h.readers r' hr
  · exact hf r (h.readers r hr)

theorem published_logged {j j' : Journal P R} {pushed : Option (DeepEvent P)}
    (heffect : Effect j j' pushed) {e : DeepEvent P} (he : e ∈ pushed) : e ∈ j'.log e.taskId := by
  cases heffect with
  | quiet events rows => cases he
  | created new events rows first next => cases he
  | @appended e₀ row row' _ old events rows next running finished =>
    have heq : e = e₀ := by
      cases hdone : row.status.terminal with
      | false =>
        rw [(running hdone).2] at he
        exact (Option.some.inj he).symm
      | true => exact (finished hdone).2.2.2.2 e he
    subst heq
    rw [log_snoc events, if_pos rfl]
    exact List.mem_append_right _ (List.mem_singleton.mpr rfl)

theorem World.Good.call (h : w.Good) {c : Journal.Call P R} (hc : c.Proper) :
    (w.step (.call c)).Good := by
  have heffect := step_effect w.journal hc
  have hlater := effect_later heffect
  refine ⟨effect_sound heffect h.sound, fun e he => ?_, fun r hr => ?_⟩
  · rcases List.mem_append.mp he with he | he
    · exact (hlater.logs e.taskId).subset (h.sent e he)
    · exact published_logged heffect (Option.mem_toList.mp he)
  · obtain ⟨horderly, htracks⟩ := h.readers r hr
    refine ⟨horderly.later hlater, fun hlost hcaught => ?_⟩
    have hnext := (htracks hlost hcaught).call heffect h.sound hcaught.1
    rw [Reader.feed, List.append_assoc, ← List.filter_append] at hnext
    exact hnext

theorem World.Good.wake (h : w.Good) (heard : Bool) : (w.wake heard).Good := by
  obtain ⟨j, outbox, readers⟩ := w
  cases outbox with
  | nil => exact h
  | cons e outbox =>
    have he : e ∈ j.log e.taskId := h.sent e List.mem_cons_self
    refine ⟨h.sound, fun e' he' => h.sent e' (List.mem_cons_of_mem e he'), fun r' hr' => ?_⟩
    obtain ⟨r, hr, rfl⟩ := List.mem_map.mp hr'
    obtain ⟨horderly, htracks⟩ := h.readers r hr
    cases heard with
    | true =>
      refine ⟨horderly.hear he, fun hlost hcaught => ?_⟩
      have hkept := r.kept_hear e
      exact (htracks (hkept.lost hlost) (hkept.caught hcaught)).hear hlost
    | false =>
      refine ⟨horderly.miss e, fun hlost hcaught => ?_⟩
      have hkept := r.kept_miss e
      exact (htracks (hkept.lost hlost) (hkept.caught hcaught)).miss hlost

theorem World.Good.subscribe (h : w.Good) (id : String) (afterSeq : Int) :
    (w.subscribe id afterSeq).Good := by
  refine ⟨h.sound, h.sent, fun r hr => ?_⟩
  rcases List.mem_append.mp hr with hr | hr
  · exact h.readers r hr
  · rw [List.mem_singleton.mp hr]
    refine ⟨⟨List.Pairwise.nil, fun e he => (by cases he), fun e he => (by cases he),
      fun e he => (by cases he), Int.le_refl _, fun _ => rfl⟩, fun _ _ => ?_⟩
    refine ⟨Nat.le_refl _, Nat.zero_le _, List.drop_nil.symm, rfl, rfl, rfl, fun _ => ?_⟩
    refine Fed.start (fun e he => ?_)
    obtain ⟨hmem, hid⟩ := List.mem_filter.mp he
    have hid : e.taskId = id := of_decide_eq_true hid
    have hlog := h.sent e hmem
    rw [hid] at hlog
    obtain ⟨i, hi⟩ := List.mem_iff_getElem?.mp hlog
    rw [Fed.seq_getElem (numbered_by_length h.sound id) hi]
    exact (List.getElem?_eq_some_iff.mp hi).1

theorem World.Good.step (h : w.Good) {m : Move P R} (hm : ∀ c, m = .call c → c.Proper) :
    (w.step m).Good := by
  cases m with
  | call c => exact h.call (hm c rfl)
  | wake heard => exact h.wake heard
  | subscribe id afterSeq => exact h.subscribe id afterSeq
  | serve i =>
    refine h.modify i _ (fun r hr => ⟨hr.1.served h.sound, fun hlost hcaught => ?_⟩)
    have hkept := r.kept_served w.journal
    have htracks := (hr.2 (hkept.lost hlost) (hkept.caught hcaught)).served h.sound
    have hfeed : (r.served w.journal).feed w.outbox = r.feed w.outbox := by
      unfold Reader.served
      split <;> rfl
    rw [hfeed]
    exact htracks
  | next i =>
    refine h.modify i _ (fun r hr => ⟨hr.1.next, fun hlost hcaught => ?_⟩)
    have hkept := r.kept_next
    have hbefore := hkept.caught hcaught
    exact (hr.2 (hkept.lost hlost) hbefore).next h.sound hbefore.2
  | close i =>
    refine h.modify i _ (fun r hr => ⟨hr.1.close, fun hlost hcaught => ?_⟩)
    have hkept := r.kept_close
    have htracks := (hr.2 (hkept.lost hlost) (hkept.caught hcaught)).close
    have hfeed : r.close.feed w.outbox = r.feed w.outbox := by
      unfold Reader.close
      split <;> rfl
    rw [hfeed]
    exact htracks

end Steps

/-- Whoever calls properly. -/
def World.permits (_ : List (World.machine P R).Entry) (m : Move P R) : Prop :=
  ∀ c, m = .call c → c.Proper

theorem world_good {h : List (World.machine P R).Entry} {w : World P R}
    (hrun : (World.machine P R).Run World.permits h w) : w.Good := by
  refine hrun.invariant World.Good ?_ (fun _ w m hm hw => hw.step hm)
  exact ⟨empty_sound, fun e he => (by cases he), fun r hr => (by cases hr)⟩

/-- Rising lists of the same log: the smaller one is a part of the larger. -/
theorem sublist_of_numbers {l log : List (DeepEvent P)}
    (hl : l.Pairwise (fun e e' => e.seq < e'.seq))
    (hlog : log.Pairwise (fun e e' => e.seq < e'.seq)) (h : ∀ e ∈ l, e ∈ log) : l.Sublist log := by
  have hasymm : Std.Antisymm (fun e e' : DeepEvent P => e.seq < e'.seq) :=
    ⟨fun _ _ hlt hgt => absurd (Nat.lt_trans hlt hgt) (Nat.lt_irrefl _)⟩
  refine List.sublist_of_subperm_of_pairwise (List.subperm_of_subset ?_ h) hl hlog
  refine hl.imp (fun hlt heq => ?_)
  rw [heq] at hlt
  exact Nat.lt_irrefl _ hlt

theorem delivered_sublist {j : Journal P R} {r : Reader P} (h : r.Orderly j) (hj : j.Sound) :
    r.delivered.Sublist ((j.log r.taskId).drop r.start) := by
  obtain ⟨n, hn⟩ := log_numbered hj r.taskId
  rw [List.range_eq_range'] at hn
  have hrest := filter_numbered hn r.afterSeq
  rw [Int.natCast_zero, Int.sub_zero] at hrest
  rw [Reader.start, ← hrest]
  refine sublist_of_numbers (List.pairwise_append.mp h.sorted).1
    ((log_sorted hj r.taskId).filter _) (fun e he => ?_)
  obtain ⟨hlog, hafter⟩ := h.known e (List.mem_append_left _ he)
  exact List.mem_filter.mpr ⟨hlog, decide_eq_true hafter⟩

section sample

/-- A task ends between the replay of its reader and the reader's look at its row. -/
def holeMoves : List (Move String Unit) := [
  .call (.create "t" "research" "wind"), .subscribe "t" (-1), .serve 0,
  .call (.finish "t" .succeeded none "" none), .next 0, .next 0, .serve 0, .next 0, .wake true]

def holeWorld : World String Unit :=
  (World.machine String Unit).after (World.machine String Unit).init holeMoves

theorem hole_run : (World.machine String Unit).Run World.permits
    ((World.machine String Unit).history [] (World.machine String Unit).init holeMoves)
    holeWorld := by
  refine Machine.Run.history .start (fun m hm _ c hc => ?_)
  subst hc
  have hm : Move.call c ∈ holeMoves := hm
  simp only [holeMoves, List.mem_cons, Move.call.injEq, reduceCtorEq, List.not_mem_nil, or_false,
    false_or] at hm
  rcases hm with rfl | rfl
  · trivial
  · exact ⟨rfl, fun s hs => (by cases hs)⟩

def holeReader : Reader String :=
  { taskId := "t", afterSeq := -1, phase := .ended false, queue := [], seen := 0
    delivered := [⟨"t", 0, .taskCreated, .created "research"⟩], born := 1, read := 1, lost := false }

end sample

end Solvio.Deep
