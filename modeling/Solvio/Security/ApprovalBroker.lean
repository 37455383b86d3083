import Solvio.Lib.Dict
import Solvio.Lib.Json
import Solvio.Lib.Runs
import Solvio.Approval.Execution

namespace Solvio.Security
open Solvio.Lib

abbrev Time := Int

/-- What `action_digest` hashes. -/
def actionDigest (toolId mode task workspace : String) : String :=
  let payload := Json.obj [Json.field "v" (.int 1), Json.field "tool_id" (.string toolId),
    Json.field "mode" (.string mode), Json.field "task" (.string task),
    Json.field "workspace" (.string workspace)]
  let canonical := encodeUtf8 (String.ofList payload.sortKeys.render)
  Approval.hexdigest (encodeUtf8 "SOLVIO_APPROVAL_V1" ++ [0] ++ canonical)

structure ApprovalRequest where
  requestId : String
  principal : String
  tool : String
  task : String
  workspace : String
  mode : String
  digest : String
  created : Time
  expiry : Time
  approved : Bool := false
  approvedBy : Option String := none
deriving DecidableEq

instance : Keyed ApprovalRequest String := ⟨ApprovalRequest.requestId⟩

/-- The mark that `approve` leaves. -/
def ApprovalRequest.markedBy (r : ApprovalRequest) (identity : String) : ApprovalRequest :=
  { r with approved := true, approvedBy := some identity }

/-- What an approver says of a request and an identity may depend on anything
outside the broker. -/
abbrev Approver (World : Type) := World → ApprovalRequest → String → Bool

structure ApprovalBroker (World : Type) where
  approver : Option (Approver World) := none
  ttl : Time := 120
  maxPending : Nat := 32

abbrev Pending := Table ApprovalRequest

/-- What a tool asks for. -/
structure Asked where
  principal : String
  tool : String
  task : String
  workspace : String
  mode : String
deriving DecidableEq

def Asked.digest (a : Asked) : String := actionDigest a.tool a.mode a.task a.workspace

inductive Reason where
  | unknown | expired | noTrustedApprover | digestMismatch | notApproved | mismatch
deriving DecidableEq

inductive Reply where
  | tooManyPendingApprovals
  | open (r : ApprovalRequest)
  | ok (r : ApprovalRequest)
  | refused (why : Reason)
  /-- `compare_digest` takes ASCII texts only. -/
  | typeError
  | count (n : Nat)
  | has (b : Bool)
  | rows (rs : List ApprovalRequest)
  | none
deriving DecidableEq

/-- `_gc`. -/
def gc (now : Time) (p : Pending) : Pending := p.filter (fun r => decide (now ≤ r.expiry))

def lookup (p : Pending) (requestId : Option String) : Option ApprovalRequest :=
  p.find? (requestId.getD "")

namespace ApprovalBroker

variable {World : Type} (b : ApprovalBroker World)

/-- The clock is read in `_gc` and again for the new request, whose id is the
token that was drawn. -/
def request (swept now : Time) (token : String) (a : Asked) (p : Pending) : Reply × Pending :=
  let p := gc swept p
  let digest := a.digest
  match p.rows.find? (fun r => decide (r.principal = a.principal) && decide (r.digest = digest) &&
      !r.approved) with
  | some r => (.open r, p)
  | none =>
    if b.maxPending ≤ p.size then (.tooManyPendingApprovals, p)
    else
      let r : ApprovalRequest := {
        requestId := token, principal := a.principal, tool := a.tool, task := a.task,
        workspace := a.workspace, mode := a.mode, digest := digest, created := now,
        expiry := now + b.ttl }
      (.open r, p.assign r)

def trusts (w : World) (r : ApprovalRequest) (identity : String) : Bool :=
  match b.approver with
  | none => false
  | some f => f w r identity

def ascii (s : String) : Bool := s.toList.all (fun c => decide (c.toNat < 128))

def approve (w : World) (swept now : Time) (requestId : Option String) (identity : String)
    (presentedDigest : Option String) (p : Pending) : Reply × Pending :=
  let p := gc swept p
  match lookup p requestId with
  | none => (.refused .unknown, p)
  | some r =>
    if r.expiry < now then (.refused .expired, p.delete r.requestId)
    else if ¬ b.trusts w r identity then (.refused .noTrustedApprover, p)
    else if ¬ ascii (presentedDigest.getD "") then (.typeError, p)
    else if r.digest ≠ presentedDigest.getD "" then (.refused .digestMismatch, p)
    else (.ok (r.markedBy identity), p.assign (r.markedBy identity))

end ApprovalBroker

def takeApproved (swept now : Time) (requestId : Option String) (tool : Option String)
    (p : Pending) : Reply × Pending :=
  let p := gc swept p
  match lookup p requestId with
  | none => (.refused .unknown, p)
  | some r =>
    if ¬ r.approved then (.refused .notApproved, p)
    else if r.expiry < now then (.refused .expired, p.delete r.requestId)
    else if tool.any (fun t => decide (r.tool ≠ t)) then (.refused .mismatch, p)
    else (.ok r, p.delete r.requestId)

/-- No id, and the empty one, cancel everything. -/
def cancel (requestId : Option String) (p : Pending) : Pending :=
  if requestId.getD "" ≠ "" then p.delete (requestId.getD "") else Table.empty

/-- The calls on one broker, each with the clock as it reads it. -/
inductive Call (World : Type) where
  | request (swept now : Time) (token : String) (a : Asked)
  | approve (w : World) (swept now : Time) (requestId : Option String) (identity : String)
      (presentedDigest : Option String)
  | takeApproved (swept now : Time) (requestId : Option String) (tool : Option String)
  | cancel (requestId : Option String)
  | clear
  | pendingCount (swept : Time)
  | hasPending (swept : Time)
  | listPending (swept : Time)

variable {World : Type}

def ApprovalBroker.step (b : ApprovalBroker World) : Call World → Pending → Reply × Pending
  | .request swept now token a, p => b.request swept now token a p
  | .approve w swept now id identity presented, p => b.approve w swept now id identity presented p
  | .takeApproved swept now id tool, p => Security.takeApproved swept now id tool p
  | .cancel id, p => (.none, Security.cancel id p)
  | .clear, _ => (.none, Table.empty)
  | .pendingCount swept, p => (.count (gc swept p).size, gc swept p)
  | .hasPending swept, p => (.has ((gc swept p).rows.any (fun r => !r.approved)), gc swept p)
  | .listPending swept, p => (.rows (gc swept p).rows, gc swept p)

abbrev ApprovalBroker.machine (b : ApprovalBroker World) : Machine Pending where
  Call := Call World
  Reply := fun _ => Reply
  step := b.step
  init := Table.empty

/-! ### What one call can do -/

theorem mem_gc {now : Time} {p : Pending} {r : ApprovalRequest} :
    r ∈ gc now p ↔ r ∈ p ∧ now ≤ r.expiry := by
  simp [gc, Table.mem_filter]

theorem size_gc (now : Time) (p : Pending) : (gc now p).size ≤ p.size := List.length_filter_le ..

theorem lookup_some {p : Pending} {id : Option String} {r : ApprovalRequest}
    (h : lookup p id = some r) : r ∈ p := Table.mem_of_find h

/-- The requests that a state holds are among those of an earlier one. -/
def Within (p' p : Pending) : Prop := (∀ r ∈ p', r ∈ p) ∧ p'.size ≤ p.size

theorem Within.refl (p : Pending) : Within p p := ⟨fun _ h => h, le_rfl⟩

theorem within_gc (now : Time) (p : Pending) : Within (gc now p) p :=
  ⟨fun _ h => (Iff.mp mem_gc h).1, size_gc now p⟩

theorem within_delete {p q : Pending} (h : Within p q) (id : String) : Within (p.delete id) q :=
  ⟨fun r hr => h.1 r (Table.mem_delete.mp hr).1, (Table.size_delete p id).trans h.2⟩

theorem within_empty (p : Pending) : Within Table.empty p :=
  ⟨fun _ h => absurd h (Table.not_mem_empty _), Nat.zero_le _⟩

variable {b : ApprovalBroker World} {p : Pending}

/-- A request is answered by an open one that is there, or by a new one where
there is none and there is room. -/
theorem request_cases (b : ApprovalBroker World) (swept now : Time) (token : String) (a : Asked)
    (p : Pending) :
    (b.request swept now token a p).2 = gc swept p ∨
    ∃ r : ApprovalRequest, r.requestId = token ∧ r.principal = a.principal ∧ r.digest = a.digest ∧
      r.approved = false ∧ (b.request swept now token a p).2 = (gc swept p).assign r ∧
      (gc swept p).size < b.maxPending ∧
      ∀ q ∈ gc swept p, ¬ (q.principal = a.principal ∧ q.digest = a.digest ∧ q.approved = false) := by
  unfold ApprovalBroker.request
  dsimp only
  split
  · exact .inl rfl
  · rename_i hnone
    split
    · exact .inl rfl
    · rename_i hroom
      refine .inr ⟨_, rfl, rfl, rfl, rfl, rfl, by omega, ?_⟩
      intro q hq hsame
      have := List.find?_eq_none.mp hnone q hq
      simp [hsame] at this

/-- An approval marks one request, which the approver trusts at that moment. -/
theorem approve_cases (b : ApprovalBroker World) (w : World) (swept now : Time)
    (id : Option String) (identity : String) (presented : Option String) (p : Pending) :
    (Within (b.approve w swept now id identity presented p).2 (gc swept p) ∧
      ∀ r, (b.approve w swept now id identity presented p).1 ≠ .ok r) ∨
    ∃ r ∈ gc swept p, b.trusts w r identity = true ∧ r.digest = presented.getD "" ∧
      now ≤ r.expiry ∧ r.requestId = id.getD "" ∧
      b.approve w swept now id identity presented p =
        (.ok (r.markedBy identity), (gc swept p).assign (r.markedBy identity)) := by
  unfold ApprovalBroker.approve
  dsimp only
  split
  · exact .inl ⟨.refl _, by simp⟩
  · rename_i r hfound
    split
    · exact .inl ⟨within_delete (.refl _) _, by simp⟩
    · rename_i hlive
      split
      · exact .inl ⟨.refl _, by simp⟩
      · rename_i htrust
        split
        · exact .inl ⟨.refl _, by simp⟩
        · split
          · exact .inl ⟨.refl _, by simp⟩
          · rename_i hdigest
            exact .inr ⟨r, lookup_some hfound, by simpa using htrust, by simpa using hdigest,
              not_lt.mp hlive, Table.key_of_find hfound, rfl⟩

/-- What is handed out was approved, is not expired, and is gone. -/
theorem take_cases (swept now : Time) (id tool : Option String) (p : Pending) :
    (Within (takeApproved swept now id tool p).2 p ∧
      ∀ r, (takeApproved swept now id tool p).1 ≠ .ok r) ∨
    ∃ r ∈ p, r.approved = true ∧ swept ≤ r.expiry ∧ now ≤ r.expiry ∧
      takeApproved swept now id tool p = (.ok r, (gc swept p).delete r.requestId) := by
  unfold takeApproved
  dsimp only
  split
  · exact .inl ⟨within_gc _ _, by simp⟩
  · rename_i r hfound
    obtain ⟨hr, hswept⟩ := Iff.mp mem_gc (lookup_some hfound)
    split
    · exact .inl ⟨within_gc _ _, by simp⟩
    · rename_i happroved
      split
      · exact .inl ⟨within_delete (within_gc _ _) _, by simp⟩
      · rename_i hlive
        split
        · exact .inl ⟨within_gc _ _, by simp⟩
        · exact .inr ⟨r, hr, by simpa using happroved, hswept, not_lt.mp hlive, rfl⟩

/-! ### Runs -/

/-- The ids that requests have drawn. -/
def drawn (h : List b.machine.Entry) : List String :=
  h.filterMap (fun e => match e.call with
    | .request _ _ token _ => some token
    | _ => none)

/-- The generator does not draw an id twice. -/
def fresh (h : List b.machine.Entry) : Call World → Prop
  | .request _ _ token _ => token ∉ drawn h
  | _ => True

/-- The request that a step hands out. -/
def taken (e : b.machine.Entry) : Option ApprovalRequest :=
  match e.call, (b.step e.call e.pre).1 with
  | .takeApproved .., .ok r => some r
  | _, _ => none

def takenIds (h : List b.machine.Entry) : List String :=
  h.filterMap (fun e => (taken e).map ApprovalRequest.requestId)

/-- A step in which the approver trusts a pending request and an identity, the
request's own digest is presented, and `r` is what the request becomes. -/
def Marked (e : b.machine.Entry) (r : ApprovalRequest) : Prop :=
  ∃ w swept now id identity presented, e.call = .approve w swept now id identity presented ∧
    ∃ q ∈ e.pre, b.trusts w q identity = true ∧ presented.getD "" = q.digest ∧
      r = q.markedBy identity

/-- A request that is still waiting for its approval. -/
def SameOpen (r r' : ApprovalRequest) : Prop :=
  r.approved = false ∧ r'.approved = false ∧ r.principal = r'.principal ∧ r.digest = r'.digest

structure Sound (b : ApprovalBroker World) (h : List b.machine.Entry) (p : Pending) : Prop where
  bounded : p.size ≤ b.maxPending
  single : ∀ r ∈ p, ∀ r' ∈ p, SameOpen r r' → r = r'
  marked : ∀ r ∈ p, r.approved = true → ∃ e ∈ h, Marked e r
  known : ∀ r ∈ p, r.requestId ∈ drawn h
  taken : ∀ id ∈ takenIds h, id ∈ drawn h ∧ ∀ r ∈ p, r.requestId ≠ id
  once : (takenIds h).Nodup

variable {h : List b.machine.Entry}

theorem sound_start (b : ApprovalBroker World) : Sound b [] Table.empty where
  bounded := Nat.zero_le _
  single := fun _ hr => absurd hr (Table.not_mem_empty _)
  marked := fun _ hr => absurd hr (Table.not_mem_empty _)
  known := fun _ hr => absurd hr (Table.not_mem_empty _)
  taken := by simp [takenIds]
  once := List.nodup_nil

theorem drawn_grows (e : b.machine.Entry) {id : String} (hid : id ∈ drawn h) :
    id ∈ drawn (e :: h) := by
  unfold drawn
  rw [List.filterMap_cons]
  split
  · exact hid
  · exact List.mem_cons_of_mem _ hid

theorem taken_ids_cons {e : b.machine.Entry} (hnot : taken e = none) :
    takenIds (e :: h) = takenIds h := by
  simp [takenIds, hnot]

/-- A step that hands nothing out and adds no request. -/
theorem Sound.shrink {p' : Pending} {e : b.machine.Entry} (hs : Sound b h p)
    (hnot : Security.taken e = none) (hwithin : Within p' p) : Sound b (e :: h) p' where
  bounded := hwithin.2.trans hs.bounded
  single := fun r hr r' hr' => hs.single r (hwithin.1 r hr) r' (hwithin.1 r' hr')
  marked := fun r hr happroved => by
    obtain ⟨d, hd, hmark⟩ := hs.marked r (hwithin.1 r hr) happroved
    exact ⟨d, List.mem_cons_of_mem _ hd, hmark⟩
  known := fun r hr => drawn_grows e (hs.known r (hwithin.1 r hr))
  taken := by
    rw [taken_ids_cons hnot]
    intro id hid
    obtain ⟨hdrawn, hgone⟩ := hs.taken id hid
    exact ⟨drawn_grows e hdrawn, fun r hr => hgone r (hwithin.1 r hr)⟩
  once := by
    rw [taken_ids_cons hnot]
    exact hs.once

/-- A new request with a fresh id. -/
theorem Sound.grow {r : ApprovalRequest} {e : b.machine.Entry} (hs : Sound b h p)
    (hnot : Security.taken e = none) (hdrawn : r.requestId ∈ drawn (e :: h))
    (hfresh : r.requestId ∉ drawn h) (hopen : r.approved = false)
    (hroom : p.size < b.maxPending)
    (hother : ∀ q ∈ p, ¬ (q.principal = r.principal ∧ q.digest = r.digest ∧ q.approved = false)) :
    Sound b (e :: h) (p.assign r) where
  bounded := (Table.size_assign p r).trans hroom
  single := by
    intro q hq q' hq' hsame
    rcases Table.mem_assign.mp hq with rfl | ⟨hold, -⟩ <;>
      rcases Table.mem_assign.mp hq' with rfl | ⟨hold', -⟩
    · rfl
    · exact absurd ⟨hsame.2.2.1.symm, hsame.2.2.2.symm, hsame.2.1⟩ (hother q' hold')
    · exact absurd ⟨hsame.2.2.1, hsame.2.2.2, hsame.1⟩ (hother q hold)
    · exact hs.single q hold q' hold' hsame
  marked := by
    intro q hq happroved
    rcases Table.mem_assign.mp hq with rfl | ⟨hold, -⟩
    · simp [hopen] at happroved
    · obtain ⟨d, hd, hmark⟩ := hs.marked q hold happroved
      exact ⟨d, List.mem_cons_of_mem _ hd, hmark⟩
  known := by
    intro q hq
    rcases Table.mem_assign.mp hq with rfl | ⟨hold, -⟩
    · exact hdrawn
    · exact drawn_grows e (hs.known q hold)
  taken := by
    rw [taken_ids_cons hnot]
    intro id hid
    obtain ⟨hknown, hgone⟩ := hs.taken id hid
    refine ⟨drawn_grows e hknown, fun q hq => ?_⟩
    rcases Table.mem_assign.mp hq with rfl | ⟨hold, -⟩
    · rintro rfl
      exact hfresh hknown
    · exact hgone q hold
  once := by
    rw [taken_ids_cons hnot]
    exact hs.once

/-- A request that is there becomes what the approval makes of it. -/
theorem Sound.mark {q : ApprovalRequest} {identity : String} {e : b.machine.Entry}
    (hs : Sound b h p) (hq : q ∈ p) (hnot : Security.taken e = none)
    (hmark : Marked e (q.markedBy identity)) :
    Sound b (e :: h) (p.assign (q.markedBy identity)) where
  bounded := (Table.size_assign_mem (a := q.markedBy identity) hq rfl).trans_le hs.bounded
  single := by
    intro r hr r' hr' hsame
    rcases Table.mem_assign.mp hr with rfl | ⟨hold, -⟩
    · exact absurd hsame.1 (by simp [ApprovalRequest.markedBy])
    · rcases Table.mem_assign.mp hr' with rfl | ⟨hold', -⟩
      · exact absurd hsame.2.1 (by simp [ApprovalRequest.markedBy])
      · exact hs.single r hold r' hold' hsame
  marked := by
    intro r hr happroved
    rcases Table.mem_assign.mp hr with rfl | ⟨hold, -⟩
    · exact ⟨e, List.mem_cons_self .., hmark⟩
    · obtain ⟨d, hd, hmarked⟩ := hs.marked r hold happroved
      exact ⟨d, List.mem_cons_of_mem _ hd, hmarked⟩
  known := by
    intro r hr
    rcases Table.mem_assign.mp hr with rfl | ⟨hold, -⟩
    · exact drawn_grows e (hs.known q hq)
    · exact drawn_grows e (hs.known r hold)
  taken := by
    rw [taken_ids_cons hnot]
    intro id hid
    obtain ⟨hknown, hgone⟩ := hs.taken id hid
    refine ⟨drawn_grows e hknown, fun r hr => ?_⟩
    rcases Table.mem_assign.mp hr with rfl | ⟨hold, -⟩
    · exact hgone q hq
    · exact hgone r hold
  once := by
    rw [taken_ids_cons hnot]
    exact hs.once

/-- A request is handed out and is not pending any more. -/
theorem Sound.hand {p' : Pending} {r : ApprovalRequest} {e : b.machine.Entry} (hs : Sound b h p)
    (hr : r ∈ p) (htaken : Security.taken e = some r) (hwithin : Within p' p)
    (hgone : ∀ q ∈ p', q.requestId ≠ r.requestId) : Sound b (e :: h) p' := by
  have hids : takenIds (e :: h) = r.requestId :: takenIds h := by simp [takenIds, htaken]
  refine ⟨hwithin.2.trans hs.bounded, ?_, ?_, ?_, ?_, ?_⟩
  · intro q hq q' hq'
    exact hs.single q (hwithin.1 q hq) q' (hwithin.1 q' hq')
  · intro q hq happroved
    obtain ⟨d, hd, hmark⟩ := hs.marked q (hwithin.1 q hq) happroved
    exact ⟨d, List.mem_cons_of_mem _ hd, hmark⟩
  · intro q hq
    exact drawn_grows e (hs.known q (hwithin.1 q hq))
  · rw [hids]
    intro id hid
    rcases List.mem_cons.mp hid with rfl | hid
    · exact ⟨drawn_grows e (hs.known r hr), hgone⟩
    · obtain ⟨hknown, hnone⟩ := hs.taken id hid
      exact ⟨drawn_grows e hknown, fun q hq => hnone q (hwithin.1 q hq)⟩
  · rw [hids, List.nodup_cons]
    exact ⟨fun hid => (hs.taken _ hid).2 r hr rfl, hs.once⟩

theorem Sound.gc {swept : Time} (hs : Sound b h p) : Sound b h (gc swept p) where
  bounded := (size_gc swept p).trans hs.bounded
  single := fun r hr r' hr' => hs.single r (mem_gc.mp hr).1 r' (mem_gc.mp hr').1
  marked := fun r hr => hs.marked r (mem_gc.mp hr).1
  known := fun r hr => hs.known r (mem_gc.mp hr).1
  taken := fun id hid =>
    ⟨(hs.taken id hid).1, fun r hr => (hs.taken id hid).2 r (mem_gc.mp hr).1⟩
  once := hs.once

theorem sound_step (c : Call World) (hs : Sound b h p) (hfresh : fresh h c) :
    Sound b (⟨p, c⟩ :: h) (b.step c p).2 := by
  cases c with
  | request swept now token a =>
    rcases request_cases b swept now token a p with he | ⟨r, rfl, hp, hd, hopen, he, hroom, hother⟩
    · exact hs.shrink rfl (he ▸ within_gc swept p)
    · change Sound b _ (b.request swept now r.requestId a p).2
      rw [he]
      refine hs.gc.grow rfl ?_ hfresh hopen hroom (hp ▸ hd ▸ hother)
      simp [drawn]
  | approve w swept now id identity presented =>
    rcases approve_cases b w swept now id identity presented p with
      ⟨hwithin, -⟩ | ⟨q, hq, htrust, hdigest, -, -, he⟩
    · exact hs.shrink rfl ⟨fun r hr => (mem_gc.mp (hwithin.1 r hr)).1,
        hwithin.2.trans (size_gc swept p)⟩
    · change Sound b _ (b.approve w swept now id identity presented p).2
      rw [he]
      exact hs.gc.mark hq rfl ⟨w, swept, now, id, identity, presented, rfl, q, (mem_gc.mp hq).1,
        htrust, hdigest.symm, rfl⟩
  | takeApproved swept now id tool =>
    rcases take_cases swept now id tool p with ⟨hwithin, hnot⟩ | ⟨r, hr, -, -, -, he⟩
    · refine hs.shrink ?_ hwithin
      unfold Security.taken
      split
      · rename_i r hcall hok
        cases hcall
        exact absurd hok (hnot r)
      · rfl
    · change Sound b _ (takeApproved swept now id tool p).2
      rw [he]
      refine hs.hand hr ?_ (within_delete (within_gc swept p) _) (fun q hq => ?_)
      · simp [Security.taken, ApprovalBroker.step, he]
      · exact (Table.mem_delete.mp hq).2
  | cancel id =>
    refine hs.shrink rfl ?_
    change Within (cancel id p) p
    unfold cancel
    split
    · exact within_delete (.refl p) _
    · exact within_empty p
  | clear => exact hs.shrink rfl (within_empty p)
  | pendingCount swept => exact hs.shrink rfl (within_gc swept p)
  | hasPending swept => exact hs.shrink rfl (within_gc swept p)
  | listPending swept => exact hs.shrink rfl (within_gc swept p)

theorem sound_run (hrun : b.machine.Run fresh h p) : Sound b h p :=
  hrun.induct (Sound b) (sound_start b) (fun _ _ c _ hc hs => sound_step c hs hc)

/-- A request for a new token leaves every live request where it is. -/
theorem request_keeps_live (hs : Sound b h p) {swept now : Time} {token : String} {a : Asked}
    (hfresh : token ∉ drawn h) {r : ApprovalRequest} (hr : r ∈ p) (hlive : swept ≤ r.expiry) :
    r ∈ (b.request swept now token a p).2 := by
  have hgc : r ∈ gc swept p := mem_gc.mpr ⟨hr, hlive⟩
  rcases request_cases b swept now token a p with he | ⟨q, rfl, -, -, -, he, -⟩
  · rw [he]
    exact hgc
  · rw [he, Table.mem_assign]
    refine .inr ⟨hgc, fun hkey => hfresh ?_⟩
    have hknown := hs.known r hr
    rwa [show r.requestId = q.requestId from hkey] at hknown

/-- What a step hands out was pending and approved, and live by both readings. -/
theorem taken_inv {e : b.machine.Entry} {r : ApprovalRequest} (h : Security.taken e = some r) :
    r ∈ e.pre ∧ r.approved = true ∧ ∃ swept now id tool,
      e.call = .takeApproved swept now id tool ∧ swept ≤ r.expiry ∧ now ≤ r.expiry := by
  obtain ⟨pre, call⟩ := e
  unfold Security.taken at h
  split at h
  · rename_i swept now id tool q hcall hok
    cases hcall
    cases h
    rcases take_cases swept now id tool pre with ⟨-, hnot⟩ | ⟨r', hr, happroved, hswept, hnow, he⟩
    · exact absurd hok (hnot r)
    · change (takeApproved swept now id tool pre).1 = _ at hok
      rw [he] at hok
      cases hok
      exact ⟨hr, happroved, swept, now, id, tool, rfl, hswept, hnow⟩
  · cases h

/-- A broker never holds more than its bound and pushes no live request out; it
keeps one open request for a principal's action; what it hands out was marked
for a trusted identity under the request's own digest and is not expired; and
it hands out no id twice. -/
theorem approvals_single_use (hrun : b.machine.Run fresh h p) :
    p.size ≤ b.maxPending ∧
    (∀ r ∈ p, ∀ r' ∈ p, SameOpen r r' → r = r') ∧
    (∀ swept now token a, token ∉ drawn h → ∀ r ∈ p, swept ≤ r.expiry →
      r ∈ (b.step (.request swept now token a) p).2) ∧
    (∀ newer e older, h = newer ++ e :: older → ∀ r, taken e = some r →
      (∃ d ∈ older, Marked d r) ∧ ∃ swept now id tool,
        e.call = .takeApproved swept now id tool ∧ swept ≤ r.expiry ∧ now ≤ r.expiry) ∧
    (takenIds h).Nodup := by
  have hs := sound_run hrun
  refine ⟨hs.bounded, hs.single, fun swept now token a hfresh r hr hlive =>
    request_keeps_live hs hfresh hr hlive, ?_, hs.once⟩
  rintro newer e older rfl r htaken
  obtain ⟨hr, happroved, hcall⟩ := taken_inv htaken
  exact ⟨(sound_run hrun.split.1).marked r hr happroved, hcall⟩

section sample

def sampleBroker : ApprovalBroker Unit where
  approver := some (fun _ _ identity => decide (identity = "owner"))

def sampleAsked : Asked := ⟨"owner", "codex_task", "task", "workspace", "modify"⟩

/-- A task is requested, approved and taken, and taken in vain once more. -/
def sampleCalls : List (Call Unit) := [
  .request 0 0 "5e" sampleAsked,
  .approve () 1 1 (some "5e") "owner" (some sampleAsked.digest),
  .takeApproved 2 2 (some "5e") (some "codex_task"),
  .takeApproved 3 3 (some "5e") none]

theorem sample_run : sampleBroker.machine.Run fresh
    (sampleBroker.machine.history [] Table.empty sampleCalls)
    (sampleBroker.machine.after Table.empty sampleCalls) := by
  refine (Machine.Run.step (Machine.Run.step (Machine.Run.step (Machine.Run.step .start ?_) ?_)
    ?_) ?_)
  · simp [fresh, drawn]
  · trivial
  · trivial
  · trivial

theorem sample_taken_once :
    takenIds (sampleBroker.machine.history [] Table.empty sampleCalls) = ["5e"] ∧
    (takenIds (sampleBroker.machine.history [] Table.empty sampleCalls)).Nodup :=
  ⟨by decide +kernel, (approvals_single_use sample_run).2.2.2.2⟩

end sample

end Solvio.Security
