import Solvio.Approval.Tables
import Solvio.Capabilities.ActionText
import Solvio.Lib.Lease

namespace Solvio.Capabilities.MobileApproval
open Solvio.Lib Solvio.Capabilities
open Solvio.Approval (RequestState)

/-! ### A capability that is described, approved and handled -/

/-- What the describer and the handler of one capability do between two awaits, on what
they share with others. -/
structure Site where
  State : Type
  Args : Type
  Outside : Type
  Done : Type
  Change : Type
  tool : String
  wording : Wording
  describe : Args → Outside → State → Option ShownArguments × State
  handle : Args → Outside → State → Option Done × State
  settle : Args → State → State
  change : Change → Outside → State → State
  shownOf : Done → ShownArguments
  clear : wording.Clear
  described_labels : ∀ {a o s xs}, (describe a o s).1 = some xs → wording.Labels xs
  done_labels : ∀ d, wording.Labels (shownOf d)

variable {D : Site}

/-- `render_action`. -/
def Site.text (D : Site) (shown : ShownArguments) (origin : OriginClass) : String :=
  D.wording.renderAction shown (originLabel origin)

/-- `approval_digest`. -/
def Site.digest (D : Site) (shown : ShownArguments) (origin : OriginClass) : String :=
  approvalDigest D.tool (D.text shown origin)

/-- A row of the control plane. -/
structure Request where
  id : Nat
  tool : String
  digest : String
  state : RequestState

instance : Keyed Request Nat := ⟨Request.id⟩

/-- The control plane, the router's register of this capability, and what the
describer and the handler share. -/
structure Desk (D : Site) where
  site : D.State
  requests : Table Request := .empty
  outstanding : Option Nat := none
  next : Nat := 0

def Desk.setState (s : Desk D) (id : Nat) (state : RequestState) : Desk D :=
  { s with
    requests := s.requests.modify id (fun r => { r with state := state }) (fun _ => rfl) }

def Desk.stateOf (s : Desk D) (id : Nat) : Option RequestState :=
  (s.requests.find? id).map Request.state

/-- A new pending request under the next id. -/
def Desk.add (s : Desk D) (tool digest : String) : Option (Desk D) :=
  (s.requests.insert? ⟨s.next, tool, digest, .pending⟩).map
    (fun requests => { s with requests := requests, next := s.next + 1 })

/-! ### Steps -/

/-- What an await can bring: a change of the outside, whether the other checks of the
control plane pass, and whether it raises. -/
structure Input (D : Site) where
  outside : D.Outside
  goes : Bool := true
  raises : Bool := false

/-- What becomes of the claim in `execute_approved`. -/
inductive Claim where
  | won
  | notApproved
  | refused
  | raised
deriving DecidableEq

/-- Each is one stretch between two awaits or one transaction of the control plane. -/
inductive Op (D : Site) where
  | describe (a : D.Args) (given : Option Nat) (origin : OriginClass)
  | getRequest (id : Nat)
  | claim (id : Nat)
  | beginExternal (id : Nat)
  | handle (id : Nat) (a : D.Args) (origin : OriginClass)
  | settle (a : D.Args)
  | finish (id : Nat)
  | pop
  | expire (id : Nat)
  | create (digest : String)
  | note (id : Nat)
  | takeOutstanding
  | requestOther (tool digest : String)
  | decide (id : Nat) (approve : Bool)
  | change (c : D.Change)

abbrev Reply (D : Site) : Op D → Type
  | .describe _ _ _ => Option (ShownArguments × Option Nat)
  | .getRequest _ => Option (Option Request)
  | .claim _ => Claim
  | .beginExternal _ => Bool
  | .handle _ _ _ => Option D.Done
  | .create _ => Option Nat
  | .takeOutstanding => Option Nat
  | _ => Unit

/-- An adapter that returned is `CONSUMED`, one that surely did nothing is `FAILED`,
and anything else stays open. -/
def Desk.finished (s : Desk D) (id : Nat) (i : Input D) : Desk D :=
  if i.goes then s.setState id .consumed else if i.raises then s else s.setState id .failed

def step : (op : Op D) → Input D → Desk D → Reply D op × Desk D
  | .describe a given _, i, s =>
    match D.describe a i.outside s.site with
    | (none, site) => (none, { s with site := site })
    | (some shown, site) =>
      match given with
      | none => (some (shown, s.outstanding), { s with site := site })
      | some _ => (some (shown, none), { s with site := site, outstanding := none })
  | .getRequest id, i, s => (if i.raises then none else some (s.requests.find? id), s)
  | .claim id, i, s =>
    if i.raises then (.raised, s)
    else if s.stateOf id ≠ some .approved then (.notApproved, s)
    else if i.goes then (.won, s.setState id .executing)
    else (.refused, s)
  | .beginExternal id, i, s => if i.goes then (true, s) else (false, s.setState id .failed)
  | .handle _ a _, i, s =>
    ((D.handle a i.outside s.site).1, { s with site := (D.handle a i.outside s.site).2 })
  | .settle a, _, s => ((), { s with site := D.settle a s.site })
  | .finish id, i, s => ((), s.finished id i)
  | .pop, _, s => ((), { s with outstanding := none })
  | .expire id, _, s =>
    ((), if (s.stateOf id).any (fun state => state.allowed .expired) then s.setState id .expired
      else s)
  | .create digest, i, s =>
    if i.raises then (none, s)
    else match s.add D.tool digest with
      | none => (none, s)
      | some s' => (some s.next, s')
  | .note id, _, s => ((), { s with outstanding := some id })
  | .takeOutstanding, _, s => (s.outstanding, { s with outstanding := none })
  | .requestOther tool digest, _, s => ((), (s.add tool digest).getD s)
  | .decide id approve, i, s =>
    ((), if s.stateOf id = some .pending ∧ i.goes then
        s.setState id (if approve then .approved else .denied)
      else s)
  | .change c, i, s => ((), { s with site := D.change c i.outside s.site })

abbrev desk (D : Site) (init : D.State) : Shared (Desk D) where
  Op := Op D
  Input := Input D
  Reply := Reply D
  step := step
  init := { site := init }

abbrev Proc (D : Site) (α : Type) : Type := Prog (Op D) (Reply D) α

def ask (op : Op D) : Proc D (Reply D op) := Prog.request op

/-! ### The call -/

/-- How `resume` ends. -/
inductive Status where
  | unknownApproval
  | denied
  | drift
  | mismatch
  | notApproved
  | refused
  | raised
  | executed
deriving DecidableEq

/-- `_NOT_USABLE`, and what is raised: the call goes on as if there were no request. -/
def Status.usable : Status → Bool
  | .notApproved | .unknownApproval | .drift | .mismatch | .raised => false
  | _ => true

/-- `CapabilityApprovals.resume`. -/
def resume (a : D.Args) (origin : OriginClass) (shown : ShownArguments) (id : Nat) :
    Proc D Status := do
  match ← ask (.getRequest id) with
  | none => return .raised
  | some none => return .unknownApproval
  | some (some row) =>
    if row.state = .denied then return .denied
    else if row.digest ≠ D.digest shown origin then return .drift
    else if row.tool ≠ D.tool then return .mismatch
    else
      match ← ask (.claim id) with
      | .raised => return .raised
      | .notApproved => return .notApproved
      | .refused => return .refused
      | .won =>
        if ← ask (.beginExternal id) then
          match ← ask (.handle id a origin) with
          | none =>
            ask (.finish id)
            return .executed
          | some _ =>
            ask (.settle a)
            ask (.finish id)
            return .executed
        else return .refused

/-- A new request, which is put into the register. -/
def requestNew (origin : OriginClass) (shown : ShownArguments) : Proc D Unit := do
  match ← ask (.create (D.digest shown origin)) with
  | none => return ()
  | some id => ask (.note id)

/-- `_mobile_approval`. -/
def mobileApproval (a : D.Args) (given : Option Nat) (origin : OriginClass) : Proc D Unit := do
  match ← ask (.describe a given origin) with
  | none => return ()
  | some (shown, previous) =>
    match given with
    | some id =>
      let _ ← resume a origin shown id
      return ()
    | none =>
      match previous with
      | none => requestNew origin shown
      | some id =>
        let status ← resume a origin shown id
        ask .pop
        if status.usable then return ()
        else
          ask (.expire id)
          requestNew origin shown

/-- `abandon_outstanding`. -/
def abandonOutstanding : Proc D Unit := do
  match ← ask .takeOutstanding with
  | none => return ()
  | some id => ask (.expire id)

/-- The calls of this capability, the requests of others, the device, and whatever
else changes what is described. -/
inductive Launch (D : Site) : Proc D Unit → Prop
  | call (a : D.Args) (given : Option Nat) (origin : OriginClass) :
    Launch D (mobileApproval a given origin)
  | abandon : Launch D abandonOutstanding
  | other (tool digest : String) : Launch D (ask (.requestOther tool digest))
  | decide (id : Nat) (approve : Bool) : Launch D (ask (.decide id approve))
  | change (c : D.Change) : Launch D (ask (.change c))

/-! ### What a step does to a request -/

def Desk.digestOf (s : Desk D) (id : Nat) : Option String :=
  (s.requests.find? id).map Request.digest

@[simp] theorem state_of_set (s : Desk D) (id k : Nat) (state : RequestState) :
    (s.setState k state).stateOf id =
      if id = k then (s.stateOf k).map (fun _ => state) else s.stateOf id := by
  simp only [Desk.stateOf, Desk.setState, Table.find_modify]
  split
  · simp [Function.comp_def]
  · rfl

@[simp] theorem digest_of_set (s : Desk D) (id k : Nat) (state : RequestState) :
    (s.setState k state).digestOf id = s.digestOf id := by
  simp only [Desk.digestOf, Desk.setState, Table.find_modify]
  split
  · rename_i h
    simp [h, Function.comp_def]
  · rfl

/-- A new request is pending, and leaves the others alone. -/
theorem added {s s' : Desk D} {tool digest : String} (h : s.add tool digest = some s') (id : Nat) :
    (id = s.next ∧ s.digestOf id = none ∧ s'.stateOf id = some .pending ∧
        s'.digestOf id = some digest) ∨
      (id ≠ s.next ∧ s'.stateOf id = s.stateOf id ∧ s'.digestOf id = s.digestOf id) := by
  obtain ⟨requests, hinsert, rfl⟩ := Option.map_eq_some_iff.mp h
  have hfind := Table.find_insert hinsert id
  have hfree := (Table.insert_some hinsert).1
  by_cases hid : id = s.next
  · subst hid
    refine .inl ⟨rfl, ?_, ?_, ?_⟩
    · simp only [Desk.digestOf, Option.map_eq_none_iff]
      exact hfree
    · simp [Desk.stateOf, hfind, Keyed.key]
    · simp [Desk.digestOf, hfind, Keyed.key]
  · rw [if_neg (by simpa [Keyed.key] using Ne.symm hid)] at hfind
    exact .inr ⟨hid, by simp [Desk.stateOf, hfind], by simp [Desk.digestOf, hfind]⟩

/-- How a step treats a request: it leaves it alone, moves it, decides it, or makes it. -/
inductive Treats (s : Desk D) (op : Op D) (id : Nat) (s' : Desk D) : Prop
  | same (state : s'.stateOf id = s.stateOf id) (digest : s'.digestOf id = s.digestOf id)
  | moved (state : RequestState) (ne : state ≠ .approved)
    (moves : s'.stateOf id = (s.stateOf id).map (fun _ => state))
    (digest : s'.digestOf id = s.digestOf id)
  | approved (op : op = .decide id true) (pending : s.stateOf id = some .pending)
    (digest : s'.digestOf id = s.digestOf id)
  | made (free : s.digestOf id = none) (state : s'.stateOf id = some .pending)

theorem Treats.of_set {s : Desk D} {op : Op D} (k : Nat) {state : RequestState}
    (hne : state ≠ .approved) (id : Nat) : Treats s op id (s.setState k state) := by
  by_cases hid : id = k
  · exact .moved state hne (by simp [hid]) (by simp)
  · exact .same (by simp [hid]) (by simp)

theorem Treats.of_add {s s' : Desk D} {op : Op D} {tool digest : String}
    (h : s.add tool digest = some s') (id : Nat) : Treats s op id s' := by
  rcases added h id with ⟨-, hfree, hstate, -⟩ | ⟨-, hstate, hdigest⟩
  · exact .made hfree hstate
  · exact .same hstate hdigest

theorem step_treats (op : Op D) (i : Input D) (s : Desk D) (id : Nat) :
    Treats s op id (step op i s).2 := by
  cases op with
  | describe a given origin =>
    simp only [step]
    split
    · exact .same rfl rfl
    · cases given with
      | none => exact .same rfl rfl
      | some k => exact .same rfl rfl
  | claim k =>
    simp only [step]
    split
    · exact .same rfl rfl
    split
    · exact .same rfl rfl
    split
    · exact .of_set k (by decide) id
    · exact .same rfl rfl
  | beginExternal k =>
    simp only [step]
    split
    · exact .same rfl rfl
    · exact .of_set k (by decide) id
  | finish k =>
    simp only [step, Desk.finished]
    split
    · exact .of_set k (by decide) id
    split
    · exact .same rfl rfl
    · exact .of_set k (by decide) id
  | expire k =>
    simp only [step]
    split
    · exact .of_set k (by decide) id
    · exact .same rfl rfl
  | create digest =>
    simp only [step]
    split
    · exact .same rfl rfl
    · split
      · exact .same rfl rfl
      · rename_i hadd
        exact .of_add hadd id
  | requestOther tool digest =>
    simp only [step]
    cases hadd : s.add tool digest with
    | none => exact .same rfl rfl
    | some s' => exact .of_add hadd id
  | decide k approve =>
    simp only [step]
    split
    · rename_i hpending
      cases approve with
      | false => exact .of_set k (by decide) id
      | true =>
        by_cases hid : id = k
        · subst hid
          exact .approved rfl hpending.1 (by simp)
        · exact .same (by simp [hid]) (by simp)
    · exact .same rfl rfl
  | _ => exact .same rfl rfl

/-- The digest of a request stays. -/
theorem step_digest {op : Op D} {i : Input D} {s : Desk D} {id : Nat} {digest : String}
    (h : s.digestOf id = some digest) : (step op i s).2.digestOf id = some digest := by
  rcases step_treats op i s id with ⟨-, hdigest⟩ | ⟨-, -, -, hdigest⟩ | ⟨-, -, hdigest⟩ | ⟨hfree, -⟩
  · rw [hdigest, h]
  · rw [hdigest, h]
  · rw [hdigest, h]
  · rw [hfree] at h
    cases h

/-- What a step does to what the describer and the handler share. -/
def siteAfter : Op D → Input D → D.State → D.State
  | .describe a _ _, i, site => (D.describe a i.outside site).2
  | .handle _ a _, i, site => (D.handle a i.outside site).2
  | .settle a, _, site => D.settle a site
  | .change c, i, site => D.change c i.outside site
  | _, _, site => site

@[simp] theorem site_set (s : Desk D) (id : Nat) (state : RequestState) :
    (s.setState id state).site = s.site := rfl

theorem site_add {s s' : Desk D} {tool digest : String} (h : s.add tool digest = some s') :
    s'.site = s.site := by
  obtain ⟨requests, -, rfl⟩ := Option.map_eq_some_iff.mp h
  rfl

theorem step_site (op : Op D) (i : Input D) (s : Desk D) :
    (step op i s).2.site = siteAfter op i s.site := by
  cases op with
  | describe a given origin =>
    simp only [step, siteAfter]
    split
    · rename_i hdescribe
      rw [hdescribe]
    · rename_i hdescribe
      rw [hdescribe]
      cases given with
      | none => rfl
      | some k => rfl
  | claim k =>
    simp only [step, siteAfter]
    split
    · rfl
    split
    · rfl
    split
    · rfl
    · rfl
  | beginExternal k =>
    simp only [step, siteAfter]
    split <;> rfl
  | finish k =>
    simp only [step, siteAfter, Desk.finished]
    split
    · rfl
    split <;> rfl
  | expire k =>
    simp only [step, siteAfter]
    split <;> rfl
  | create digest =>
    simp only [step, siteAfter]
    split
    · rfl
    split
    · rfl
    · rename_i hadd
      exact site_add hadd
  | requestOther tool digest =>
    simp only [step, siteAfter]
    cases hadd : s.add tool digest with
    | none => rfl
    | some s' => exact site_add hadd
  | decide k approve =>
    simp only [step, siteAfter]
    split <;> rfl
  | _ => rfl

/-! ### What a log says -/

variable {init : D.State}

abbrev World (D : Site) (init : D.State) : Type := (desk D init).World

abbrev Event (D : Site) (init : D.State) : Type := (desk D init).Event

/-- The description that a step makes. -/
def described (e : Event D init) : Option (D.Args × OriginClass × ShownArguments) :=
  match e.call.op with
  | .describe a _ origin =>
    (D.describe a e.call.input.outside e.pre.site).1.map (fun shown => (a, origin, shown))
  | _ => none

/-- What a step puts on the wire, and for which request. -/
def done (e : Event D init) : Option (Nat × D.Args × OriginClass × D.Done) :=
  match e.call.op with
  | .handle id a origin =>
    (D.handle a e.call.input.outside e.pre.site).1.map (fun d => (id, a, origin, d))
  | _ => none

/-- The device approves a request that is pending. -/
def Approves (e : Event D init) (id : Nat) (digest : String) : Prop :=
  e.call.op = .decide id true ∧ e.pre.stateOf id = some .pending ∧ e.pre.digestOf id = some digest

/-- The device has approved this digest under this id. -/
def Signed (L : List (Event D init)) (id : Nat) (digest : String) : Prop :=
  ∃ e ∈ L, Approves e id digest

/-- What is hashed at a step. -/
def hashedAt (e : Event D init) : List Bytes :=
  (described e).toList.map (fun x => approvalBytes D.tool (D.text x.2.2 x.2.1)) ++
    (done e).toList.map (fun x => approvalBytes D.tool (D.text (D.shownOf x.2.2.2) x.2.2.1))

/-- No two different texts of a log have the same digest. -/
def NoCollision (L : List (Event D init)) : Prop :=
  ∀ x ∈ L.flatMap hashedAt, ∀ y ∈ L.flatMap hashedAt, sha256 x = sha256 y → x = y

/-! ### A handler runs for what its own call described -/

/-- A request of this digest was read, and one under this id was claimed. -/
def Cleared (L : List (Event D init)) (id : Nat) (digest : String) : Prop :=
  (∃ g ∈ L, g.pre.digestOf id = some digest) ∧ ∃ c ∈ L, c.pre.stateOf id = some .approved

/-- A call describes first, and handles what it described. -/
def permits (D : Site) (init : D.State) : (desk D init).Discipline := fun L act =>
  match act.op with
  | .describe _ _ _ => ∀ v ∈ L, v.call.task ≠ act.task
  | .handle id a origin => ∃ v ∈ L, v.call.task = act.task ∧
      ∃ shown, described v = some (a, origin, shown) ∧ Cleared L id (D.digest shown origin)
  | _ => True

/-- Requests that are always permitted. -/
def free : Op D → Prop
  | .describe _ _ _ => False
  | .handle _ _ _ => False
  | _ => True

theorem free_safe {α : Type} {p : Proc D α} (h : p.Asks free) (task : Nat)
    (L : List (Event D init)) :
    Shared.Safe (permits D init) task p L (fun _ _ => True) := by
  refine .of_asks h (fun L act hop => ?_)
  unfold permits
  cases hc : act.op with
  | describe a given origin => rw [hc] at hop; cases hop
  | handle id a origin => rw [hc] at hop; cases hop
  | _ => trivial

theorem won_approved {id : Nat} {i : Input D} {s : Desk D}
    (h : (step (.claim id) i s).1 = Claim.won) : s.stateOf id = some .approved := by
  simp only [step] at h
  split at h
  · cases h
  split at h
  · cases h
  · rename_i hstate
    exact not_not.mp hstate

theorem read_find {id : Nat} {i : Input D} {s : Desk D} {row : Request}
    (h : (step (.getRequest id) i s).1 = some (some row)) : s.requests.find? id = some row := by
  simp only [step] at h
  split at h
  · cases h
  · exact Option.some.inj h

theorem described_of_reply (init : D.State) (task : Nat) {a : D.Args} {given : Option Nat}
    {origin : OriginClass} {i : Input D} {s : Desk D} {shown : ShownArguments}
    {previous : Option Nat}
    (h : (step (.describe a given origin) i s).1 = some (shown, previous)) :
    described (⟨s, ⟨task, .describe a given origin, i⟩⟩ : Event D init) =
      some (a, origin, shown) := by
  simp only [described]
  simp only [step] at h
  split at h
  · cases h
  · rename_i shown' site hdescribe
    cases given with
    | none =>
      cases h
      simp [hdescribe]
    | some id =>
      cases h
      simp [hdescribe]

theorem resume_safe {a : D.Args} {origin : OriginClass} {shown : ShownArguments} {id task : Nat}
    {L : List (Event D init)} {v : Event D init} (hv : v ∈ L) (ht : v.call.task = task)
    (hshown : described v = some (a, origin, shown)) :
    Shared.Safe (permits D init) task (resume a origin shown id) L (fun _ _ => True) := by
  simp only [resume, ask, Prog.bind_request]
  intro L₁ s₁ _ hlater₁ i₁
  refine ⟨trivial, ?_⟩
  dsimp only
  split
  · trivial
  · trivial
  · rename_i row hread
    split
    · trivial
    split
    · trivial
    · rename_i hdrift
      split
      · trivial
      · intro L₂ s₂ _ hlater₂ i₂
        refine ⟨trivial, ?_⟩
        dsimp only
        split
        · trivial
        · trivial
        · trivial
        · rename_i hwon
          intro L₃ s₃ _ hlater₃ i₃
          refine ⟨trivial, ?_⟩
          dsimp only
          split
          · intro L₄ s₄ _ hlater₄ i₄
            have hstep : ∀ {e : Event D init}, e ∈ L₃ → e ∈ L₄ :=
              fun he => hlater₄.mem (List.mem_cons_of_mem _ he)
            have hclaim : ∀ {e : Event D init}, e ∈ L₂ → e ∈ L₄ :=
              fun he => hstep (hlater₃.mem (List.mem_cons_of_mem _ he))
            have hget : ∀ {e : Event D init}, e ∈ L₁ → e ∈ L₄ :=
              fun he => hclaim (hlater₂.mem (List.mem_cons_of_mem _ he))
            refine ⟨⟨v, hget (hlater₁.mem hv), ht, shown, hshown,
              ⟨_, hclaim (hlater₂.mem (List.mem_cons_self ..)), ?_⟩,
              ⟨_, hstep (hlater₃.mem (List.mem_cons_self ..)), won_approved hwon⟩⟩, ?_⟩
            · simp [Desk.digestOf, read_find hread, not_not.mp hdrift]
            · refine free_safe ?_ task _
              cases (step (.handle id a origin) i₄ s₄).1 with
              | none => exact ⟨trivial, fun _ => trivial⟩
              | some d => exact ⟨trivial, fun _ => ⟨trivial, fun _ => trivial⟩⟩
          · trivial

theorem request_new_free (origin : OriginClass) (shown : ShownArguments) :
    (requestNew origin shown : Proc D Unit).Asks free := by
  simp only [requestNew, ask, Prog.bind_request]
  refine ⟨trivial, fun r => ?_⟩
  dsimp only
  split
  · trivial
  · exact ⟨trivial, fun _ => trivial⟩

theorem call_launchable (a : D.Args) (given : Option Nat) (origin : OriginClass) :
    Shared.Launchable (permits D init) (mobileApproval a given origin) := by
  intro task
  simp only [mobileApproval, ask, Prog.bind_request]
  intro L s _ hlater i
  refine ⟨fun v hv ht => (by cases hlater.own hv ht), ?_⟩
  dsimp only
  split
  · trivial
  · rename_i shown previous hreply
    have hshown := described_of_reply init task hreply
    split
    · exact (resume_safe (List.mem_cons_self ..) rfl hshown).bind (fun L _ _ => trivial)
    split
    · exact free_safe (request_new_free origin shown) task _
    · refine (resume_safe (List.mem_cons_self ..) rfl hshown).bind (fun L status _ => ?_)
      apply free_safe
      refine ⟨trivial, fun _ => ?_⟩
      split
      · trivial
      · exact ⟨trivial, fun _ => request_new_free origin shown⟩

theorem abandon_free : (abandonOutstanding : Proc D Unit).Asks free := by
  simp only [abandonOutstanding, ask, Prog.bind_request]
  refine ⟨trivial, fun r => ?_⟩
  dsimp only
  split
  · trivial
  · exact ⟨trivial, fun _ => trivial⟩

theorem launchable {p : Proc D Unit} (h : Launch D p) :
    Shared.Launchable (permits D init) p := by
  have hone : ∀ {op : Op D}, free op → (ask op).Asks free := fun hop => ⟨hop, fun _ => trivial⟩
  intro task
  cases h with
  | call a given origin => exact call_launchable a given origin task
  | abandon => exact free_safe abandon_free task _
  | other tool digest => exact free_safe (p := ask (.requestOther tool digest)) (hone trivial) task _
  | decide id approve => exact free_safe (p := ask (.decide id approve)) (hone trivial) task _
  | change c => exact free_safe (p := ask (.change c)) (hone trivial) task _

/-! ### What was signed -/

variable {L newer older : List (Event D init)} {s : Desk D} {e v : Event D init}

theorem digest_later {id : Nat} {digest : String}
    (h : (desk D init).machine.Run (permits D init) L s) (hv : v ∈ L)
    (hdigest : v.pre.digestOf id = some digest) : s.digestOf id = some digest := by
  obtain ⟨newer, older, rfl⟩ := List.append_of_mem hv
  exact (h.forward (fun s => s.digestOf id = some digest) hdigest
    (fun _ _ _ _ h => step_digest h)).2.1

/-- What the device approved is what the row says. -/
theorem Signed.digest {id : Nat} {digest : String} (hsigned : Signed L id digest)
    (h : (desk D init).machine.Run (permits D init) L s) : s.digestOf id = some digest := by
  obtain ⟨v, hv, -, -, hdigest⟩ := hsigned
  exact digest_later h hv hdigest

/-- A request is approved by the device only. -/
theorem approved_signed {id : Nat} (h : (desk D init).machine.Run (permits D init) L s)
    (hstate : s.stateOf id = some .approved) : ∃ digest, Signed L id digest := by
  revert hstate
  refine h.induct (fun L s => s.stateOf id = some .approved → ∃ digest, Signed L id digest)
    (fun h => (by cases h)) (fun L s act _ _ ih hstate => ?_)
  have hkeep : s.stateOf id = some .approved → ∃ digest, Signed (⟨s, act⟩ :: L) id digest := by
    intro hold
    obtain ⟨digest, v, hv, happroves⟩ := ih hold
    exact ⟨digest, v, List.mem_cons_of_mem _ hv, happroves⟩
  rcases step_treats act.op act.input s id with ⟨hsame, -⟩ | ⟨state, hne, hmoved, -⟩ |
    ⟨hop, hpending, -⟩ | ⟨-, hmade⟩
  · exact hkeep (hsame.symm.trans hstate)
  · obtain ⟨old, -, rfl⟩ := Option.map_eq_some_iff.mp (hmoved.symm.trans hstate)
    exact absurd rfl hne
  · obtain ⟨row, hrow, -⟩ := Option.map_eq_some_iff.mp hpending
    exact ⟨row.digest, ⟨s, act⟩, List.mem_cons_self .., hop, hpending, by simp [Desk.digestOf, hrow]⟩
  · cases hmade.symm.trans hstate

theorem Signed.mono {id : Nat} {digest : String} (h : Signed older id digest) (newer) :
    Signed (newer ++ older) id digest := by
  obtain ⟨v, hv, happroves⟩ := h
  exact ⟨v, List.mem_append_right _ hv, happroves⟩

theorem Cleared.signed {id : Nat} {digest : String} (hcleared : Cleared L id digest)
    (h : (desk D init).machine.Run (permits D init) L s) : Signed L id digest := by
  obtain ⟨⟨g, hg, hread⟩, c, hc, hclaim⟩ := hcleared
  obtain ⟨newer, older, rfl, hrun, -⟩ := h.of_mem hc
  obtain ⟨digest', hsigned⟩ := approved_signed hrun hclaim
  have hlater : Signed (newer ++ c :: older) id digest' := by
    have := hsigned.mono (newer ++ [c])
    simpa using this
  have heq := (hlater.digest h).symm.trans (digest_later h hg hread)
  cases heq
  exact hlater

theorem described_op {x : D.Args × OriginClass × ShownArguments} (h : described v = some x) :
    ∃ given, v.call.op = .describe x.1 given x.2.1 := by
  unfold described at h
  split at h
  · rename_i a given origin hop
    obtain ⟨shown, -, rfl⟩ := Option.map_eq_some_iff.mp h
    exact ⟨given, hop⟩
  · cases h

theorem done_op {x : Nat × D.Args × OriginClass × D.Done} (h : done e = some x) :
    e.call.op = .handle x.1 x.2.1 x.2.2.1 := by
  unfold done at h
  split at h
  · rename_i id a origin hop
    obtain ⟨d, -, rfl⟩ := Option.map_eq_some_iff.mp h
    exact hop
  · cases h

/-- A call describes once. -/
theorem described_once (h : (desk D init).machine.Run (permits D init) L s)
    {u : Event D init} {x y : D.Args × OriginClass × ShownArguments} (hv : v ∈ L) (hu : u ∈ L)
    (hx : described v = some x) (hy : described u = some y) (ht : v.call.task = u.call.task) :
    v = u := by
  have hfirst : ∀ {v u : Event D init} {newer mid older : List (Event D init)},
      L = newer ++ v :: (mid ++ u :: older) → ∀ {x}, described v = some x →
        v.call.task ≠ u.call.task := by
    intro v u newer mid older hsplit x hx
    subst hsplit
    obtain ⟨given, hop⟩ := described_op hx
    have hpermits := h.split.2
    simp only [permits, hop] at hpermits
    exact fun ht => hpermits u (by simp) ht.symm
  obtain ⟨n, o, hn⟩ := List.append_of_mem hv
  obtain ⟨n', o', hn'⟩ := List.append_of_mem hu
  rcases Machine.two_splits (hn.symm.trans hn') with rfl | ⟨mid, -, hmid⟩ | ⟨mid, -, hmid⟩
  · rfl
  · exact absurd ht (hfirst (hmid ▸ hn) hx)
  · exact absurd ht.symm (hfirst (hmid ▸ hn') hy)

/-- What a handler runs for is what its own call described and the device approved. -/
theorem handled (h : (desk D init).machine.Run (permits D init) L s)
    {id : Nat} {a : D.Args} {origin : OriginClass} {d : D.Done} (hL : L = newer ++ e :: older)
    (hdone : done e = some (id, a, origin, d)) : ∃ v ∈ older, v.call.task = e.call.task ∧
      ∃ shown, described v = some (a, origin, shown) ∧ Signed older id (D.digest shown origin) := by
  subst hL
  have hpermits := h.split.2
  simp only [permits, done_op hdone] at hpermits
  obtain ⟨v, hv, ht, shown, hshown, hcleared⟩ := hpermits
  exact ⟨v, hv, ht, shown, hshown, hcleared.signed h.split.1⟩

theorem hashed_described {x : D.Args × OriginClass × ShownArguments} (hv : v ∈ L)
    (h : described v = some x) :
    approvalBytes D.tool (D.text x.2.2 x.2.1) ∈ L.flatMap hashedAt :=
  List.mem_flatMap.mpr ⟨v, hv, by simp [hashedAt, h]⟩

theorem hashed_done {x : Nat × D.Args × OriginClass × D.Done} (he : e ∈ L)
    (h : done e = some x) :
    approvalBytes D.tool (D.text (D.shownOf x.2.2.2) x.2.2.1) ∈ L.flatMap hashedAt :=
  List.mem_flatMap.mpr ⟨e, he, by simp [hashedAt, h]⟩

/-- What is put on the wire is what the device approved exactly if it reads as what the
call itself described. -/
theorem signed_iff (h : (desk D init).machine.Run (permits D init) L s) (hsha : NoCollision L)
    {id : Nat} {a : D.Args} {origin : OriginClass} {d : D.Done} (hL : L = newer ++ e :: older)
    (hdone : done e = some (id, a, origin, d)) :
    Signed older id (D.digest (D.shownOf d) origin) ↔ ∀ v ∈ older, v.call.task = e.call.task →
      ∀ x, described v = some x → D.text x.2.2 x.2.1 = D.text (D.shownOf d) origin := by
  obtain ⟨v, hv, ht, shown, hshown, hsigned⟩ := handled h hL hdone
  have hrun : (desk D init).machine.Run (permits D init) older e.pre := (hL ▸ h).split.1
  have hv' : v ∈ L := by simp [hL, hv]
  have he : e ∈ L := by simp [hL]
  constructor
  · intro hwire u hu htu x hx
    obtain rfl := described_once hrun hu hv hx hshown (htu.trans ht.symm)
    obtain rfl := Option.some.inj (hshown.symm.trans hx)
    have heq : D.digest shown origin = D.digest (D.shownOf d) origin :=
      Option.some.inj ((hsigned.digest hrun).symm.trans (hwire.digest hrun))
    have hbytes := hsha _ (hashed_described hv' hshown) _ (hashed_done he hdone)
    exact approval_digest_task hbytes heq
  · intro hall
    have htext := hall v hv ht _ hshown
    rw [Site.digest, ← htext]
    exact hsigned

/-! ### A call that others come in between -/

/-- One call asks, the device approves, and another resumes; before its handler runs
something changes, and a third call describes. -/
def overtaken (init : D.State) (a : D.Args) (c : D.Change) (origin : OriginClass)
    (o o' : D.Outside) : World D init :=
  Shared.World.play (desk D init)
    [mobileApproval a none origin, ask (.decide 0 true), mobileApproval a (some 0) origin,
      ask (.change c), mobileApproval a none origin]
    [(0, ⟨o, true, false⟩), (0, ⟨o, true, false⟩), (0, ⟨o, true, false⟩), (1, ⟨o, true, false⟩),
      (2, ⟨o, true, false⟩), (2, ⟨o, true, false⟩), (2, ⟨o, true, false⟩), (2, ⟨o, true, false⟩),
      (3, ⟨o, true, false⟩), (4, ⟨o', true, false⟩), (2, ⟨o, true, false⟩)]

theorem overtaken_reach (a : D.Args) (c : D.Change) (origin : OriginClass) (o o' : D.Outside) :
    Shared.World.Reach (Launch D) (overtaken init a c origin o o') := by
  refine .play (fun p hp => ?_) _
  simp only [List.mem_cons, List.not_mem_nil, or_false] at hp
  rcases hp with rfl | rfl | rfl | rfl | rfl
  · exact .call ..
  · exact .decide ..
  · exact .call ..
  · exact .change ..
  · exact .call ..

def single (row : Request) : Table Request := ⟨[row], by simp⟩

@[simp] theorem insert_first (row : Request) :
    (Table.empty : Table Request).insert? row = some (single row) := rfl

@[simp] theorem find_single (row : Request) (k : Nat) :
    (single row).find? k = if row.id = k then some row else none := by
  by_cases h : row.id = k
  · rw [if_pos h]
    exact Table.find_some.mpr ⟨List.mem_singleton.mpr rfl, h⟩
  · rw [if_neg h]
    refine Table.find_none.mpr (fun b hb => ?_)
    rw [List.mem_singleton.mp hb]
    exact h

@[simp] theorem modify_single (row : Request) (k : Nat) (f : Request → Request) (hf) :
    (single row).modify k f hf = single (if row.id = k then f row else row) := by
  simp [single, Table.modify, Table.update, Keyed.key]

/-- The row of the request in such a run. -/
def asked (D : Site) (origin : OriginClass) (shown : ShownArguments) (state : RequestState) :
    Table Request := single ⟨0, D.tool, D.digest shown origin, state⟩

theorem overtaken_log (init : D.State) {a : D.Args} (c : D.Change) (origin : OriginClass)
    {o : D.Outside} (o' : D.Outside) {shown shown' : ShownArguments} {s₀ s₁ s₂ : D.State}
    (h₀ : D.describe a o init = (some shown, s₀)) (h₁ : D.describe a o s₀ = (some shown, s₁))
    (h₂ : D.describe a o' (D.change c o s₁) = (some shown', s₂)) :
    (overtaken init a c origin o o').log =
      [⟨⟨s₂, asked D origin shown .executing, none, 1⟩, ⟨2, .handle 0 a origin, ⟨o, true, false⟩⟩⟩,
        ⟨⟨D.change c o s₁, asked D origin shown .executing, none, 1⟩,
          ⟨4, .describe a none origin, ⟨o', true, false⟩⟩⟩,
        ⟨⟨s₁, asked D origin shown .executing, none, 1⟩, ⟨3, .change c, ⟨o, true, false⟩⟩⟩,
        ⟨⟨s₁, asked D origin shown .executing, none, 1⟩, ⟨2, .beginExternal 0, ⟨o, true, false⟩⟩⟩,
        ⟨⟨s₁, asked D origin shown .approved, none, 1⟩, ⟨2, .claim 0, ⟨o, true, false⟩⟩⟩,
        ⟨⟨s₁, asked D origin shown .approved, none, 1⟩, ⟨2, .getRequest 0, ⟨o, true, false⟩⟩⟩,
        ⟨⟨s₀, asked D origin shown .approved, some 0, 1⟩,
          ⟨2, .describe a (some 0) origin, ⟨o, true, false⟩⟩⟩,
        ⟨⟨s₀, asked D origin shown .pending, some 0, 1⟩, ⟨1, .decide 0 true, ⟨o, true, false⟩⟩⟩,
        ⟨⟨s₀, asked D origin shown .pending, none, 1⟩, ⟨0, .note 0, ⟨o, true, false⟩⟩⟩,
        ⟨⟨s₀, .empty, none, 0⟩, ⟨0, .create (D.digest shown origin), ⟨o, true, false⟩⟩⟩,
        ⟨⟨init, .empty, none, 0⟩, ⟨0, .describe a none origin, ⟨o, true, false⟩⟩⟩] := by
  simp [overtaken, Shared.World.play, Shared.World.moves, Shared.World.start,
    Shared.World.move, Shared.World.act, Shared.World.setTask, mobileApproval, requestNew, resume,
    ask, Prog.request, step, h₀, h₁, h₂, Desk.add, Desk.stateOf, Desk.setState, asked]

/-- The device approved what the first call described. -/
theorem overtaken_signed (init : D.State) {a : D.Args} (c : D.Change) (origin : OriginClass)
    {o : D.Outside} (o' : D.Outside) {shown shown' : ShownArguments} {s₀ s₁ s₂ : D.State}
    (h₀ : D.describe a o init = (some shown, s₀)) (h₁ : D.describe a o s₀ = (some shown, s₁))
    (h₂ : D.describe a o' (D.change c o s₁) = (some shown', s₂)) :
    ∃ older, (overtaken init a c origin o o').log =
        ⟨⟨s₂, asked D origin shown .executing, none, 1⟩,
          ⟨2, .handle 0 a origin, ⟨o, true, false⟩⟩⟩ :: older ∧
      Signed older 0 (D.digest shown origin) := by
  refine ⟨_, overtaken_log init c origin o' h₀ h₁ h₂,
    ⟨⟨s₀, asked D origin shown .pending, some 0, 1⟩, ⟨1, .decide 0 true, ⟨o, true, false⟩⟩⟩,
    by simp, rfl, ?_, ?_⟩
  · simp [Desk.stateOf, asked]
  · simp [Desk.digestOf, asked]

end Solvio.Capabilities.MobileApproval
