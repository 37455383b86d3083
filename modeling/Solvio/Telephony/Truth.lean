import Solvio.Telephony.OneCall

namespace Solvio.Telephony.Truth
open Solvio.Lib
open OneCall (World Event)

variable {R : Readers}

/-! ### What the provider's data show -/

variable (R) in
def statusText (body : Data) : String := textOf R (body.get? "status")

/-- A section of a conversation that can be read. -/
def sectionOf (body : Data) (key : String) : Data :=
  match (body.get? key).filter Data.truthy with
  | some (.dict kvs) => .dict kvs
  | _ => .dict []

variable (R) in
def errorText (body : Data) : String :=
  let metadata := sectionOf body "metadata"
  errorType R metadata (sectionOf metadata "error")

/-- Neither missing nor empty. -/
def IsThere : Option Data → Prop
  | none => False
  | some (.scalar .none) => False
  | some (.scalar (.str s)) => s ≠ ""
  | some _ => True

/-- The call was accepted: the time is there. -/
def WasAccepted (body : Data) : Prop :=
  IsThere ((sectionOf body "metadata").get? "accepted_time_unix_secs")

variable (R) in
def HasEnded (body : Data) : Prop := statusText R body = "done" ∨ statusText R body = "failed"

variable (R) in
/-- What the agent says, turn by turn. -/
def saidIn : Option Data → List (List String)
  | some (.list turns) => turns.filterMap (agentTurn R)
  | _ => []

variable (R) in
def agentTurns (body : Data) : List (List String) := saidIn R (body.get? "transcript")

variable (R) in
/-- There are turns of the agent, and no content word in them. -/
def Silent (body : Data) : Prop := agentTurns R body ≠ [] ∧ ∀ said ∈ agentTurns R body, said = []

variable (R) in
/-- One turn of the agent covers the share of the core that is asked for. -/
def Covered (message : String) (body : Data) : Prop :=
  minCoreWords ≤ (core R message).length ∧
    ∃ said ∈ agentTurns R body, 3 * (core R message).length ≤ 5 * covered (core R message) said

/-- The answer to a start shows that the call was refused. -/
def RefusalShown : UpstreamAnswer → Prop
  | .pathRefused => True
  | .unreachable => False
  | .response status body => (400 ≤ status ∧ status < 500) ∨
    (status < 400 ∧ ∃ v, body.get? "success" = some v ∧ v.truthy = false)

/-! ### What is reported -/

variable (R) in
/-- What a step reports of an execution, to its caller and to the ledger. -/
def reported (e : Event R) : Option (String × Report) :=
  match e.call.op with
  | .dialed id => match startCall R e.call.input with
    | .refused => some (id, ⟨.failed, .notDelivered⟩)
    | .ambiguous => some (id, ⟨.unknown, .unknown⟩)
    | .started _ => none
  | .conflict id => some (id, ⟨.unknown, .unknown⟩)
  | .close id message c => some (id, closing R message c)
  | .exhaust id last => some (id, exhausting R last)
  | _ => none

/-- The call was never accepted, as far as the provider's data go. -/
def NeverAccepted (e : Event R) : Prop :=
  match e.call.op with
  | .dialed _ => RefusalShown e.call.input
  | .close _ _ c => ¬ WasAccepted c.body
  | _ => False

/-- The call has ended, and the agent had the word and said nothing. -/
def SaidNothing (e : Event R) : Prop :=
  match e.call.op with
  | .close _ _ c => HasEnded R c.body ∧ Silent R c.body
  | _ => False

/-- The call was accepted and has ended, and the message was said in one turn. -/
def SaidTheMessage (e : Event R) : Prop :=
  match e.call.op with
  | .close _ message c => WasAccepted c.body ∧ HasEnded R c.body ∧ Covered R message c.body
  | _ => False

/-- A report does not go beyond the evidence. -/
def Truthful (e : Event R) : Prop :=
  ∀ id r, reported R e = some (id, r) →
    (r.deliveryState = .notDelivered → NeverAccepted e ∨ SaidNothing e) ∧
    (r.deliveryState = .deliveredByAgent → SaidTheMessage e) ∧
    r.deliveryState ≠ .recipientAcknowledged

/-- Another connection, or another answer to what became of the message. -/
def Contradicts (row row' : CallRow) : Prop :=
  row'.callState ≠ row.callState ∨
    (row.deliveryState ≠ .unknown ∧ row'.deliveryState ≠ row.deliveryState)

/-- A final outcome stays. -/
def Lasting (e : Event R) : Prop :=
  ∀ id row row', e.pre.find? id = some row → row.callState.terminal = true →
    e.post.find? id = some row' → ¬ Contradicts row row'

/-! ### What the code goes by -/

/-- A known error comes only with a call that was not accepted or in which
nothing was said; and a refusal is shown to be one. -/
def Sound (e : Event R) : Prop :=
  match e.call.op with
  | .close _ _ c => (errorState (normalized R (errorText R c.body))).isSome →
    ¬ WasAccepted c.body ∨ Silent R c.body
  | .dialed _ => ∀ status body, e.call.input = .response status body →
    status < 500 ∧ (status < 300 → ∃ v, body.get? "success" = some v)
  | _ => True

variable (R) in
/-- The data of a conversation still carry what was recorded of the message. -/
def Carries (row : CallRow) (message : String) (body : Data) : Prop :=
  match row.deliveryState with
  | .unknown => True
  | .notDelivered => row.callState = .noAnswer ∨ row.callState = .busy ∨ row.callState = .failed ∨
    (minCoreWords ≤ (core R message).length ∧ Silent R body)
  | .deliveredByAgent => (row.callState ≠ .noAnswer ∧ row.callState ≠ .busy ∧
    row.callState ≠ .failed) ∧ ¬ Silent R body ∧ Covered R message body
  | .recipientAcknowledged => False

variable (R) in
/-- The data translate to the recorded connection. -/
def Matches (row : CallRow) (body : Data) : Prop :=
  ∃ accepted : Bool, (accepted = true ↔ WasAccepted body) ∧
    callStateFromProvider R (statusText R body) accepted (errorText R body) = row.callState

/-- What is about to be written agrees with a row that has a final outcome. -/
def Backs (row : CallRow) (e : Event R) : Prop :=
  match e.call.op with
  | .dialed _ => match startCall R e.call.input with
    | .refused => row.callState = .failed ∧
      (row.deliveryState = .unknown ∨ row.deliveryState = .notDelivered)
    | .ambiguous => False
    | .started _ => True
  | .conflict _ => False
  | .close _ message c => Matches R row c.body ∧ Carries R row message c.body
  | .exhaust _ last => row.deliveryState = .unknown ∧ ∃ c ∈ last, Matches R row c.body
  | _ => True

/-- The execution whose outcome a step writes. -/
def written (op : Op R) : Option String :=
  match op with
  | .dialed id => some id
  | .conflict id => some id
  | .close id _ _ => some id
  | .exhaust id _ => some id
  | _ => none

/-- Nothing is written over a final outcome that does not agree with it. -/
def Steady (e : Event R) : Prop :=
  ∀ id, written e.call.op = some id → ∀ row, e.pre.find? id = some row →
    row.callState.terminal = true → Backs row e

/-! ### Reading a conversation -/

theorem section_read {body s : Data} {key : String} (h : section? body key = some s) :
    sectionOf body key = s := by
  unfold section? at h
  unfold sectionOf
  split at h <;> rename_i heq <;> first
    | cases h
      simp [heq]
    | cases h

theorem time_read {v : Option Data} {accepted : Bool} (h : timeOf R v = some accepted) :
    accepted = true ↔ IsThere v := by
  cases v with
  | none =>
    cases h
    simp [IsThere]
  | some d =>
    cases d with
    | list xs => cases h
    | dict kvs => cases h
    | scalar v =>
      cases v with
      | none =>
        cases h
        simp [IsThere]
      | str s =>
        by_cases hs : s = "" <;> by_cases hfloat : R.float (.str s) = true <;>
          simp_all [timeOf, IsThere]
      | bool b => by_cases hfloat : R.float (.bool b) = true <;> simp_all [timeOf, IsThere]
      | int n => by_cases hfloat : R.float (.int n) = true <;> simp_all [timeOf, IsThere]
      | float f => by_cases hfloat : R.float (.float f) = true <;> simp_all [timeOf, IsThere]

theorem turns_read {v : Option Data} {turns : List Data} (h : turnsOf v = some turns) :
    turns.filterMap (agentTurn R) = saidIn R v := by
  have hstring : ∀ s, agentTurn R (Data.string s) = none := fun _ => rfl
  cases v with
  | none =>
    cases h
    rfl
  | some d =>
    cases d with
    | list xs =>
      cases xs with
      | nil =>
        cases h
        rfl
      | cons x xs =>
        cases h
        rfl
    | dict kvs =>
      cases kvs with
      | nil =>
        cases h
        rfl
      | cons kv kvs =>
        cases h
        simp [saidIn, hstring]
    | scalar v =>
      by_cases hv : (Data.scalar v).truthy = true
      · cases v with
        | str s =>
          simp only [turnsOf, Option.filter_some, hv, if_true, Option.some.injEq] at h
          subst h
          simp [saidIn, hstring]
        | _ => simp [turnsOf, Option.filter_some, hv] at h
      · simp only [turnsOf, Option.filter_some, hv, Bool.false_eq_true, if_false,
          Option.some.injEq] at h
        subst h
        rfl

/-- What a conversation is translated to. -/
theorem outcome_read (c : Conversation R) : (c.outcome.accepted = true ↔ WasAccepted c.body) ∧
    c.outcome.callState = callStateFromProvider R (statusText R c.body) c.outcome.accepted
      (errorText R c.body) ∧
    c.outcome.finished = terminalStatus (statusText R c.body) ∧
    c.outcome.transcript.filterMap (agentTurn R) = agentTurns R c.body := by
  have hread := c.read
  simp only [outcomeFromConversation, Option.bind_eq_bind, Option.bind_eq_some_iff] at hread
  obtain ⟨metadata, hmeta, -, -, accepted, haccepted, error, herror, -, -, transcript, hturns,
    hfinal⟩ := hread
  split at hfinal
  · have hm := section_read hmeta
    have he := section_read herror
    subst hm
    rw [← Option.some.inj hfinal]
    exact ⟨time_read haccepted, by simp [statusText, errorText, he], rfl, turns_read hturns⟩
  · cases hfinal

theorem ended_read (c : Ended R) : HasEnded R c.body := by
  obtain ⟨-, -, hfinished, -⟩ := outcome_read c.toConversation
  rw [c.finished] at hfinished
  simpa [HasEnded, terminalStatus] using hfinished.symm

/-- The evidence of a transcript, in the words of the data. -/
theorem evidence_read (c : Conversation R) (message : String) :
    (messageEvidence R c.outcome.transcript message = some false ↔
      minCoreWords ≤ (core R message).length ∧ Silent R c.body) ∧
    (messageEvidence R c.outcome.transcript message = some true ↔
      ¬ Silent R c.body ∧ Covered R message c.body) := by
  obtain ⟨-, -, -, hturns⟩ := outcome_read c
  simp only [messageEvidence, hturns]
  by_cases hcore : (core R message).length < minCoreWords
  · simp [hcore, Covered, Nat.not_le.mpr hcore]
  · have hle := Nat.not_lt.mp hcore
    by_cases hnone : agentTurns R c.body = []
    · simp [hcore, hnone, Silent, Covered]
    · by_cases hsilent : (agentTurns R c.body).all List.isEmpty = true
      · have hs : Silent R c.body := ⟨hnone, by simpa using hsilent⟩
        simp [hcore, hnone, hsilent, hs, hle]
      · have hs : ¬ Silent R c.body := fun h => hsilent (by simpa using h.2)
        by_cases hcovers : (agentTurns R c.body).any (covers (core R message)) = true
        · have hc : Covered R message c.body := ⟨hle, by simpa [covers] using hcovers⟩
          simp [hcore, hnone, hsilent, hcovers, hs, hc]
        · have hc : ¬ Covered R message c.body := fun h => hcovers (by simpa [covers] using h.2)
          simp [hcore, hnone, hsilent, hcovers, hs, hc]

/-! ### What the two states are made of -/

def Unreached (state : CallState) : Prop :=
  state = .noAnswer ∨ state = .busy ∨ state = .failed

theorem error_unreached {text : String} {state : CallState} (h : errorState text = some state) :
    state = .busy ∨ state = .noAnswer := by
  unfold errorState at h
  split at h <;> cases h <;> simp

/-- Without a known error the acceptance decides. -/
theorem state_accepted {status text : String} {accepted : Bool}
    (hnone : errorState (normalized R text) = none) :
    (Unreached (callStateFromProvider R status accepted text) → accepted = false) ∧
    ((callStateFromProvider R status accepted text).terminal = true →
      ¬ Unreached (callStateFromProvider R status accepted text) → accepted = true) := by
  simp only [callStateFromProvider, hnone]
  split <;> cases accepted <;> simp [Unreached, CallState.terminal]

theorem delivery_cases (state : CallState) (evidence : Option Bool) :
    (deliveryStateFromEvidence state evidence none = .notDelivered ↔
      Unreached state ∨ (state.terminal = true ∧ evidence = some false)) ∧
    (deliveryStateFromEvidence state evidence none = .deliveredByAgent ↔
      (state.terminal = true ∧ ¬ Unreached state) ∧ evidence = some true) ∧
    deliveryStateFromEvidence state evidence none ≠ .recipientAcknowledged := by
  cases state <;> rcases evidence with _ | _ | _ <;>
    simp [deliveryStateFromEvidence, CallState.terminal, Unreached]

/-! ### A report and its evidence -/

theorem close_truthful {l : Ledger} {t : Nat} {id message : String} {c : Ended R}
    {answer : UpstreamAnswer} :
    Truthful (⟨l, ⟨t, .close id message c, answer⟩⟩ : Event R) ↔
      Sound (⟨l, ⟨t, .close id message c, answer⟩⟩ : Event R) := by
  obtain ⟨haccepted, hstate, -, -⟩ := outcome_read c.toConversation
  obtain ⟨hsilent, hcovered⟩ := evidence_read c.toConversation message
  obtain ⟨hnot, hby, hack⟩ := delivery_cases c.outcome.callState
    (messageEvidence R c.outcome.transcript message)
  have hclosing : (closing R message c).deliveryState = deliveryStateFromEvidence
    c.outcome.callState (messageEvidence R c.outcome.transcript message) none := rfl
  have hreported : reported R (⟨l, ⟨t, .close id message c, answer⟩⟩ : Event R) =
    some (id, closing R message c) := rfl
  constructor
  · intro h herror
    obtain ⟨state, hknown⟩ := Option.isSome_iff_exists.mp herror
    have hunreached : Unreached c.outcome.callState := by
      rw [hstate, callStateFromProvider, hknown]
      rcases error_unreached hknown with rfl | rfl
      · exact .inr (.inl rfl)
      · exact .inl rfl
    rcases (h id _ hreported).1 (hclosing.trans (hnot.mpr (.inl hunreached))) with hnever | hnothing
    · exact .inl hnever
    · exact .inr hnothing.2
  · intro hsound id' r hr
    cases hreported.symm.trans hr
    rw [hclosing]
    refine ⟨fun hdelivery => ?_, fun hdelivery => ?_, hack⟩
    · rcases hnot.mp hdelivery with hunreached | ⟨-, hfalse⟩
      · cases hknown : errorState (normalized R (errorText R c.body)) with
        | some state =>
          rcases hsound (by rw [hknown]; rfl) with hnever | hsaid
          · exact .inl hnever
          · exact .inr ⟨ended_read c, hsaid⟩
        | none =>
          left
          intro hwas
          rw [hstate] at hunreached
          have hno := (state_accepted hknown).1 hunreached
          rw [haccepted.mpr hwas] at hno
          cases hno
      · exact .inr ⟨ended_read c, (hsilent.mp hfalse).2⟩
    · obtain ⟨⟨hterminal, hreached⟩, htrue⟩ := hby.mp hdelivery
      refine ⟨?_, ended_read c, (hcovered.mp htrue).2⟩
      cases hknown : errorState (normalized R (errorText R c.body)) with
      | some state =>
        refine absurd ?_ hreached
        rw [hstate, callStateFromProvider, hknown]
        rcases error_unreached hknown with rfl | rfl
        · exact .inr (.inl rfl)
        · exact .inl rfl
      | none =>
        rw [hstate] at hterminal hreached
        exact haccepted.mp ((state_accepted hknown).2 hterminal hreached)

/-- A start is refused where the path is, or the answer is an error or no success. -/
theorem start_refused {answer : UpstreamAnswer} : startCall R answer = .refused ↔
    answer = .pathRefused ∨ ∃ status body, answer = .response status body ∧
      ¬ (300 ≤ status ∧ status < 400) ∧
      (400 ≤ status ∨ ((payloadOf body).get? "success").map Data.truthy ≠ some true) := by
  unfold startCall
  cases answer with
  | pathRefused => simp [UpstreamAnswer.redirect]
  | unreachable => simp [UpstreamAnswer.redirect]
  | response status body =>
    by_cases hredirect : 300 ≤ status ∧ status < 400
    · simp [UpstreamAnswer.redirect, hredirect]
    · have hno : UpstreamAnswer.redirect (.response status body) = false := by
        simpa [UpstreamAnswer.redirect] using hredirect
      have hgood : ∀ o : Option Bool, (!o.getD false) = true ↔ o ≠ some true := by
        rintro (_ | _ | _) <;> simp
      rw [hno]
      simp only [Bool.false_eq_true, if_false, reduceCtorEq, UpstreamAnswer.response.injEq,
        false_or]
      constructor
      · intro h
        split at h
        · rename_i hrefused
          rw [Bool.or_eq_true, decide_eq_true_eq, hgood] at hrefused
          exact ⟨status, body, ⟨rfl, rfl⟩, hredirect, hrefused⟩
        · split at h <;> cases h
      · rintro ⟨status', body', ⟨rfl, rfl⟩, -, hrefused⟩
        rw [if_pos]
        rw [Bool.or_eq_true, decide_eq_true_eq, hgood]
        exact hrefused

theorem payload_success {body : Data} {key : String} : (payloadOf body).get? key = body.get? key := by
  cases body <;> rfl

theorem dialed_truthful {l : Ledger} {t : Nat} {id : String} {answer : UpstreamAnswer} :
    Truthful (⟨l, ⟨t, .dialed id, answer⟩⟩ : Event R) ↔
      Sound (⟨l, ⟨t, .dialed id, answer⟩⟩ : Event R) := by
  constructor
  · rintro h status body (rfl : answer = .response status body)
    by_cases hredirect : 300 ≤ status ∧ status < 400
    · exact ⟨by omega, by omega⟩
    · have hshown : (400 ≤ status ∨ (body.get? "success").map Data.truthy ≠ some true) →
          RefusalShown (.response status body) := by
        intro hrefused
        have hstart : startCall R (.response status body) = .refused :=
          Iff.mpr start_refused (.inr ⟨status, body, rfl, hredirect, by rwa [payload_success]⟩)
        have hreported : reported R (⟨l, ⟨t, .dialed id, .response status body⟩⟩ : Event R) =
            some (id, ⟨.failed, .notDelivered⟩) := by simp [reported, hstart]
        exact ((h id _ hreported).1 rfl).resolve_right (fun h => h)
      refine ⟨?_, fun hlow => ?_⟩
      · by_contra hhigh
        rcases hshown (.inl (by omega)) with ⟨-, hlow⟩ | ⟨hlow, -⟩ <;> omega
      · by_cases htrue : (body.get? "success").map Data.truthy = some true
        · obtain ⟨v, hv, -⟩ := Option.map_eq_some_iff.mp htrue
          exact ⟨v, hv⟩
        · rcases hshown (.inr htrue) with ⟨hhigh, -⟩ | ⟨-, v, hv, -⟩
          · omega
          · exact ⟨v, hv⟩
  · intro hsound id' r hr
    simp only [reported] at hr
    split at hr
    · rename_i hstart
      cases hr
      refine ⟨fun _ => .inl ?_, fun h => (by cases h), fun h => (by cases h)⟩
      rcases Iff.mp start_refused hstart with rfl | ⟨status, body, rfl, hredirect, hrefused⟩
      · trivial
      · obtain ⟨hhigh, hshown⟩ := hsound status body rfl
        by_cases hlow : 400 ≤ status
        · exact .inl ⟨hlow, hhigh⟩
        · obtain ⟨v, hv⟩ := hshown (by omega)
          refine .inr ⟨by omega, v, hv, ?_⟩
          rw [payload_success, hv] at hrefused
          simpa [hlow] using hrefused
    · cases hr
      exact ⟨fun h => (by cases h), fun h => (by cases h), fun h => (by cases h)⟩
    · cases hr

/-- A step reports no more than the evidence shows, if and only if it is sound. -/
theorem truthful_sound (e : Event R) : Truthful e ↔ Sound e := by
  obtain ⟨l, t, op, answer⟩ := e
  have hquiet : ∀ op : Op R, (∀ id r, reported R ⟨l, ⟨t, op, answer⟩⟩ = some (id, r) →
      r.deliveryState = .unknown) → Truthful (⟨l, ⟨t, op, answer⟩⟩ : Event R) := by
    intro op h id r hr
    rw [h id r hr]
    exact ⟨fun h => (by cases h), fun h => (by cases h), fun h => (by cases h)⟩
  cases op with
  | close id message c => exact close_truthful
  | dialed id => exact dialed_truthful
  | conflict id =>
    refine ⟨fun _ => trivial, fun _ => hquiet _ (fun id r hr => ?_)⟩
    cases hr
    rfl
  | exhaust id last =>
    refine ⟨fun _ => trivial, fun _ => hquiet _ (fun id r hr => ?_)⟩
    cases hr
    rfl
  | _ => exact ⟨fun _ => trivial, fun _ => hquiet _ (fun id r hr => by cases hr)⟩

/-! ### What is written over a final outcome -/

/-- What is reported is what is written. -/
theorem reported_written {e : Event R} {id : String} {r : Report}
    (h : reported R e = some (id, r)) : e.post = e.pre.recordOutcome id r := by
  obtain ⟨l, t, op, answer⟩ := e
  cases op with
  | dialed k =>
    simp only [reported] at h
    split at h
    · rename_i hstart
      cases h
      simp [Machine.Entry.post, settle, hstart]
    · rename_i hstart
      cases h
      simp [Machine.Entry.post, settle, hstart]
    · cases h
  | conflict k =>
    cases h
    rfl
  | close k message c =>
    cases h
    rfl
  | exhaust k last =>
    cases h
    rfl
  | _ => cases h

/-- Any other step leaves the outcomes. -/
theorem unreported_left {e : Event R} (h : reported R e = none) {id : String} {row row' : CallRow}
    (hpre : e.pre.find? id = some row) (hpost : e.post.find? id = some row') :
    row'.callState = row.callState ∧ row'.deliveryState = row.deliveryState := by
  obtain ⟨l, t, op, answer⟩ := e
  change l.find? id = some row at hpre
  cases op with
  | prepare k order =>
    change (l.prepare k order).find? id = some row' at hpost
    rw [Ledger.find_prepare, if_neg, hpre] at hpost
    · cases hpost
      exact ⟨rfl, rfl⟩
    · rintro ⟨rfl, hnone⟩
      cases hpre.symm.trans hnone
  | dialed k =>
    simp only [reported] at h
    split at h
    · cases h
    · cases h
    · rename_i thread hstart
      have hsettle : (settle R k answer l).2 = (l.attachConversation k thread).2 := by
        simp only [settle, hstart]
        rcases l.attachConversation k thread with ⟨_ | _, l'⟩ <;> rfl
      change (settle R k answer l).2.find? id = some row' at hpost
      rw [hsettle] at hpost
      rcases l.attach_cases k thread with ⟨-, heq⟩ | ⟨-, _, -, -, heq⟩ | ⟨-, row₀, hrow₀, -, hfind⟩
      · rw [heq, hpre] at hpost
        cases hpost
        exact ⟨rfl, rfl⟩
      · rw [heq, hpre] at hpost
        cases hpost
        exact ⟨rfl, rfl⟩
      · rw [hfind] at hpost
        split at hpost
        · rename_i hk
          subst hk
          cases hpre.symm.trans hrow₀
          cases hpost
          exact ⟨rfl, rfl⟩
        · cases hpre.symm.trans hpost
          exact ⟨rfl, rfl⟩
  | conflict k => cases h
  | close k message c => cases h
  | exhaust k last => cases h
  | _ =>
    cases hpre.symm.trans hpost
    exact ⟨rfl, rfl⟩

theorem matches_state {row : CallRow} {c : Conversation R} :
    Matches R row c.body ↔ c.outcome.callState = row.callState := by
  obtain ⟨haccepted, hstate, -, -⟩ := outcome_read c
  rw [hstate]
  constructor
  · rintro ⟨accepted, haccepted', hmatch⟩
    have : accepted = c.outcome.accepted := by
      rw [Bool.eq_iff_iff, haccepted', haccepted]
    rw [← hmatch, this]
  · intro h
    exact ⟨c.outcome.accepted, haccepted, h⟩

theorem carries_delivery {row : CallRow} {message : String} {c : Conversation R}
    (hstate : c.outcome.callState = row.callState) (hterminal : row.callState.terminal = true) :
    Carries R row message c.body ↔ row.deliveryState = .unknown ∨
      deliveryStateFromEvidence c.outcome.callState
        (messageEvidence R c.outcome.transcript message) none = row.deliveryState := by
  obtain ⟨hsilent, hcovered⟩ := evidence_read c message
  obtain ⟨hnot, hby, hack⟩ := delivery_cases row.callState
    (messageEvidence R c.outcome.transcript message)
  rw [hstate]
  unfold Carries
  cases hdelivery : row.deliveryState with
  | unknown => simp
  | notDelivered => simp [hnot, hsilent, hterminal, Unreached, or_assoc]
  | deliveredByAgent =>
    simp [hby, hcovered, hterminal, Unreached]
  | recipientAcknowledged => simp [hack]

/-- What is written agrees with the row iff it is backed. -/
theorem backs_report {e : Event R} {id : String} {r : Report} {row : CallRow}
    (h : reported R e = some (id, r)) (hterminal : row.callState.terminal = true) :
    Backs row e ↔ r.callState = row.callState ∧
      (row.deliveryState = .unknown ∨ r.deliveryState = row.deliveryState) := by
  have hknown : CallState.unknown ≠ row.callState := by
    rintro heq
    rw [← heq] at hterminal
    cases hterminal
  obtain ⟨l, t, op, answer⟩ := e
  cases op with
  | dialed k =>
    simp only [reported] at h
    split at h
    · rename_i hstart
      cases h
      simp [Backs, hstart, eq_comm]
    · rename_i hstart
      cases h
      simp [Backs, hstart, hknown]
    · cases h
  | conflict k =>
    cases h
    simp [Backs, hknown]
  | close k message c =>
    cases h
    simp only [Backs, matches_state]
    constructor
    · rintro ⟨hstate, hcarries⟩
      exact ⟨hstate, (carries_delivery hstate hterminal).mp hcarries⟩
    · rintro ⟨hstate, hdelivery⟩
      exact ⟨hstate, (carries_delivery hstate hterminal).mpr hdelivery⟩
  | exhaust k last =>
    cases h
    cases last with
    | none => simp [Backs, exhausting, hknown]
    | some c =>
      simp only [Backs, exhausting, Option.mem_def, Option.some.injEq, exists_eq_left', matches_state]
      by_cases hc : c.outcome.callState.terminal = true
      · simp only [hc, if_true]
        rw [and_comm, eq_comm (a := DeliveryState.unknown), or_self]
      · have hne : c.outcome.callState ≠ row.callState := fun heq => hc (heq ▸ hterminal)
        simp [hc, hne, hknown]
  | _ => cases h

theorem written_reported {e : Event R} {id : String} {r : Report}
    (h : reported R e = some (id, r)) : written e.call.op = some id := by
  obtain ⟨l, t, op, answer⟩ := e
  cases op with
  | dialed k =>
    simp only [reported] at h
    split at h <;> cases h
    · rfl
    · rfl
  | conflict k => cases h; rfl
  | close k message c => cases h; rfl
  | exhaust k last => cases h; rfl
  | _ => cases h

theorem unreported_backs {e : Event R} {id : String} (h : reported R e = none)
    (hwritten : written e.call.op = some id) (row : CallRow) : Backs row e := by
  obtain ⟨l, t, op, answer⟩ := e
  cases op with
  | dialed k =>
    simp only [reported] at h
    split at h
    · cases h
    · cases h
    · rename_i hstart
      simp [Backs, hstart]
  | conflict k => cases h
  | close k message c => cases h
  | exhaust k last => cases h
  | _ => cases hwritten

/-- A final outcome stays at a step, if and only if the step is steady. -/
theorem lasting_steady (e : Event R) : Lasting e ↔ Steady e := by
  cases hr : reported R e with
  | none =>
    constructor
    · intro _ id hwritten row _ _
      exact unreported_backs hr hwritten row
    · rintro - id row row' hpre _ hpost (hstate | ⟨-, hdelivery⟩)
      · exact hstate (unreported_left hr hpre hpost).1
      · exact hdelivery (unreported_left hr hpre hpost).2
  | some p =>
    obtain ⟨id, r⟩ := p
    have hpost := reported_written hr
    constructor
    · intro hlasting id' hwritten row hpre hterminal
      cases (written_reported hr).symm.trans hwritten
      have hagree := hlasting id row _ hpre hterminal (by rw [hpost, Ledger.find_record, if_pos rfl,
        hpre, Option.map_some])
      simp only [Contradicts, ne_eq, not_or, not_not, not_and] at hagree
      refine (backs_report hr hterminal).mpr ⟨hagree.1, ?_⟩
      by_cases hunknown : row.deliveryState = .unknown
      · exact .inl hunknown
      · exact .inr (hagree.2 hunknown)
    · intro hsteady id' row row' hpre hterminal hpost'
      rw [hpost, Ledger.find_record] at hpost'
      split at hpost'
      · rename_i hid
        subst hid
        rw [hpre, Option.map_some] at hpost'
        cases hpost'
        obtain ⟨hstate, hdelivery⟩ := (backs_report hr hterminal).mp
          (hsteady id' (written_reported hr) row hpre hterminal)
        rintro (hother | ⟨hknown, hother⟩)
        · exact hother hstate
        · exact hother (hdelivery.resolve_left hknown)
      · cases hpre.symm.trans hpost'
        rintro (hother | ⟨-, hother⟩) <;> exact hother rfl

/-! ### Runs -/

/-- What dials or hears of a dial. -/
def Dials : Op R → Prop
  | .approach _ => True
  | .dialed _ => True
  | _ => False

theorem recover_each_reads (rows : List CallRow) :
    (recoverEach (R := R) rows).Asks (fun op => ¬ Dials op) := by
  induction rows with
  | nil => trivial
  | cons row rows ih =>
    refine ⟨fun h => h, fun r => ?_⟩
    cases r with
    | unavailable => exact ih
    | raised => trivial
    | conversation c =>
      dsimp only
      split
      · exact ⟨fun h => h, fun _ => ih⟩
      · exact ih

/-- In every run of calls and recoveries the reports keep to the evidence and
final outcomes stay, if and only if every step is sound and steady; and a
recovery never dials. -/
theorem delivery_truth {W : World R} (_h : Shared.World.Reach Launched W) :
    ((∀ e ∈ W.log, Truthful e ∧ Lasting e) ↔ ∀ e ∈ W.log, Sound e ∧ Steady e) ∧
      (recoverOpenCalls (R := R)).Asks (fun op => ¬ Dials op) := by
  refine ⟨?_, fun h => h, recover_each_reads⟩
  simp only [truthful_sound, lasting_steady]

/-! ### Samples -/

open OneCall (sample sampleOrder sampleCall sampleStart sample_reached)

def answered (kvs : List (String × Data)) : UpstreamAnswer := .response 200 (.dict kvs)

/-- The provider takes the order and names the conversation. -/
def taken : UpstreamAnswer :=
  answered [("success", .scalar (.bool true)), ("conversation_id", .string "conv-1")]

/-- Someone answers, and the agent says the message. -/
def said : UpstreamAnswer := answered [("status", .string "done"),
  ("metadata", .dict [("accepted_time_unix_secs", .scalar (.int 1700000000))]),
  ("transcript", .list [.dict [("role", .string "agent"),
    ("message", .string "Das Treffen beginnt morgen um zehn Uhr")]])]

/-- Nobody answers. -/
def missed : UpstreamAnswer := answered [("status", .string "done")]

/-- The line is said to be busy in a call that was accepted. -/
def busyLine : UpstreamAnswer := answered [("status", .string "done"),
  ("metadata", .dict [("accepted_time_unix_secs", .scalar (.int 1700000000)),
    ("termination_reason", .string "line_busy")])]

/-- One call that gets these answers. -/
def single (answers : List UpstreamAnswer) : World sample :=
  sampleStart.moves (answers.map (.act 0))

theorem single_reached (answers : List UpstreamAnswer) :
    Shared.World.Reach Launched (single answers) :=
  Shared.World.Reach.moves sample_reached.reach (fun p hp => by simp at hp)

theorem delivery_truth_sample :
    (∀ e ∈ (single [.unreachable, .unreachable, taken, said, said]).log, Sound e ∧ Steady e) ↔
      ∀ e ∈ (single [.unreachable, .unreachable, taken, said, said]).log, Truthful e ∧ Lasting e :=
  (delivery_truth (single_reached _)).1.symm

/-- The outcome of a call is read a second time. -/
def reread : World sample :=
  .play (shared sample) [sampleCall, sampleCall]
    ([.unreachable, .unreachable, taken, said, said].map (fun a => (0, a)) ++
      [.unreachable, .unreachable, missed, missed].map (fun a => (1, a)))

theorem reread_reached : Shared.World.Reach Launched reread := by
  refine Shared.World.Reach.play (fun p hp => ?_) _
  simp only [List.mem_cons, List.not_mem_nil, or_false, or_self] at hp
  exact hp ▸ .call "x-1" sampleOrder 3

/-- A call that was accepted is reported as not delivered, a start that an
unavailable provider answers is reported as refused, and a delivered message is
replaced by a missed call. -/
theorem truth_exceeded :
    (∃ W : World sample, Shared.World.Reach Launched W ∧ ∃ id message c, ∃ e ∈ W.log,
      e.call.op = .close id message c ∧ ¬ Truthful e) ∧
    (∃ W : World sample, Shared.World.Reach Launched W ∧ ∃ id, ∃ e ∈ W.log,
      e.call.op = .dialed id ∧ ¬ Truthful e) ∧
    ∃ W : World sample, Shared.World.Reach Launched W ∧ ∃ e ∈ W.log, ¬ Lasting e := by
  refine ⟨⟨single [.unreachable, .unreachable, taken, busyLine, busyLine], single_reached _,
      _, _, _, _, List.mem_cons_self .., rfl, fun h => ?_⟩,
    ⟨single [.unreachable, .unreachable, .response 503 (.scalar .none)], single_reached _,
      _, _, List.mem_cons_self .., rfl, fun h => ?_⟩,
    ⟨reread, reread_reached, _, List.mem_cons_self .., fun h => ?_⟩⟩
  · rcases (truthful_sound _).mp h (by decide) with hnever | hsilent
    · exact hnever trivial
    · exact hsilent.1 rfl
  · have hlow := ((truthful_sound _).mp h 503 _ rfl).1
    omega
  · exact h "x-1" _ _ rfl rfl rfl (.inl (by decide))

end Solvio.Telephony.Truth
