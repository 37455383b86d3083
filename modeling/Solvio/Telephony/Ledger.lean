import Solvio.Lib.Table
import Solvio.Telephony.Provider

namespace Solvio.Telephony
open Solvio.Lib

/-- What a call is bound to. -/
structure Order where
  recipientAlias : String
  recipientDisplay : String
  recipientHandle : String
  message : String
  objective : String := ""
  maxDurationSecs : Nat := 180
deriving DecidableEq

/-- A row of `calls`. -/
structure CallRow where
  executionId : String
  order : Order
  conversationId : String := ""
  callState : CallState := .prepared
  deliveryState : DeliveryState := .notDelivered
deriving DecidableEq

instance : Keyed CallRow String := ⟨CallRow.executionId⟩

abbrev Ledger : Type := Table CallRow

/-- The connection and the message, as they are written down and told. -/
structure Report where
  callState : CallState
  deliveryState : DeliveryState
deriving DecidableEq

namespace Ledger

/-- `prepare`: a second attempt leaves the row as it is. -/
def prepare (l : Ledger) (executionId : String) (order : Order) : Ledger :=
  (l.insert? { executionId := executionId, order := order }).getD l

/-- `attach_conversation`. A conversation belongs to one row at most. -/
def attachConversation (l : Ledger) (executionId : String) (thread : Thread) : Bool × Ledger :=
  match l.find? executionId with
  | none => (false, l)
  | some row =>
    if row.conversationId = "" then
      if l.rows.any (fun r => r.conversationId = thread.id) then (false, l)
      else (true, l.modify executionId (fun r => { r with conversationId := thread.id })
        (fun _ => rfl))
    else (row.conversationId = thread.id, l)

/-- `record_outcome`. -/
def recordOutcome (l : Ledger) (executionId : String) (r : Report) : Ledger :=
  l.modify executionId
    (fun row => { row with callState := r.callState, deliveryState := r.deliveryState })
    (fun _ => rfl)

/-- `unfinished`, of the terminal states. -/
def unfinished (l : Ledger) : List CallRow :=
  l.rows.filter (fun row => row.conversationId ≠ "" && !row.callState.terminal)

theorem find_prepare (l : Ledger) (k id : String) (order : Order) :
    (l.prepare k order).find? id = if id = k ∧ l.find? k = none then
      some { executionId := k, order := order } else l.find? id := by
  unfold prepare
  cases h : l.insert? { executionId := k, order := order } with
  | none =>
    obtain ⟨row, hrow⟩ := Table.insert_none.mp h
    change l.find? k = some row at hrow
    simp [hrow]
  | some l' =>
    have hfree : l.find? k = none := (Table.insert_some h).1
    rw [Option.getD_some, Table.find_insert h]
    change (if k = id then _ else _) = _
    by_cases hk : id = k
    · subst hk
      rw [if_pos rfl, if_pos ⟨rfl, hfree⟩]
    · rw [if_neg (Ne.symm hk), if_neg (fun hc => hk hc.1)]

@[simp] theorem find_record (l : Ledger) (k id : String) (r : Report) :
    (l.recordOutcome k r).find? id = if id = k then (l.find? k).map (fun row =>
      { row with callState := r.callState, deliveryState := r.deliveryState }) else l.find? id :=
  Table.find_modify ..

/-- A conversation is attached to the row that has none, or it is that row's already. -/
theorem attach_cases (l : Ledger) (k : String) (thread : Thread) :
    ((l.attachConversation k thread).1 = false ∧ (l.attachConversation k thread).2 = l) ∨
    ((l.attachConversation k thread).1 = true ∧
      (∃ row, l.find? k = some row ∧ row.conversationId = thread.id ∧
        (l.attachConversation k thread).2 = l)) ∨
    ((l.attachConversation k thread).1 = true ∧ ∃ row, l.find? k = some row ∧
      row.conversationId = "" ∧ ∀ id, (l.attachConversation k thread).2.find? id =
        if id = k then some { row with conversationId := thread.id } else l.find? id) := by
  unfold attachConversation
  cases hrow : l.find? k with
  | none => exact .inl ⟨rfl, rfl⟩
  | some row =>
    by_cases hnone : row.conversationId = ""
    · by_cases htaken : l.rows.any (fun r => r.conversationId = thread.id) = true
      · exact .inl (by simp [hnone, htaken])
      · refine .inr (.inr ?_)
        simp [hnone, htaken, Table.find_modify, hrow]
    · by_cases hsame : row.conversationId = thread.id
      · exact .inr (.inl (by simp [hsame, thread.named]))
      · exact .inl (by simp [hnone, hsame])

end Ledger

end Solvio.Telephony
