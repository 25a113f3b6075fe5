import Regenic.Reply.Contracts

/-!
The `outbound_attempts` table. A claim takes a free id or one whose last attempt the channel
rejected; a put overwrites the row but keeps the recovery hash and the receipt it does not
bring.
-/

namespace Regenic.Reply

open Lib

abbrev OutboundAttempts := Table OutboundAttempt.key

namespace OutboundAttempts

/-- A row read back: empty text columns are dropped. -/
def toRecord (row : OutboundAttempt) : OutboundAttempt :=
  { row with eventId := present row.eventId, recoveryHash := present row.recoveryHash }

def getOutboundAttempt (attempts : OutboundAttempts) (orgId clientRequestId : String) :
    Option OutboundAttempt :=
  (attempts.get? (orgId, clientRequestId)).map toRecord

/-- The `WHERE` of the claim's upsert. -/
def Reclaimable (row : OutboundAttempt) (threadId : String) : Prop :=
  row.status = .rejected ∧ row.threadId = threadId ∧ row.eventId = none ∧
    row.receipt = none ∧ row.channelMessageIds = none

instance (row : OutboundAttempt) (threadId : String) : Decidable (Reclaimable row threadId) :=
  inferInstanceAs (Decidable (_ ∧ _))

def newAttempt (input : NewOutboundAttempt) : OutboundAttempt :=
  { orgId := input.orgId
    clientRequestId := input.clientRequestId
    threadId := input.threadId
    status := .pending
    recoveryHash := input.recoveryHash
    createdAt := input.now
    updatedAt := input.now }

def reclaimed (row : OutboundAttempt) (input : NewOutboundAttempt) : OutboundAttempt :=
  { row with status := .pending, recoveryHash := input.recoveryHash, updatedAt := input.now }

def claimOutboundAttempt (attempts : OutboundAttempts) (input : NewOutboundAttempt) :
    Bool × OutboundAttempts :=
  match attempts.get? (input.orgId, input.clientRequestId) with
  | none => (true, attempts.put (newAttempt input))
  | some row =>
    if Reclaimable row input.threadId then (true, attempts.put (reclaimed row input))
    else (false, attempts)

/-- The row of a put over the row before it; `createdAt` is what the put read first. -/
def putRow (previous : Option OutboundAttempt) (input : OutboundAttemptPut)
    (createdAt : String) : OutboundAttempt :=
  { orgId := input.orgId
    clientRequestId := input.clientRequestId
    threadId := input.threadId
    eventId := input.eventId
    status := input.status
    channelMessageIds := input.channelMessageIds
    recoveryHash := input.recoveryHash <|> previous.bind (·.recoveryHash)
    receipt := input.receipt <|> previous.bind (·.receipt)
    createdAt := (previous.map (·.createdAt)).getD createdAt
    updatedAt := input.now }

/-- The upsert of `putOutboundAttempt`. -/
def upsertOutboundAttempt (attempts : OutboundAttempts) (input : OutboundAttemptPut)
    (createdAt : String) : OutboundAttempts :=
  attempts.put (putRow (attempts.get? (input.orgId, input.clientRequestId)) input createdAt)

/-! ## What the operations do to a row -/

variable {attempts : OutboundAttempts}

theorem get?_claim_of_ne {input : NewOutboundAttempt} {k : String × String}
    (h : k ≠ (input.orgId, input.clientRequestId)) :
    (claimOutboundAttempt attempts input).2.get? k = attempts.get? k := by
  unfold claimOutboundAttempt
  cases hrow : attempts.get? (input.orgId, input.clientRequestId) with
  | none =>
    simp only [Table.get?_put]
    exact if_neg (Ne.symm h)
  | some row =>
    have hkey : (reclaimed row input).key = (input.orgId, input.clientRequestId) :=
      (Table.get?_eq_some.mp hrow).2
    by_cases hre : Reclaimable row input.threadId
    · simp only [hre, if_true, Table.get?_put, hkey]
      exact if_neg (Ne.symm h)
    · simp only [hre, if_false]

/-- A claim that fails leaves the table alone. -/
theorem claim_eq_false {input : NewOutboundAttempt}
    (h : (claimOutboundAttempt attempts input).1 = false) :
    (claimOutboundAttempt attempts input).2 = attempts := by
  unfold claimOutboundAttempt at h ⊢
  cases hrow : attempts.get? (input.orgId, input.clientRequestId) with
  | none => simp [hrow] at h
  | some row =>
    by_cases hre : Reclaimable row input.threadId
    · simp [hrow, hre] at h
    · simp only [hre, if_false]

/-- A claim that succeeds leaves a pending row without a receipt. -/
theorem get?_claim_of_true {input : NewOutboundAttempt}
    (h : (claimOutboundAttempt attempts input).1 = true) :
    ∃ row, (claimOutboundAttempt attempts input).2.get? (input.orgId, input.clientRequestId) =
      some row ∧ row.status = .pending ∧ row.receipt = none := by
  unfold claimOutboundAttempt at h ⊢
  cases hrow : attempts.get? (input.orgId, input.clientRequestId) with
  | none =>
    refine ⟨newAttempt input, ?_, rfl, rfl⟩
    simp only [Table.get?_put]
    exact if_pos rfl
  | some row =>
    have hkey : (reclaimed row input).key = (input.orgId, input.clientRequestId) :=
      (Table.get?_eq_some.mp hrow).2
    by_cases hre : Reclaimable row input.threadId
    · refine ⟨reclaimed row input, ?_, rfl, hre.2.2.2.1⟩
      simp only [hre, if_true, Table.get?_put, hkey]
    · simp [hrow, hre] at h

/-- Only a free id or a rejected attempt without a receipt can be claimed. -/
theorem claim_eq_true {input : NewOutboundAttempt}
    (h : (claimOutboundAttempt attempts input).1 = true) {row : OutboundAttempt}
    (hrow : attempts.get? (input.orgId, input.clientRequestId) = some row) :
    row.status = .rejected ∧ row.receipt = none := by
  unfold claimOutboundAttempt at h
  simp only [hrow] at h
  by_cases hre : Reclaimable row input.threadId
  · exact ⟨hre.1, hre.2.2.2.1⟩
  · simp [hre] at h

theorem get?_upsert_of_ne {input : OutboundAttemptPut} {createdAt : String}
    {k : String × String} (h : k ≠ (input.orgId, input.clientRequestId)) :
    (upsertOutboundAttempt attempts input createdAt).get? k = attempts.get? k := by
  unfold upsertOutboundAttempt
  rw [Table.get?_put]
  exact if_neg (Ne.symm h)

/-- A put keeps a receipt that it does not bring itself. -/
theorem get?_upsert (attempts : OutboundAttempts) (input : OutboundAttemptPut)
    (createdAt : String) :
    ∃ row, (upsertOutboundAttempt attempts input createdAt).get?
        (input.orgId, input.clientRequestId) = some row ∧ row.status = input.status ∧
      row.receipt = (input.receipt <|>
        (attempts.get? (input.orgId, input.clientRequestId)).bind (·.receipt)) := by
  refine ⟨putRow (attempts.get? (input.orgId, input.clientRequestId)) input createdAt,
    ?_, rfl, rfl⟩
  unfold upsertOutboundAttempt
  rw [Table.get?_put]
  exact if_pos rfl

end OutboundAttempts

end Regenic.Reply
