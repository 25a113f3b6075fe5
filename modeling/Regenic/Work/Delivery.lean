import Regenic.Work.Contracts

/-!
The life of a delivery: what enqueueing, claiming, acknowledging, failing and re-opening
change of the row, and when a row is due.
-/

namespace Regenic.Work

open Lib

def deliveryRetryDelays : List Int := [30000, 120000, 480000]

def deliveryMaxAttempts : Nat := 3

def deliveryLease : Int := 60000

/-- The first part with text, trimmed; the summary when there is none. -/
def firstText (content : Option (List ContentPart)) : String :=
  jsTrim (((content.getD []).map (·.text.getD "")).find? (jsTrim · ≠ "") |>.getD "")

def writeBackPayloadText (payload : ResultEnvelope) : String :=
  let fromContent := firstText payload.content
  if fromContent ≠ "" then fromContent else jsTrim payload.summary

/-- The first sixteen hexadecimal digits of a SHA-256 digest. -/
abbrev Digest := String → String

def writeBackIdempotencyKey (digest : Digest) (workItemId : String) (payload : ResultEnvelope) :
    String :=
  "work-back:" ++ workItemId ++ ":" ++ digest (writeBackPayloadText payload)

def deliveryPayloadKey (digest : Digest) (delivery : WorkDelivery) : Option String :=
  match present delivery.idempotencyKey with
  | some key => some key
  | none => delivery.payload.map (writeBackIdempotencyKey digest delivery.workItemId)

/-- The input of `enqueueWriteBack` but for the row that is there. -/
structure WriteBackInput where
  newId : String
  workItemId : String
  recipeId : String
  kind : RecipeTriggerKind
  unitKey : String
  eventId : Option String
  payload : ResultEnvelope
  now : Instant
  deriving DecidableEq, Repr

def freshDelivery (digest : Digest) (input : WriteBackInput) (existing : Option WorkDelivery) :
    WorkDelivery :=
  { id := (existing.map (·.id)).getD input.newId
    workItemId := input.workItemId
    recipeId := input.recipeId
    kind := input.kind
    unitKey := input.unitKey
    eventId := input.eventId
    status := .queued
    writeBack := .pending
    attempts := 0
    payload := some input.payload
    idempotencyKey := some (writeBackIdempotencyKey digest input.workItemId input.payload)
    createdAt := (existing.map (·.createdAt)).getD input.now
    updatedAt := input.now }

/-- A row whose payload has the same key is kept; any other row is replaced. -/
def enqueueWriteBack (digest : Digest) (input : WriteBackInput)
    (existing : Option WorkDelivery) : WorkDelivery :=
  let key := writeBackIdempotencyKey digest input.workItemId input.payload
  match existing with
  | none => freshDelivery digest input none
  | some row =>
    if deliveryPayloadKey digest row = some key then
      match present row.idempotencyKey with
      | some _ => row
      | none => { row with idempotencyKey := some key }
    else freshDelivery digest input (some row)

/-- The accepted receipt of a row. -/
def deliveryChannelReceipt (delivery : WorkDelivery) : Option ChannelReceipt :=
  (delivery.channelReceipt.filter (·.accepted)).map fun receipt =>
    { accepted := true, rpcId := present receipt.rpcId }

def deliveryRecordReceipt (delivery : WorkDelivery) (receipt : ChannelReceipt) (now : Instant) :
    WorkDelivery :=
  { delivery with
    channelReceipt := some { accepted := receipt.accepted, rpcId := present receipt.rpcId }
    updatedAt := now }

def deliveryAbandoned (delivery : WorkDelivery) (now : Instant) : WorkDelivery :=
  { delivery with
    status := .acked
    writeBack := .skipped
    lastError := none
    nextRetryAt := none
    leaseExpiresAt := none
    updatedAt := now }

def deliveryClaimSend (delivery : WorkDelivery) (now : Instant) : WorkDelivery :=
  { delivery with
    status := .writeBack
    writeBack := .pending
    attempts := delivery.attempts + 1
    lastError := none
    nextRetryAt := none
    leaseExpiresAt := some (now + deliveryLease)
    updatedAt := now }

/-- How a write-back that did not fail ended. -/
inductive WriteBackOutcome where
  | sent
  | skipped
  deriving DecidableEq, Repr

def WriteBackOutcome.state : WriteBackOutcome → WorkWriteBackState
  | .sent => .sent
  | .skipped => .skipped

def deliveryAcked (delivery : WorkDelivery) (outcome : WriteBackOutcome) (now : Instant) :
    WorkDelivery :=
  { delivery with
    status := .acked
    writeBack := outcome.state
    lastError := none
    nextRetryAt := none
    leaseExpiresAt := none
    updatedAt := now }

def nextDeliveryRetryAt (attempts : Nat) (now : Instant) : Instant :=
  now + deliveryRetryDelays.getD
    (min (max attempts 1 - 1) (deliveryRetryDelays.length - 1)) 30000

def deliveryWriteBackFailed (delivery : WorkDelivery) (error : String) (now : Instant) :
    WorkDelivery :=
  let attempts := max delivery.attempts 1
  let dead : Bool := deliveryMaxAttempts ≤ attempts
  { delivery with
    status := if dead then .dead else .writeBack
    writeBack := .failed
    attempts
    lastError := some error
    nextRetryAt := if dead then none else some (nextDeliveryRetryAt attempts now)
    leaseExpiresAt := none
    updatedAt := now }

def deliverySendTimedOut (delivery : WorkDelivery) (now : Instant) : WorkDelivery :=
  { delivery with attempts := delivery.attempts - 1, updatedAt := now }

def deliveryRetryNow (delivery : WorkDelivery) (now : Instant) : WorkDelivery :=
  { delivery with
    status := .queued
    writeBack := .pending
    attempts := if delivery.status = .dead then 0 else delivery.attempts
    lastError := none
    nextRetryAt := none
    leaseExpiresAt := none
    updatedAt := now }

def isDeliveryLeaseExpired (delivery : WorkDelivery) (now : Instant) : Bool :=
  if delivery.writeBack = .failed then false
  else if delivery.status ≠ .writeBack ∧ delivery.status ≠ .running then false
  else match delivery.leaseExpiresAt with
    | none => true
    | some expires => expires ≤ now

def reclaimDeliveryLease (delivery : WorkDelivery) (now : Instant) : WorkDelivery :=
  if isDeliveryLeaseExpired delivery now then
    match delivery.payload with
    | some _ =>
      { delivery with
        status := .queued, writeBack := .pending, leaseExpiresAt := none, updatedAt := now }
    | none => deliveryAbandoned delivery now
  else delivery

def shouldFlushDelivery (delivery : WorkDelivery) (now : Instant) : Bool :=
  let current := reclaimDeliveryLease delivery now
  if current.status = .acked ∨ current.status = .dead then false
  else if current.payload = none then false
  else if current.writeBack = .failed then
    match current.nextRetryAt with
    | none => true
    | some retryAt => retryAt ≤ now
  else if current.status = .writeBack ∨ current.status = .running then
    isDeliveryLeaseExpired delivery now
  else current.status = .queued

def isDeadLetter (delivery : WorkDelivery) : Bool := delivery.status = .dead

/-- The `WHERE` of `listDueWorkDeliveries`. -/
def isDueDelivery (delivery : WorkDelivery) (now : Instant) : Bool :=
  delivery.payload.isSome && delivery.status ≠ .acked && delivery.status ≠ .dead &&
    ((delivery.status = .queued &&
        (delivery.writeBack ≠ .failed || delivery.nextRetryAt.all (· ≤ now))) ||
      (delivery.writeBack = .failed && delivery.nextRetryAt.all (· ≤ now)) ||
      ((delivery.status = .running || delivery.status = .writeBack) &&
        delivery.leaseExpiresAt.all (· ≤ now)))

end Regenic.Work
