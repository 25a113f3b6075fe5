import Mathlib.Data.List.Basic
import Regenic.Lib.Text

/-!
The contracts of the work plane: items, the runs an executor makes of them, the deliveries
that carry a result back, and the recipes that start them. Instants are epoch milliseconds;
all rows are rows of one organization.
-/

namespace Regenic.Work

open Lib

abbrev Instant := Int

/-- `"open"` is a keyword here. -/
inductive WorkItemStatus where
  | opened
  | running
  | waitingHuman
  | done
  | failed
  | skipped
  deriving DecidableEq, Repr

inductive WorkRunStatus where
  | running
  | waitingHuman
  | completed
  | failed
  | cancelled
  deriving DecidableEq, Repr

inductive StartState where
  | pending
  | submitted
  | uncertain
  deriving DecidableEq, Repr

inductive RecipeTriggerKind where
  | push
  | pull
  | manual
  deriving DecidableEq, Repr

inductive WorkDeliveryStatus where
  | queued
  | running
  | writeBack
  | acked
  | dead
  deriving DecidableEq, Repr

inductive WorkWriteBackState where
  | pending
  | sent
  | skipped
  | failed
  deriving DecidableEq, Repr

/-- Of a part of the content only the text is read. -/
structure ContentPart where
  text : Option String := none
  deriving DecidableEq, Repr

/-- `ResultEnvelope`, and the payload of a delivery. -/
structure ResultEnvelope where
  summary : String
  content : Option (List ContentPart) := none
  deriving DecidableEq, Repr

structure Recipe where
  id : String
  trigger : RecipeTriggerKind
  executorType : String
  canWriteBack : Bool := false
  writeBackThreadId : Option String := none
  maxConcurrent : Option Nat := none
  deriving DecidableEq, Repr

structure WorkItem where
  id : String
  threadId : String
  unitKey : String
  headEventId : Option String := none
  status : WorkItemStatus
  recipeId : Option String := none
  createdAt : Instant
  updatedAt : Instant
  deriving DecidableEq, Repr

structure WorkRun where
  id : String
  workItemId : String
  recipeId : String
  executorType : String
  externalRunId : Option String := none
  agentThreadId : Option String := none
  status : WorkRunStatus
  startState : Option StartState := none
  result : Option ResultEnvelope := none
  createdAt : Instant
  updatedAt : Instant
  deriving DecidableEq, Repr

structure ChannelReceipt where
  accepted : Bool
  rpcId : Option String := none
  deriving DecidableEq, Repr

structure WorkDelivery where
  id : String
  workItemId : String
  recipeId : String
  kind : RecipeTriggerKind
  unitKey : String
  eventId : Option String := none
  status : WorkDeliveryStatus
  writeBack : WorkWriteBackState
  attempts : Nat
  payload : Option ResultEnvelope := none
  idempotencyKey : Option String := none
  channelReceipt : Option ChannelReceipt := none
  lastError : Option String := none
  nextRetryAt : Option Instant := none
  leaseExpiresAt : Option Instant := none
  createdAt : Instant
  updatedAt : Instant
  deriving DecidableEq, Repr

/-- What an executor says of a run. -/
structure ExecutorRunHandle where
  externalRunId : String
  agentThreadId : Option String := none
  status : WorkRunStatus
  result : Option ResultEnvelope := none
  deriving DecidableEq, Repr

/-! ## Policies -/

def isActiveWorkStatus : WorkItemStatus → Bool
  | .opened | .running | .waitingHuman => true
  | _ => false

/-- Statuses that use a recipe concurrency slot. -/
def isOccupiedRecipeSlot : WorkItemStatus → Bool
  | .running | .waitingHuman => true
  | _ => false

def isAbandonedWorkItem (status : WorkItemStatus) : Bool := status = .skipped

def shouldRefreshActiveRun (status : WorkItemStatus) : Bool := !isAbandonedWorkItem status

/-- `running` or `waiting_human`. -/
def WorkRunStatus.isActive : WorkRunStatus → Bool
  | .running | .waitingHuman => true
  | _ => false

def workRunNeedsStartConfirmation (run : WorkRun) : Bool :=
  run.startState = some .pending ∨ run.startState = some .uncertain

def cancelWorkRun (run : WorkRun) (now : Instant) : WorkRun :=
  { run with status := .cancelled, startState := none, updatedAt := now }

def workStatusFromRun : WorkRunStatus → WorkItemStatus
  | .waitingHuman => .waitingHuman
  | .completed => .done
  | .failed => .failed
  | .cancelled => .skipped
  | .running => .running

def workStatusFromHandle (handle : ExecutorRunHandle) : WorkItemStatus :=
  workStatusFromRun handle.status

def shouldWriteBackHandle (handle : ExecutorRunHandle) (canWriteBack : Bool) : Bool :=
  handle.status = .completed && canWriteBack

def recipeWantsWriteBack (recipe : Recipe) : Bool := recipe.canWriteBack

def failedWorkStart (id : String) (item : WorkItem) (recipe : Recipe) (error : String)
    (now : Instant) : WorkRun :=
  { id
    workItemId := item.id
    recipeId := recipe.id
    executorType := recipe.executorType
    status := .failed
    result := some { summary := error }
    createdAt := now
    updatedAt := now }

def systemRecipePrefix : String := "system:"

def isSystemRecipeId (id : Option String) : Bool :=
  match id with
  | some id => hasPrefix systemRecipePrefix id
  | none => false

def failedRunCount (runs : List WorkRun) : Nat := runs.countP fun run => run.status = .failed

def pushRetryDelays : List Int := [30000, 120000, 480000]

def pushRetryMaxAttempts : Nat := 3

def shouldRetryFailedPush (status : WorkItemStatus) (updatedAt : Instant) (attempts : Nat)
    (now : Instant) : Bool :=
  if status ≠ .failed then false
  else if pushRetryMaxAttempts ≤ attempts then false
  else
    let elapsed := now - updatedAt
    if elapsed < 0 then false
    else
      (pushRetryDelays.getD (min attempts (pushRetryDelays.length - 1)) 30000) ≤ elapsed

/-! ## Slots -/

def occupiedRecipeSlots (items : List WorkItem) (recipeId : String)
    (exceptItemId : Option String) : Nat :=
  items.countP fun item =>
    item.recipeId = some recipeId ∧ some item.id ≠ exceptItemId ∧ isOccupiedRecipeSlot item.status

/-- Local reservations, as pairs of item and recipe, that no occupied row counts already. -/
def recipeStartInflight (recipeId : String) (starting : List (String × String))
    (occupiedItemIds : List String) (exceptItemId : Option String) : Nat :=
  starting.countP fun slot =>
    slot.2 = recipeId ∧ some slot.1 ≠ exceptItemId ∧ slot.1 ∉ occupiedItemIds

def recipeHasStartCapacity (recipe : Recipe) (items : List WorkItem)
    (exceptItemId : Option String) (inflight : Nat) : Bool :=
  match recipe.maxConcurrent with
  | none => true
  | some max => occupiedRecipeSlots items recipe.id exceptItemId + inflight < max

end Regenic.Work
