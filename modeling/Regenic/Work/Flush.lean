import Regenic.Work.Calls

/-!
Sending results back. A flush claims the delivery, sends its payload and patches whatever row
it then finds; a timer that expires first leaves the send running and patches the row too.
-/

namespace Regenic.Work

open Lib Reply

/-! ## The channel -/

def recipeOf (item : WorkItem) : WorkProg (Option Recipe) :=
  match present item.recipeId with
  | some id => Call.getRecipe id
  | none => pure none

/-- The receipt callback of a flush: it patches the row that is there now. -/
def onReceipt (current : WorkDelivery) (receipt : ChannelReceipt) : WorkProg Unit := do
  let sentAt ← Call.now
  let latest ← Call.latestWorkDelivery current
  Call.putWorkDelivery latest (deliveryRecordReceipt latest receipt sentAt)

/-- A receipt that is on record already stands for the send. -/
def receiptOrSend (recorded : Option ChannelReceipt) (delivery : WorkDelivery) (text : String) :
    WorkProg ChannelReceipt :=
  match recorded with
  | some receipt => pure receipt
  | none => Call.egressSend delivery text

def sendText (thread : ConversationThread) (text : String) (delivery : WorkDelivery)
    (recorded : Option ChannelReceipt) : WorkProg Unit := do
  let found ← Call.findForThread thread
  if found ≠ some true then
    throwConnector "no_sender" "No enabled connector can send in this conversation" 404
  else do
    Call.bindEgress thread
    let receipt ← receiptOrSend recorded delivery text
    onReceipt delivery receipt
    Call.ingestSent thread

def answerPromptWith (thread : ConversationThread) (text : String) (delivery : WorkDelivery) :
    WorkProg WriteBackOutcome := do
  match ← Call.matchPrompt thread text with
  | .noPrompt =>
    throwConnector "invalid_config" "Write-back has no live prompt on this conversation" 400
  | .noOption =>
    throwConnector "invalid_config"
      "Write-back needs a prompt option that matches the result" 400
  | .option =>
    if ← Call.answerPrompt delivery text then do
      onReceipt delivery { accepted := true }
      pure .sent
    else throwConnector "invalid_config" "Write-back prompt was not accepted" 502

def writeBackThrough (thread : ConversationThread) (text : String) (delivery : WorkDelivery) :
    WorkProg WriteBackOutcome := do
  let recorded := deliveryChannelReceipt delivery
  if (← Call.findForThread thread) = some true then do
    sendText thread text delivery recorded
    pure .sent
  else
    match recorded with
    | some receipt => do
      onReceipt delivery receipt
      pure .sent
    | none => answerPromptWith thread text delivery

def writeBackText (payload : ResultEnvelope) : String :=
  let fromContent := firstText payload.content
  if fromContent ≠ "" then fromContent else payload.summary

def writeBackTo (item : WorkItem) (recipe : Recipe) (payload : ResultEnvelope)
    (delivery : WorkDelivery) : WorkProg WriteBackOutcome := do
  let thread ← liftThrown (parseConversationThread (recipe.writeBackThreadId.getD item.threadId))
  if jsTrim (writeBackText payload) = "" then
    throwConnector "invalid_config" "Write-back has no text" 400
  else writeBackThrough thread (writeBackText payload) delivery

def writeBack (item : WorkItem) (payload : ResultEnvelope) (delivery : WorkDelivery) :
    WorkProg WriteBackOutcome := do
  match ← recipeOf item with
  | none => pure .skipped
  | some recipe =>
    if recipeWantsWriteBack recipe = false then pure .skipped
    else do
      let latest ← Call.getWorkItem item.id
      if latest.any (isAbandonedWorkItem ·.status) then pure .skipped
      else writeBackTo item recipe payload delivery

/-! ## One delivery -/

/-- The timer of a flush. -/
def sendTimedOut (current : WorkDelivery) (now : Instant) (race : Nat) : WorkProg Unit := do
  if ← Call.expire race then
    let latest ← Call.latestWorkDelivery current
    Call.putWorkDelivery latest (deliverySendTimedOut latest now)
  else pure ()

def recordOutcome (current : WorkDelivery) (now : Instant) (force : Bool) :
    Except Thrown WriteBackOutcome → WorkProg Unit
  | .ok outcome => do
    let latest ← Call.latestWorkDelivery current
    Call.putWorkDelivery latest (deliveryAcked latest outcome now)
  | .error error => do
    let latest ← Call.latestWorkDelivery current
    Call.putWorkDelivery latest (deliveryWriteBackFailed latest (errorMessage error) now)
    if force then .fail error else pure ()

/-- `copy` is the row that the flush was given. -/
def flushCurrent (item : WorkItem) (copy current : WorkDelivery) (now : Instant)
    (force : Bool) : WorkProg Unit :=
  match current.payload with
  | none =>
    Call.putWorkDelivery copy
      (deliveryWriteBackFailed current "Write-back has no payload" now)
  | some payload => do
    let claimed := deliveryClaimSend current now
    Call.putWorkDelivery copy claimed
    let race ← Call.withTimeout claimed now
    let outcome ← attempt (writeBack item payload claimed)
    if ← Call.settle race then recordOutcome claimed now force outcome else pure ()

def flushOne (item : WorkItem) (_recipe : Recipe) (delivery : WorkDelivery) (force : Bool) :
    WorkProg Unit := do
  let now ← Call.now
  let current := reclaimDeliveryLease delivery now
  if force then flushCurrent item delivery (deliveryRetryNow current now) now true
  else if shouldFlushDelivery current now then flushCurrent item delivery current now false
  else pure ()

/-! ## A tick -/

structure PendingFlush where
  item : WorkItem
  recipe : Recipe
  delivery : WorkDelivery
  deriving DecidableEq, Repr

def putReclaimed (delivery : WorkDelivery) (now : Instant) : WorkProg Unit :=
  if isDeliveryLeaseExpired delivery now then
    Call.putWorkDelivery delivery (reclaimDeliveryLease delivery now)
  else pure ()

/-- One turn of the tick's loop: re-open a row whose lease has expired, abandon it when its
item is dismissed, and keep it for sending when it is due. -/
def preparePending (recipes : List Recipe) (now : Instant) (delivery : WorkDelivery) :
    WorkProg (Option PendingFlush) := do
  let reclaimed := reclaimDeliveryLease delivery now
  putReclaimed delivery now
  let item ← Call.getWorkItem reclaimed.workItemId
  if item.any (·.status = .skipped) ∧ reclaimed.status ≠ .acked then do
    Call.putWorkDelivery reclaimed (deliveryAbandoned reclaimed now)
    pure none
  else
    let recipe := recipes.find? fun recipe => recipe.id = reclaimed.recipeId
    pure (match item, recipe with
      | some item, some recipe =>
        if shouldFlushDelivery reclaimed now then some { item, recipe, delivery := reclaimed }
        else none
      | _, _ => none)

def preparePendings (recipes : List Recipe) (now : Instant) :
    List WorkDelivery → WorkProg (List PendingFlush)
  | [] => pure []
  | delivery :: rest => do
    let first ← preparePending recipes now delivery
    let others ← preparePendings recipes now rest
    pure (first.toList ++ others)

def startFlushes : List PendingFlush → WorkProg Unit
  | [] => pure ()
  | pending :: rest => do
    Call.startFlush pending.item pending.recipe pending.delivery
    startFlushes rest

/-- The flushes of one tick run side by side; that only four do at a time is left out. -/
def flushDeliveries : WorkProg Unit := do
  let now ← Call.now
  let deliveries ← Call.listDueWorkDeliveries now
  let recipes ← Call.listRecipes
  let pending ← preparePendings recipes now deliveries
  startFlushes pending

/-- The programs that a call starts. -/
def workFork : (c : WorkCall) → c.Response → Option (WorkProg Unit)
  | .withTimeout current now, .ok race => some (sendTimedOut current now race)
  | .startFlush item recipe delivery, .ok _ => some (flushOne item recipe delivery false)
  | _, _ => none

end Regenic.Work
