import Regenic.Work.Flush

/-!
Supervision: what an executor says of a run is written to the run, the delivery and the item,
with a look at the item for a dismissal before each write.
-/

namespace Regenic.Work

open Lib Reply

section Supervise

variable (digest : Digest)

/-- True when the item was dismissed; its run is then cancelled. -/
def abandonIfSkipped (item : WorkItem) (run : WorkRun) : WorkProg Bool := do
  let latest ← Call.getWorkItem item.id
  if latest.any (isAbandonedWorkItem ·.status) then
    if run.status ≠ .cancelled then do
      let now ← Call.now
      Call.putWorkRun run (cancelWorkRun run now)
      pure true
    else pure true
  else pure false

def unlessSkipped (item : WorkItem) (run : WorkRun) (p : WorkProg Unit) : WorkProg Unit := do
  if ← abandonIfSkipped item run then pure () else p

def nextRunStatus : WorkRunStatus → WorkRunStatus
  | .completed => .completed
  | .failed => .failed
  | .waitingHuman => .waitingHuman
  | .running | .cancelled => .running

def nextRun (run : WorkRun) (handle : ExecutorRunHandle) (now : Instant) : WorkRun :=
  { run with
    startState := none
    externalRunId := some handle.externalRunId
    agentThreadId := handle.agentThreadId <|> run.agentThreadId
    status := nextRunStatus handle.status
    result := handle.result <|> run.result
    updatedAt := now }

def writeBackInput (newId : String) (item : WorkItem) (recipe : Recipe)
    (handle : ExecutorRunHandle) (now : Instant) : WriteBackInput :=
  { newId
    workItemId := item.id
    recipeId := recipe.id
    kind := recipe.trigger
    unitKey := item.unitKey
    eventId := item.headEventId
    payload :=
      { summary := (handle.result.map (·.summary)).getD ""
        content := handle.result.bind (·.content) }
    now }

def putStatus (item : WorkItem) (status : WorkItemStatus) (now : Instant) : WorkProg Unit :=
  if item.status ≠ status then Call.putWorkItem item { item with status, updatedAt := now }
  else pure ()

def foldWhenFinished (item : WorkItem) (recipe : Recipe) (status : WorkItemStatus) :
    WorkProg Unit :=
  if isActiveWorkStatus status = false ∧ isSystemRecipeId (some recipe.id) = false then
    Call.foldFinishedWorkThreads item
  else pure ()

/-- The last part of `applyHandle`: the item takes the status of the handle. -/
def settleItem (item : WorkItem) (recipe : Recipe) (run : WorkRun) (status : WorkItemStatus)
    (now : Instant) : WorkProg Unit :=
  unlessSkipped item run do
    putStatus item status now
    foldWhenFinished item recipe status

def enqueueResult (item : WorkItem) (recipe : Recipe) (run : WorkRun)
    (handle : ExecutorRunHandle) (delivery : Option WorkDelivery) (now : Instant) :
    WorkProg Unit :=
  unlessSkipped item run do
    let newId ← Call.randomUUID
    ask (.putWorkDelivery delivery
      (enqueueWriteBack digest (writeBackInput newId item recipe handle now) delivery))
    settleItem item recipe run (workStatusFromHandle handle) now

def applyResult (item : WorkItem) (recipe : Recipe) (run : WorkRun)
    (handle : ExecutorRunHandle) (now : Instant) : WorkProg Unit := do
  let delivery ← Call.getWorkDeliveryByItem item.id
  let wants ← Call.wantsWriteBack item.id recipe
  if shouldWriteBackHandle handle wants then
    enqueueResult digest item recipe run handle delivery now
  else
    match delivery.filter fun row => handle.status = .completed ∧ row.status ≠ .acked with
    | some row => do
      Call.putWorkDelivery row (deliveryAbandoned row now)
      settleItem item recipe run (workStatusFromHandle handle) now
    | none => settleItem item recipe run (workStatusFromHandle handle) now

def applyHandle (item : WorkItem) (recipe : Recipe) (run : WorkRun)
    (handle : ExecutorRunHandle) : WorkProg Unit :=
  unlessSkipped item run do
    let now ← Call.now
    unlessSkipped item (nextRun run handle now) do
      Call.putWorkRun run (nextRun run handle now)
      unlessSkipped item (nextRun run handle now)
        (applyResult digest item recipe (nextRun run handle now) handle now)

/-- `reapIfInboxEnded` looks at stale work only; what it answers is the outside's. -/
def refreshOne (item : WorkItem) (recipe : Recipe) (run : WorkRun) : WorkProg Unit :=
  if workRunNeedsStartConfirmation run then pure ()
  else do
    if ← Call.hasExecutor run.executorType then
      let handle ← Call.executorStatus run
      if handle.status = .running then
        let reaped ← Call.reapIfInboxEnded item run handle
        applyHandle digest item recipe run reaped
      else applyHandle digest item recipe run handle
    else pure ()

/-- The recipe and the active run of an item, when it has both. -/
def withActiveRun (item : WorkItem) (p : Recipe → WorkRun → WorkProg Unit) : WorkProg Unit := do
  let recipe ← recipeOf item
  let run ← Call.getActiveWorkRun item.id
  match recipe, run with
  | some recipe, some run => p recipe run
  | _, _ => pure ()

def refreshEach : List WorkItem → WorkProg Unit
  | [] => pure ()
  | item :: rest => do
    withActiveRun item fun recipe run => do
      let _ ← attempt (refreshOne digest item recipe run)
      pure ()
    refreshEach rest

/-- The supervisor's tick, oldest item first. -/
def refreshRuns : WorkProg Unit := do
  let items ← Call.listWorkItems [.running, .waitingHuman]
  refreshEach digest (items.insertionSort fun left right => left.createdAt ≤ right.createdAt)

/-- A wait of an executor's thread that wakes up. -/
def wake (workItemId : String) : WorkProg Unit := do
  match ← Call.getWorkItem workItemId with
  | none => pure ()
  | some item =>
    if isActiveWorkStatus item.status then
      withActiveRun item fun recipe run => do
        let _ ← attempt (Call.followSysout run)
        refreshOne digest item recipe run
    else pure ()

end Supervise

end Regenic.Work
