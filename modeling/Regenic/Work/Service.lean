import Regenic.Work.Dispatch

/-!
The operations of the work service: run, try, dismiss and cancel a work item, and refresh it
after a prompt was answered.
-/

namespace Regenic.Work

open Lib Reply

section Service

variable (digest : Digest) (dispatcher : Nat)

def itemNotFound {α : Type} : WorkProg α :=
  throwConnector "not_found" "Work item not found" 404

/-- A user's work item. -/
def requireItem (id : String) : WorkProg WorkItem := do
  match ← Call.getWorkItem id with
  | none => itemNotFound
  | some item => if isSystemRecipeId item.recipeId then itemNotFound else pure item

def assertStartConfirmed (run : WorkRun) : WorkProg Unit :=
  if workRunNeedsStartConfirmation run then
    throwConnector "execution_start_uncertain"
      ("Executor start is pending or unconfirmed. Check the executor before dismissing this " ++
        "attempt and starting another.") 409
  else pure ()

/-! ## Run -/

/-- A result that could not be sent back is sent again by hand. -/
def needsResend (item : WorkItem) (delivery : WorkDelivery) : Bool :=
  (delivery.writeBack = .failed ∨ isDeadLetter delivery) ∧ item.status = .done

/-- After a start: send back what it left queued. -/
def flushQueued (opened : WorkItem) (recipe : Recipe) : WorkProg Unit := do
  let latest ← Call.getWorkItem opened.id
  match ← Call.getWorkDeliveryByItem opened.id with
  | none => pure ()
  | some queued => do
    let now ← Call.now
    if shouldFlushDelivery queued now then
      if ← Call.wantsWriteBack opened.id recipe then
        flushOne (latest.getD opened) recipe queued false
      else pure ()
    else pure ()

def startManually (item : WorkItem) (recipe : Recipe) : WorkProg Unit := do
  let opened ← reopened item
  let _ ← startItem digest dispatcher opened recipe .manual
  flushQueued opened recipe
where
  reopened (item : WorkItem) : WorkProg WorkItem :=
    if item.status = .opened then pure item
    else do
      let now ← Call.now
      let opened := { item with status := .opened, updatedAt := now }
      Call.putWorkItem item opened
      pure opened

def runActive (item : WorkItem) (recipe : Recipe) (active : WorkRun) : WorkProg Unit := do
  assertStartConfirmed active
  if shouldRefreshActiveRun item.status then refreshOne digest item recipe active
  else do
    let now ← Call.now
    Call.putWorkRun active (cancelWorkRun active now)
    startManually digest dispatcher item recipe

def runItem (item : WorkItem) (recipe : Recipe) : WorkProg Unit := do
  let delivery ← Call.getWorkDeliveryByItem item.id
  match delivery.filter (needsResend item) with
  | some delivery => flushOne item recipe delivery true
  | none => do
    match ← Call.getActiveWorkRun item.id with
    | some active => runActive digest dispatcher item recipe active
    | none => startManually digest dispatcher item recipe

def runWorkItem (id : String) : WorkProg Unit := do
  Call.ensureMounted
  let item ← requireItem id
  match ← recipeOf item with
  | none => throwConnector "invalid_config" "This work item has no recipe" 400
  | some recipe => runItem digest dispatcher item recipe

/-! ## Dismiss -/

def cancelActive (run : Option WorkRun) (now : Instant) : WorkProg Unit :=
  match run with
  | none => pure ()
  | some run => do
    let _ ← attempt (Call.executorCancel run)
    Call.putWorkRun run (cancelWorkRun run now)

def abandonDelivery (workItemId : String) (now : Instant) : WorkProg Unit := do
  match ← Call.getWorkDeliveryByItem workItemId with
  | none => pure ()
  | some delivery =>
    if delivery.status ≠ .acked then
      Call.putWorkDelivery delivery (deliveryAbandoned delivery now)
    else pure ()

def skipItem (item : WorkItem) (now : Instant) : WorkProg Unit :=
  if item.status = .skipped then pure ()
  else Call.putWorkItem item { item with status := .skipped, updatedAt := now }

def dismissWorkItem (id : String) : WorkProg Unit := do
  let item ← requireItem id
  let now ← Call.now
  skipItem item now
  let run ← Call.getActiveWorkRun item.id
  cancelActive run now
  abandonDelivery item.id now
  Call.foldFinishedWorkThreads item

/-! ## Auxiliary executions -/

/-- The work item of a feature, under a system recipe. -/
def requireExecution (id : String) : WorkProg WorkItem := do
  match ← Call.getWorkItem id with
  | none => throwConnector "not_found" "Execution not found" 404
  | some item =>
    if isSystemRecipeId item.recipeId then pure item
    else throwConnector "not_found" "Execution not found" 404

def cancelAuxiliaryExecution (id : String) : WorkProg Unit := do
  Call.ensureMounted
  let item ← requireExecution id
  if isActiveWorkStatus item.status then do
    let now ← Call.now
    let run ← Call.getActiveWorkRun item.id
    cancelActive run now
    Call.putWorkItem item { item with status := .skipped, updatedAt := now }
  else pure ()

def refreshAuxiliaryExecution (id : String) : WorkProg Unit := do
  Call.ensureMounted
  let item ← requireExecution id
  withActiveRun item fun recipe run => refreshOne digest item recipe run

def recoverableAuxiliaryStart (run : WorkRun) : Bool :=
  run.startState = some .submitted ∨ run.startState = some .uncertain ∨ run.status.isActive

def auxiliaryStartThrew (item : WorkItem) (error : Thrown) : WorkProg Unit := do
  let durable := (← Call.listWorkRuns item.id).head?
  if durable.any recoverableAuxiliaryStart then pure ()
  else if durable.all (·.status ≠ .failed) then do
    let now ← Call.now
    Call.putWorkItem item { item with status := .failed, updatedAt := now }
    .fail error
  else .fail error

def startPreparedAuxiliaryExecution (item : WorkItem) (recipe : Recipe) : WorkProg Unit := do
  match ← attempt (startItem digest dispatcher item recipe .auxiliary) with
  | .error error => auxiliaryStartThrew item error
  | .ok (some _) => pure ()
  | .ok none => do
    let now ← Call.now
    Call.putWorkItem item { item with status := .skipped, updatedAt := now }
    throwConnector "execution_start_conflict" "No executor slot is available" 429

/-! ## After a prompt -/

def resumeRun (item : WorkItem) (recipe : Recipe) (run : WorkRun) : WorkProg Unit := do
  let handle ← Call.executorResume item run
  applyHandle digest item recipe run handle

def afterPromptRun (item : WorkItem) (run : WorkRun) : WorkProg Unit := do
  assertStartConfirmed run
  match ← recipeOf item with
  | none => pure ()
  | some recipe =>
    if ← Call.hasExecutor run.executorType then resumeRun digest item recipe run else pure ()

def afterPrompt (threadId : String) : WorkProg Unit := do
  match ← Call.getWorkItemByThread threadId with
  | none => pure ()
  | some item =>
    match ← Call.getActiveWorkRun item.id with
    | none => pure ()
    | some run => afterPromptRun digest item run

/-! ## Try a recipe -/

/-- Work in progress on the chat, or another rule bound to it. -/
def tryConflict (existing : WorkItem) (active : Option WorkRun) (recipe : Recipe) :
    Option String :=
  let otherRule : Bool := (present existing.recipeId).any (· ≠ recipe.id)
  if active.isSome ∨ isOccupiedRecipeSlot existing.status then
    some (if otherRule then "Another rule is already running on this chat"
      else "This chat already has work in progress")
  else if isActiveWorkStatus existing.status ∧ otherRule then
    some "Another rule is already bound to this chat"
  else none

def checkExisting (recipe : Recipe) : Option WorkItem → WorkProg Unit
  | none => pure ()
  | some existing => do
    let active ← Call.getActiveWorkRun existing.id
    match tryConflict existing active recipe with
    | some message => throwConnector "conflict" message 409
    | none => pure ()

def newTryItem (uuid : String) (recipe : Recipe) (threadId : String) (now : Instant) : WorkItem :=
  { id := "work-" ++ uuid
    threadId
    unitKey := "try:" ++ recipe.id ++ ":" ++ toString now
    status := .opened
    recipeId := some recipe.id
    createdAt := now
    updatedAt := now }

/-- The item of the chat is opened again, unless the rule's filter was decided on another
head. -/
def openTryItem (recipe : Recipe) (threadId : String) (existing : Option WorkItem)
    (now : Instant) : WorkProg WorkItem := do
  match existing with
  | some item =>
    if ← Call.headUnchanged item recipe then
      let opened := { item with status := .opened, recipeId := some recipe.id, updatedAt := now }
      Call.putWorkItem item opened
      pure opened
    else newItem
  | none => newItem
where
  newItem : WorkProg WorkItem := do
    let uuid ← Call.randomUUID
    Call.putNewWorkItem (newTryItem uuid recipe threadId now)
    pure (newTryItem uuid recipe threadId now)

def tryRecipeOn (recipe : Recipe) (threadId : String) : WorkProg Unit := do
  let existing ← Call.getWorkItemByThread threadId
  checkExisting recipe existing
  if (← Call.matchesRecipe recipe threadId) = false then
    throwConnector "invalid_config" "This rule does not match that chat" 400
  else do
    let now ← Call.now
    let item ← openTryItem recipe threadId existing now
    abandonDelivery item.id now
    runWorkItem digest dispatcher item.id

def tryRecipe (recipeId : String) (threadId : String) : WorkProg Unit :=
  if isSystemRecipeId (some recipeId) then throwConnector "not_found" "Recipe not found" 404
  else do
    Call.ensureMounted
    match ← Call.getRecipe recipeId with
    | none => throwConnector "not_found" "Recipe not found" 404
    | some recipe => tryRecipeOn digest dispatcher recipe threadId

end Service

end Regenic.Work
