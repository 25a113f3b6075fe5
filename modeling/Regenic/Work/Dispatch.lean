import Regenic.Work.Supervise

/-!
Starting executors. A dispatcher reserves the item in its memory, claims the start in the
store, starts the executor and records what came of it.
-/

namespace Regenic.Work

open Lib Reply

inductive StartMode where
  | auto
  | manual
  | auxiliary
  deriving DecidableEq, Repr

/-- Only an automatic start gives up silently. -/
def refuseStart {α : Type} (mode : StartMode) (code message : String) (status : Nat) :
    WorkProg (Option α) :=
  if mode = .auto then pure none else throwConnector code message status

section Dispatch

variable (digest : Digest) (dispatcher : Nat)

/-- Starts of one recipe by one dispatcher take turns; that only excludes orders. -/
def acquireStart (recipe : Recipe) (workItemId : String) (mode : StartMode) : WorkProg Bool :=
  if mode = .manual then do
    Call.takeStart dispatcher workItemId recipe.id
    pure true
  else
    match recipe.maxConcurrent with
    | none => Call.reserveStart dispatcher workItemId recipe []
    | some _ => do
      if ← Call.isStarting dispatcher workItemId then pure false
      else
        let items ← Call.listWorkItems [.running, .waitingHuman]
        Call.reserveStart dispatcher workItemId recipe items

/-! ## The executor's context -/

/-- The run as it is stored, while its start is still wanted. -/
def currentStart (run : WorkRun) : WorkProg WorkRun := do
  let saved ← Call.getWorkRun run.id
  let item ← Call.getWorkItem run.workItemId
  match saved, item with
  | some saved, some item =>
    if item.status = .skipped ∨ saved.status.isActive = false then
      throwConnector "work_abandoned" "Work start is no longer active" 409
    else pure saved
  | _, _ => throwConnector "work_abandoned" "Work start is no longer active" 409

def recordSysout (run : WorkRun) (sysoutId : String) (startState : Option StartState) :
    WorkProg Unit := do
  let saved ← currentStart run
  let now ← Call.now
  Call.putWorkRun saved
    { saved with
      externalRunId := some sysoutId
      agentThreadId := some sysoutId
      startState := startState <|> saved.startState
      updatedAt := now }

def startStep (run : WorkRun) : StartStep → WorkProg Unit
  | .spawnSysout => do
    let _ ← currentStart run
    let sysoutId ← Call.spawnSysout run
    recordSysout run sysoutId none
  | .writeStdin threadId => do
    let _ ← currentStart run
    Call.writeStdin run threadId
    recordSysout run threadId (some .submitted)

/-- A step that throws may be caught by the executor, which then goes on. -/
def startSteps (run : WorkRun) : List StartStep → WorkProg Unit
  | [] => pure ()
  | step :: rest => do
    let _ ← attempt (startStep run step)
    startSteps run rest

def executorStart (item : WorkItem) (run : WorkRun) : WorkProg ExecutorRunHandle := do
  let plan ← Call.executorStart item run
  startSteps run plan.steps
  liftThrown plan.outcome

/-! ## A start that was claimed -/

/-- `definiteLocalStartFailure`. -/
def isDefiniteFailure : Thrown → Bool
  | .connector error => error.code = "unsupported_channel" ∨ error.code = "no_sender"
  | _ => false

def failStart (mode : StartMode) (saved : WorkRun) (latestItem : WorkItem) (error : Thrown) :
    WorkProg (Option WorkRun) := do
  let failedAt ← Call.now
  Call.putWorkRun saved
    { saved with
      startState := none
      status := .failed
      result := some { summary := errorMessage error }
      updatedAt := failedAt }
  Call.putWorkItem latestItem { latestItem with status := .failed, updatedAt := failedAt }
  if mode = .auto then pure none else .fail error

def uncertainMessage (error : Thrown) : String :=
  "Executor start could not be confirmed: " ++ errorMessage error ++
    ". Check the executor before dismissing this attempt and starting a new one."

def leaveUncertain (saved : WorkRun) (latestItem : WorkItem) (error : Thrown) :
    WorkProg Unit :=
  if saved.startState = some .pending then do
    let now ← Call.now
    Call.putWorkRun saved
      { saved with
        startState := some .uncertain
        status := .waitingHuman
        result := some { summary := uncertainMessage error }
        updatedAt := now }
    let later ← Call.now
    Call.putWorkItem latestItem { latestItem with status := .waitingHuman, updatedAt := later }
  else pure ()

def reportUncertain (mode : StartMode) (run : WorkRun) (saved : Option WorkRun) :
    WorkProg (Option WorkRun) :=
  if saved.bind (·.startState) = some .submitted then
    refuseStart mode "execution_recovery_pending"
      ("Executor submission is recorded (run " ++ run.id ++
        "). Refresh to recover the existing execution.") 503
  else
    refuseStart mode "execution_start_uncertain"
      ("Executor start could not be confirmed (run " ++ run.id ++
        "). Check the executor before starting another attempt.") 409

def confirmFailure (mode : StartMode) (run : WorkRun) (saved : Option WorkRun)
    (latestItem : Option WorkItem) (error : Thrown) : WorkProg (Option WorkRun) :=
  match saved, latestItem with
  | some saved, some latestItem =>
    if isDefiniteFailure error ∧ saved.startState = some .pending ∧
        present saved.externalRunId = none ∧ present saved.agentThreadId = none ∧
        latestItem.status ≠ .skipped then
      failStart mode saved latestItem error
    else if saved.status ≠ .cancelled ∧ latestItem.status ≠ .skipped then do
      leaveUncertain saved latestItem error
      reportUncertain mode run (some saved)
    else reportUncertain mode run (some saved)
  | saved, _ => reportUncertain mode run saved

def startFailed (mode : StartMode) (item : WorkItem) (run : WorkRun) (error : Thrown) :
    WorkProg (Option WorkRun) := do
  let saved ← Call.getWorkRun run.id
  let latestItem ← Call.getWorkItem item.id
  confirmFailure mode run saved latestItem error

def acknowledgedRun (saved : WorkRun) (handle : ExecutorRunHandle) (now : Instant) : WorkRun :=
  { saved with
    externalRunId := some handle.externalRunId
    agentThreadId := handle.agentThreadId <|> saved.agentThreadId
    startState := some .submitted
    result := handle.result <|> saved.result
    updatedAt := now }

def startAcknowledged (item : WorkItem) (recipe : Recipe) (run : WorkRun)
    (handle : ExecutorRunHandle) (startedAt : Instant) : WorkProg (Option WorkRun) := do
  match ← Call.getWorkRun run.id with
  | none => .fail (.error ("Claimed work run disappeared: " ++ run.id))
  | some saved =>
    if saved.status = .cancelled ∨ saved.startState = none then pure (some saved)
    else do
      let now ← Call.now
      let acknowledged := acknowledgedRun saved handle now
      Call.putWorkRun saved acknowledged
      applyHandle digest { item with status := .running, updatedAt := startedAt } recipe
        { acknowledged with startState := none } handle
      let latest ← Call.getActiveWorkRun item.id
      match latest with
      | some latest => pure (some latest)
      | none => do
        let stored ← Call.getWorkRun run.id
        pure (some (stored.getD run))

def newRun (id : String) (item : WorkItem) (recipe : Recipe) (now : Instant) : WorkRun :=
  { id
    workItemId := item.id
    recipeId := recipe.id
    executorType := recipe.executorType
    status := .running
    startState := some .pending
    createdAt := now
    updatedAt := now }

def startLimit (recipe : Recipe) : StartMode → Option Nat
  | .manual => none
  | .auto | .auxiliary => recipe.maxConcurrent

def startRun (item : WorkItem) (recipe : Recipe) (mode : StartMode) (run : WorkRun)
    (now : Instant) : WorkProg (Option WorkRun) := do
  if ← Call.claimWorkRunStart run (startLimit recipe mode) then
    match ← attempt (executorStart item run) with
    | .ok handle => startAcknowledged digest item recipe run handle now
    | .error error => startFailed mode item run error
  else
    refuseStart mode "execution_start_conflict"
      ("Work item changed before start could be reserved. Refresh the work item.") 409

def startClaimedItem (item : WorkItem) (recipe : Recipe) (mode : StartMode) :
    WorkProg (Option WorkRun) := do
  let now ← Call.now
  Call.startContext item recipe
  let _ ← Call.listWorkRuns item.id
  let uuid ← Call.randomUUID
  startRun digest item recipe mode (newRun ("run-" ++ uuid) item recipe now) now

/-! ## Whether to start -/

def noteStartFailed (item : WorkItem) (recipe : Recipe) (error : String) (mode : StartMode) :
    WorkProg Unit := do
  let now ← Call.now
  let uuid ← Call.randomUUID
  Call.putNewWorkRun (failedWorkStart ("run-" ++ uuid) item recipe error now)
  if mode = .auto then
    Call.putWorkItem item { item with status := .failed, updatedAt := now }
  else pure ()

def startReserved (item : WorkItem) (recipe : Recipe) (mode : StartMode) :
    WorkProg (Option WorkRun) := do
  if ← acquireStart dispatcher recipe item.id mode then
    let result ← attempt (startClaimedItem digest item recipe mode)
    Call.releaseStart dispatcher item.id
    liftThrown result
  else pure none

def startItem (item : WorkItem) (recipe : Recipe) (mode : StartMode) :
    WorkProg (Option WorkRun) := do
  if (← Call.recipeTextMatches item recipe) = false then
    refuseStart mode "invalid_config" "This message does not match the rule's text filters" 400
  else if (← Call.hasExecutor recipe.executorType) = false then do
    noteStartFailed item recipe "Unknown executor" mode
    refuseStart mode "invalid_config" ("Unknown executor: " ++ recipe.executorType) 400
  else if ← Call.shouldDeferWork item recipe then
    refuseStart mode "bootstrap_pending" "Thread history sync is still in progress" 409
  else if ← Call.isStarting dispatcher item.id then
    refuseStart mode "execution_start_conflict"
      "Work start is already in progress. Refresh the work item." 409
  else startReserved digest dispatcher item recipe mode

def startAuto (item : WorkItem) (recipe : Recipe) : WorkProg Unit := do
  let _ ← startItem digest dispatcher item recipe .auto
  pure ()

def retryOpen (item : WorkItem) (recipe : Recipe) : WorkProg Unit := do
  match ← Call.getActiveWorkRun item.id with
  | some _ => pure ()
  | none => do
    let attempts := failedRunCount (← Call.listWorkRuns item.id)
    let now ← Call.now
    if 0 < attempts ∧ shouldRetryFailedPush .failed item.updatedAt attempts now = false then
      pure ()
    else startAuto digest dispatcher item recipe

def retryFailed (item : WorkItem) (recipe : Recipe) : WorkProg Unit := do
  let attempts := failedRunCount (← Call.listWorkRuns item.id)
  let now ← Call.now
  if shouldRetryFailedPush item.status item.updatedAt attempts now then do
    let updatedAt ← Call.now
    let opened := { item with status := .opened, recipeId := some recipe.id, updatedAt }
    Call.putWorkItem item opened
    startAuto digest dispatcher opened recipe
  else pure ()

def retryOrResume (item : WorkItem) (recipe : Recipe) : WorkProg Unit :=
  match item.status with
  | .done | .skipped | .running | .waitingHuman => pure ()
  | .opened => retryOpen digest dispatcher item recipe
  | .failed => retryFailed digest dispatcher item recipe

end Dispatch

end Regenic.Work
