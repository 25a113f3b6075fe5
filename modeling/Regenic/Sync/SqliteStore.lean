import Mathlib.Data.List.Sort
import Regenic.Sync.Catalog
import Regenic.Sync.Planner

/-!
The sync plane of the SQLite authority store: runs, work rows, phase rows and
the stream catalog. Every operation is one immediate transaction, so a step is
atomic and a thrown error leaves the tables as they were.
-/

namespace Regenic.Sync

open Lib

structure SyncTables where
  installations : Table ConnectorInstallation.id := ∅
  members : List SyncCatalogMember := []
  catalogs : Table SyncCatalogSnapshot.installationId := ∅
  states : Table (fun state : SyncStreamState => (state.installationId, state.streamKey)) := ∅
  runs : Table SyncRun.id := ∅
  work : Table SyncWorkRecord.id := ∅

inductive SyncOp where
  | createSyncRun (input : NewSyncRun)
  | commandSyncRun (input : CommandSyncRun)
  | enqueueSyncWork (input : EnqueueSyncWork)
  | enqueueSyncWorkMany (inputs : List EnqueueSyncWork)
  | claimSyncWork (input : ClaimSyncWork)
  | renewSyncWork (input : RenewSyncWork)
  | settleSyncWork (input : SettleSyncWork)
  | wakeUnassignedSyncWork (input : WakeUnassignedSyncWork)
  | applySyncCatalogPage (input : ApplySyncCatalogPageInput)
  | putSyncState (state : SyncStreamState)
  deriving DecidableEq, Repr

namespace Sqlite

def foreignKeyFailed : String := "FOREIGN KEY constraint failed"

def primaryKeyFailed (column : String) : String := "UNIQUE constraint failed: " ++ column

variable (db : SyncTables)

/-- The foreign key of a nullable `run_id` column. -/
def referencesRun (runId : Option String) : Bool :=
  runId.all fun id => (db.runs.get? id).isSome

def referencesInstallation (installationId : String) : Bool :=
  (db.installations.get? installationId).isSome

def createSyncRun (input : NewSyncRun) : Except String (SyncTables × SyncRun) := do
  validateSyncRunOptions input.options
  if (db.installations.get? input.installationId).all (·.orgId ≠ input.orgId) then
    throw "Connector installation not found for sync run"
  if free : db.runs.get? input.row.id = none then
    return ({ db with runs := db.runs.insert input.row free }, input.row)
  else
    throw (primaryKeyFailed "sync_runs.id")

def pauseRun (now : Instant) (run : SyncRun) : SyncRun :=
  { run with status := .paused, updatedAt := now }

def resumeRun (now : Instant) (run : SyncRun) : SyncRun :=
  { run with status := .queued, finishedAt := none, updatedAt := now }

def cancelRun (now : Instant) (run : SyncRun) : SyncRun :=
  { run with status := .cancelled, finishedAt := some now, updatedAt := now }

@[simp] theorem pauseRun_id (now : Instant) (run : SyncRun) :
    (pauseRun now run).id = run.id := rfl

@[simp] theorem resumeRun_id (now : Instant) (run : SyncRun) :
    (resumeRun now run).id = run.id := rfl

@[simp] theorem cancelRun_id (now : Instant) (run : SyncRun) :
    (cancelRun now run).id = run.id := rfl

def commandSyncRun (input : CommandSyncRun) : SyncTables × Option SyncRun :=
  match (db.runs.get? input.id).filter (·.orgId = input.orgId) with
  | none => (db, none)
  | some current =>
    let after : SyncTables :=
      if input.command = .pause ∧ syncRunIsClaimable current.status then
        let runs := db.runs.update input.id (pauseRun input.now) (pauseRun_id input.now)
        { db with runs }
      else if input.command = .resume ∧ current.status = .paused then
        let runs := db.runs.update input.id (resumeRun input.now) (resumeRun_id input.now)
        { db with runs }
      else if input.command = .cancel ∧
          (syncRunIsClaimable current.status ∨ current.status = .paused) then
        let runs := db.runs.update input.id (cancelRun input.now) (cancelRun_id input.now)
        let work := db.work.updateWhere
          (fun work => work.runId = some input.id && work.isOpen)
          (SyncWorkRecord.cancel input.now) (SyncWorkRecord.cancel_id input.now)
        { db with runs, work }
      else db
    (after, after.runs.get? input.id)

def findSyncWorkByIdentity (input : EnqueueSyncWork) : Option SyncWorkRecord :=
  db.work.rows.find? input.names

/-- `UPDATE … SET run_id = COALESCE(?, run_id), … status = 'pending'`. -/
def rePend (input : EnqueueSyncWork) (work : SyncWorkRecord) : SyncWorkRecord :=
  { work with
    runId := input.runId <|> work.runId
    priority := input.priority.getD (syncWorkPriority input.lane)
    nextDueAt := input.nextDueAt
    status := .pending
    leaseOwner := none
    leaseExpiresAt := none
    lastError := none
    updatedAt := input.now }

@[simp] theorem rePend_id (input : EnqueueSyncWork) (work : SyncWorkRecord) :
    (rePend input work).id = work.id := rfl

def bumpRun (now : Instant) (run : SyncRun) : SyncRun :=
  { run with totalWork := run.totalWork + 1, updatedAt := now }

@[simp] theorem bumpRun_id (now : Instant) (run : SyncRun) :
    (bumpRun now run).id = run.id := rfl

def enqueueSyncWorkUnlocked (input : EnqueueSyncWork) :
    Except String (SyncTables × SyncWorkRecord) :=
  match findSyncWorkByIdentity db input with
  | some current =>
    if current.status = .running then .ok (db, toSyncWork current)
    else if referencesRun db input.runId then
      let work := db.work.update current.id (rePend input) (rePend_id input)
      .ok ({ db with work }, toSyncWork (rePend input current))
    else .error foreignKeyFailed
  | none =>
    match (present input.runId).filter (fun id => (db.runs.get? id).isNone) with
    | some missing => .error ("Sync run not found: " ++ missing)
    | none =>
      if !referencesRun db input.runId || !referencesInstallation db input.installationId then
        .error foreignKeyFailed
      else if free : db.work.get? input.row.id = none then
        let runs := match present input.runId with
          | some runId => db.runs.update runId (bumpRun input.now) (bumpRun_id input.now)
          | none => db.runs
        let work := db.work.insert input.row free
        .ok ({ db with work, runs }, toSyncWork input.row)
      else .error (primaryKeyFailed "connector_sync_work.id")

/-- One statement group for each input, all in one transaction. The loop body
runs the same lookup, update, insert and bump as `enqueueSyncWorkUnlocked`. -/
def enqueueSyncWorkMany (inputs : List EnqueueSyncWork) : Except String (SyncTables × Nat) := do
  let after ← inputs.foldlM
    (fun db input => Prod.fst <$> enqueueSyncWorkUnlocked db input) db
  return (after, inputs.length)

/-- The `WHERE` clauses of the claim. -/
def claimable (input : ClaimSyncWork) (work : SyncWorkRecord) : Bool :=
  ((work.status = .pending && work.nextDueAt ≤ input.now) ||
    (work.status = .running && work.leaseExpiresAt.any (· ≤ input.now))) &&
  work.runId.all (fun runId =>
    (db.runs.get? runId).any fun run => syncRunIsClaimable run.status) &&
  (present input.workId).all (work.id = ·) &&
  (present input.installationId).all (work.installationId = ·) &&
  (input.lanes.isEmpty || input.lanes.contains work.lane) &&
  (!input.unassigned || work.runId.isNone)

/-- The ids a claim takes, in claim order. -/
def claimIds (input : ClaimSyncWork) : List String :=
  if input.limit < 1 then []
  else
    (((db.work.rows.filter (claimable db input)).insertionSort
      (fun left right => claimsBefore left right = true)).take
        (min input.limit 1000).toNat).map (·.id)

def startRun (now : Instant) (run : SyncRun) : SyncRun :=
  { run with
    status := .running
    startedAt := some (run.startedAt.getD now)
    updatedAt := now }

@[simp] theorem startRun_id (now : Instant) (run : SyncRun) :
    (startRun now run).id = run.id := rfl

def claimSyncWork (input : ClaimSyncWork) : SyncTables × List SyncWorkRecord :=
  let ids := claimIds db input
  if ids.isEmpty then (db, [])
  else
    let leaseExpiresAt := input.now + input.leaseMs
    let work := db.work.updateWhere (fun work => ids.contains work.id)
      (SyncWorkRecord.claim input.owner input.now leaseExpiresAt)
      (SyncWorkRecord.claim_id input.owner input.now leaseExpiresAt)
    let runs := db.runs.updateWhere
      (fun run => run.status = .queued &&
        work.rows.any (fun work => ids.contains work.id && work.runId = some run.id))
      (startRun input.now) (startRun_id input.now)
    ({ db with work, runs }, (ids.filterMap work.get?).map toSyncWork)

def renewSyncWork (input : RenewSyncWork) : SyncTables × Bool :=
  match (db.work.get? input.id).filter (fun work =>
      work.status = .running && work.leaseOwner = some input.owner &&
        work.leaseExpiresAt.any (· > input.now)) with
  | none => (db, false)
  | some _ =>
    let work := db.work.update input.id
      (SyncWorkRecord.renew input.now (input.now + input.leaseMs))
      (SyncWorkRecord.renew_id input.now (input.now + input.leaseMs))
    ({ db with work }, true)

/-- The counters a settled row adds to its run, cancelled runs excepted. -/
def countSettled (input : SettleSyncWork) (run : SyncRun) : SyncRun :=
  if run.status = .cancelled then run
  else
    { run with
      completedWork := run.completedWork + (if input.outcome = .succeeded then 1 else 0)
      failedWork := run.failedWork + (if input.outcome = .failed then 1 else 0)
      acceptedCount := run.acceptedCount + (input.acceptedCount.getD 0).toNat
      lastError := input.errorCode <|> run.lastError
      updatedAt := input.now }

@[simp] theorem countSettled_id (input : SettleSyncWork) (run : SyncRun) :
    (countSettled input run).id = run.id := by
  unfold countSettled
  split <;> rfl

/-- A run with no open row left is finished, unless it is paused or cancelled. -/
def finishRun (now : Instant) (run : SyncRun) : SyncRun :=
  if run.status = .paused ∨ run.status = .cancelled then run
  else
    { run with
      status := if run.failedWork > 0 then .failed else .succeeded
      finishedAt := some now
      updatedAt := now }

@[simp] theorem finishRun_id (now : Instant) (run : SyncRun) :
    (finishRun now run).id = run.id := by
  unfold finishRun
  split <;> rfl

/-- `SELECT 1 … WHERE run_id = ? AND status IN ('pending', 'running')`. -/
def hasOpenWork (work : Table SyncWorkRecord.id) (runId : String) : Bool :=
  work.rows.any fun row => row.runId = some runId && row.isOpen

def settleSyncWork (input : SettleSyncWork) : SyncTables × Option SyncWorkRecord :=
  match ((db.work.get? input.id).map toSyncWork).filter (fun current =>
      current.status = .running && current.leaseOwner = some input.owner) with
  | none => (db, none)
  | some current =>
    let work := db.work.update input.id (SyncWorkRecord.settle input) (SyncWorkRecord.settle_id input)
    let runs :=
      match current.runId.filter (fun _ => input.outcome ≠ .retry) with
      | none => db.runs
      | some runId =>
        let counted := db.runs.update runId (countSettled input) (countSettled_id input)
        if hasOpenWork work runId then counted
        else counted.update runId (finishRun input.now) (finishRun_id input.now)
    ({ db with work, runs }, (work.get? input.id).map toSyncWork)

def uniqueStreamKeys (keys : List String) : List String :=
  ((keys.map jsTrim).filter (· ≠ "")).dedup

def wakeUnassignedSyncWork (input : WakeUnassignedSyncWork) : SyncTables × Nat :=
  let streamKeys := uniqueStreamKeys input.streamKeys
  if streamKeys.isEmpty then (db, 0)
  else
    let wakes (work : SyncWorkRecord) : Bool :=
      work.installationId = input.installationId && work.runId.isNone &&
        work.status = .pending && streamKeys.contains work.streamKey
    let work := db.work.updateWhere wakes (SyncWorkRecord.wake input.now)
      (SyncWorkRecord.wake_id input.now)
    ({ db with work }, db.work.rows.countP wakes)

/-! ## Catalog and phase rows -/

def membersOf (installationId : String) : List SyncCatalogMember :=
  db.members.filter fun member => member.installationId = installationId

def catalogOrder (left right : SyncCatalogMember) : Bool :=
  if left.lastSeenAt ≠ right.lastSeenAt then right.lastSeenAt < left.lastSeenAt
  else left.streamKey ≤ right.streamKey

def loadSyncCatalog (installationId : String) : SyncCatalogView where
  members := (membersOf db installationId).insertionSort
    (fun left right => catalogOrder left right = true)
  catalog := db.catalogs.get? installationId

def dropStreamsLeftCatalog (installationId : String) (streamKeys : List String)
    (now : Instant) : SyncTables :=
  let states := db.states.filter fun state =>
    !(state.installationId = installationId && streamKeys.contains state.streamKey)
  let work := db.work.updateWhere
    (fun work => work.installationId = installationId && work.runId.isNone &&
      work.isOpen && streamKeys.contains work.streamKey)
    (SyncWorkRecord.cancel now) (SyncWorkRecord.cancel_id now)
  { db with states, work }

def applySyncCatalogPage (input : ApplySyncCatalogPageInput) :
    Except String (SyncTables × SyncCatalogView) :=
  let current := loadSyncCatalog db input.installationId
  let next := applySyncCatalogMembers current input
  if !referencesInstallation db input.installationId then .error foreignKeyFailed
  else
    let stored : SyncTables :=
      { db with
        members := db.members.filter (fun m => m.installationId ≠ input.installationId) ++
          next.members
        catalogs := next.catalog.elim db.catalogs db.catalogs.put }
    let after :=
      if input.complete then
        dropStreamsLeftCatalog stored input.installationId
          (catalogStreamKeysLeft current next) input.now
      else stored
    .ok (after, next)

def historyPolicyForInstall (installationId : String) : HistoryPolicy :=
  ((db.installations.get? installationId).map fun installation =>
    historyPolicyFromConfig installation.historyPolicy).getD defaultHistoryPolicy

def streamOutsideCompleteCatalog (installationId streamKey : String) : Bool :=
  (db.catalogs.get? installationId).any (·.complete) &&
    !db.members.any fun member =>
      member.installationId = installationId && member.streamKey = streamKey

/-- `SELECT lane, status, run_id … WHERE installation_id, stream_key, generation`. -/
def workForStream (state : SyncStreamState) : List SyncWorkRecord :=
  db.work.rows.filter fun work =>
    work.installationId = state.installationId && work.streamKey = state.streamKey &&
      work.generation = state.generation

def dueWork (state : SyncStreamState) (lane : SyncLane) : EnqueueSyncWork where
  id := dueSyncWorkId state.installationId state.streamKey lane state.generation
  installationId := state.installationId
  streamKey := state.streamKey
  lane := lane
  nextDueAt := state.updatedAt
  generation := state.generation
  now := state.updatedAt

/-- Cancel the unassigned pending rows of one lane of the stream. -/
def cancelLane (state : SyncStreamState) (lane : SyncLane) : SyncTables :=
  let work := db.work.updateWhere
    (fun work => work.installationId = state.installationId &&
      work.streamKey = state.streamKey && work.generation = state.generation &&
      work.lane = lane && work.runId.isNone && work.status = .pending)
    (SyncWorkRecord.cancel state.updatedAt) (SyncWorkRecord.cancel_id state.updatedAt)
  { db with work }

def ensureOwedSyncWorkUnlocked (state : SyncStreamState) : Except String SyncTables := do
  let plan := syncWorkEnsurePlan state.phase state.mediaPending (workForStream db state)
    (historyPolicyForInstall db state.installationId)
  let enqueued ← plan.enqueue.foldlM
    (fun db lane => Prod.fst <$> enqueueSyncWorkUnlocked db (dueWork state lane)) db
  return plan.cancel.foldl (fun db lane => cancelLane db state lane) enqueued

def putSyncState (state : SyncStreamState) : Except String (SyncTables × SyncStreamState) := do
  let stored := releaseHistoryPhase state (historyPolicyForInstall db state.installationId)
  if streamOutsideCompleteCatalog db stored.installationId stored.streamKey then
    return (dropStreamsLeftCatalog db stored.installationId [stored.streamKey]
      stored.updatedAt, stored)
  if !referencesInstallation db stored.installationId then
    throw foreignKeyFailed
  let after ← ensureOwedSyncWorkUnlocked { db with states := db.states.put stored } stored
  return (after, stored)

/-- The tables after a transaction: a thrown error rolls it back. -/
def commit {α : Type} (result : Except String (SyncTables × α)) : SyncTables :=
  match result with
  | .ok (after, _) => after
  | .error _ => db

def step : SyncOp → SyncTables
  | .createSyncRun input => commit db (createSyncRun db input)
  | .commandSyncRun input => (commandSyncRun db input).1
  | .enqueueSyncWork input => commit db (enqueueSyncWorkUnlocked db input)
  | .enqueueSyncWorkMany inputs => commit db (enqueueSyncWorkMany db inputs)
  | .claimSyncWork input => (claimSyncWork db input).1
  | .renewSyncWork input => (renewSyncWork db input).1
  | .settleSyncWork input => (settleSyncWork db input).1
  | .wakeUnassignedSyncWork input => (wakeUnassignedSyncWork db input).1
  | .applySyncCatalogPage input => commit db (applySyncCatalogPage db input)
  | .putSyncState state => commit db (putSyncState db state)

end Sqlite

end Regenic.Sync
