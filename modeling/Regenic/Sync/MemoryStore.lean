import Regenic.Sync.SqliteStore

/-!
The in-memory connector runtime store. Rows live in insertion-ordered maps under
their id, with a second map from a row's identity to the id it was stored under.
Nothing rolls back: a thrown error keeps what ran before it.
-/

namespace Regenic.Sync

open Lib

/-- `syncWorkUniqueKey`. -/
structure SyncWorkKey where
  installationId : String
  streamKey : String
  lane : SyncLane
  generation : Int
  deriving DecidableEq, Repr

def EnqueueSyncWork.uniqueKey (input : EnqueueSyncWork) : SyncWorkKey :=
  ⟨input.installationId, input.streamKey, input.lane, input.generation⟩

def SyncWorkRecord.uniqueKey (work : SyncWorkRecord) : SyncWorkKey :=
  ⟨work.installationId, work.streamKey, work.lane, work.generation⟩

structure MemoryTables extends SyncTables where
  workKeys : Table (Prod.fst : SyncWorkKey × String → SyncWorkKey) := ∅

namespace Memory

variable (db : MemoryTables)

def createSyncRun (input : NewSyncRun) : Except String (MemoryTables × SyncRun) := do
  if free : db.runs.get? input.row.id = none then
    validateSyncRunOptions input.options
    if (db.installations.get? input.installationId).all (·.orgId ≠ input.orgId) then
      throw "Connector installation not found for sync run"
    return ({ db with runs := db.runs.insert input.row free }, input.row)
  else
    throw ("Sync run already exists: " ++ input.id)

/-- The run row a command leaves. `updated_at` moves even when nothing else does. -/
def commandRun (input : CommandSyncRun) (run : SyncRun) : SyncRun :=
  if input.command = .pause ∧ syncRunIsClaimable run.status then
    { run with status := .paused, updatedAt := input.now }
  else if input.command = .resume ∧ run.status = .paused then
    { run with status := .queued, finishedAt := none, updatedAt := input.now }
  else if input.command = .cancel ∧ (syncRunIsClaimable run.status ∨ run.status = .paused) then
    { run with status := .cancelled, finishedAt := some input.now, updatedAt := input.now }
  else
    { run with updatedAt := input.now }

theorem commandRun_id (input : CommandSyncRun) (run : SyncRun) :
    (commandRun input run).id = run.id := by
  unfold commandRun
  split_ifs <;> rfl

theorem cancelByCommand_id (input : CommandSyncRun) (work : SyncWorkRecord) :
    (work.cancel input.now).id = work.id := rfl

def commandSyncRun (input : CommandSyncRun) : MemoryTables × Option SyncRun :=
  match (db.runs.get? input.id).filter (·.orgId = input.orgId) with
  | none => (db, none)
  | some run =>
    let runs := db.runs.update input.id (commandRun input) (commandRun_id input)
    let cancels := input.command = .cancel ∧
      (syncRunIsClaimable run.status ∨ run.status = .paused)
    let work :=
      if cancels then
        db.work.updateWhere (fun work => work.runId = some input.id && work.isOpen)
          (SyncWorkRecord.cancel input.now) (cancelByCommand_id input)
      else db.work
    ({ db with runs, work }, runs.get? input.id)

/-- An enqueue of an existing row keeps the run the row already has. -/
def rePend (input : EnqueueSyncWork) (work : SyncWorkRecord) : SyncWorkRecord :=
  { work with
    nextDueAt := input.nextDueAt
    priority := input.priority.getD (syncWorkPriority input.lane)
    status := .pending
    lastError := none
    updatedAt := input.now }

@[simp] theorem rePend_id (input : EnqueueSyncWork) (work : SyncWorkRecord) :
    (rePend input work).id = work.id := rfl

theorem bumpByEnqueue_id (input : EnqueueSyncWork) (run : SyncRun) :
    (Sqlite.bumpRun input.now run).id = run.id := rfl

/-- The id stored under the identity, empty ids reading as absent. -/
def existingId (input : EnqueueSyncWork) : Option String :=
  present ((db.workKeys.get? input.uniqueKey).map Prod.snd)

def enqueueSyncWork (input : EnqueueSyncWork) :
    Except String (MemoryTables × SyncWorkRecord) :=
  match (present input.runId).filter (fun id => (db.runs.get? id).isNone) with
  | some missing => .error ("Sync run not found: " ++ missing)
  | none =>
    match existingId db input with
    | some id =>
      match db.work.get? id with
      | none => .error "Cannot read properties of undefined"
      | some existing =>
        if existing.status = .running then .ok (db, existing)
        else
          let work := db.work.update id (rePend input) (rePend_id input)
          .ok ({ db with work }, rePend input existing)
    | none =>
      let work := db.work.put input.row
      let workKeys := db.workKeys.put (input.uniqueKey, input.id)
      let runs := match present input.runId with
        | some runId => db.runs.update runId (Sqlite.bumpRun input.now) (bumpByEnqueue_id input)
        | none => db.runs
      .ok ({ db with work, workKeys, runs }, input.row)

/-- The inputs up to the first thrown error take effect, and stay. -/
def enqueueSyncWorkMany : MemoryTables → List EnqueueSyncWork →
    MemoryTables × Except String Nat
  | db, [] => (db, .ok 0)
  | db, input :: rest =>
    match enqueueSyncWork db input with
    | .error message => (db, .error message)
    | .ok (after, _) =>
      match enqueueSyncWorkMany after rest with
      | (final, .ok count) => (final, .ok (count + 1))
      | (final, .error message) => (final, .error message)

def claimable (input : ClaimSyncWork) (work : SyncWorkRecord) : Bool :=
  (present input.workId).all (work.id = ·) &&
  (present input.installationId).all (work.installationId = ·) &&
  (input.lanes.isEmpty || input.lanes.contains work.lane) &&
  (!input.unassigned || !work.assigned) &&
  (present work.runId).all (fun runId =>
    (db.runs.get? runId).any fun run => syncRunIsClaimable run.status) &&
  ((work.status = .pending && work.nextDueAt ≤ input.now) ||
    (work.status = .running && work.leaseExpiresAt.any (· ≤ input.now)))

/-- `localeCompare` on ids is the host's collation. -/
def claimsBefore (localeBefore : String → String → Bool) (left right : SyncWorkRecord) : Bool :=
  if left.priority ≠ right.priority then right.priority < left.priority
  else if left.nextDueAt ≠ right.nextDueAt then left.nextDueAt < right.nextDueAt
  else if left.createdAt ≠ right.createdAt then left.createdAt < right.createdAt
  else localeBefore left.id right.id

def claimIds (localeBefore : String → String → Bool) (input : ClaimSyncWork) : List String :=
  (((db.work.rows.filter (claimable db input)).insertionSort
    (fun left right => claimsBefore localeBefore left right = true)).take
      (max 0 input.limit).toNat).map (·.id)

theorem claimBy_id (input : ClaimSyncWork) (work : SyncWorkRecord) :
    (work.claim input.owner input.now (input.now + input.leaseMs)).id = work.id := rfl

theorem startByClaim_id (input : ClaimSyncWork) (run : SyncRun) :
    (Sqlite.startRun input.now run).id = run.id := rfl

def claimSyncWork (localeBefore : String → String → Bool) (input : ClaimSyncWork) :
    MemoryTables × List SyncWorkRecord :=
  let ids := claimIds db localeBefore input
  let work := db.work.updateWhere (fun work => ids.contains work.id)
    (SyncWorkRecord.claim input.owner input.now (input.now + input.leaseMs))
    (claimBy_id input)
  let runs := db.runs.updateWhere
    (fun run => run.status = .queued &&
      work.rows.any (fun work => ids.contains work.id && present work.runId = some run.id))
    (Sqlite.startRun input.now) (startByClaim_id input)
  ({ db with work, runs }, ids.filterMap work.get?)

theorem renewBy_id (input : RenewSyncWork) (work : SyncWorkRecord) :
    (work.renew input.now (input.now + input.leaseMs)).id = work.id := rfl

def renewSyncWork (input : RenewSyncWork) : MemoryTables × Bool :=
  match (db.work.get? input.id).filter (fun work =>
      work.status = .running && work.leaseOwner = some input.owner &&
        work.leaseExpiresAt.any (· > input.now)) with
  | none => (db, false)
  | some _ =>
    let work := db.work.update input.id
      (SyncWorkRecord.renew input.now (input.now + input.leaseMs))
      (renewBy_id input)
    ({ db with work }, true)

/-- A cancelled run takes no counters. Only a failed row records its error. -/
def countSettled (input : SettleSyncWork) (run : SyncRun) : SyncRun :=
  if run.status = .cancelled then run
  else
    { run with
      completedWork := run.completedWork + (if input.outcome = .succeeded then 1 else 0)
      failedWork := run.failedWork + (if input.outcome = .failed then 1 else 0)
      acceptedCount := run.acceptedCount + (input.acceptedCount.getD 0).toNat
      lastError := if input.outcome = .failed then input.errorCode else run.lastError
      updatedAt := input.now }

@[simp] theorem countSettled_id (input : SettleSyncWork) (run : SyncRun) :
    (countSettled input run).id = run.id := by
  unfold countSettled
  split <;> rfl

/-- `settleRunIfComplete`, for a run that is not cancelled. -/
def settleRunIfComplete (remaining : Bool) (now : Instant) (run : SyncRun) : SyncRun :=
  if run.status = .cancelled then run
  else if remaining ∨ run.status = .paused then { run with updatedAt := now }
  else
    { run with
      status := if run.failedWork > 0 then .failed else .succeeded
      finishedAt := some now
      updatedAt := now }

@[simp] theorem settleRunIfComplete_id (remaining : Bool) (now : Instant) (run : SyncRun) :
    (settleRunIfComplete remaining now run).id = run.id := by
  unfold settleRunIfComplete
  split_ifs <;> rfl

theorem completeBySettle_id (input : SettleSyncWork) (remaining : Bool) (run : SyncRun) :
    (settleRunIfComplete remaining input.now run).id = run.id :=
  settleRunIfComplete_id remaining input.now run

def settleSyncWork (input : SettleSyncWork) : MemoryTables × Option SyncWorkRecord :=
  match (db.work.get? input.id).filter (fun work =>
      work.status = .running && work.leaseOwner = some input.owner) with
  | none => (db, none)
  | some current =>
    let work := db.work.update input.id (SyncWorkRecord.settle input) (SyncWorkRecord.settle_id input)
    let runs :=
      match (present current.runId).filter (fun _ => input.outcome ≠ .retry) with
      | none => db.runs
      | some runId =>
        let remaining := Sqlite.hasOpenWork work runId
        let counted := db.runs.update runId (countSettled input) (countSettled_id input)
        counted.update runId (settleRunIfComplete remaining input.now)
          (settleRunIfComplete_id remaining input.now)
    ({ db with work, runs }, work.get? input.id)

theorem wakeBy_id (input : WakeUnassignedSyncWork) (work : SyncWorkRecord) :
    (work.wake input.now).id = work.id := rfl

def wakeUnassignedSyncWork (input : WakeUnassignedSyncWork) : MemoryTables × Nat :=
  let keys := input.streamKeys.filter fun key => jsTrim key ≠ ""
  if keys.isEmpty then (db, 0)
  else
    let wakes (work : SyncWorkRecord) : Bool :=
      work.installationId = input.installationId && !work.assigned &&
        work.status = .pending && keys.contains work.streamKey
    let work := db.work.updateWhere wakes (SyncWorkRecord.wake input.now) (wakeBy_id input)
    ({ db with work }, db.work.rows.countP wakes)

/-! ## Catalog and phase rows -/

def getSyncCatalog (installationId : String) : SyncCatalogView where
  members := Sqlite.membersOf db.toSyncTables installationId
  catalog := db.catalogs.get? installationId

def dropSyncState (installationId : String) (streamKeys : List String) : MemoryTables :=
  let states := db.states.filter fun state =>
    !(state.installationId = installationId && streamKeys.contains state.streamKey)
  { db with states }

def cancelUnassignedStreams (installationId : String) (streamKeys : List String)
    (now : Instant) : MemoryTables :=
  let work := db.work.updateWhere
    (fun work => work.installationId = installationId && !work.assigned &&
      work.isOpen && streamKeys.contains work.streamKey)
    (SyncWorkRecord.cancel now) (SyncWorkRecord.cancel_id now)
  { db with work }

def applyCatalogPage (input : ApplySyncCatalogPageInput) : MemoryTables × SyncCatalogView :=
  let current := getSyncCatalog db input.installationId
  let next := applySyncCatalogMembers current input
  let stored : MemoryTables :=
    { db with
      members := db.members.filter (fun m => m.installationId ≠ input.installationId) ++
        next.members
      catalogs := next.catalog.elim db.catalogs db.catalogs.put }
  let left := catalogStreamKeysLeft current next
  let after :=
    if input.complete then
      cancelUnassignedStreams (dropSyncState stored input.installationId left)
        input.installationId left input.now
    else stored
  (after, next)

def historyPolicyForInstall (installationId : String) : HistoryPolicy :=
  historyPolicyFromConfig ((db.installations.get? installationId).bind (·.historyPolicy))

def workForStream (state : SyncStreamState) : List SyncWorkRecord :=
  db.work.rows.filter fun work =>
    work.installationId = state.installationId && work.streamKey = state.streamKey &&
      work.generation = state.generation

def cancelLane (state : SyncStreamState) (lane : SyncLane) : MemoryTables :=
  let work := db.work.updateWhere
    (fun work => work.installationId = state.installationId &&
      work.streamKey = state.streamKey && work.generation = state.generation &&
      work.lane = lane && !work.assigned && work.status = .pending)
    (SyncWorkRecord.cancel state.updatedAt) state.cancel_id
  { db with work }

def ensureOwedSyncWork (state : SyncStreamState) : MemoryTables :=
  let plan := syncWorkEnsurePlan state.phase state.mediaPending (workForStream db state)
    (historyPolicyForInstall db state.installationId)
  match enqueueSyncWorkMany db (plan.enqueue.map (Sqlite.dueWork state)) with
  | (enqueued, .ok _) => plan.cancel.foldl (fun db lane => cancelLane db state lane) enqueued
  | (enqueued, .error _) => enqueued

def streamOutsideCompleteCatalog (installationId streamKey : String) : Bool :=
  let view := getSyncCatalog db installationId
  view.catalog.any (·.complete) && !view.members.any (·.streamKey = streamKey)

def putSyncState (state : SyncStreamState) : MemoryTables × SyncStreamState :=
  let stored := releaseHistoryPhase state (historyPolicyForInstall db state.installationId)
  if streamOutsideCompleteCatalog db stored.installationId stored.streamKey then
    let dropped := dropSyncState db stored.installationId [stored.streamKey]
    (cancelUnassignedStreams dropped stored.installationId [stored.streamKey]
      stored.updatedAt, stored)
  else
    (ensureOwedSyncWork { db with states := db.states.put stored } stored, stored)

def commit {α : Type} (result : Except String (MemoryTables × α)) : MemoryTables :=
  match result with
  | .ok (after, _) => after
  | .error _ => db

def step (localeBefore : String → String → Bool) : SyncOp → MemoryTables
  | .createSyncRun input => commit db (createSyncRun db input)
  | .commandSyncRun input => (commandSyncRun db input).1
  | .enqueueSyncWork input => commit db (enqueueSyncWork db input)
  | .enqueueSyncWorkMany inputs => (enqueueSyncWorkMany db inputs).1
  | .claimSyncWork input => (claimSyncWork db localeBefore input).1
  | .renewSyncWork input => (renewSyncWork db input).1
  | .settleSyncWork input => (settleSyncWork db input).1
  | .wakeUnassignedSyncWork input => (wakeUnassignedSyncWork db input).1
  | .applySyncCatalogPage input => (applyCatalogPage db input).1
  | .putSyncState state => (putSyncState db state).1

end Memory

end Regenic.Sync
