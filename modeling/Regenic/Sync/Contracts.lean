import Regenic.Lib.Table
import Regenic.Lib.Text

/-!
The contracts of the sync plane: lanes, phases, the catalog of streams, sync
runs and the durable work rows. Instants are epoch milliseconds; the source
keeps ISO strings, which order the same way.
-/

namespace Regenic.Sync

open Lib

abbrev Instant := Int

inductive SyncLane where
  | interactive
  | live
  | catalog
  | history
  | media
  deriving DecidableEq, Repr

inductive SyncPhase where
  | unseeded
  | live
  | history
  | steady
  deriving DecidableEq, Repr

/-- Whether an installation backfills older messages. -/
inductive HistoryPolicy where
  | backfill
  | incremental
  deriving DecidableEq, Repr

def defaultHistoryPolicy : HistoryPolicy := .backfill

/-- `configPolicy` is the `history_policy` entry of the configuration when it is
a string. -/
def historyPolicyFromConfig (configPolicy : Option String) : HistoryPolicy :=
  match configPolicy with
  | none => defaultHistoryPolicy
  | some raw =>
    let value := jsLower (jsTrim raw)
    if value = "backfill" then .backfill
    else if value = "incremental" then .incremental
    else defaultHistoryPolicy

inductive InstallationStatus where
  | enabled
  | disabled
  | needsAttention
  deriving DecidableEq, Repr

structure ConnectorInstallation where
  id : String
  orgId : String
  status : InstallationStatus
  historyPolicy : Option String
  deriving DecidableEq, Repr

def syncCatalogStream : String := "__catalog__"

structure SyncDirectoryMember where
  streamKey : String
  threadId : Option String := none
  label : Option String := none
  kind : Option String := none
  deriving DecidableEq, Repr

structure SyncCatalogMember where
  installationId : String
  streamKey : String
  threadId : Option String := none
  label : Option String := none
  kind : Option String := none
  generation : Int
  discoveredAt : Instant
  lastSeenAt : Instant
  deriving DecidableEq, Repr

structure SyncCatalogSnapshot where
  installationId : String
  cursor : Option String
  complete : Bool
  generation : Int
  updatedAt : Instant
  deriving DecidableEq, Repr

structure SyncCatalogView where
  members : List SyncCatalogMember
  catalog : Option SyncCatalogSnapshot
  deriving DecidableEq, Repr

structure SyncStreamState where
  installationId : String
  streamKey : String
  phase : SyncPhase
  liveCursor : Option String := none
  historyCursor : Option String := none
  mediaPending : Bool
  idleUntil : Option Instant := none
  generation : Int
  updatedAt : Instant
  deriving DecidableEq, Repr

structure ApplySyncCatalogPageInput where
  installationId : String
  members : List SyncDirectoryMember
  now : Instant
  nextCursor : Option String := none
  complete : Bool
  replaces : Bool := false
  deriving DecidableEq, Repr

/-! ## Sync runs and sync work -/

inductive SyncRunMode where
  | quickStart
  | continuous
  | archive
  deriving DecidableEq, Repr

inductive SyncRunStatus where
  | queued
  | running
  | paused
  | succeeded
  | failed
  | cancelled
  deriving DecidableEq, Repr

structure SyncRunWindow where
  startHour : Int
  endHour : Int
  timezone : Option String := none
  deriving DecidableEq, Repr

structure SyncRunOptions where
  maxPages : Option Int := none
  streamKeys : Option (List String) := none
  archiveFrom : Option String := none
  archiveTo : Option String := none
  runWindow : Option SyncRunWindow := none
  deriving DecidableEq, Repr

structure SyncRun where
  id : String
  orgId : String
  installationId : String
  mode : SyncRunMode
  status : SyncRunStatus
  options : SyncRunOptions
  totalWork : Nat
  completedWork : Nat
  failedWork : Nat
  acceptedCount : Nat
  startedAt : Option Instant := none
  finishedAt : Option Instant := none
  lastError : Option String := none
  createdAt : Instant
  updatedAt : Instant
  deriving DecidableEq, Repr

structure NewSyncRun where
  id : String
  orgId : String
  installationId : String
  mode : SyncRunMode
  options : SyncRunOptions := {}
  now : Instant
  deriving DecidableEq, Repr

inductive SyncRunCommand where
  | pause
  | resume
  | cancel
  deriving DecidableEq, Repr

structure CommandSyncRun where
  id : String
  orgId : String
  command : SyncRunCommand
  now : Instant
  deriving DecidableEq, Repr

inductive SyncWorkStatus where
  | pending
  | running
  | succeeded
  | failed
  | cancelled
  deriving DecidableEq, Repr

structure SyncWorkRecord where
  id : String
  runId : Option String := none
  installationId : String
  streamKey : String
  lane : SyncLane
  priority : Int
  nextDueAt : Instant
  status : SyncWorkStatus
  attempts : Nat
  generation : Int
  leaseOwner : Option String := none
  leaseExpiresAt : Option Instant := none
  lastError : Option String := none
  createdAt : Instant
  updatedAt : Instant
  deriving DecidableEq, Repr

structure EnqueueSyncWork where
  id : String
  runId : Option String := none
  installationId : String
  streamKey : String
  lane : SyncLane
  priority : Option Int := none
  nextDueAt : Instant
  generation : Int
  now : Instant
  deriving DecidableEq, Repr

structure ClaimSyncWork where
  owner : String
  now : Instant
  leaseMs : Int
  limit : Int
  workId : Option String := none
  installationId : Option String := none
  lanes : List SyncLane := []
  unassigned : Bool := false
  deriving DecidableEq, Repr

structure RenewSyncWork where
  id : String
  owner : String
  now : Instant
  leaseMs : Int
  deriving DecidableEq, Repr

inductive SyncWorkOutcome where
  | succeeded
  | retry
  | failed
  | cancelled
  deriving DecidableEq, Repr

structure SettleSyncWork where
  id : String
  owner : String
  now : Instant
  outcome : SyncWorkOutcome
  acceptedCount : Option Int := none
  nextDueAt : Option Instant := none
  errorCode : Option String := none
  deriving DecidableEq, Repr

structure WakeUnassignedSyncWork where
  installationId : String
  streamKeys : List String
  now : Instant
  deriving DecidableEq, Repr

def syncRunIsClaimable (status : SyncRunStatus) : Bool :=
  status = .queued || status = .running

def syncWorkPriority : SyncLane → Int
  | .interactive => 600
  | .live => 500
  | .catalog => 400
  | .history => 200
  | .media => 100

/-- `Number.isInteger` is the type of `maxPages` and of the hours. -/
def validateSyncRunOptions (options : SyncRunOptions) : Except String Unit := do
  if options.maxPages.any (fun pages => pages < 1) then
    throw "sync run max_pages must be a positive integer"
  if options.streamKeys.any (fun keys => keys.any fun key => jsTrim key = "") then
    throw "sync run stream_keys must contain non-empty strings"
  if options.runWindow.any (fun window => window.startHour < 0 || window.startHour > 23 ||
      window.endHour < 0 || window.endHour > 23) then
    throw "sync run window hours must be between 0 and 23"

/-! ## Phase duties -/

inductive MessageDuty where
  | history
  | live
  deriving DecidableEq, Repr

def messageDuty (phase : SyncPhase) (policy : HistoryPolicy) : MessageDuty :=
  if policy = .backfill ∧ phase = .history then .history else .live

/-- The lanes a phase owes. Incremental installations never owe history. -/
def owedSyncLanes (phase : SyncPhase) (mediaPending : Bool) (policy : HistoryPolicy) :
    List SyncLane :=
  let lanes := if messageDuty phase policy = .history then [SyncLane.history] else [.live]
  if mediaPending then lanes ++ [.media] else lanes

/-- Incremental installs do not stay in the history phase. -/
def releaseHistoryPhase (state : SyncStreamState) (policy : HistoryPolicy) :
    SyncStreamState :=
  if policy = .incremental ∧ state.phase = .history then { state with phase := .live }
  else state

@[simp] theorem releaseHistoryPhase_installationId (state : SyncStreamState)
    (policy : HistoryPolicy) :
    (releaseHistoryPhase state policy).installationId = state.installationId := by
  unfold releaseHistoryPhase
  split <;> rfl

@[simp] theorem releaseHistoryPhase_streamKey (state : SyncStreamState)
    (policy : HistoryPolicy) :
    (releaseHistoryPhase state policy).streamKey = state.streamKey := by
  unfold releaseHistoryPhase
  split <;> rfl

/-- A released phase owes history only when its policy backfills. -/
theorem releaseHistoryPhase_backfill {state : SyncStreamState} {policy : HistoryPolicy}
    (h : (releaseHistoryPhase state policy).phase = .history) : policy = .backfill := by
  unfold releaseHistoryPhase at h
  split at h
  · cases h
  · next hnot =>
    cases policy with
    | backfill => rfl
    | incremental => exact absurd ⟨rfl, h⟩ hnot

/-! ## The rows as the stores rewrite them -/

/-- A row that is pending or running. -/
def SyncWorkRecord.isOpen (work : SyncWorkRecord) : Bool :=
  work.status = .pending || work.status = .running

/-- `Boolean(work.run_id)`. -/
def SyncWorkRecord.assigned (work : SyncWorkRecord) : Bool := (present work.runId).isSome

def SyncWorkRecord.claim (owner : String) (now leaseExpiresAt : Instant)
    (work : SyncWorkRecord) : SyncWorkRecord :=
  { work with
    status := .running
    attempts := work.attempts + 1
    leaseOwner := some owner
    leaseExpiresAt := some leaseExpiresAt
    updatedAt := now }

def SyncWorkRecord.renew (now leaseExpiresAt : Instant) (work : SyncWorkRecord) :
    SyncWorkRecord :=
  { work with leaseExpiresAt := some leaseExpiresAt, updatedAt := now }

/-- `input.outcome === "retry" ? "pending" : input.outcome`. -/
def SyncWorkOutcome.status : SyncWorkOutcome → SyncWorkStatus
  | .succeeded => .succeeded
  | .retry => .pending
  | .failed => .failed
  | .cancelled => .cancelled

def SyncWorkRecord.settle (input : SettleSyncWork) (work : SyncWorkRecord) :
    SyncWorkRecord :=
  { work with
    status := input.outcome.status
    nextDueAt := input.nextDueAt.getD work.nextDueAt
    leaseOwner := none
    leaseExpiresAt := none
    lastError := input.errorCode
    updatedAt := input.now }

def SyncWorkRecord.cancel (now : Instant) (work : SyncWorkRecord) : SyncWorkRecord :=
  { work with
    status := .cancelled
    leaseOwner := none
    leaseExpiresAt := none
    updatedAt := now }

def SyncWorkRecord.wake (now : Instant) (work : SyncWorkRecord) : SyncWorkRecord :=
  { work with nextDueAt := now, updatedAt := now }

@[simp] theorem SyncWorkRecord.claim_id (owner : String) (now leaseExpiresAt : Instant)
    (work : SyncWorkRecord) : (work.claim owner now leaseExpiresAt).id = work.id := rfl

@[simp] theorem SyncWorkRecord.renew_id (now leaseExpiresAt : Instant)
    (work : SyncWorkRecord) : (work.renew now leaseExpiresAt).id = work.id := rfl

@[simp] theorem SyncWorkRecord.settle_id (input : SettleSyncWork) (work : SyncWorkRecord) :
    (work.settle input).id = work.id := rfl

@[simp] theorem SyncWorkRecord.cancel_id (now : Instant) (work : SyncWorkRecord) :
    (work.cancel now).id = work.id := rfl

theorem SyncStreamState.cancel_id (state : SyncStreamState) (work : SyncWorkRecord) :
    (work.cancel state.updatedAt).id = work.id := rfl

@[simp] theorem SyncWorkRecord.wake_id (now : Instant) (work : SyncWorkRecord) :
    (work.wake now).id = work.id := rfl

/-- The row an enqueue inserts when its identity is free. -/
def EnqueueSyncWork.row (input : EnqueueSyncWork) : SyncWorkRecord where
  id := input.id
  runId := input.runId
  installationId := input.installationId
  streamKey := input.streamKey
  lane := input.lane
  priority := input.priority.getD (syncWorkPriority input.lane)
  nextDueAt := input.nextDueAt
  status := .pending
  attempts := 0
  generation := input.generation
  createdAt := input.now
  updatedAt := input.now

/-- The identity under which an enqueue finds an existing row. -/
def EnqueueSyncWork.names (input : EnqueueSyncWork) (work : SyncWorkRecord) : Bool :=
  work.installationId = input.installationId && work.streamKey = input.streamKey &&
    work.lane = input.lane && work.generation = input.generation

def NewSyncRun.row (input : NewSyncRun) : SyncRun where
  id := input.id
  orgId := input.orgId
  installationId := input.installationId
  mode := input.mode
  status := .queued
  options := input.options
  totalWork := 0
  completedWork := 0
  failedWork := 0
  acceptedCount := 0
  createdAt := input.now
  updatedAt := input.now

/-- Rows as the store hands them out: an empty column reads as absent. -/
def toSyncWork (row : SyncWorkRecord) : SyncWorkRecord :=
  { row with
    runId := present row.runId
    leaseOwner := present row.leaseOwner
    lastError := present row.lastError }

/-- `priority DESC, next_due_at, created_at, id`: which of two due rows is
claimed first. -/
def claimsBefore (left right : SyncWorkRecord) : Bool :=
  if left.priority ≠ right.priority then right.priority < left.priority
  else if left.nextDueAt ≠ right.nextDueAt then left.nextDueAt < right.nextDueAt
  else if left.createdAt ≠ right.createdAt then left.createdAt < right.createdAt
  else left.id ≤ right.id

/-- `due:` rows are named by the lane they serve, so a repair finds its own row. -/
def SyncLane.name : SyncLane → String
  | .interactive => "interactive"
  | .live => "live"
  | .catalog => "catalog"
  | .history => "history"
  | .media => "media"

def dueSyncWorkId (installationId streamKey : String) (lane : SyncLane) (generation : Int) :
    String :=
  "due:" ++ installationId ++ ":" ++ lane.name ++ ":" ++ toString generation ++ ":" ++
    streamKey

theorem SyncLane.name_injective {left right : SyncLane} (h : left.name = right.name) :
    left = right := by
  cases left <;> cases right <;> first | rfl | (revert h; decide)

/-- The due rows of one stream and generation are told apart by their lane. -/
theorem dueSyncWorkId_lane {installationId streamKey : String} {left right : SyncLane}
    {generation : Int} (h : dueSyncWorkId installationId streamKey left generation =
      dueSyncWorkId installationId streamKey right generation) : left = right := by
  unfold dueSyncWorkId at h
  simp only [String.append_left_inj, String.append_right_inj] at h
  exact SyncLane.name_injective h

end Regenic.Sync
