import Regenic.Ingest.Events
import Regenic.Sync.Poll

/-!
The connector runtime tables of the SQLite store: one cursor row for each stream, which
is also the row of its lease, and the attempts and quarantines of its pages. Every
operation is one immediate transaction.
-/

namespace Regenic.Sync

open Lib Ingest

structure ConnectorCursorRow where
  installationId : String
  streamKey : String
  cursorValue : Option String
  cursorVersion : Nat
  leaseOwner : Option String
  leaseExpiresAt : Option Instant
  updatedAt : Instant
  deriving DecidableEq, Repr

/-- Installation and stream key. -/
abbrev StreamId := String × String

def ConnectorCursorRow.stream (row : ConnectorCursorRow) : StreamId :=
  (row.installationId, row.streamKey)

inductive IngestAttemptStatus where
  | running
  | succeeded
  | failed
  deriving DecidableEq, Repr

structure NewIngestAttempt where
  id : String
  orgId : String
  connectorInstallationId : String
  streamKey : String
  deliveryId : String
  startedAt : Instant
  deriving DecidableEq, Repr

structure IngestAttempt extends NewIngestAttempt where
  finishedAt : Option Instant := none
  status : IngestAttemptStatus := .running
  acceptedCount : Nat := 0
  duplicateCount : Nat := 0
  quarantinedCount : Nat := 0
  retryableFailureCount : Nat := 0
  errorCode : Option IngestErrorCode := none
  deriving DecidableEq, Repr

structure NewIngestQuarantine where
  id : String
  recordExternalId : String
  reasonCode : IngestErrorCode
  createdAt : Instant
  deriving DecidableEq, Repr

structure IngestQuarantine extends NewIngestQuarantine where
  attemptId : String
  deriving DecidableEq, Repr

inductive HiddenReason where
  | human
  | policy
  deriving DecidableEq, Repr

structure ConversationPref where
  orgId : String
  threadId : String
  title : Option String := none
  pinned : Bool := false
  hidden : Bool := false
  hiddenReason : Option HiddenReason := none
  lastReadAt : Option Instant := none
  lastReadExternalId : Option String := none
  updatedAt : Instant
  deriving DecidableEq, Repr

/-- An outer `none` leaves the column, an inner one writes null. -/
structure ConversationPrefPatch where
  orgId : String
  threadId : String
  title : Option (Option String) := none
  pinned : Option Bool := none
  hidden : Option Bool := none
  hiddenReason : Option (Option HiddenReason) := none
  lastReadAt : Option (Option Instant) := none
  lastReadExternalId : Option (Option String) := none
  updatedAt : Instant
  deriving DecidableEq, Repr

structure RuntimeTables where
  installations : Table ConnectorInstallation.id := ∅
  cursors : Table ConnectorCursorRow.stream := ∅
  attempts : Table (fun attempt : IngestAttempt => attempt.id) := ∅
  quarantines : Table (fun quarantine : IngestQuarantine => quarantine.id) := ∅
  prefs : Table (fun pref : ConversationPref => (pref.orgId, pref.threadId)) := ∅
  authority : AuthorityTables := {}

structure AcquireConnectorLease where
  installationId : String
  streamKey : String
  leaseOwner : String
  now : Instant
  leaseDurationMs : Nat
  preempt : Bool := false
  deriving DecidableEq, Repr

structure ReleaseConnectorLease where
  installationId : String
  streamKey : String
  leaseOwner : String
  now : Instant
  deriving DecidableEq, Repr

structure ResetConnectorCursor where
  installationId : String
  streamKey : String
  now : Instant
  deriving DecidableEq, Repr

structure SettleIngestAttempt where
  attemptId : String
  installationId : String
  streamKey : String
  leaseOwner : String
  finishedAt : Instant
  acceptedCount : Nat := 0
  duplicateCount : Nat := 0
  quarantinedCount : Nat := 0
  retryableFailureCount : Nat := 0
  errorCode : Option IngestErrorCode := none
  nextCursor : Option String := none
  quarantines : List NewIngestQuarantine := []
  deriving DecidableEq, Repr

def SettleIngestAttempt.stream (input : SettleIngestAttempt) : StreamId :=
  (input.installationId, input.streamKey)

def SettleIngestAttempt.advancesCursor (input : SettleIngestAttempt) : Bool :=
  input.retryableFailureCount = 0 && input.nextCursor.isSome

structure CommitSyncPage where
  attempt : NewIngestAttempt
  ingest : Option IngestCommitRequest := none
  settle : SettleIngestAttempt
  prefs : List ConversationPrefPatch := []
  deriving DecidableEq, Repr

inductive LeaseOp where
  | acquireLease (input : AcquireConnectorLease)
  | releaseLease (input : ReleaseConnectorLease)
  | resetCursor (input : ResetConnectorCursor)
  | beginAttempt (input : NewIngestAttempt)
  | commitSyncPage (input : CommitSyncPage)
  | settleAttempt (input : SettleIngestAttempt)
  deriving DecidableEq, Repr

def leaseNotHeld : String := "Connector lease is not held by the attempt owner"

namespace ConnectorCursorRow

variable (row : ConnectorCursorRow)

def grant (owner : String) (expiresAt now : Instant) : ConnectorCursorRow :=
  { row with leaseOwner := some owner, leaseExpiresAt := some expiresAt, updatedAt := now }

def release (now : Instant) : ConnectorCursorRow :=
  { row with leaseOwner := none, leaseExpiresAt := none, updatedAt := now }

def reset (now : Instant) : ConnectorCursorRow :=
  { row with
    cursorValue := none
    cursorVersion := row.cursorVersion + 1
    leaseOwner := none
    leaseExpiresAt := none
    updatedAt := now }

/-- `cursor_value`, `cursor_version` and the lease columns as a settle leaves them. -/
def settle (input : SettleIngestAttempt) : ConnectorCursorRow :=
  { row with
    cursorValue := settledCursor input.retryableFailureCount input.nextCursor row.cursorValue
    cursorVersion := if input.advancesCursor then row.cursorVersion + 1 else row.cursorVersion
    leaseOwner := none
    leaseExpiresAt := none
    updatedAt := input.finishedAt }

@[simp] theorem grant_stream (owner : String) (expiresAt now : Instant) :
    (row.grant owner expiresAt now).stream = row.stream := rfl

@[simp] theorem release_stream (now : Instant) : (row.release now).stream = row.stream := rfl

@[simp] theorem reset_stream (now : Instant) : (row.reset now).stream = row.stream := rfl

@[simp] theorem settle_stream (input : SettleIngestAttempt) :
    (row.settle input).stream = row.stream := rfl

theorem settle_cursorValue (input : SettleIngestAttempt) : (row.settle input).cursorValue =
    if input.advancesCursor = true then input.nextCursor else row.cursorValue := by
  by_cases hcount : input.retryableFailureCount = 0
  · cases hnext : input.nextCursor with
    | none => simp [settle, settledCursor, SettleIngestAttempt.advancesCursor, hnext]
    | some cursor => simp [settle, settledCursor, SettleIngestAttempt.advancesCursor, hnext,
        hcount]
  · simp [settle, settledCursor, SettleIngestAttempt.advancesCursor, hcount]

end ConnectorCursorRow

def IngestAttempt.settle (attempt : IngestAttempt) (input : SettleIngestAttempt) :
    IngestAttempt :=
  { attempt with
    finishedAt := some input.finishedAt
    status := if input.retryableFailureCount = 0 then .succeeded else .failed
    acceptedCount := input.acceptedCount
    duplicateCount := input.duplicateCount
    quarantinedCount := input.quarantinedCount
    retryableFailureCount := input.retryableFailureCount
    errorCode := input.errorCode }

@[simp] theorem IngestAttempt.settle_id (input : SettleIngestAttempt)
    (attempt : IngestAttempt) : (attempt.settle input).id = attempt.id := rfl

def ConversationPref.patch (current : Option ConversationPref) (input : ConversationPrefPatch) :
    ConversationPref :=
  let hidden := input.hidden.getD (current.any (·.hidden))
  { orgId := input.orgId
    threadId := input.threadId
    title := input.title.getD (current.bind (·.title))
    pinned := input.pinned.getD (current.any (·.pinned))
    hidden
    hiddenReason :=
      if hidden then
        input.hiddenReason.getD
          (current.bind (·.hiddenReason) <|>
            if input.hidden = some true then some .human else none)
      else none
    lastReadAt := input.lastReadAt.getD (current.bind (·.lastReadAt))
    lastReadExternalId := input.lastReadExternalId.getD (current.bind (·.lastReadExternalId))
    updatedAt := input.updatedAt }

namespace AcquireConnectorLease

variable (input : AcquireConnectorLease)

def stream : StreamId := (input.installationId, input.streamKey)

def leaseExpiresAt : Instant := input.now + input.leaseDurationMs

/-- The row of a stream that was never leased. -/
def openRow : ConnectorCursorRow where
  installationId := input.installationId
  streamKey := input.streamKey
  cursorValue := none
  cursorVersion := 1
  leaseOwner := some input.leaseOwner
  leaseExpiresAt := some input.leaseExpiresAt
  updatedAt := input.now

@[simp] theorem openRow_stream : input.openRow.stream = input.stream := rfl

end AcquireConnectorLease

namespace Runtime

variable (db : RuntimeTables)

/-- The lease is out of reach of `owner` until it expires or is preempted. -/
def leaseBlocks (input : AcquireConnectorLease) (current : ConnectorCursorRow) : Bool :=
  !input.preempt && current.leaseExpiresAt.any (fun expiresAt => input.now < expiresAt) &&
    current.leaseOwner ≠ some input.leaseOwner

/-- The row the caller gets back is none when the lease is refused. -/
def acquireLease (input : AcquireConnectorLease) :
    RuntimeTables × Option ConnectorCursorRow :=
  if (db.installations.get? input.installationId).all (·.status ≠ .enabled) then (db, none)
  else if free : db.cursors.get? input.stream = none then
    let cursors := db.cursors.insert input.openRow (input.openRow_stream ▸ free)
    ({ db with cursors }, some input.openRow)
  else if (db.cursors.get? input.stream).any (leaseBlocks input) then (db, none)
  else
    let cursors := db.cursors.update input.stream
      (fun row => row.grant input.leaseOwner input.leaseExpiresAt input.now)
      fun row => row.grant_stream input.leaseOwner input.leaseExpiresAt input.now
    ({ db with cursors }, cursors.get? input.stream)

/-- Whether the lease is held by `owner`. -/
def heldBy (stream : StreamId) (owner : String) : Bool :=
  (db.cursors.get? stream).any (·.leaseOwner = some owner)

def releaseLease (input : ReleaseConnectorLease) : RuntimeTables × Bool :=
  let stream : StreamId := (input.installationId, input.streamKey)
  if heldBy db stream input.leaseOwner then
    let cursors := db.cursors.update stream (fun row => row.release input.now)
      fun row => row.release_stream input.now
    ({ db with cursors }, true)
  else (db, false)

def resetCursor (input : ResetConnectorCursor) :
    Except String (RuntimeTables × Option ConnectorCursorRow) :=
  let stream : StreamId := (input.installationId, input.streamKey)
  match db.cursors.get? stream with
  | none => .ok (db, none)
  | some cursor =>
    if cursor.leaseExpiresAt.any (fun expiresAt => input.now < expiresAt) then
      .error "Connector cursor is leased and cannot be reset"
    else
      let cursors := db.cursors.update stream (fun row => row.reset input.now)
        fun row => row.reset_stream input.now
      .ok ({ db with cursors }, cursors.get? stream)

def beginAttemptUnlocked (input : NewIngestAttempt) : Except AuthorityError RuntimeTables :=
  let attempt : IngestAttempt := { toNewIngestAttempt := input }
  if free : db.attempts.get? input.id = none then
    if (db.installations.get? input.connectorInstallationId).isSome then
      .ok { db with attempts := db.attempts.insert attempt free }
    else .error (.failed AuthorityTables.foreignKeyFailed)
  else .error (.failed "UNIQUE constraint failed: ingest_attempts.id")

def commitIngest (request : Option IngestCommitRequest) : Except AuthorityError RuntimeTables :=
  match request with
  | none => .ok db
  | some request =>
    (db.authority.commitIngestUnlocked request).map fun authority => { db with authority }

def putConversationPrefUnlocked (input : ConversationPrefPatch) : RuntimeTables :=
  let current := db.prefs.get? (input.orgId, input.threadId)
  { db with prefs := db.prefs.put (ConversationPref.patch current input) }

def insertQuarantine (attemptId : String) (input : NewIngestQuarantine) :
    Except AuthorityError RuntimeTables :=
  let quarantine : IngestQuarantine := { toNewIngestQuarantine := input, attemptId }
  if free : db.quarantines.get? input.id = none then
    if (db.attempts.get? attemptId).isSome then
      .ok { db with quarantines := db.quarantines.insert quarantine free }
    else .error (.failed AuthorityTables.foreignKeyFailed)
  else .error (.failed "UNIQUE constraint failed: ingest_quarantines.id")

def insertQuarantines (attemptId : String) (quarantines : List NewIngestQuarantine) :
    Except AuthorityError RuntimeTables :=
  quarantines.foldlM (insertQuarantine · attemptId) db

def settleAttemptUnlocked (input : SettleIngestAttempt) :
    Except AuthorityError RuntimeTables := do
  if ¬ heldBy db input.stream input.leaseOwner then
    throw (.failed leaseNotHeld)
  let attempts := db.attempts.update input.attemptId (fun attempt => attempt.settle input)
    fun attempt => attempt.settle_id input
  let db ← insertQuarantines { db with attempts } input.attemptId input.quarantines
  if ¬ heldBy db input.stream input.leaseOwner then
    throw (.failed leaseNotHeld)
  let cursors := db.cursors.update input.stream (fun row => row.settle input)
    fun row => row.settle_stream input
  return { db with cursors }

def commitSyncPageUnlocked (input : CommitSyncPage) : Except AuthorityError RuntimeTables := do
  let db ← beginAttemptUnlocked db input.attempt
  let db ← commitIngest db input.ingest
  let db := input.prefs.foldl putConversationPrefUnlocked db
  settleAttemptUnlocked db input.settle

/-- A transaction that throws rolls back. -/
def transact {ε : Type} : Except ε RuntimeTables → RuntimeTables
  | .ok db' => db'
  | .error _ => db

def step (op : LeaseOp) : RuntimeTables :=
  match op with
  | .acquireLease input => (acquireLease db input).1
  | .releaseLease input => (releaseLease db input).1
  | .resetCursor input => transact db ((resetCursor db input).map Prod.fst)
  | .beginAttempt input => transact db (beginAttemptUnlocked db input)
  | .commitSyncPage input => transact db (commitSyncPageUnlocked db input)
  | .settleAttempt input => transact db (settleAttemptUnlocked db input)

/-- What the caller sees: a lease, `true`, a cursor, or no error. -/
def succeeds (op : LeaseOp) : Bool :=
  match op with
  | .acquireLease input => (acquireLease db input).2.isSome
  | .releaseLease input => (releaseLease db input).2
  | .resetCursor input => (resetCursor db input).toOption.any (·.2.isSome)
  | .beginAttempt input => (beginAttemptUnlocked db input).isOk
  | .commitSyncPage input => (commitSyncPageUnlocked db input).isOk
  | .settleAttempt input => (settleAttemptUnlocked db input).isOk

/-! ## What each operation does to the cursor rows -/

theorem insertQuarantines_cursors {db db' : RuntimeTables} {attemptId : String}
    {quarantines : List NewIngestQuarantine}
    (h : insertQuarantines db attemptId quarantines = .ok db') : db'.cursors = db.cursors := by
  refine foldlM_invariant (fun t => t.cursors = db.cursors) ?_ quarantines db db' rfl h
  intro t quarantine t' ht hinsert
  unfold insertQuarantine at hinsert
  simp only at hinsert
  split at hinsert
  · split at hinsert
    · cases hinsert
      exact ht
    · cases hinsert
  · cases hinsert

theorem settleAttemptUnlocked_ok {db db' : RuntimeTables} {input : SettleIngestAttempt}
    (h : settleAttemptUnlocked db input = .ok db') :
    heldBy db input.stream input.leaseOwner = true ∧
      db'.cursors = db.cursors.update input.stream (fun row => row.settle input)
        fun row => row.settle_stream input := by
  unfold settleAttemptUnlocked at h
  cases hheld : heldBy db input.stream input.leaseOwner with
  | false =>
    simp only [hheld, Bool.false_eq_true, not_false_eq_true, if_true] at h
    cases h
  | true =>
    simp only [hheld, not_true_eq_false, if_false] at h
    cases hquarantines : insertQuarantines
        { db with
          attempts := db.attempts.update input.attemptId (fun attempt => attempt.settle input)
            fun attempt => attempt.settle_id input } input.attemptId input.quarantines with
    | error error =>
      rw [hquarantines] at h
      cases h
    | ok next =>
      rw [hquarantines] at h
      have hcursors := insertQuarantines_cursors hquarantines
      change next.cursors = db.cursors at hcursors
      have hstill : heldBy next input.stream input.leaseOwner = true := by
        unfold heldBy at hheld ⊢
        rw [hcursors]
        exact hheld
      simp only [bind, Except.bind, pure, Except.pure, hstill, not_true_eq_false,
        if_false] at h
      cases h
      exact ⟨rfl, by rw [hcursors]⟩

theorem foldl_putConversationPref_cursors (prefs : List ConversationPrefPatch) :
    (prefs.foldl putConversationPrefUnlocked db).cursors = db.cursors := by
  induction prefs generalizing db with
  | nil => rfl
  | cons pref rest ih => exact ih (putConversationPrefUnlocked db pref)

theorem beginAttemptUnlocked_cursors {db db' : RuntimeTables} {input : NewIngestAttempt}
    (h : beginAttemptUnlocked db input = .ok db') : db'.cursors = db.cursors := by
  unfold beginAttemptUnlocked at h
  simp only at h
  split at h
  · split at h
    · cases h
      rfl
    · cases h
  · cases h

theorem commitIngest_cursors {db db' : RuntimeTables} {request : Option IngestCommitRequest}
    (h : commitIngest db request = .ok db') : db'.cursors = db.cursors := by
  cases request with
  | none =>
    cases h
    rfl
  | some request =>
    simp only [commitIngest] at h
    cases hcommit : db.authority.commitIngestUnlocked request with
    | error error =>
      rw [hcommit] at h
      cases h
    | ok authority =>
      rw [hcommit] at h
      cases h
      rfl

/-- A page commit gets as far as its settle only when its owner holds the lease. -/
theorem commitSyncPageUnlocked_ok {db db' : RuntimeTables} {input : CommitSyncPage}
    (h : commitSyncPageUnlocked db input = .ok db') :
    heldBy db input.settle.stream input.settle.leaseOwner = true ∧
      db'.cursors = db.cursors.update input.settle.stream (fun row => row.settle input.settle)
        fun row => row.settle_stream input.settle := by
  unfold commitSyncPageUnlocked at h
  cases hbegin : beginAttemptUnlocked db input.attempt with
  | error error =>
    rw [hbegin] at h
    cases h
  | ok begun =>
    cases hingest : commitIngest begun input.ingest with
    | error error =>
      simp only [hbegin, bind, Except.bind, hingest] at h
      cases h
    | ok ingested =>
      simp only [hbegin, bind, Except.bind, hingest] at h
      have hcursors : (input.prefs.foldl putConversationPrefUnlocked ingested).cursors =
          db.cursors := by
        rw [foldl_putConversationPref_cursors, commitIngest_cursors hingest,
          beginAttemptUnlocked_cursors hbegin]
      obtain ⟨hheld, hsettled⟩ := settleAttemptUnlocked_ok h
      rw [hcursors] at hsettled
      unfold heldBy at hheld ⊢
      rw [hcursors] at hheld
      exact ⟨hheld, hsettled⟩

end Runtime

end Regenic.Sync
