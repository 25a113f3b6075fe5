import Regenic.Sync.Contracts

/-!
Poll cursors and phases of one stream: which cursor a poll hands to its connector,
which stored cursor a page may write, and how a poll outcome advances the stored state.
-/

namespace Regenic.Sync

open Lib

structure SyncPollHint where
  liveSeeded : Option Bool := none
  historyPending : Option Bool := none
  deriving DecidableEq, Repr

inductive CursorKind where
  | live
  | history
  | scroll
  deriving DecidableEq, Repr

def cursorKindFromPoll (older : Bool) (before : Option String) : CursorKind :=
  if (present (before.map jsTrim)).isSome then .scroll
  else if older then .history
  else .live

structure CursorWrite where
  live : Bool
  history : Bool
  lease : Bool
  deriving DecidableEq, Repr

def cursorWriteFor (kind : CursorKind) (seedHistory : Bool) : CursorWrite :=
  match kind with
  | .scroll => ⟨false, false, false⟩
  | .history => ⟨false, true, true⟩
  | .live => ⟨true, seedHistory, true⟩

/-- `history_pending` decides backfill. It does not make a live page continue. -/
def sameLaneContinues (kind : CursorKind) (hasMore historyPending : Bool) : Bool :=
  match kind with
  | .scroll => false
  | .history => hasMore
  | .live => if historyPending then false else hasMore

def shouldSeedHistoryCursor (policy : HistoryPolicy) (phase : Option SyncPhase)
    (historyCursor : Option String) (historyPending : Bool) : Bool :=
  if policy ≠ .backfill || !historyPending then false
  else if (present (historyCursor.map jsTrim)).isSome then false
  else phase.all (· = .unseeded)

/-- The cursor handed to the connector; none means the lease's own. -/
def pollCursorValue (kind : CursorKind) (liveCursor historyCursor leaseCursor : Option String) :
    Option String :=
  let trimmed (cursor : Option String) : Option String := present (cursor.map jsTrim)
  match kind with
  | .history => trimmed historyCursor <|> trimmed leaseCursor
  | .live | .scroll => trimmed liveCursor <|> trimmed leaseCursor

/-! ## Phases -/

structure SyncPhaseGuard where
  fallback : Option SyncPhase := none
  policy : HistoryPolicy
  cursorKind : CursorKind
  deriving DecidableEq, Repr

/-- `idleUntil && now && idleUntil > now`. -/
def idlesPast (idleUntil : Option Instant) (now : Instant) : Bool :=
  idleUntil.any (· > now)

def deriveSyncPhaseFromHint (hint : SyncPollHint) (idleUntil : Option Instant) (now : Instant)
    (guard : SyncPhaseGuard) : SyncPhase :=
  match guard.cursorKind, guard.fallback with
  | .scroll, some .live => .live
  | .scroll, some .history => .history
  | .scroll, some .steady => .steady
  | _, _ =>
    if guard.policy = .incremental then
      if hint.liveSeeded = some false ∧ guard.fallback ≠ some .live ∧
          guard.fallback ≠ some .steady then .unseeded
      else if idlesPast idleUntil now then .steady
      else .live
    else if guard.cursorKind = .live ∧ guard.fallback = some .history then .history
    else
      match guard.fallback with
      | some .live =>
        if hint.liveSeeded = some false then .live
        else if idlesPast idleUntil now then .steady
        else .live
      | some .steady => .steady
      | _ =>
        if hint.liveSeeded = some false then .unseeded
        else if hint.historyPending = some true then .history
        else if idlesPast idleUntil now then .steady
        else .live

def streamCursorUnseeded (value : Option String) : Bool :=
  (present (value.map jsTrim)).isNone

def deriveSyncPhase (liveCursor : Option String) (idleUntil : Option Instant)
    (pollHint : Option SyncPollHint) (now : Instant) (guard : SyncPhaseGuard) : SyncPhase :=
  match pollHint with
  | some hint => deriveSyncPhaseFromHint hint idleUntil now guard
  | none =>
    if streamCursorUnseeded liveCursor then .unseeded
    else
      match guard.fallback with
      | some phase =>
        if phase ≠ .unseeded ∧ phase ≠ .history ∧ idlesPast idleUntil now then .steady
        else phase
      | none => .unseeded

/-- What a poll of one stream reports to the sync state. -/
structure SyncPageOutcome where
  installationId : String
  streamKey : String
  older : Bool
  media : Bool
  acceptedCount : Nat
  quarantinedCount : Nat
  hasMore : Bool
  nextLiveCursor : Option String := none
  nextHistoryCursor : Option String := none
  mediaPending : Option Bool := none
  idleMs : Option Int := none
  pollHint : Option SyncPollHint := none
  cursorKind : CursorKind
  historyPolicy : HistoryPolicy
  error : Bool := false
  now : Instant
  deriving DecidableEq, Repr

def advanceSyncState (current : Option SyncStreamState) (outcome : SyncPageOutcome) :
    SyncStreamState :=
  let live := outcome.nextLiveCursor <|> current.bind (·.liveCursor)
  let history := outcome.nextHistoryCursor <|> current.bind (·.historyCursor)
  let continues := sameLaneContinues outcome.cursorKind outcome.hasMore
    (outcome.pollHint.any (·.historyPending = some true))
  let idleUntil :=
    match (outcome.idleMs.filter (· > 0)).filter fun _ => !outcome.error && !continues with
    | some idleMs => some (outcome.now + idleMs)
    | none => if continues || outcome.error then none else current.bind (·.idleUntil)
  let phase :=
    if outcome.error then (current.map (·.phase)).getD .live
    else deriveSyncPhase live idleUntil outcome.pollHint outcome.now
      { fallback := current.map (·.phase)
        policy := outcome.historyPolicy
        cursorKind := outcome.cursorKind }
  { installationId := outcome.installationId
    streamKey := outcome.streamKey
    phase
    liveCursor := live
    historyCursor := history
    mediaPending := outcome.mediaPending.getD ((current.map (·.mediaPending)).getD false)
    idleUntil
    generation := (current.map (·.generation)).getD 1
    updatedAt := outcome.now }

end Regenic.Sync
