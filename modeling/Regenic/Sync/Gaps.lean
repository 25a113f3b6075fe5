import Regenic.Sync.MemoryStore

/-!
The repair query: for every phase row the lanes its phase owes that no work row
covers, then catalog members that have no phase row yet. Repair plans the gaps of an
installation into due rows, each named by the identity it serves.
-/

namespace Regenic.Sync

open Lib

structure SyncWorkGap where
  streamKey : String
  phase : SyncPhase
  mediaPending : Bool
  idleUntil : Option Instant := none
  generation : Int
  missingLane : SyncLane
  threadId : Option String := none
  deriving DecidableEq, Repr

def phaseGap (state : SyncStreamState) (lane : SyncLane) (threadId : Option String) :
    SyncWorkGap where
  streamKey := state.streamKey
  phase := state.phase
  mediaPending := state.mediaPending
  idleUntil := state.idleUntil
  generation := state.generation
  missingLane := lane
  threadId := present threadId

def unseededGap (member : SyncCatalogMember) (generation : Int) : SyncWorkGap where
  streamKey := member.streamKey
  phase := .unseeded
  mediaPending := false
  generation := generation
  missingLane := .live
  threadId := present member.threadId

namespace Sqlite

variable (db : SyncTables)

def statesOf (installationId : String) : List SyncStreamState :=
  db.states.rows.filter (·.installationId = installationId)

/-- `NOT EXISTS` a row on one of the lanes that is open or belongs to a run. -/
def lanesMissing (installationId streamKey : String) (generation : Int)
    (lanes : List SyncLane) : Bool :=
  !db.work.rows.any fun work =>
    work.installationId = installationId && work.streamKey = streamKey &&
      work.generation = generation && lanes.contains work.lane &&
      (work.isOpen || work.runId.isSome)

def phaseGaps (installationId : String) (lane : SyncLane) (lanes : List SyncLane)
    (owes : SyncStreamState → Bool) : List SyncWorkGap :=
  ((statesOf db installationId).filter fun state =>
    owes state && lanesMissing db state.installationId state.streamKey state.generation
      lanes).map fun state =>
    phaseGap state lane (((membersOf db installationId).find?
      (·.streamKey = state.streamKey)).bind (·.threadId))

def unseededOrder (left right : SyncCatalogMember) : Bool :=
  if left.lastSeenAt ≠ right.lastSeenAt then right.lastSeenAt < left.lastSeenAt
  else if left.discoveredAt ≠ right.discoveredAt then right.discoveredAt < left.discoveredAt
  else left.streamKey ≤ right.streamKey

def listUnseededSyncWorkGaps (installationId : String) (unseededLimit : Int) :
    List SyncWorkGap :=
  let members := (membersOf db installationId).filter fun member =>
    member.streamKey ≠ syncCatalogStream &&
      !(statesOf db installationId).any (·.streamKey = member.streamKey) &&
      lanesMissing db installationId member.streamKey member.generation [.live, .interactive]
  ((members.insertionSort (fun left right => unseededOrder left right = true)).take
    (max 0 unseededLimit).toNat).map fun member => unseededGap member member.generation

def listSyncWorkGaps (installationId : String) (unseededLimit : Int) : List SyncWorkGap :=
  phaseGaps db installationId .live [.live, .interactive] (·.phase ≠ .history) ++
    phaseGaps db installationId .history [.history] (·.phase = .history) ++
    phaseGaps db installationId .media [.media] (·.mediaPending) ++
    listUnseededSyncWorkGaps db installationId unseededLimit

end Sqlite

namespace Memory

variable (db : MemoryTables)

/-- `generation || 1`. -/
def generationOrOne (generation : Int) : Int := if generation = 0 then 1 else generation

def latestWorkCovers (installationId streamKey : String) (generation : Int) : Bool :=
  db.work.rows.any fun work =>
    work.installationId = installationId && work.streamKey = streamKey &&
      work.generation = generation && (work.lane = .live || work.lane = .interactive) &&
      (work.assigned || work.isOpen)

def unseededOrder (localeBefore : String → String → Bool) (left right : SyncCatalogMember) :
    Bool :=
  if left.lastSeenAt ≠ right.lastSeenAt then right.lastSeenAt < left.lastSeenAt
  else if left.discoveredAt ≠ right.discoveredAt then right.discoveredAt < left.discoveredAt
  else localeBefore left.streamKey right.streamKey

def listSyncWorkGaps (localeBefore : String → String → Bool) (installationId : String)
    (unseededLimit : Int) : List SyncWorkGap :=
  let states := Sqlite.statesOf db.toSyncTables installationId
  let catalog := getSyncCatalog db installationId
  let threadByKey (streamKey : String) : Option String :=
    (catalog.members.reverse.find? (·.streamKey = streamKey)).bind (·.threadId)
  let gaps := states.flatMap fun state =>
    (syncWorkEnsurePlan state.phase state.mediaPending (workForStream db state)
      (historyPolicyForInstall db state.installationId)).enqueue.map fun lane =>
        phaseGap state lane (threadByKey state.streamKey)
  let unseeded := catalog.members.filter fun member =>
    member.streamKey ≠ "" && member.streamKey ≠ syncCatalogStream &&
      !states.any (·.streamKey = member.streamKey) &&
      !latestWorkCovers db installationId member.streamKey (generationOrOne member.generation)
  gaps ++ ((unseeded.insertionSort
    (fun left right => unseededOrder localeBefore left right = true)).take
      (max 0 unseededLimit).toNat).map fun member =>
        unseededGap member (generationOrOne member.generation)

end Memory

/-! ## Repair -/

def defaultColdStreamIdleMs : Int := 3600000

/-- Interactive and hot work share one due time: now. -/
inductive DueWorkHeat where
  | interactive
  | hot
  | cold
  deriving DecidableEq, Repr

def classifyDueWorkHeat (preferred eager : Bool) : DueWorkHeat :=
  if preferred then .interactive
  else if eager then .hot
  else .cold

def addIdleMs (now : Instant) (idleMs : Int) : Instant :=
  if idleMs ≤ 0 then now else now + idleMs

def nextDueAtForDueWork (now : Instant) (idleUntil : Option Instant) (heat : DueWorkHeat)
    (coldIdleMs : Option Int) : Instant :=
  match heat with
  | .interactive | .hot => now
  | .cold =>
    (idleUntil.filter (· > now)).getD (addIdleMs now (coldIdleMs.getD defaultColdStreamIdleMs))

def syncGapRepairIsEager (gap : SyncWorkGap) : Bool :=
  if gap.phase = .history ∧ (gap.missingLane = .live ∨ gap.missingLane = .interactive) then false
  else if gap.missingLane = .history ∨ gap.missingLane = .media then true
  else gap.phase = .unseeded || gap.mediaPending

structure RepairOptions where
  now : Instant
  coldIdleMs : Option Int := none
  preferredThreadId : Option String := none
  policy : HistoryPolicy := defaultHistoryPolicy
  deriving DecidableEq, Repr

/-- `preferred` and the thread of the gap are the same. -/
def RepairOptions.focuses (options : RepairOptions) (gap : SyncWorkGap) : Bool :=
  (present (options.preferredThreadId.map jsTrim)).any fun preferred =>
    gap.threadId = some preferred

/-- The latest row of the preferred thread is interactive. -/
def RepairOptions.laneFor (options : RepairOptions) (gap : SyncWorkGap) : SyncLane :=
  if options.focuses gap ∧ gap.missingLane = .live then .interactive else gap.missingLane

def RepairOptions.skips (options : RepairOptions) (gap : SyncWorkGap) : Bool :=
  (options.policy = .backfill && gap.phase = .history &&
      (gap.missingLane = .live || gap.missingLane = .interactive)) ||
    (options.policy = .incremental && gap.missingLane = .history) ||
    (options.focuses gap && gap.missingLane = .media)

def plannedGap (installationId : String) (options : RepairOptions) (gap : SyncWorkGap) :
    EnqueueSyncWork :=
  let lane := options.laneFor gap
  let heat := classifyDueWorkHeat (options.focuses gap && lane = .interactive)
    (syncGapRepairIsEager gap)
  { id := dueSyncWorkId installationId gap.streamKey lane gap.generation
    installationId
    streamKey := gap.streamKey
    lane
    priority := some (syncWorkPriority lane)
    nextDueAt := nextDueAtForDueWork options.now gap.idleUntil heat options.coldIdleMs
    generation := gap.generation
    now := options.now }

def planSyncWorkGaps (installationId : String) (options : RepairOptions)
    (gaps : List SyncWorkGap) : List EnqueueSyncWork :=
  (gaps.filter fun gap => !options.skips gap).map (plannedGap installationId options)

/-! ## Rows named by what they serve -/

/-- `lane` is part of the id, so a repair finds the row of its own lane. -/
def EnqueueSyncWork.dueId (input : EnqueueSyncWork) : String :=
  dueSyncWorkId input.installationId input.streamKey input.lane input.generation

/-- The row is a planner's: it is named by its identity and belongs to no run. -/
def EnqueueSyncWork.Planned (input : EnqueueSyncWork) : Prop :=
  input.id = input.dueId ∧ input.runId = none

instance (input : EnqueueSyncWork) : Decidable input.Planned :=
  inferInstanceAs (Decidable (_ ∧ _))

theorem planSyncWorkGaps_planned {installationId : String} {options : RepairOptions}
    {gaps : List SyncWorkGap} {input : EnqueueSyncWork}
    (h : input ∈ planSyncWorkGaps installationId options gaps) : input.Planned := by
  obtain ⟨gap, _, rfl⟩ := List.mem_map.mp h
  exact ⟨rfl, rfl⟩

theorem dueWork_planned (state : SyncStreamState) (lane : SyncLane) :
    (Sqlite.dueWork state lane).Planned := ⟨rfl, rfl⟩

/-- Every enqueue of the operation is a planner's. -/
def SyncOp.PlansDue : SyncOp → Prop
  | .enqueueSyncWork input => input.Planned
  | .enqueueSyncWorkMany inputs => ∀ input ∈ inputs, input.Planned
  | _ => True

/-- An operation whose enqueues are planner rows. -/
structure PlannedOp where
  op : SyncOp
  plans : op.PlansDue

end Regenic.Sync
