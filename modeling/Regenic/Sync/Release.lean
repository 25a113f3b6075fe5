import Regenic.Sync.Naming
import Regenic.Work.Contracts

/-!
Parking the polls of finished executors. An interactive row of a finished session moves
to the live lane, and keeps the id that its old lane spelled.
-/

namespace Regenic.Sync

open Lib Work

structure ReleaseFinishedExecutorPolls where
  now : Instant
  parkedBefore : Instant
  nextDueAt : Instant
  deriving DecidableEq, Repr

/-- A work run joined with the status of its item. -/
structure ExecutorRun where
  agentThreadId : Option String
  itemStatus : WorkItemStatus
  deriving DecidableEq, Repr

namespace Sqlite

/-- SQL `replace`; the count is what is left of the occurrence just replaced. -/
def sqlReplace (pattern replacement : List Char) : Nat → List Char → List Char
  | _, [] => []
  | skip + 1, _ :: rest => sqlReplace pattern replacement skip rest
  | 0, c :: rest =>
    if pattern.isPrefixOf (c :: rest) then
      replacement ++ sqlReplace pattern replacement (pattern.length - 1) rest
    else c :: sqlReplace pattern replacement 0 rest

def executorThread (streamKey : String) : String :=
  String.ofList (sqlReplace "session:".toList "dsh:".toList 0 streamKey.toList)

/-- `LIKE 'session:%'`, which ignores the case of ASCII letters. -/
def isSessionStream (streamKey : String) : Bool :=
  "session:".toList.isPrefixOf (streamKey.toList.map Char.toLower)

variable (db : SyncTables) (executors : List ExecutorRun) (input : ReleaseFinishedExecutorPolls)

/-- The `WHERE` clauses. -/
def releasable (work : SyncWorkRecord) : Bool :=
  let runs := executors.filter (·.agentThreadId = some (executorThread work.streamKey))
  isSessionStream work.streamKey && work.status = .pending && work.runId.isNone &&
    work.nextDueAt < input.parkedBefore &&
    runs.any (·.itemStatus = .done) &&
    !runs.any fun run => [WorkItemStatus.opened, .running, .waitingHuman, .failed].contains
      run.itemStatus

/-- An interactive row whose identity on the live lane is free. -/
def movesLane (work : SyncWorkRecord) : Bool :=
  work.lane = .interactive && !db.work.rows.any fun live =>
    live.installationId = work.installationId && live.streamKey = work.streamKey &&
      live.generation = work.generation && live.lane = .live

def release (work : SyncWorkRecord) : SyncWorkRecord :=
  { work with
    nextDueAt := input.nextDueAt
    priority := syncWorkPriority .live
    lane := if movesLane db work then .live else work.lane
    updatedAt := input.now }

theorem release_id (work : SyncWorkRecord) : (release db input work).id = work.id := rfl

/-- One `UPDATE`. The unique index keeps the interactive row of an identity single, so
no row of the statement takes the live lane of another. -/
def releaseFinishedExecutorPolls : SyncTables × Nat :=
  let work := db.work.updateWhere (releasable executors input) (release db input)
    (release_id db input)
  ({ db with work }, db.work.rows.countP (releasable executors input))

end Sqlite

/-- What the store runs beside the planner: its own calls and the release. -/
inductive QueueOp where
  | call (planned : PlannedOp)
  | releaseFinishedExecutorPolls (executors : List ExecutorRun)
      (input : ReleaseFinishedExecutorPolls)

namespace Sqlite

def queueStep (db : SyncTables) : QueueOp → SyncTables
  | .call planned => step db planned.op
  | .releaseFinishedExecutorPolls executors input =>
    (releaseFinishedExecutorPolls db executors input).1

/-- The operation moves a row to another lane. -/
def MovesRow (db : SyncTables) : QueueOp → Prop
  | .call _ => False
  | .releaseFinishedExecutorPolls executors input =>
    ∃ row ∈ db.work.rows, releasable executors input row = true ∧ movesLane db row = true

instance (db : SyncTables) : (op : QueueOp) → Decidable (MovesRow db op)
  | .call _ => isFalse id
  | .releaseFinishedExecutorPolls executors input =>
    inferInstanceAs (Decidable (∃ row ∈ db.work.rows,
      releasable executors input row = true ∧ movesLane db row = true))

/-! ## One call -/

/-- A call leaves installations alone, keeps every row on its identity, and adds rows
that are named by theirs, of stored installations. -/
structure NamesRows (db after : SyncTables) : Prop where
  installations : after.installations = db.installations
  kept : ∀ id key, keyUnder db.work id = some key → keyUnder after.work id = some key
  added : ∀ id key, keyUnder after.work id = some key →
    keyUnder db.work id = some key ∨
      id = key.dueId ∧ referencesInstallation db key.installationId = true

namespace NamesRows

variable {db after : SyncTables}

theorem refl (db : SyncTables) : NamesRows db db :=
  ⟨rfl, fun _ _ h => h, fun _ _ h => Or.inl h⟩

theorem trans {final : SyncTables} (h : NamesRows db after) (h' : NamesRows after final) :
    NamesRows db final := by
  constructor
  · exact h'.installations.trans h.installations
  · intro id key hkey
    exact h'.kept id key (h.kept id key hkey)
  · intro id key hkey
    rcases h'.added id key hkey with hold | ⟨hid, hregistered⟩
    · exact h.added id key hold
    · right
      refine ⟨hid, ?_⟩
      unfold referencesInstallation at hregistered ⊢
      rwa [h.installations] at hregistered

theorem of_work (hinstallations : after.installations = db.installations)
    (hwork : after.work = db.work) : NamesRows db after := by
  constructor
  · exact hinstallations
  · intro id key hkey
    rwa [hwork]
  · intro id key hkey
    rw [hwork] at hkey
    exact Or.inl hkey

theorem of_updateWhere {p : SyncWorkRecord → Bool} {f : SyncWorkRecord → SyncWorkRecord}
    (hf : ∀ row, (f row).id = row.id) (hinstallations : after.installations = db.installations)
    (hwork : after.work = db.work.updateWhere p f hf)
    (hkey : ∀ row, (f row).uniqueKey = row.uniqueKey) : NamesRows db after := by
  have hsame : ∀ id, keyUnder after.work id = keyUnder db.work id := by
    intro id
    rw [hwork]
    exact keyUnder_updateWhere db.work p hf hkey id
  constructor
  · exact hinstallations
  · intro id key h
    rw [hsame]
    exact h
  · intro id key h
    rw [hsame] at h
    exact Or.inl h

end NamesRows

variable {db after : SyncTables}

/-- A planner's enqueue that does not throw. -/
theorem enqueueSyncWork_namesRows {input : EnqueueSyncWork} {row : SyncWorkRecord}
    (hplanned : input.Planned) (h : enqueueSyncWorkUnlocked db input = .ok (after, row)) :
    NamesRows db after := by
  have heffect := enqueueSyncWork_effect h
  cases heffect with
  | running current found status => exact NamesRows.refl db
  | rePend current found status references =>
    exact NamesRows.of_updateWhere (rePend_id input) rfl rfl fun _ => rfl
  | insert missing references free =>
    have hregistered : referencesInstallation db input.installationId = true := by
      cases hcheck : referencesInstallation db input.installationId with
      | true => rfl
      | false => simp [enqueueSyncWorkUnlocked, missing, hcheck, hplanned.2] at h
    constructor
    · rfl
    · intro id key hkey
      have hother : input.row.id ≠ id := by
        rintro rfl
        rw [keyUnder, free] at hkey
        cases hkey
      rw [keyUnder, Table.get?_insert, if_neg hother]
      exact hkey
    · intro id key hkey
      rw [keyUnder, Table.get?_insert] at hkey
      split at hkey
      · next hid =>
        cases hkey
        exact Or.inr ⟨hid.symm.trans hplanned.id_eq, hregistered⟩
      · exact Or.inl hkey

theorem foldlM_enqueue_namesRows {α : Type} (items : List α) (toInput : α → EnqueueSyncWork)
    (hplanned : ∀ item ∈ items, (toInput item).Planned) (db after : SyncTables)
    (h : items.foldlM (fun db item => Prod.fst <$> enqueueSyncWorkUnlocked db (toInput item)) db =
      .ok after) : NamesRows db after := by
  refine foldlM_invariant_mem (NamesRows db) ?_ db after (NamesRows.refl db) h
  intro s item s' hmem hs hstep
  cases hrun : enqueueSyncWorkUnlocked s (toInput item) with
  | error message =>
    rw [hrun] at hstep
    cases hstep
  | ok result =>
    rw [hrun] at hstep
    cases hstep
    exact hs.trans (enqueueSyncWork_namesRows (hplanned item hmem) hrun)

theorem ensureOwedSyncWork_namesRows {state : SyncStreamState}
    (h : ensureOwedSyncWorkUnlocked db state = .ok after) : NamesRows db after := by
  unfold ensureOwedSyncWorkUnlocked at h
  simp only [bind, Except.bind, pure, Except.pure] at h
  split at h
  · cases h
  · next enqueued hfold =>
    cases h
    have henqueued := foldlM_enqueue_namesRows _ (dueWork state)
      (fun lane _ => dueWork_planned state lane) db enqueued hfold
    apply run_invariant (fun s lane => cancelLane s state lane) (NamesRows db) _ _ henqueued
    intro s lane hs
    exact hs.trans (NamesRows.of_updateWhere (SyncWorkRecord.cancel_id _) rfl rfl fun _ => rfl)

theorem putSyncState_namesRows (db : SyncTables) (state : SyncStreamState) :
    NamesRows db (commit db (putSyncState db state)) := by
  rcases putSyncState_cases db state _ rfl with hsame | ⟨_, hdropped⟩ | ⟨_, hensured⟩
  · rw [hsame]
    exact NamesRows.refl db
  · rw [hdropped]
    exact NamesRows.of_updateWhere (SyncWorkRecord.cancel_id _) rfl rfl fun _ => rfl
  · have hstored : NamesRows db { db with states := db.states.put (releaseHistoryPhase state
        (historyPolicyForInstall db state.installationId)) } := NamesRows.of_work rfl rfl
    exact hstored.trans (ensureOwedSyncWork_namesRows hensured)

theorem step_namesRows (db : SyncTables) (planned : PlannedOp) :
    NamesRows db (step db planned.op) := by
  obtain ⟨op, hplans⟩ := planned
  cases op with
  | createSyncRun input =>
    rcases createSyncRun_cases db input with hsame | ⟨free, hinsert⟩
    · rw [step, hsame]
      exact NamesRows.refl db
    · rw [step, hinsert]
      exact NamesRows.of_work rfl rfl
  | commandSyncRun input =>
    have heffect := commandSyncRun_effect db input
    change NamesRows db (commandSyncRun db input).1
    generalize (commandSyncRun db input).1 = next at heffect
    cases heffect with
    | none => exact NamesRows.refl db
    | pause => exact NamesRows.of_work rfl rfl
    | resume => exact NamesRows.of_work rfl rfl
    | cancel => exact NamesRows.of_updateWhere (SyncWorkRecord.cancel_id _) rfl rfl fun _ => rfl
  | enqueueSyncWork input =>
    change NamesRows db (commit db (enqueueSyncWorkUnlocked db input))
    cases hrun : enqueueSyncWorkUnlocked db input with
    | error message => exact NamesRows.refl db
    | ok result => exact enqueueSyncWork_namesRows hplans hrun
  | enqueueSyncWorkMany inputs =>
    change NamesRows db (commit db (enqueueSyncWorkMany db inputs))
    unfold enqueueSyncWorkMany
    cases hfold : inputs.foldlM
        (fun db input => Prod.fst <$> enqueueSyncWorkUnlocked db input) db with
    | error message => exact NamesRows.refl db
    | ok next => exact foldlM_enqueue_namesRows inputs id hplans db next hfold
  | claimSyncWork input =>
    change NamesRows db (claimSyncWork db input).1
    unfold claimSyncWork
    dsimp only
    split
    · exact NamesRows.refl db
    · exact NamesRows.of_updateWhere (SyncWorkRecord.claim_id _ _ _) rfl rfl fun _ => rfl
  | renewSyncWork input =>
    rcases renewSyncWork_cases db input with hsame | ⟨_, _, _, _, hafter⟩
    · rw [step, hsame]
      exact NamesRows.refl db
    · rw [step, hafter]
      exact NamesRows.of_updateWhere (SyncWorkRecord.renew_id _ _) rfl rfl fun _ => rfl
  | settleSyncWork input =>
    rcases settleSyncWork_cases db input with hidle | ⟨_, _, _, _, _, hafter⟩
    · rw [step, hidle]
      exact NamesRows.refl db
    · rw [step, hafter]
      exact NamesRows.of_updateWhere (SyncWorkRecord.settle_id input) rfl rfl fun _ => rfl
  | wakeUnassignedSyncWork input =>
    change NamesRows db (wakeUnassignedSyncWork db input).1
    unfold wakeUnassignedSyncWork
    dsimp only
    split
    · exact NamesRows.refl db
    · exact NamesRows.of_updateWhere (SyncWorkRecord.wake_id input.now) rfl rfl fun _ => rfl
  | applySyncCatalogPage input =>
    change NamesRows db (commit db (applySyncCatalogPage db input))
    unfold applySyncCatalogPage
    dsimp only
    split
    · exact NamesRows.refl db
    · simp only [commit]
      split
      · exact NamesRows.of_updateWhere (SyncWorkRecord.cancel_id input.now) rfl rfl fun _ => rfl
      · exact NamesRows.of_work rfl rfl
  | putSyncState state => exact putSyncState_namesRows db state

end Sqlite

end Regenic.Sync
