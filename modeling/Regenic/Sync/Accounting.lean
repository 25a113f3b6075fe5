import Regenic.Sync.MemoryBooks
import Regenic.Sync.SqliteBooks

/-!
Sync-run accounting in both stores: along every sequence of store calls whose enqueues
and resumes fit, no run settles more work than it counted and no run waits for rows it
does not have. Two short runs that do not fit break each half.
-/

namespace Regenic.Sync

open Lib

instance (db : SyncTables) (ever : List String) : Decidable (RunsAccounted db ever) :=
  decidable_of_iff
    ((∀ run ∈ db.runs.rows, run.completedWork + run.failedWork ≤ run.totalWork) ∧
      ∀ run ∈ db.runs.rows, syncRunIsClaimable run.status = true → run.id ∈ ever →
        ∃ row ∈ db.work.rows, row.runId = some run.id ∧ row.isOpen = true)
    ⟨fun h => ⟨h.1, h.2⟩, fun h => ⟨h.counted, h.unstuck⟩⟩

instance (state : SyncTables × List String) (op : SyncOp) :
    Decidable (Sqlite.Fits state op) := by
  unfold Sqlite.Fits
  cases op <;> infer_instance

instance (state : MemoryTables × List String) (op : SyncOp) :
    Decidable (Memory.Fits state op) := by
  unfold Memory.Fits
  cases op <;> infer_instance

/-- In every state of a run whose steps all fit, the sync runs of either store are
accounted. The run starts with no sync run and no work row. -/
theorem syncRuns_accounted (sqlite : SyncTables) (memory : MemoryTables)
    (localeBefore : String → String → Bool) (ops : List SyncOp) :
    (Along Sqlite.stepBooks Sqlite.Fits ({ sqlite with runs := ∅, work := ∅ }, []) ops →
      RunsAccounted
        (run Sqlite.stepBooks ({ sqlite with runs := ∅, work := ∅ }, []) ops).1
        (run Sqlite.stepBooks ({ sqlite with runs := ∅, work := ∅ }, []) ops).2) ∧
    (Along (Memory.stepBooks localeBefore) Memory.Fits
        ({ memory with runs := ∅, work := ∅, workKeys := ∅ }, []) ops →
      RunsAccounted
        (run (Memory.stepBooks localeBefore)
          ({ memory with runs := ∅, work := ∅, workKeys := ∅ }, []) ops).1.toSyncTables
        (run (Memory.stepBooks localeBefore)
          ({ memory with runs := ∅, work := ∅, workKeys := ∅ }, []) ops).2) := by
  constructor
  · intro hfits
    exact (Sqlite.runBooks_accounted sqlite ops hfits).runsAccounted
  · intro hfits
    exact (Memory.runBooks_accounted localeBefore memory ops hfits).runsAccounted

/-- A store with one enabled installation. -/
def installed : SyncTables where
  installations := Table.insert ∅ ⟨"inst", "org", .enabled, none⟩ (Table.get?_empty "inst")

def startRun : SyncOp := .createSyncRun ⟨"run", "org", "inst", .continuous, {}, 0⟩

def enqueueStream (streamKey : String) (now : Instant) : SyncOp :=
  .enqueueSyncWork
    { id := streamKey, runId := some "run", installationId := "inst", streamKey
      lane := .live, nextDueAt := 0, generation := 1, now }

def claimStream (streamKey : String) (now : Instant) : SyncOp :=
  .claimSyncWork { owner := "worker", now, leaseMs := 60, limit := 1, workId := some streamKey }

def settleStream (streamKey : String) (now : Instant) : SyncOp :=
  .settleSyncWork { id := streamKey, owner := "worker", now, outcome := .succeeded }

def commandRun (command : SyncRunCommand) (now : Instant) : SyncOp :=
  .commandSyncRun ⟨"run", "org", command, now⟩

/-- A row settled, enqueued again for its run and settled again counts twice. -/
def settledTwice : List SyncOp :=
  [startRun, enqueueStream "a" 1, enqueueStream "b" 1, claimStream "a" 2, settleStream "a" 3,
    enqueueStream "a" 4, claimStream "a" 5, settleStream "a" 6, claimStream "b" 7,
    settleStream "b" 8]

/-- The last row of a run settles while the run is paused, and then it is resumed. -/
def resumedEmpty : List SyncOp :=
  [startRun, enqueueStream "a" 1, claimStream "a" 2, commandRun .pause 3, settleStream "a" 4,
    commandRun .resume 5]

/-- A run of two rows, paused and resumed while one is open. -/
def settledOnce : List SyncOp :=
  [startRun, enqueueStream "a" 1, enqueueStream "b" 1, claimStream "a" 2, commandRun .pause 3,
    settleStream "a" 4, commandRun .resume 5, claimStream "b" 6, enqueueStream "b" 7,
    settleStream "b" 8]

theorem syncRuns_accounted_settledOnce :
    RunsAccounted (run Sqlite.stepBooks (installed, []) settledOnce).1
        (run Sqlite.stepBooks (installed, []) settledOnce).2 ∧
      RunsAccounted
        (run (Memory.stepBooks fun left right => left ≤ right) (⟨installed, ∅⟩, [])
          settledOnce).1.toSyncTables
        (run (Memory.stepBooks fun left right => left ≤ right) (⟨installed, ∅⟩, [])
          settledOnce).2 :=
  ⟨(syncRuns_accounted installed ⟨installed, ∅⟩ (fun left right => left ≤ right)
      settledOnce).1 (by decide),
    (syncRuns_accounted installed ⟨installed, ∅⟩ (fun left right => left ≤ right)
      settledOnce).2 (by decide)⟩

/-- After `settledTwice` three rows are completed out of two; after `resumedEmpty` the
run is queued without a row. -/
theorem syncRuns_not_accounted :
    ¬ RunsAccounted (run Sqlite.stepBooks (installed, []) settledTwice).1
        (run Sqlite.stepBooks (installed, []) settledTwice).2 ∧
      ¬ RunsAccounted (run Sqlite.stepBooks (installed, []) resumedEmpty).1
        (run Sqlite.stepBooks (installed, []) resumedEmpty).2 ∧
      ¬ RunsAccounted
        (run (Memory.stepBooks fun left right => left ≤ right) (⟨installed, ∅⟩, [])
          settledTwice).1.toSyncTables
        (run (Memory.stepBooks fun left right => left ≤ right) (⟨installed, ∅⟩, [])
          settledTwice).2 ∧
      ¬ RunsAccounted
        (run (Memory.stepBooks fun left right => left ≤ right) (⟨installed, ∅⟩, [])
          resumedEmpty).1.toSyncTables
        (run (Memory.stepBooks fun left right => left ≤ right) (⟨installed, ∅⟩, [])
          resumedEmpty).2 := by
  refine ⟨?_, ?_, ?_, ?_⟩ <;> decide

end Regenic.Sync
