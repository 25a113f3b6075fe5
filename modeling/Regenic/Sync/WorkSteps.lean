import Regenic.Lib.Run
import Regenic.Sync.SqliteStore

/-!
Relations between the run and work tables before and after a step, and the table
updates that are in them.
-/

namespace Regenic.Sync

open Lib

/-- Every row that runs afterwards ran before, unchanged. -/
def KeepsRunning (before after : Table SyncWorkRecord.id) : Prop :=
  ∀ id work, after.get? id = some work → work.status = .running →
    before.get? id = some work

namespace KeepsRunning

theorem refl (t : Table SyncWorkRecord.id) : KeepsRunning t t :=
  fun _ _ found _ => found

theorem trans {t t' t'' : Table SyncWorkRecord.id} (h : KeepsRunning t t')
    (h' : KeepsRunning t' t'') : KeepsRunning t t'' :=
  fun id work found running => h id work (h' id work found running) running

theorem updateWhere (t : Table SyncWorkRecord.id) {p : SyncWorkRecord → Bool}
    {f : SyncWorkRecord → SyncWorkRecord} (hf : ∀ w, (f w).id = w.id)
    (h : ∀ w ∈ t.rows, p w = true → (f w).status ≠ .running) :
    KeepsRunning t (t.updateWhere p f hf) := by
  intro id work found running
  rw [Table.get?_updateWhere] at found
  cases hget : t.get? id with
  | none =>
    rw [hget] at found
    cases found
  | some row =>
    rw [hget, Option.map_some, Option.some.injEq] at found
    subst found
    cases hp : p row with
    | true =>
      simp only [hp, if_true] at running
      exact absurd running (h row (Table.get?_eq_some.mp hget).1 hp)
    | false => simp

theorem update (t : Table SyncWorkRecord.id) {id : String}
    {f : SyncWorkRecord → SyncWorkRecord} (hf : ∀ w, (f w).id = w.id)
    (h : ∀ w, (f w).status ≠ .running) : KeepsRunning t (t.update id f hf) :=
  updateWhere t hf fun w _ _ => h w

theorem cancelWhere (t : Table SyncWorkRecord.id) {p : SyncWorkRecord → Bool} (now : Instant) :
    KeepsRunning t
      (t.updateWhere p (SyncWorkRecord.cancel now) (SyncWorkRecord.cancel_id now)) := by
  refine updateWhere t (SyncWorkRecord.cancel_id now) fun work _ _ => ?_
  simp [SyncWorkRecord.cancel]

theorem insert (t : Table SyncWorkRecord.id) {row : SyncWorkRecord}
    (free : t.get? row.id = none) (h : row.status ≠ .running) :
    KeepsRunning t (t.insert row free) := by
  intro id work found running
  rw [Table.get?_insert] at found
  split at found
  · cases found
    exact absurd running h
  · exact found

theorem put (t : Table SyncWorkRecord.id) {row : SyncWorkRecord}
    (h : row.status ≠ .running) : KeepsRunning t (t.put row) := by
  intro id work found running
  rw [Table.get?_put] at found
  split at found
  · cases found
    exact absurd running h
  · exact found

end KeepsRunning

/-- The three counters of a run that settled work feeds. -/
def SyncRun.counters (run : SyncRun) : Nat × Nat × Nat :=
  (run.completedWork, run.failedWork, run.acceptedCount)

/-- Every run that was there is still there, with the counters it had. -/
def SameCounters (before after : Table SyncRun.id) : Prop :=
  ∀ id run, before.get? id = some run →
    ∃ run', after.get? id = some run' ∧ run'.counters = run.counters

namespace SameCounters

theorem refl (t : Table SyncRun.id) : SameCounters t t :=
  fun _ run found => ⟨run, found, rfl⟩

theorem trans {t t' t'' : Table SyncRun.id} (h : SameCounters t t')
    (h' : SameCounters t' t'') : SameCounters t t'' := by
  intro id run found
  obtain ⟨run', found', same⟩ := h id run found
  obtain ⟨run'', found'', same'⟩ := h' id run' found'
  exact ⟨run'', found'', same'.trans same⟩

theorem updateWhere (t : Table SyncRun.id) {p : SyncRun → Bool} {f : SyncRun → SyncRun}
    (hf : ∀ r, (f r).id = r.id) (h : ∀ r, (f r).counters = r.counters) :
    SameCounters t (t.updateWhere p f hf) := by
  intro id run found
  refine ⟨if p run then f run else run, by rw [Table.get?_updateWhere, found]; rfl, ?_⟩
  split
  · exact h run
  · rfl

theorem update (t : Table SyncRun.id) {id : String} {f : SyncRun → SyncRun}
    (hf : ∀ r, (f r).id = r.id) (h : ∀ r, (f r).counters = r.counters) :
    SameCounters t (t.update id f hf) :=
  updateWhere t hf h

theorem insert (t : Table SyncRun.id) {row : SyncRun} (free : t.get? row.id = none) :
    SameCounters t (t.insert row free) := by
  intro id run found
  refine ⟨run, ?_, rfl⟩
  rw [Table.get?_insert, if_neg]
  · exact found
  · intro h
    rw [h, found] at free
    cases free

end SameCounters

/-- The growth of a run's settled counters in one settle. -/
structure CountsOne (before after : SyncRun) : Prop where
  lower : before.completedWork + before.failedWork ≤ after.completedWork + after.failedWork
  upper : after.completedWork + after.failedWork ≤
    before.completedWork + before.failedWork + 1

theorem CountsOne.refl (run : SyncRun) : CountsOne run run := ⟨le_rfl, by omega⟩

/-- A step that starts no row and moves no counter. -/
structure Quiet (before after : SyncTables) : Prop where
  work : KeepsRunning before.work after.work
  runs : SameCounters before.runs after.runs

theorem Quiet.refl (db : SyncTables) : Quiet db db :=
  ⟨KeepsRunning.refl _, SameCounters.refl _⟩

theorem Quiet.trans {db db' db'' : SyncTables} (h : Quiet db db') (h' : Quiet db' db'') :
    Quiet db db'' :=
  ⟨h.work.trans h'.work, h.runs.trans h'.runs⟩

end Regenic.Sync
