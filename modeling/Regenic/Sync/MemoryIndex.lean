import Regenic.Sync.MemorySteps
import Regenic.Sync.Owing

/-!
The in-memory store finds a row through a map from its identity to its id. An insert that
reuses no id of a row of another identity keeps the map pointing at rows of that identity.
-/

namespace Regenic.Sync

open Lib

/-- The identity map points at rows of that identity. -/
def MemoryTables.Indexed (db : MemoryTables) : Prop :=
  ∀ entry ∈ db.workKeys.rows, ∃ row, db.work.get? entry.2 = some row ∧
    row.uniqueKey = entry.1

/-- The due ids of the stream are carried by its own rows only, each on its lane. -/
def DueIdsOwn (state : SyncStreamState) (work : Table SyncWorkRecord.id) : Prop :=
  ∀ row ∈ work.rows, ∀ lane, row.id = (Sqlite.dueWork state lane).row.id →
    state.owns row = true ∧ row.lane = lane

theorem dueWork_owns (state : SyncStreamState) (lane : SyncLane) :
    state.owns (Sqlite.dueWork state lane).row = true := by
  simp [SyncStreamState.owns, Sqlite.dueWork, EnqueueSyncWork.row]

namespace Memory

variable {db after : MemoryTables} {state : SyncStreamState}

/-- The id of the input is free, or held by a row of the same identity. -/
def FreshId (db : MemoryTables) (input : EnqueueSyncWork) : Prop :=
  ∀ row, db.work.get? input.row.id = some row → row.uniqueKey = input.uniqueKey

/-- Rows may change in place as long as each keeps its identity. -/
theorem indexed_of_rows (h : db.Indexed) (hkeys : after.workKeys = db.workKeys)
    (hrows : ∀ id row, db.work.get? id = some row →
      ∃ row', after.work.get? id = some row' ∧ row'.uniqueKey = row.uniqueKey) :
    after.Indexed := by
  intro entry hentry
  rw [hkeys] at hentry
  obtain ⟨row, hrow, hkey⟩ := h entry hentry
  obtain ⟨row', hrow', hsame⟩ := hrows entry.2 row hrow
  exact ⟨row', hrow', hsame.trans hkey⟩

theorem get?_updateWhere_uniqueKey {work : Table SyncWorkRecord.id} {p : SyncWorkRecord → Bool}
    {f : SyncWorkRecord → SyncWorkRecord} (hf : ∀ row, (f row).id = row.id)
    (hkey : ∀ row, (f row).uniqueKey = row.uniqueKey) (id : String) (row : SyncWorkRecord)
    (hrow : work.get? id = some row) :
    ∃ row', (work.updateWhere p f hf).get? id = some row' ∧ row'.uniqueKey = row.uniqueKey := by
  rw [Table.get?_updateWhere, hrow]
  refine ⟨_, rfl, ?_⟩
  dsimp only
  split
  · exact hkey row
  · rfl

theorem EnqueueEffect.indexed {input : EnqueueSyncWork} (h : db.Indexed)
    (hfresh : FreshId db input) (heffect : EnqueueEffect db input after) : after.Indexed := by
  cases heffect with
  | running => exact h
  | rePend id found existing row status =>
    exact indexed_of_rows h rfl (get?_updateWhere_uniqueKey (rePend_id input) fun _ => rfl)
  | put missing =>
    intro entry hentry
    rcases Table.mem_put.mp hentry with rfl | ⟨hbefore, hne⟩
    · refine ⟨input.row, ?_, rfl⟩
      rw [Table.get?_put]
      exact if_pos rfl
    · obtain ⟨before, hrow, hkey⟩ := h entry hbefore
      refine ⟨before, ?_, hkey⟩
      rw [Table.get?_put, if_neg]
      · exact hrow
      · intro hid
        apply hne
        rw [← hkey]
        exact hfresh before (hid ▸ hrow)

theorem dueIdsOwn_fresh (hids : DueIdsOwn state db.work) (lane : SyncLane) :
    FreshId db (Sqlite.dueWork state lane) := by
  intro row hrow
  obtain ⟨hmem, hid⟩ := Table.get?_eq_some.mp hrow
  obtain ⟨howns, hlane⟩ := hids row hmem lane hid
  simp only [SyncStreamState.owns, Bool.and_eq_true, decide_eq_true_eq] at howns
  simp only [SyncWorkRecord.uniqueKey, EnqueueSyncWork.uniqueKey, howns, hlane]
  rfl

theorem EnqueueEffect.dueIdsOwn {lane : SyncLane} (hids : DueIdsOwn state db.work)
    (h : EnqueueEffect db (Sqlite.dueWork state lane) after) :
    DueIdsOwn state after.work := by
  cases h with
  | running => exact hids
  | rePend id found existing row status =>
    intro row' hrow' lane' hid
    have hupdated : row' ∈ (db.work.update id (Memory.rePend (Sqlite.dueWork state lane))
      (rePend_id _)).rows := hrow'
    rcases Table.mem_update hupdated with ⟨hbefore, _⟩ | ⟨before, hbefore, _, rfl⟩
    · exact hids row' hbefore lane' hid
    · exact hids before hbefore lane' hid
  | put missing =>
    intro row' hrow' lane' hid
    rcases Table.mem_put.mp hrow' with rfl | ⟨hbefore, _⟩
    · exact ⟨dueWork_owns state lane, dueSyncWorkId_lane hid⟩
    · exact hids row' hbefore lane' hid

end Memory

end Regenic.Sync
