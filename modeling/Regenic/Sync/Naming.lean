import Regenic.Sync.MemorySteps
import Regenic.Sync.Gaps
import Regenic.Sync.SqliteSteps

/-!
Rows named by what they serve. As long as every enqueue is a planner's, a row is found
under the id that its identity spells, so no identity has two rows.
-/

namespace Regenic.Sync

open Lib

def SyncWorkKey.dueId (key : SyncWorkKey) : String :=
  dueSyncWorkId key.installationId key.streamKey key.lane key.generation

theorem EnqueueSyncWork.Planned.id_eq {input : EnqueueSyncWork} (h : input.Planned) :
    input.id = input.uniqueKey.dueId := h.1

/-- The identity that the row under the id serves. -/
def keyUnder (work : Table SyncWorkRecord.id) (id : String) : Option SyncWorkKey :=
  (work.get? id).map (·.uniqueKey)

theorem keyUnder_of_mem {work : Table SyncWorkRecord.id} {row : SyncWorkRecord}
    (h : row ∈ work.rows) : keyUnder work row.id = some row.uniqueKey := by
  rw [keyUnder, Table.get?_key h]
  rfl

/-- An update that keeps identities keeps what every id serves. -/
theorem keyUnder_updateWhere (work : Table SyncWorkRecord.id) (p : SyncWorkRecord → Bool)
    {f : SyncWorkRecord → SyncWorkRecord} (hf : ∀ row, (f row).id = row.id)
    (hkey : ∀ row, (f row).uniqueKey = row.uniqueKey) (id : String) :
    keyUnder (work.updateWhere p f hf) id = keyUnder work id := by
  unfold keyUnder
  rw [Table.get?_updateWhere, Option.map_map]
  congr 1
  funext row
  simp only [Function.comp_apply]
  split
  · exact hkey row
  · rfl

/-- Every row is old, or named by its identity. -/
def NewRowsNamed (before after : Table SyncWorkRecord.id) : Prop :=
  ∀ id key, keyUnder after id = some key → keyUnder before id = some key ∨ id = key.dueId

namespace NewRowsNamed

theorem refl (work : Table SyncWorkRecord.id) : NewRowsNamed work work :=
  fun _ _ h => Or.inl h

theorem trans {work work' work'' : Table SyncWorkRecord.id} (h : NewRowsNamed work work')
    (h' : NewRowsNamed work' work'') : NewRowsNamed work work'' := by
  intro id key hkey
  rcases h' id key hkey with hold | hnamed
  · exact h id key hold
  · exact Or.inr hnamed

theorem updateWhere (work : Table SyncWorkRecord.id) {p : SyncWorkRecord → Bool}
    {f : SyncWorkRecord → SyncWorkRecord} (hf : ∀ row, (f row).id = row.id)
    (hkey : ∀ row, (f row).uniqueKey = row.uniqueKey) :
    NewRowsNamed work (work.updateWhere p f hf) := by
  intro id key h
  rw [keyUnder_updateWhere work p hf hkey] at h
  exact Or.inl h

theorem put (work : Table SyncWorkRecord.id) {input : EnqueueSyncWork} (h : input.Planned) :
    NewRowsNamed work (work.put input.row) := by
  intro id key hkey
  rw [keyUnder, Table.get?_put] at hkey
  split at hkey
  · next hid =>
    cases hkey
    exact Or.inr (hid.symm.trans h.id_eq)
  · exact Or.inl hkey

/-- In a table that started empty, every row is named. -/
theorem named {work : Table SyncWorkRecord.id} (h : NewRowsNamed ∅ work) {row : SyncWorkRecord}
    (hrow : row ∈ work.rows) : row.id = row.uniqueKey.dueId := by
  rcases h row.id row.uniqueKey (keyUnder_of_mem hrow) with hold | hnamed
  · cases hold
  · exact hnamed

end NewRowsNamed

/-- Named rows of one identity are one row. -/
theorem countP_uniqueKey_le {work : Table SyncWorkRecord.id} (h : NewRowsNamed ∅ work)
    (key : SyncWorkKey) : work.rows.countP (·.uniqueKey = key) ≤ 1 := by
  have hids : ∀ id ∈ ((work.rows.filter (·.uniqueKey = key)).map (·.id)), id = key.dueId := by
    intro id hid
    obtain ⟨row, hmem, rfl⟩ := List.mem_map.mp hid
    obtain ⟨hrow, hkey⟩ := List.mem_filter.mp hmem
    rw [h.named hrow, of_decide_eq_true hkey]
  have hnodup : ((work.rows.filter (·.uniqueKey = key)).map (·.id)).Nodup :=
    (List.filter_sublist.map _).nodup work.nodup
  have hlength : ((work.rows.filter (·.uniqueKey = key)).map (·.id)).length ≤ 1 := by
    have hsub : ((work.rows.filter (·.uniqueKey = key)).map (·.id)) ⊆ [key.dueId] := by
      intro id hid
      simp [hids id hid]
    exact (hnodup.subperm hsub).length_le
  rw [List.countP_eq_length_filter]
  simpa using hlength

namespace Memory

variable {db after : MemoryTables}

theorem EnqueueEffect.newRowsNamed {input : EnqueueSyncWork} (hplanned : input.Planned)
    (h : EnqueueEffect db input after) : NewRowsNamed db.work after.work := by
  cases h with
  | running => exact NewRowsNamed.refl _
  | rePend id found existing row status =>
    exact NewRowsNamed.updateWhere _ (rePend_id input) fun _ => rfl
  | put missing => exact NewRowsNamed.put _ hplanned

theorem ensureOwedSyncWork_newRowsNamed (db : MemoryTables) (state : SyncStreamState) :
    NewRowsNamed db.work (ensureOwedSyncWork db state).work := by
  apply ensureOwedSyncWork_invariant db (fun s => NewRowsNamed db.work s.work) state
  · intro s next lane _ hnamed heffect
    exact hnamed.trans (heffect.newRowsNamed (dueWork_planned state lane))
  · intro s lane hnamed
    exact hnamed.trans (NewRowsNamed.updateWhere _ (SyncWorkRecord.cancel_id _) fun _ => rfl)
  · exact NewRowsNamed.refl _

theorem step_newRowsNamed (localeBefore : String → String → Bool) (db : MemoryTables)
    (planned : PlannedOp) :
    NewRowsNamed db.work (step db localeBefore planned.op).work := by
  obtain ⟨op, hplans⟩ := planned
  cases op with
  | createSyncRun input =>
    rcases createSyncRun_cases db input with hsame | ⟨free, hinsert⟩
    · rw [step, hsame]
      exact NewRowsNamed.refl _
    · rw [step, hinsert]
      exact NewRowsNamed.refl _
  | commandSyncRun input =>
    change NewRowsNamed db.work (commandSyncRun db input).1.work
    unfold commandSyncRun
    split
    · exact NewRowsNamed.refl _
    · dsimp only
      split
      · exact NewRowsNamed.updateWhere _ (SyncWorkRecord.cancel_id input.now) fun _ => rfl
      · exact NewRowsNamed.refl _
  | enqueueSyncWork input =>
    rcases enqueueSyncWork_cases db input with hsame | ⟨_, heffect⟩
    · rw [step, hsame]
      exact NewRowsNamed.refl _
    · exact heffect.newRowsNamed hplans
  | enqueueSyncWorkMany inputs =>
    apply enqueueSyncWorkMany_invariant (fun s => NewRowsNamed db.work s.work) inputs
    · intro s input next hmem hnamed _ heffect
      exact hnamed.trans (heffect.newRowsNamed (hplans input hmem))
    · exact NewRowsNamed.refl _
  | claimSyncWork input =>
    exact NewRowsNamed.updateWhere _
      (SyncWorkRecord.claim_id input.owner input.now (input.now + input.leaseMs)) fun _ => rfl
  | renewSyncWork input =>
    rcases renewSyncWork_cases db input with hsame | ⟨_, _, _, _, hafter⟩
    · rw [step, hsame]
      exact NewRowsNamed.refl _
    · rw [step, hafter]
      exact NewRowsNamed.updateWhere _
        (SyncWorkRecord.renew_id input.now (input.now + input.leaseMs)) fun _ => rfl
  | settleSyncWork input =>
    rcases settleSyncWork_cases db input with hidle | ⟨_, _, _, _, _, hafter⟩
    · rw [step, hidle]
      exact NewRowsNamed.refl _
    · rw [step, hafter]
      exact NewRowsNamed.updateWhere _ (SyncWorkRecord.settle_id input) fun _ => rfl
  | wakeUnassignedSyncWork input =>
    change NewRowsNamed db.work (wakeUnassignedSyncWork db input).1.work
    unfold wakeUnassignedSyncWork
    dsimp only
    split
    · exact NewRowsNamed.refl _
    · exact NewRowsNamed.updateWhere _ (SyncWorkRecord.wake_id input.now) fun _ => rfl
  | applySyncCatalogPage input =>
    change NewRowsNamed db.work (applyCatalogPage db input).1.work
    unfold applyCatalogPage
    dsimp only
    split
    · exact NewRowsNamed.updateWhere _ (SyncWorkRecord.cancel_id input.now) fun _ => rfl
    · exact NewRowsNamed.refl _
  | putSyncState input =>
    change NewRowsNamed db.work (putSyncState db input).1.work
    unfold putSyncState
    dsimp only
    split
    · exact NewRowsNamed.updateWhere _ (SyncWorkRecord.cancel_id _) fun _ => rfl
    · exact ensureOwedSyncWork_newRowsNamed _ _

/-- The repair of an installation: its gaps on the asked lanes, planned and enqueued. -/
structure RepairCall where
  installationId : String
  lanes : Option (List SyncLane) := none
  unseededLimit : Int := 0
  options : RepairOptions
  deriving DecidableEq, Repr

def repairPlan (db : MemoryTables) (localeBefore : String → String → Bool) (call : RepairCall) :
    List EnqueueSyncWork :=
  planSyncWorkGaps call.installationId
    { call.options with policy := historyPolicyForInstall db call.installationId }
    ((listSyncWorkGaps db localeBefore call.installationId call.unseededLimit).filter
      fun gap => call.lanes.all (·.contains gap.missingLane))

inductive ScheduleOp where
  | repair (call : RepairCall)
  | store (planned : PlannedOp)

def scheduleStep (localeBefore : String → String → Bool) (db : MemoryTables) :
    ScheduleOp → MemoryTables
  | .repair call => (enqueueSyncWorkMany db (repairPlan db localeBefore call)).1
  | .store planned => step db localeBefore planned.op

theorem scheduleStep_newRowsNamed (localeBefore : String → String → Bool) (db : MemoryTables)
    (op : ScheduleOp) : NewRowsNamed db.work (scheduleStep localeBefore db op).work := by
  cases op with
  | repair call =>
    apply step_newRowsNamed localeBefore db
      { op := .enqueueSyncWorkMany (repairPlan db localeBefore call)
        plans := fun _ => planSyncWorkGaps_planned }
  | store planned => exact step_newRowsNamed localeBefore db planned

theorem run_newRowsNamed (localeBefore : String → String → Bool) (db : MemoryTables)
    (ops : List ScheduleOp) :
    NewRowsNamed db.work (run (scheduleStep localeBefore) db ops).work := by
  apply run_invariant (scheduleStep localeBefore) (fun s => NewRowsNamed db.work s.work)
  · intro s op hnamed
    exact hnamed.trans (scheduleStep_newRowsNamed localeBefore s op)
  · exact NewRowsNamed.refl _

/-- A stream is scheduled once for each lane and generation: in every state of a run that
starts without work rows, an identity has at most one row. -/
theorem syncWork_scheduledOnce (localeBefore : String → String → Bool) (db : MemoryTables)
    (ops : List ScheduleOp) (key : SyncWorkKey) :
    (run (scheduleStep localeBefore) { db with work := ∅, workKeys := ∅ } ops).work.rows.countP
      (·.uniqueKey = key) ≤ 1 :=
  countP_uniqueKey_le
    (run_newRowsNamed localeBefore { db with work := ∅, workKeys := ∅ } ops) key

/-- A member that is planned, seen again by the next census and planned again. -/
def censusTwice : List ScheduleOp :=
  let page (now : Instant) : ApplySyncCatalogPageInput :=
    { installationId := "inst"
      members := [{ streamKey := "thread" }]
      now
      complete := true
      replaces := true }
  let repair (now : Instant) : RepairCall :=
    { installationId := "inst", unseededLimit := 1, options := { now } }
  [.store ⟨.applySyncCatalogPage (page 1), trivial⟩, .repair (repair 2),
    .store ⟨.applySyncCatalogPage (page 3), trivial⟩, .repair (repair 4)]

/-- Two pending rows serve the live lane of the stream, one for each census. -/
theorem syncWork_scheduledTwice :
    (run (scheduleStep fun left right => left ≤ right) {} censusTwice).work.rows.countP
      (fun row => row.isOpen && !row.assigned && row.installationId = "inst" &&
        row.streamKey = "thread" && row.lane = .live) = 2 := by
  decide +kernel

end Memory

end Regenic.Sync
