import Regenic.Sync.MemoryIndex
import Regenic.Sync.Owing
import Regenic.Sync.SqliteSteps

/-!
A phase write of either store owes exactly its lanes. The SQLite write runs in one
transaction; the in-memory write relies on its identity map naming the rows it holds.
-/

namespace Regenic.Sync

open Lib

variable {state : SyncStreamState}

/-- A row rewritten in place, on one lane of the stream, becomes the open row there. -/
theorem LanesWritten.update {free : Option String → Bool} {lane : SyncLane}
    {work : Table SyncWorkRecord.id} {row : SyncWorkRecord} {id : String}
    (hrow : work.get? id = some row) (howns : state.owns row = true) (hlane : row.lane = lane)
    {f : SyncWorkRecord → SyncWorkRecord} (hf : ∀ r, (f r).id = r.id)
    (hsame : (f row).installationId = row.installationId ∧
      (f row).streamKey = row.streamKey ∧ (f row).generation = row.generation ∧
      (f row).lane = row.lane ∧ (f row).runId = row.runId)
    (hopen : (f row).isOpen = true) :
    LanesWritten free state [lane] work (work.update id f hf) := by
  obtain ⟨hmem, hkey⟩ := Table.get?_eq_some.mp hrow
  have hownsAfter : state.owns (f row) = true := by
    simpa [SyncStreamState.owns, hsame.1, hsame.2.1, hsame.2.2.1] using howns
  have honly : ∀ before ∈ work.rows, before.id = id → before = row := by
    intro before hbefore hid
    rw [← Option.some.injEq, ← hrow, ← hid]
    exact (Table.get?_key hbefore).symm
  refine ⟨?_, ?_, ?_, ?_⟩
  · intro l hl
    rw [List.mem_singleton.mp hl]
    refine ⟨f row, ?_, hownsAfter, ?_, hopen⟩
    · refine List.mem_map.mpr ⟨row, hmem, ?_⟩
      simp [hkey]
    · rw [hsame.2.2.2.1, hlane]
  · intro after hafter
    rcases Table.mem_update hafter with ⟨hbefore, _⟩ | ⟨before, hbefore, hid, rfl⟩
    · exact Or.inl hbefore
    · right
      rw [honly before hbefore hid]
      refine ⟨hownsAfter, ?_⟩
      rw [hsame.2.2.2.1, hlane]
      exact List.mem_singleton.mpr rfl
  · intro before hbefore hnot
    refine List.mem_map.mpr ⟨before, hbefore, ?_⟩
    split
    · next hid =>
      have heq := honly before hbefore (by simpa using hid)
      rw [heq] at hnot
      exact absurd ⟨howns, List.mem_singleton.mpr hlane⟩ hnot
    · rfl
  · intro hfree after hafter hafterOwns
    rcases Table.mem_update hafter with ⟨hbefore, _⟩ | ⟨before, hbefore, hid, rfl⟩
    · exact hfree after hbefore hafterOwns
    · rw [honly before hbefore hid, hsame.2.2.2.2]
      exact hfree row hmem howns

theorem LanesWritten.running {free : Option String → Bool} {lane : SyncLane}
    {work : Table SyncWorkRecord.id} {row : SyncWorkRecord} (hrow : row ∈ work.rows)
    (howns : state.owns row = true) (hlane : row.lane = lane)
    (hstatus : row.status = .running) : LanesWritten free state [lane] work work where
  opened l hl := by
    rw [List.mem_singleton.mp hl]
    exact ⟨row, hrow, howns, hlane, by simp [SyncWorkRecord.isOpen, hstatus]⟩
  only after hafter := Or.inl hafter
  kept before hbefore _ := hbefore
  unassigned hfree := hfree

/-- A due row put under its id, where only a row of its own lane can stand. -/
theorem LanesWritten.put {free : Option String → Bool} {lane : SyncLane}
    {work : Table SyncWorkRecord.id} (hnone : free none = true)
    (hown : ∀ row ∈ work.rows, row.id = (Sqlite.dueWork state lane).row.id →
      state.owns row = true ∧ row.lane = lane) :
    LanesWritten free state [lane] work (work.put (Sqlite.dueWork state lane).row) := by
  refine ⟨?_, ?_, ?_, ?_⟩
  · intro l hl
    rw [List.mem_singleton.mp hl]
    exact ⟨(Sqlite.dueWork state lane).row, Table.mem_put.mpr (Or.inl rfl),
      dueWork_owns state lane, rfl, rfl⟩
  · intro after hafter
    rcases Table.mem_put.mp hafter with rfl | ⟨hbefore, _⟩
    · exact Or.inr ⟨dueWork_owns state lane, List.mem_singleton.mpr rfl⟩
    · exact Or.inl hbefore
  · intro before hbefore hnot
    apply Table.mem_put.mpr
    refine Or.inr ⟨hbefore, fun hid => hnot ?_⟩
    obtain ⟨howns, hlane⟩ := hown before hbefore hid
    exact ⟨howns, List.mem_singleton.mpr hlane⟩
  · intro hbefore after hafter howns
    rcases Table.mem_put.mp hafter with rfl | ⟨hmem, _⟩
    · exact hnone
    · exact hbefore after hmem howns

/-! ## The SQLite store -/

namespace Sqlite

variable {db after : SyncTables}

theorem owns_of_names {lane : SyncLane} {row : SyncWorkRecord}
    (h : (dueWork state lane).names row = true) :
    state.owns row = true ∧ row.lane = lane := by
  simp only [EnqueueSyncWork.names, Bool.and_eq_true, decide_eq_true_eq] at h
  obtain ⟨⟨⟨hinst, hstream⟩, hlane⟩, hgeneration⟩ := h
  refine ⟨?_, hlane⟩
  simp only [SyncStreamState.owns, Bool.and_eq_true, decide_eq_true_eq]
  exact ⟨⟨hinst, hstream⟩, hgeneration⟩

theorem EnqueueEffect.lanesWritten {lane : SyncLane}
    (h : EnqueueEffect db (dueWork state lane) after) :
    LanesWritten Option.isNone state [lane] db.work after.work := by
  cases h with
  | running current found status =>
    obtain ⟨howns, hlane⟩ := owns_of_names (List.find?_some found)
    exact .running (List.mem_of_find?_eq_some found) howns hlane status
  | rePend current found status references =>
    obtain ⟨howns, hlane⟩ := owns_of_names (List.find?_some found)
    exact .update (Table.get?_key (List.mem_of_find?_eq_some found)) howns hlane
      (rePend_id (dueWork state lane)) ⟨rfl, rfl, rfl, rfl, rfl⟩ rfl
  | insert missing references free =>
    dsimp only
    rw [← Table.put_eq_insert free]
    apply LanesWritten.put rfl
    intro row hrow hid
    have hnone := Table.get?_key hrow
    rw [hid, free] at hnone
    cases hnone

theorem enqueueLanes_written (lanes : List SyncLane) (db after : SyncTables)
    (h : lanes.foldlM
      (fun db lane => Prod.fst <$> enqueueSyncWorkUnlocked db (dueWork state lane)) db =
        .ok after) :
    LanesWritten Option.isNone state lanes db.work after.work := by
  induction lanes generalizing db with
  | nil =>
    simp only [List.foldlM_nil, pure, Except.pure, Except.ok.injEq] at h
    subst h
    exact .nil db.work
  | cons lane rest ih =>
    simp only [List.foldlM_cons, bind, Except.bind] at h
    cases hrun : enqueueSyncWorkUnlocked db (dueWork state lane) with
    | error message =>
      rw [hrun] at h
      cases h
    | ok result =>
      rw [hrun] at h
      exact (enqueueSyncWork_effect hrun).lanesWritten.cons (ih result.1 h)

theorem cancelLanes_work (lanes : List SyncLane) (db : SyncTables) :
    (lanes.foldl (fun db lane => cancelLane db state lane) db).work =
      lanes.foldl (cancelFree Option.isNone state) db.work := by
  induction lanes generalizing db with
  | nil => rfl
  | cons lane rest ih => exact ih (cancelLane db state lane)

/-- A phase write that commits ran both passes of its plan. -/
theorem ensureOwedSyncWork_planApplied
    (h : ensureOwedSyncWorkUnlocked db state = .ok after)
    (hrows : ∀ row ∈ db.work.rows, state.owns row = true → row.runId = none) :
    ∃ mid, PlanApplied Option.isNone state (historyPolicyForInstall db state.installationId)
      db.work mid after.work := by
  unfold ensureOwedSyncWorkUnlocked at h
  simp only [bind, Except.bind, pure, Except.pure] at h
  split at h
  · cases h
  · next enqueued hfold =>
    cases h
    refine ⟨enqueued.work, ⟨enqueueLanes_written _ db enqueued hfold, ?_, ?_, ?_⟩⟩
    · rw [cancelLanes_work]
      exact LanesCancelled.cancelFree_fold _ _
    · intro row hrow howns
      simp [hrows row hrow howns]
    · intro runId hfree
      rw [Option.isNone_iff_eq_none.mp hfree]
      rfl

/-- What a phase write leaves alone besides its own phase row. -/
theorem ensureOwedSyncWork_frame (h : ensureOwedSyncWorkUnlocked db state = .ok after) :
    after.installations = db.installations ∧ after.members = db.members ∧
      after.catalogs = db.catalogs ∧ after.states = db.states := by
  refine ensureOwedSyncWork_invariant db
    (fun s => s.installations = db.installations ∧ s.members = db.members ∧
      s.catalogs = db.catalogs ∧ s.states = db.states) state ?_ ?_ ⟨rfl, rfl, rfl, rfl⟩ h
  · intro s next lane _ hs heffect
    cases heffect <;> exact hs
  · intro s lane hs
    exact hs

theorem putSyncState_ok {stored : SyncStreamState}
    (h : putSyncState db state = .ok (after, stored))
    (hinside : streamOutsideCompleteCatalog db state.installationId state.streamKey = false) :
    stored = releaseHistoryPhase state (historyPolicyForInstall db state.installationId) ∧
      referencesInstallation db state.installationId = true ∧
      ensureOwedSyncWorkUnlocked { db with states := db.states.put stored } stored =
        .ok after := by
  unfold putSyncState at h
  simp only [releaseHistoryPhase_installationId, releaseHistoryPhase_streamKey, hinside,
    Bool.false_eq_true, if_false] at h
  split at h
  · cases h
  · next href =>
    simp only [bind, Except.bind, pure, Except.pure] at h
    split at h
    · cases h
    · next hensure =>
      cases h
      exact ⟨rfl, by simpa using href, hensure⟩

/-- Over rows that already give what is owed, a phase write touches no row. -/
theorem ensureOwedSyncWork_satisfied
    (h : syncWorkEnsurePlan state.phase state.mediaPending (ownedRows state db.work)
      (historyPolicyForInstall db state.installationId) = ⟨[], []⟩) :
    ensureOwedSyncWorkUnlocked db state = .ok db := by
  have hplan : syncWorkEnsurePlan state.phase state.mediaPending (workForStream db state)
      (historyPolicyForInstall db state.installationId) = ⟨[], []⟩ := h
  unfold ensureOwedSyncWorkUnlocked
  rw [hplan]
  rfl

theorem lanesMissing_of_open {lanes : List SyncLane} {row : SyncWorkRecord}
    (hrow : row ∈ db.work.rows) (howns : state.owns row = true) (hopen : row.isOpen = true)
    (hlane : row.lane ∈ lanes) :
    lanesMissing db state.installationId state.streamKey state.generation lanes = false := by
  simp only [SyncStreamState.owns, Bool.and_eq_true, decide_eq_true_eq] at howns
  simp only [lanesMissing, Bool.not_eq_false']
  refine List.any_eq_true.mpr ⟨row, hrow, ?_⟩
  simp [howns, hopen, hlane]

/-- The stream has no gap on lanes that are covered whenever its phase owes them. -/
theorem phaseGaps_streamKey {lane : SyncLane} {lanes : List SyncLane}
    {owes : SyncStreamState → Bool}
    (hstate : ∀ other ∈ statesOf db state.installationId,
      other.streamKey = state.streamKey → other = state)
    (hcovered : owes state = true →
      lanesMissing db state.installationId state.streamKey state.generation lanes = false) :
    ∀ gap ∈ phaseGaps db state.installationId lane lanes owes,
      gap.streamKey ≠ state.streamKey := by
  intro gap hgap hkey
  obtain ⟨other, hother, rfl⟩ := List.mem_map.mp hgap
  obtain ⟨hmem, hmissing⟩ := List.mem_filter.mp hother
  rw [hstate other hmem hkey] at hmissing
  simp only [Bool.and_eq_true] at hmissing
  rw [hcovered hmissing.1] at hmissing
  cases hmissing.2

theorem listUnseeded_streamKey (hseeded : state ∈ statesOf db state.installationId)
    (unseededLimit : Int) :
    ∀ gap ∈ listUnseededSyncWorkGaps db state.installationId unseededLimit,
      gap.streamKey ≠ state.streamKey := by
  intro gap hgap hkey
  obtain ⟨member, hmember, rfl⟩ := List.mem_map.mp hgap
  have hfiltered := List.mem_of_mem_take hmember
  rw [List.mem_insertionSort] at hfiltered
  have hguard := (List.mem_filter.mp hfiltered).2
  simp only [Bool.and_eq_true, Bool.not_eq_true'] at hguard
  have hnone := List.any_eq_false.mp hguard.1.2 state hseeded
  have hsame : member.streamKey = state.streamKey := hkey
  exact hnone (by simp [hsame])

theorem mem_statesOf_put (db : SyncTables) {state other : SyncStreamState}
    (hmem : other ∈ statesOf { db with states := db.states.put state } state.installationId)
    (hkey : other.streamKey = state.streamKey) : other = state := by
  obtain ⟨hput, hinst⟩ := List.mem_filter.mp hmem
  rcases Table.mem_put.mp hput with rfl | ⟨_, hne⟩
  · rfl
  · exact absurd (Prod.ext (by simpa using hinst) hkey) hne

theorem statesOf_put_self (db : SyncTables) (state : SyncStreamState) :
    state ∈ statesOf { db with states := db.states.put state } state.installationId :=
  List.mem_filter.mpr ⟨Table.mem_put.mpr (Or.inl rfl), by simp⟩

/-- After its phase write a stream has no gap: each part of the query looks for a lane
that the phase owes, and that lane is open. -/
theorem listSyncWorkGaps_streamKey {policy : HistoryPolicy}
    (hphase : state.phase = .history → policy = .backfill)
    (hstates : after.states = db.states.put state)
    (hopened : ∀ lane ∈ owedSyncLanes state.phase state.mediaPending policy,
      ∃ row ∈ after.work.rows, state.owns row = true ∧ row.isOpen = true ∧
        (row.lane = lane ∨ lane = .live ∧ row.lane = .interactive))
    (unseededLimit : Int) :
    ∀ gap ∈ listSyncWorkGaps after state.installationId unseededLimit,
      gap.streamKey ≠ state.streamKey := by
  have hstate : ∀ other ∈ statesOf after state.installationId,
      other.streamKey = state.streamKey → other = state := by
    intro other hother hkey
    refine mem_statesOf_put db ?_ hkey
    simpa [statesOf, hstates] using hother
  have hseeded : state ∈ statesOf after state.installationId := by
    simpa [statesOf, hstates] using statesOf_put_self db state
  have hcovered : ∀ lane lanes, lane ∈ owedSyncLanes state.phase state.mediaPending policy →
      lane ∈ lanes → (lane = .live → SyncLane.interactive ∈ lanes) →
      lanesMissing after state.installationId state.streamKey state.generation lanes =
        false := by
    intro lane lanes howed hlane hinteractive
    obtain ⟨row, hrow, howns, hopen, hcovers⟩ := hopened lane howed
    apply lanesMissing_of_open hrow howns hopen
    rcases hcovers with rfl | ⟨hlive, heq⟩
    · exact hlane
    · rw [heq]
      exact hinteractive hlive
  intro gap hgap
  unfold listSyncWorkGaps at hgap
  rw [List.mem_append, List.mem_append, List.mem_append] at hgap
  rcases hgap with ((hlive | hhistory) | hmedia) | hunseeded
  · refine phaseGaps_streamKey hstate ?_ gap hlive
    intro howes
    have hphaseLive : state.phase ≠ .history := by simpa using howes
    apply hcovered .live
    · unfold owedSyncLanes messageDuty
      simp only [hphaseLive, and_false, if_false]
      split <;> simp
    · simp
    · simp
  · refine phaseGaps_streamKey hstate ?_ gap hhistory
    intro howes
    have hphaseHistory : state.phase = .history := by simpa using howes
    apply hcovered .history
    · unfold owedSyncLanes messageDuty
      simp only [hphase hphaseHistory, hphaseHistory, and_self, if_true]
      split <;> simp
    · simp
    · simp
  · refine phaseGaps_streamKey hstate ?_ gap hmedia
    intro howes
    apply hcovered .media
    · unfold owedSyncLanes
      rw [if_pos howes]
      simp
    · simp
    · simp
  · exact listUnseeded_streamKey hseeded unseededLimit gap hunseeded

theorem streamOutside_congr {other : SyncTables} (hcatalogs : other.catalogs = db.catalogs)
    (hmembers : other.members = db.members) (installationId streamKey : String) :
    streamOutsideCompleteCatalog other installationId streamKey =
      streamOutsideCompleteCatalog db installationId streamKey := by
  unfold streamOutsideCompleteCatalog
  rw [hcatalogs, hmembers]

/-- Over satisfied rows a phase write stores its phase and nothing else. -/
theorem putSyncState_satisfied {stored : SyncStreamState}
    (hstored : releaseHistoryPhase state (historyPolicyForInstall db state.installationId) =
      stored)
    (hinside : streamOutsideCompleteCatalog db state.installationId state.streamKey = false)
    (href : referencesInstallation db state.installationId = true)
    (hplan : syncWorkEnsurePlan stored.phase stored.mediaPending (ownedRows stored db.work)
      (historyPolicyForInstall db stored.installationId) = ⟨[], []⟩) :
    putSyncState db state = .ok ({ db with states := db.states.put stored }, stored) := by
  have hinst : stored.installationId = state.installationId := by simp [← hstored]
  have hstream : stored.streamKey = state.streamKey := by simp [← hstored]
  have hensure : ensureOwedSyncWorkUnlocked { db with states := db.states.put stored } stored =
      .ok { db with states := db.states.put stored } :=
    ensureOwedSyncWork_satisfied hplan
  unfold putSyncState
  simp only [hstored, hinst, hstream, hinside, href, hensure, Bool.false_eq_true, if_false,
    Bool.not_true]
  rfl

/-- A phase write that commits, inside the catalog and over unassigned rows. -/
theorem putSyncState_owes {stored : SyncStreamState} (unseededLimit : Int)
    (hput : putSyncState db state = .ok (after, stored))
    (hinside : streamOutsideCompleteCatalog db state.installationId state.streamKey = false)
    (hrows : ∀ row ∈ db.work.rows, stored.owns row = true → row.runId = none) :
    PhaseWriteOwes (owedSyncLanes stored.phase stored.mediaPending
        (historyPolicyForInstall db state.installationId)) stored db.work after.work
      (commit after (putSyncState after state)).work
      (listSyncWorkGaps after stored.installationId unseededLimit) := by
  obtain ⟨hstored, href, hensure⟩ := putSyncState_ok hput hinside
  obtain ⟨hinst, hmembers, hcatalogs, hstates⟩ := ensureOwedSyncWork_frame hensure
  have hid : stored.installationId = state.installationId := by simp [hstored]
  have hpolicy : ∀ s : SyncTables, s.installations = db.installations →
      historyPolicyForInstall s stored.installationId =
        historyPolicyForInstall db state.installationId := by
    intro s hs
    unfold historyPolicyForInstall
    rw [hs, hid]
  obtain ⟨mid, happlied⟩ := ensureOwedSyncWork_planApplied hensure hrows
  rw [hpolicy { db with states := db.states.put stored } rfl] at happlied
  refine happlied.owes ?_ ?_
  · have hphase : stored.phase = .history →
        historyPolicyForInstall db state.installationId = .backfill := by
      intro hhistory
      rw [hstored] at hhistory
      exact releaseHistoryPhase_backfill hhistory
    apply listSyncWorkGaps_streamKey hphase hstates
    intro lane howed
    exact happlied.opened howed
  · have hreleased : releaseHistoryPhase state
        (historyPolicyForInstall after state.installationId) = stored := by
      unfold historyPolicyForInstall at hstored ⊢
      rw [hstored, hinst]
    have hplan := happlied.satisfied
    rw [← hpolicy after hinst] at hplan
    have hagain := putSyncState_satisfied hreleased
      ((streamOutside_congr hcatalogs hmembers _ _).trans hinside)
      (by simpa [referencesInstallation, hinst] using href) hplan
    rw [hagain]
    rfl

end Sqlite

/-! ## The in-memory store -/

namespace Memory

variable {db after : MemoryTables}

def readsFree (runId : Option String) : Bool := !(present runId).isSome

theorem owns_of_uniqueKey {lane : SyncLane} {row : SyncWorkRecord}
    (h : row.uniqueKey = (Sqlite.dueWork state lane).uniqueKey) :
    state.owns row = true ∧ row.lane = lane := by
  simp only [SyncWorkRecord.uniqueKey, EnqueueSyncWork.uniqueKey, SyncWorkKey.mk.injEq] at h
  obtain ⟨hinst, hstream, hlane, hgeneration⟩ := h
  refine ⟨?_, hlane⟩
  simp only [SyncStreamState.owns, Bool.and_eq_true, decide_eq_true_eq]
  exact ⟨⟨hinst, hstream⟩, hgeneration⟩

theorem existingId_row (hindexed : db.Indexed) {lane : SyncLane} {id : String}
    (h : existingId db (Sqlite.dueWork state lane) = some id) :
    ∃ row, db.work.get? id = some row ∧ state.owns row = true ∧ row.lane = lane := by
  have hentry := (present_some.mp h).1
  obtain ⟨entry, hget, rfl⟩ := Option.map_eq_some_iff.mp hentry
  obtain ⟨hmem, hkey⟩ := Table.get?_eq_some.mp hget
  obtain ⟨row, hrow, hsame⟩ := hindexed entry hmem
  obtain ⟨howns, hlane⟩ := owns_of_uniqueKey (hsame.trans hkey)
  exact ⟨row, hrow, howns, hlane⟩

theorem EnqueueEffect.lanesWritten {lane : SyncLane} (hindexed : db.Indexed)
    (hids : DueIdsOwn state db.work) (h : EnqueueEffect db (Sqlite.dueWork state lane) after) :
    LanesWritten readsFree state [lane] db.work after.work := by
  cases h with
  | running id found existing row status =>
    obtain ⟨row', hrow', howns, hlane⟩ := existingId_row hindexed found
    rw [row] at hrow'
    cases hrow'
    exact .running (Table.get?_eq_some.mp row).1 howns hlane status
  | rePend id found existing row status =>
    obtain ⟨row', hrow', howns, hlane⟩ := existingId_row hindexed found
    rw [row] at hrow'
    cases hrow'
    exact .update row howns hlane (rePend_id (Sqlite.dueWork state lane))
      ⟨rfl, rfl, rfl, rfl, rfl⟩ rfl
  | put missing => exact .put rfl fun before hbefore hid => hids before hbefore lane hid

/-- Due work names no run, and its identity finds a row the store has. -/
theorem enqueueSyncWork_due_ok (hindexed : db.Indexed) (lane : SyncLane) :
    ∃ result, enqueueSyncWork db (Sqlite.dueWork state lane) = .ok result := by
  have hrun : present (Sqlite.dueWork state lane).runId = none := rfl
  unfold enqueueSyncWork
  rw [hrun]
  simp only [Option.filter_none]
  cases hfound : existingId db (Sqlite.dueWork state lane) with
  | none => exact ⟨_, rfl⟩
  | some id =>
    obtain ⟨row, hrow, _⟩ := existingId_row hindexed hfound
    simp only [hrow]
    split
    · exact ⟨_, rfl⟩
    · exact ⟨_, rfl⟩

theorem enqueueSyncWorkMany_due (lanes : List SyncLane) (db : MemoryTables)
    (hindexed : db.Indexed) (hids : DueIdsOwn state db.work) :
    ∃ after count, enqueueSyncWorkMany db (lanes.map (Sqlite.dueWork state)) =
        (after, .ok count) ∧
      LanesWritten readsFree state lanes db.work after.work := by
  induction lanes generalizing db with
  | nil => exact ⟨db, 0, rfl, .nil db.work⟩
  | cons lane rest ih =>
    obtain ⟨result, hrun⟩ := enqueueSyncWork_due_ok hindexed lane
    obtain ⟨_, heffect⟩ := enqueueSyncWork_effect hrun
    obtain ⟨after, count, hmany, hwritten⟩ :=
      ih result.1 (heffect.indexed hindexed (dueIdsOwn_fresh hids lane)) (heffect.dueIdsOwn hids)
    refine ⟨after, count + 1, ?_, (heffect.lanesWritten hindexed hids).cons hwritten⟩
    rw [List.map_cons]
    unfold enqueueSyncWorkMany
    rw [hrun]
    simp only [hmany]

theorem cancelLanes_work (lanes : List SyncLane) (db : MemoryTables) :
    (lanes.foldl (fun db lane => cancelLane db state lane) db).work =
      lanes.foldl (cancelFree readsFree state) db.work := by
  induction lanes generalizing db with
  | nil => rfl
  | cons lane rest ih => exact ih (cancelLane db state lane)

theorem ensureOwedSyncWork_planApplied (hindexed : db.Indexed)
    (hids : DueIdsOwn state db.work)
    (hrows : ∀ row ∈ db.work.rows, state.owns row = true → row.assigned = false) :
    ∃ mid, PlanApplied readsFree state (historyPolicyForInstall db state.installationId)
      db.work mid (ensureOwedSyncWork db state).work := by
  obtain ⟨enqueued, count, hmany, hwritten⟩ := enqueueSyncWorkMany_due
    (syncWorkEnsurePlan state.phase state.mediaPending (workForStream db state)
      (historyPolicyForInstall db state.installationId)).enqueue db hindexed hids
  have hensure : ensureOwedSyncWork db state =
      (syncWorkEnsurePlan state.phase state.mediaPending (workForStream db state)
        (historyPolicyForInstall db state.installationId)).cancel.foldl
          (fun db lane => cancelLane db state lane) enqueued := by
    unfold ensureOwedSyncWork
    dsimp only
    rw [hmany]
  refine ⟨enqueued.work, ⟨hwritten, ?_, ?_, ?_⟩⟩
  · rw [hensure, cancelLanes_work]
    exact LanesCancelled.cancelFree_fold _ _
  · intro row hrow howns
    have hfree := hrows row hrow howns
    simpa [readsFree, SyncWorkRecord.assigned] using hfree
  · intro runId hfree
    simpa [readsFree] using hfree

theorem ensureOwedSyncWork_frame (db : MemoryTables) (state : SyncStreamState) :
    (ensureOwedSyncWork db state).installations = db.installations ∧
      (ensureOwedSyncWork db state).members = db.members ∧
      (ensureOwedSyncWork db state).catalogs = db.catalogs ∧
      (ensureOwedSyncWork db state).states = db.states := by
  refine ensureOwedSyncWork_invariant db
    (fun s => s.installations = db.installations ∧ s.members = db.members ∧
      s.catalogs = db.catalogs ∧ s.states = db.states) state ?_ ?_ ⟨rfl, rfl, rfl, rfl⟩
  · intro s next lane _ hs heffect
    cases heffect <;> exact hs
  · intro s lane hs
    exact hs

theorem ensureOwedSyncWork_satisfied
    (h : syncWorkEnsurePlan state.phase state.mediaPending (ownedRows state db.work)
      (historyPolicyForInstall db state.installationId) = ⟨[], []⟩) :
    ensureOwedSyncWork db state = db := by
  have hplan : syncWorkEnsurePlan state.phase state.mediaPending (workForStream db state)
      (historyPolicyForInstall db state.installationId) = ⟨[], []⟩ := h
  unfold ensureOwedSyncWork
  rw [hplan]
  rfl

theorem putSyncState_inside {stored : SyncStreamState}
    (hstored : releaseHistoryPhase state (historyPolicyForInstall db state.installationId) =
      stored)
    (hinside : streamOutsideCompleteCatalog db state.installationId state.streamKey = false) :
    putSyncState db state =
      (ensureOwedSyncWork { db with states := db.states.put stored } stored, stored) := by
  have hinst : stored.installationId = state.installationId := by simp [← hstored]
  have hstream : stored.streamKey = state.streamKey := by simp [← hstored]
  unfold putSyncState
  simp only [hstored, hinst, hstream, hinside, Bool.false_eq_true, if_false]

/-- The repair query runs the plan again, so a satisfied stream has no gap. -/
theorem listSyncWorkGaps_streamKey (hstates : after.states = db.states.put state)
    (hplan : syncWorkEnsurePlan state.phase state.mediaPending (ownedRows state after.work)
      (historyPolicyForInstall after state.installationId) = ⟨[], []⟩)
    (localeBefore : String → String → Bool) (unseededLimit : Int) :
    ∀ gap ∈ listSyncWorkGaps after localeBefore state.installationId unseededLimit,
      gap.streamKey ≠ state.streamKey := by
  have hstate : ∀ other ∈ Sqlite.statesOf after.toSyncTables state.installationId,
      other.streamKey = state.streamKey → other = state := by
    intro other hother hkey
    refine Sqlite.mem_statesOf_put db.toSyncTables ?_ hkey
    simpa [Sqlite.statesOf, hstates] using hother
  have hseeded : state ∈ Sqlite.statesOf after.toSyncTables state.installationId := by
    simpa [Sqlite.statesOf, hstates] using Sqlite.statesOf_put_self db.toSyncTables state
  intro gap hgap hkey
  rcases List.mem_append.mp hgap with hphase | hunseeded
  · obtain ⟨other, hother, hlane⟩ := List.mem_flatMap.mp hphase
    obtain ⟨lane, henqueue, rfl⟩ := List.mem_map.mp hlane
    rw [hstate other hother hkey] at henqueue
    change lane ∈ (syncWorkEnsurePlan state.phase state.mediaPending
      (ownedRows state after.work)
      (historyPolicyForInstall after state.installationId)).enqueue at henqueue
    rw [hplan] at henqueue
    cases henqueue
  · obtain ⟨member, hmember, rfl⟩ := List.mem_map.mp hunseeded
    have hfiltered := List.mem_of_mem_take hmember
    rw [List.mem_insertionSort] at hfiltered
    have hguard := (List.mem_filter.mp hfiltered).2
    simp only [Bool.and_eq_true, Bool.not_eq_true'] at hguard
    have hnone := List.any_eq_false.mp hguard.1.2 state hseeded
    have hsame : member.streamKey = state.streamKey := hkey
    exact hnone (by simp [hsame])

theorem streamOutside_congr {other : MemoryTables} (hcatalogs : other.catalogs = db.catalogs)
    (hmembers : other.members = db.members) (installationId streamKey : String) :
    streamOutsideCompleteCatalog other installationId streamKey =
      streamOutsideCompleteCatalog db installationId streamKey := by
  unfold streamOutsideCompleteCatalog getSyncCatalog Sqlite.membersOf
  rw [hcatalogs, hmembers]

/-- A phase write inside the catalog and over unassigned rows. -/
theorem putSyncState_owes (localeBefore : String → String → Bool) (unseededLimit : Int)
    {stored : SyncStreamState}
    (hstored : releaseHistoryPhase state (historyPolicyForInstall db state.installationId) =
      stored)
    (hinside : streamOutsideCompleteCatalog db state.installationId state.streamKey = false)
    (hindexed : db.Indexed) (hids : DueIdsOwn stored db.work)
    (hrows : ∀ row ∈ db.work.rows, stored.owns row = true → row.assigned = false) :
    PhaseWriteOwes (owedSyncLanes stored.phase stored.mediaPending
        (historyPolicyForInstall db state.installationId)) stored db.work
      (putSyncState db state).1.work (putSyncState (putSyncState db state).1 state).1.work
      (listSyncWorkGaps (putSyncState db state).1 localeBefore stored.installationId
        unseededLimit) := by
  rw [putSyncState_inside hstored hinside]
  obtain ⟨hinst, hmembers, hcatalogs, hstates⟩ :=
    ensureOwedSyncWork_frame { db with states := db.states.put stored } stored
  obtain ⟨mid, happlied⟩ := ensureOwedSyncWork_planApplied
    (show MemoryTables.Indexed { db with states := db.states.put stored } from hindexed)
    hids hrows
  generalize ensureOwedSyncWork { db with states := db.states.put stored } stored = after
    at hinst hmembers hcatalogs hstates happlied ⊢
  have hid : stored.installationId = state.installationId := by simp [← hstored]
  have hpolicy : ∀ s : MemoryTables, s.installations = db.installations →
      historyPolicyForInstall s stored.installationId =
        historyPolicyForInstall db state.installationId := by
    intro s hs
    unfold historyPolicyForInstall
    rw [hs, hid]
  rw [hpolicy { db with states := db.states.put stored } rfl] at happlied
  have hplan := happlied.satisfied
  rw [← hpolicy after hinst] at hplan
  refine happlied.owes ?_ ?_
  · exact listSyncWorkGaps_streamKey hstates hplan localeBefore unseededLimit
  · have hreleased : releaseHistoryPhase state
        (historyPolicyForInstall after state.installationId) = stored := by
      rw [← hstored]
      unfold historyPolicyForInstall
      rw [hinst]
    rw [putSyncState_inside hreleased ((streamOutside_congr hcatalogs hmembers _ _).trans hinside)]
    have hsame : ensureOwedSyncWork { after with states := after.states.put stored } stored =
        { after with states := after.states.put stored } :=
      ensureOwedSyncWork_satisfied hplan
    rw [hsame]

end Memory

/-! ## Both stores -/

/-- A phase write owes exactly its message lanes, in both stores: over rows that no run
holds and for a stream inside its catalog. The in-memory store also has to agree with
its identity map and to hold the due ids of the stream for the stream's own rows. -/
theorem phaseWrite_owes (localeBefore : String → String → Bool) (unseededLimit : Int) :
    (∀ (db after : SyncTables) (state stored : SyncStreamState),
      Sqlite.putSyncState db state = .ok (after, stored) →
      Sqlite.streamOutsideCompleteCatalog db state.installationId state.streamKey = false →
      (∀ row ∈ db.work.rows, stored.owns row = true → row.runId = none) →
      PhaseWriteOwes (owedSyncLanes stored.phase stored.mediaPending
          (Sqlite.historyPolicyForInstall db state.installationId)) stored db.work after.work
        (Sqlite.commit after (Sqlite.putSyncState after state)).work
        (Sqlite.listSyncWorkGaps after stored.installationId unseededLimit)) ∧
    (∀ (db : MemoryTables) (state stored : SyncStreamState),
      releaseHistoryPhase state (Memory.historyPolicyForInstall db state.installationId) =
        stored →
      Memory.streamOutsideCompleteCatalog db state.installationId state.streamKey = false →
      db.Indexed → DueIdsOwn stored db.work →
      (∀ row ∈ db.work.rows, stored.owns row = true → row.assigned = false) →
      PhaseWriteOwes (owedSyncLanes stored.phase stored.mediaPending
          (Memory.historyPolicyForInstall db state.installationId)) stored db.work
        (Memory.putSyncState db state).1.work
        (Memory.putSyncState (Memory.putSyncState db state).1 state).1.work
        (Memory.listSyncWorkGaps (Memory.putSyncState db state).1 localeBefore
          stored.installationId unseededLimit)) := by
  constructor
  · intro db after state stored hput hinside hrows
    exact Sqlite.putSyncState_owes unseededLimit hput hinside hrows
  · intro db state stored hstored hinside hindexed hids hrows
    exact Memory.putSyncState_owes localeBefore unseededLimit hstored hinside hindexed hids hrows

/-- A store that holds one pending row and no catalog. -/
def holding (row : SyncWorkRecord) : SyncTables where
  installations := Table.insert ∅ ⟨"inst", "org", .enabled, none⟩ rfl
  work := Table.insert ∅ row rfl

def pendingRow (streamKey : String) (lane : SyncLane) : SyncWorkRecord where
  id := dueSyncWorkId "inst" streamKey lane 1
  installationId := "inst"
  streamKey := streamKey
  lane := lane
  priority := syncWorkPriority lane
  nextDueAt := 5
  status := .pending
  attempts := 0
  generation := 1
  createdAt := 0
  updatedAt := 0

def liveState (streamKey : String) : SyncStreamState where
  installationId := "inst"
  streamKey := streamKey
  phase := .live
  mediaPending := true
  generation := 1
  updatedAt := 9

def indexed (row : SyncWorkRecord) : MemoryTables where
  toSyncTables := holding row
  workKeys := Table.insert ∅ (row.uniqueKey, row.id) rfl

/-- A leftover history row is dropped, and the live and media lanes are opened. -/
theorem phaseWrite_owes_thread :
    PhaseWriteOwes [.live, .media] (liveState "thread") (holding (pendingRow "thread" .history)).work
        (Sqlite.commit (holding (pendingRow "thread" .history))
          (Sqlite.putSyncState (holding (pendingRow "thread" .history)) (liveState "thread"))).work
        (Sqlite.commit (Sqlite.commit (holding (pendingRow "thread" .history))
          (Sqlite.putSyncState (holding (pendingRow "thread" .history)) (liveState "thread")))
          (Sqlite.putSyncState (Sqlite.commit (holding (pendingRow "thread" .history))
            (Sqlite.putSyncState (holding (pendingRow "thread" .history))
              (liveState "thread"))) (liveState "thread"))).work
        (Sqlite.listSyncWorkGaps (Sqlite.commit (holding (pendingRow "thread" .history))
          (Sqlite.putSyncState (holding (pendingRow "thread" .history)) (liveState "thread")))
          "inst" 10) ∧
      PhaseWriteOwes [.live, .media] (liveState "thread")
        (indexed (pendingRow "thread" .history)).work
        (Memory.putSyncState (indexed (pendingRow "thread" .history)) (liveState "thread")).1.work
        (Memory.putSyncState (Memory.putSyncState (indexed (pendingRow "thread" .history))
          (liveState "thread")).1 (liveState "thread")).1.work
        (Memory.listSyncWorkGaps (Memory.putSyncState (indexed (pendingRow "thread" .history))
          (liveState "thread")).1 (fun left right => left ≤ right) "inst" 10) := by
  refine ⟨(phaseWrite_owes (fun left right => left ≤ right) 10).1
    (holding (pendingRow "thread" .history)) _ (liveState "thread") (liveState "thread") rfl rfl
    (by decide), (phaseWrite_owes (fun left right => left ≤ right) 10).2
    (indexed (pendingRow "thread" .history)) (liveState "thread") (liveState "thread") rfl rfl
    ?_ ?_ (by decide)⟩
  · intro entry hentry
    obtain rfl := List.mem_singleton.mp hentry
    exact ⟨pendingRow "thread" .history, by decide, rfl⟩
  · intro row hrow lane hid
    obtain rfl := List.mem_singleton.mp hrow
    exact ⟨by decide, dueSyncWorkId_lane hid⟩

/-- The directory's own row stays pending: no phase owes the catalog lane, and the plan
does not cancel it. -/
theorem phaseWrite_keeps_catalog :
    (∀ row ∈ (holding (pendingRow syncCatalogStream .catalog)).work.rows, row.runId = none) ∧
      ¬ (∀ row ∈ (Sqlite.commit (holding (pendingRow syncCatalogStream .catalog))
          (Sqlite.putSyncState (holding (pendingRow syncCatalogStream .catalog))
            (liveState syncCatalogStream))).work.rows,
        (liveState syncCatalogStream).owns row = true → row.assigned = false →
          row.status = .pending → laneCovered (owedSyncLanes .live true .backfill) row.lane) ∧
      ¬ (∀ row ∈ (Memory.putSyncState (indexed (pendingRow syncCatalogStream .catalog))
          (liveState syncCatalogStream)).1.work.rows,
        (liveState syncCatalogStream).owns row = true → row.assigned = false →
          row.status = .pending →
            laneCovered (owedSyncLanes .live true .backfill) row.lane) := by
  refine ⟨?_, ?_, ?_⟩ <;> decide

end Regenic.Sync
