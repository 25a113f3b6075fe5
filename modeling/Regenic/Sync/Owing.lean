import Regenic.Sync.Gaps

/-!
What a phase write owes the work rows of its stream, and how its two passes give it:
first the missing lanes are written, then the rows of lanes that are not owed are
cancelled. Both stores are instances; they differ in which rows count as unassigned.
-/

namespace Regenic.Sync

open Lib

/-- The rows a phase write of the state plans over. -/
def SyncStreamState.owns (state : SyncStreamState) (row : SyncWorkRecord) : Bool :=
  row.installationId = state.installationId && row.streamKey = state.streamKey &&
    row.generation = state.generation

/-- A lane that the owed lanes pay for: an interactive row counts for `live`. -/
def laneCovered (owed : List SyncLane) (lane : SyncLane) : Prop :=
  lane ∈ owed ∨ lane = .interactive ∧ SyncLane.live ∈ owed

instance (owed : List SyncLane) (lane : SyncLane) : Decidable (laneCovered owed lane) :=
  inferInstanceAs (Decidable (_ ∨ _))

/-- The work rows and the repair query after a phase write, and the rows after the
same write once more. -/
structure PhaseWriteOwes (owed : List SyncLane) (state : SyncStreamState)
    (before after again : Table SyncWorkRecord.id) (gaps : List SyncWorkGap) : Prop where
  opened : ∀ lane ∈ owed, ∃ row ∈ after.rows, state.owns row = true ∧ row.isOpen = true ∧
    (row.lane = lane ∨ lane = .live ∧ row.lane = .interactive)
  dropped : ∀ row ∈ after.rows, state.owns row = true → row.assigned = false →
    row.status = .pending → row.lane ≠ .catalog → laneCovered owed row.lane
  dueKept : ∀ row ∈ before.rows, state.owns row = true → row.isOpen = true →
    laneCovered owed row.lane →
    ∃ row', after.get? row.id = some row' ∧ row'.nextDueAt = row.nextDueAt
  noGap : ∀ gap ∈ gaps, gap.streamKey ≠ state.streamKey
  repeated : again = after

variable {state : SyncStreamState} {owed lanes : List SyncLane}
  {s s' s'' : Table SyncWorkRecord.id}

/-- Every row of the stream carries a `run_id` the store reads as no run. -/
def RowsFree (free : Option String → Bool) (state : SyncStreamState)
    (work : Table SyncWorkRecord.id) : Prop :=
  ∀ row ∈ work.rows, state.owns row = true → free row.runId = true

def LaneOpen (state : SyncStreamState) (work : Table SyncWorkRecord.id) (lane : SyncLane) :
    Prop :=
  ∃ row ∈ work.rows, state.owns row = true ∧ row.lane = lane ∧ row.isOpen = true

/-! ## Writing the missing lanes -/

/-- What the enqueues of some lanes leave: those lanes open, and every other row. -/
structure LanesWritten (free : Option String → Bool) (state : SyncStreamState)
    (lanes : List SyncLane) (before after : Table SyncWorkRecord.id) : Prop where
  opened : ∀ lane ∈ lanes, LaneOpen state after lane
  only : ∀ row ∈ after.rows, row ∈ before.rows ∨ state.owns row = true ∧ row.lane ∈ lanes
  kept : ∀ row ∈ before.rows, ¬ (state.owns row = true ∧ row.lane ∈ lanes) →
    row ∈ after.rows
  unassigned : RowsFree free state before → RowsFree free state after

variable {free : Option String → Bool}

theorem LanesWritten.nil (s : Table SyncWorkRecord.id) : LanesWritten free state [] s s where
  opened lane hlane := by cases hlane
  only row hrow := Or.inl hrow
  kept row hrow _ := hrow
  unassigned hfree := hfree

theorem LanesWritten.cons {lane : SyncLane} (hhead : LanesWritten free state [lane] s s')
    (htail : LanesWritten free state lanes s' s'') :
    LanesWritten free state (lane :: lanes) s s'' where
  opened l hl := by
    rcases List.mem_cons.mp hl with rfl | hmem
    · by_cases hagain : l ∈ lanes
      · exact htail.opened l hagain
      · obtain ⟨row, hrow, howns, hlane, hopen⟩ := hhead.opened l List.mem_cons_self
        refine ⟨row, htail.kept row hrow ?_, howns, hlane, hopen⟩
        rintro ⟨_, hother⟩
        exact hagain (hlane ▸ hother)
    · exact htail.opened l hmem
  only row hrow := by
    rcases htail.only row hrow with hmid | ⟨howns, hlane⟩
    · rcases hhead.only row hmid with hbefore | ⟨howns, hlane⟩
      · exact Or.inl hbefore
      · exact Or.inr ⟨howns, List.mem_cons.mpr (Or.inl (List.mem_singleton.mp hlane))⟩
    · exact Or.inr ⟨howns, List.mem_cons_of_mem lane hlane⟩
  kept row hrow hnot := by
    apply htail.kept row
    · apply hhead.kept row hrow
      rintro ⟨howns, hlane⟩
      exact hnot ⟨howns, List.mem_cons.mpr (Or.inl (List.mem_singleton.mp hlane))⟩
    · rintro ⟨howns, hlane⟩
      exact hnot ⟨howns, List.mem_cons_of_mem lane hlane⟩
  unassigned hfree := htail.unassigned (hhead.unassigned hfree)

/-! ## Cancelling the lanes that are not owed -/

/-- What the cancellations of some lanes leave: no free pending row on them, and every
other row. -/
structure LanesCancelled (free : Option String → Bool) (state : SyncStreamState)
    (lanes : List SyncLane) (before after : Table SyncWorkRecord.id) : Prop where
  only : ∀ row ∈ after.rows, row.status = .cancelled ∨ row ∈ before.rows ∧
    ¬ (state.owns row = true ∧ row.lane ∈ lanes ∧ free row.runId = true ∧
      row.status = .pending)
  kept : ∀ row ∈ before.rows, ¬ (state.owns row = true ∧ row.lane ∈ lanes) →
    row ∈ after.rows

/-- One pass of the cancellation, as both stores write it. -/
def cancelFree (free : Option String → Bool) (state : SyncStreamState)
    (work : Table SyncWorkRecord.id) (lane : SyncLane) : Table SyncWorkRecord.id :=
  work.updateWhere
    (fun row => state.owns row && row.lane = lane && free row.runId && row.status = .pending)
    (SyncWorkRecord.cancel state.updatedAt) state.cancel_id

theorem LanesCancelled.cancelFree_fold (lanes : List SyncLane)
    (s : Table SyncWorkRecord.id) :
    LanesCancelled free state lanes s (lanes.foldl (cancelFree free state) s) := by
  induction lanes generalizing s with
  | nil =>
    refine ⟨fun row hrow => Or.inr ⟨hrow, ?_⟩, fun row hrow _ => hrow⟩
    rintro ⟨_, hlane, _⟩
    cases hlane
  | cons lane rest ih =>
    have htail := ih (cancelFree free state s lane)
    refine ⟨?_, ?_⟩
    · intro row hrow
      rcases htail.only row hrow with hcancelled | ⟨hmid, hnot⟩
      · exact Or.inl hcancelled
      · obtain ⟨before, hbefore, rfl⟩ := List.mem_map.mp hmid
        split at hnot
        · next hp => exact Or.inl (by simp [hp, SyncWorkRecord.cancel])
        · next hp =>
          simp only [hp, Bool.false_eq_true, if_false]
          refine Or.inr ⟨hbefore, ?_⟩
          rintro ⟨howns, hlane, hfree, hpending⟩
          rcases List.mem_cons.mp hlane with hlane | hlane
          · exact hp (by simp [howns, hlane, hfree, hpending])
          · exact hnot ⟨howns, hlane, hfree, hpending⟩
    · intro row hrow hnot
      apply htail.kept row
      · refine List.mem_map.mpr ⟨row, hrow, ?_⟩
        have hp : ¬ (state.owns row && row.lane = lane && free row.runId &&
            row.status = .pending) = true := by
          intro hp
          simp only [Bool.and_eq_true, decide_eq_true_eq] at hp
          exact hnot ⟨hp.1.1.1, List.mem_cons.mpr (Or.inl hp.1.1.2)⟩
        rw [if_neg hp]
      · rintro ⟨howns, hlane⟩
        exact hnot ⟨howns, List.mem_cons_of_mem lane hlane⟩

/-! ## The plan -/

variable {phase : SyncPhase} {mediaPending : Bool} {policy : HistoryPolicy}
  {existing : List SyncWorkRecord}

/-- The plan cancels exactly the message lanes that nothing owed covers and that have a
free pending row. -/
theorem mem_syncWorkEnsurePlan_cancel {lane : SyncLane} :
    lane ∈ (syncWorkEnsurePlan phase mediaPending existing policy).cancel ↔
      lane ≠ .catalog ∧ ¬ laneCovered (owedSyncLanes phase mediaPending policy) lane ∧
        ∃ row ∈ existing, row.assigned = false ∧ row.lane = lane ∧ row.status = .pending := by
  have hinteractive : SyncLane.interactive ∉ owedSyncLanes phase mediaPending policy := by
    unfold owedSyncLanes
    dsimp only
    split_ifs <;> simp
  cases lane <;> simp [syncWorkEnsurePlan, laneCovered, hinteractive, and_assoc]

theorem laneBlocksEnqueue_of_open {lane : SyncLane} {row : SyncWorkRecord}
    (hrow : row ∈ existing) (hopen : row.isOpen = true)
    (hlane : row.lane = lane ∨ lane = .live ∧ row.lane = .interactive) :
    laneBlocksEnqueue existing lane = true := by
  refine List.any_eq_true.mpr ⟨row, hrow, ?_⟩
  rcases hlane with rfl | hlive
  · by_cases hboth : row.lane = .live ∧ row.lane = .interactive
    · rw [if_pos hboth]
      exact hopen
    · rw [if_neg hboth]
      simp [hopen]
  · rw [if_pos hlive]
    exact hopen

/-- A blocked lane has an open row, when no row of the stream belongs to a run. -/
theorem open_of_laneBlocksEnqueue {lane : SyncLane}
    (h : laneBlocksEnqueue existing lane = true)
    (hunassigned : ∀ row ∈ existing, row.assigned = false) :
    ∃ row ∈ existing, row.isOpen = true ∧
      (row.lane = lane ∨ lane = .live ∧ row.lane = .interactive) := by
  obtain ⟨row, hrow, hblocks⟩ := List.any_eq_true.mp h
  refine ⟨row, hrow, ?_⟩
  split at hblocks
  · next hlive => exact ⟨hblocks, Or.inr hlive⟩
  · split at hblocks
    · cases hblocks
    · next hlane =>
      have hfree := hunassigned row hrow
      simp only [hfree, Bool.false_or] at hblocks
      exact ⟨hblocks, Or.inl (by simpa using hlane)⟩

/-- Nothing is left to write or to cancel once the owed lanes are open and only they
have free pending rows. -/
theorem syncWorkEnsurePlan_satisfied
    (hopened : ∀ lane ∈ owedSyncLanes phase mediaPending policy, ∃ row ∈ existing,
      row.isOpen = true ∧ (row.lane = lane ∨ lane = .live ∧ row.lane = .interactive))
    (hdropped : ∀ row ∈ existing, row.assigned = false → row.status = .pending →
      row.lane ≠ .catalog → laneCovered (owedSyncLanes phase mediaPending policy) row.lane) :
    syncWorkEnsurePlan phase mediaPending existing policy = ⟨[], []⟩ := by
  have henqueue : (syncWorkEnsurePlan phase mediaPending existing policy).enqueue = [] := by
    rw [List.eq_nil_iff_forall_not_mem]
    intro lane hlane
    obtain ⟨howed, hfree⟩ := mem_syncWorkEnsurePlan_enqueue.mp hlane
    obtain ⟨row, hrow, hopen, hcovers⟩ := hopened lane howed
    rw [laneBlocksEnqueue_of_open hrow hopen hcovers] at hfree
    cases hfree
  have hcancel : (syncWorkEnsurePlan phase mediaPending existing policy).cancel = [] := by
    rw [List.eq_nil_iff_forall_not_mem]
    intro lane hlane
    obtain ⟨hcatalog, huncovered, row, hrow, hfree, rfl, hpending⟩ :=
      mem_syncWorkEnsurePlan_cancel.mp hlane
    exact huncovered (hdropped row hrow hfree hpending hcatalog)
  exact SyncWorkPlan.ext henqueue hcancel

/-! ## Both passes together -/

variable {before mid after : Table SyncWorkRecord.id}

/-- The rows a phase write of `state` plans over. -/
def ownedRows (state : SyncStreamState) (work : Table SyncWorkRecord.id) :
    List SyncWorkRecord :=
  work.rows.filter state.owns

/-- The two passes of a plan, one after the other. -/
structure PlanApplied (free : Option String → Bool) (state : SyncStreamState)
    (policy : HistoryPolicy) (before mid after : Table SyncWorkRecord.id) : Prop where
  written : LanesWritten free state (syncWorkEnsurePlan state.phase state.mediaPending
    (ownedRows state before) policy).enqueue before mid
  cancelled : LanesCancelled free state (syncWorkEnsurePlan state.phase state.mediaPending
    (ownedRows state before) policy).cancel mid after
  unassigned : RowsFree free state before
  reads : ∀ runId, free runId = true → (present runId).isSome = false

theorem mem_ownedRows {row : SyncWorkRecord} {work : Table SyncWorkRecord.id} :
    row ∈ ownedRows state work ↔ row ∈ work.rows ∧ state.owns row = true :=
  List.mem_filter

theorem PlanApplied.free_assigned (h : PlanApplied free state policy before mid after)
    {row : SyncWorkRecord} (hrow : row ∈ before.rows) (howns : state.owns row = true) :
    row.assigned = false :=
  h.reads row.runId (h.unassigned row hrow howns)

/-- A covered row that was open is neither rewritten nor cancelled. -/
theorem PlanApplied.kept_of_open (h : PlanApplied free state policy before mid after)
    {row : SyncWorkRecord} (hrow : row ∈ before.rows) (howns : state.owns row = true)
    (hopen : row.isOpen = true)
    (hcovered : laneCovered (owedSyncLanes state.phase state.mediaPending policy) row.lane) :
    row ∈ after.rows := by
  apply h.cancelled.kept row
  · apply h.written.kept row hrow
    rintro ⟨_, hlane⟩
    have hfree := (mem_syncWorkEnsurePlan_enqueue.mp hlane).2
    rw [laneBlocksEnqueue_of_open (mem_ownedRows.mpr ⟨hrow, howns⟩) hopen (Or.inl rfl)] at hfree
    cases hfree
  · rintro ⟨_, hlane⟩
    exact (mem_syncWorkEnsurePlan_cancel.mp hlane).2.1 hcovered

theorem PlanApplied.opened (h : PlanApplied free state policy before mid after)
    {lane : SyncLane} (howed : lane ∈ owedSyncLanes state.phase state.mediaPending policy) :
    ∃ row ∈ after.rows, state.owns row = true ∧ row.isOpen = true ∧
      (row.lane = lane ∨ lane = .live ∧ row.lane = .interactive) := by
  cases hblocks : laneBlocksEnqueue (ownedRows state before) lane with
  | true =>
    have hunassigned : ∀ row ∈ ownedRows state before, row.assigned = false := by
      intro row hrow
      obtain ⟨hmem, howns⟩ := mem_ownedRows.mp hrow
      exact h.free_assigned hmem howns
    obtain ⟨row, hrow, hopen, hlane⟩ := open_of_laneBlocksEnqueue hblocks hunassigned
    obtain ⟨hmem, howns⟩ := mem_ownedRows.mp hrow
    refine ⟨row, h.kept_of_open hmem howns hopen ?_, howns, hopen, hlane⟩
    rcases hlane with rfl | ⟨rfl, hinteractive⟩
    · exact Or.inl howed
    · exact Or.inr ⟨hinteractive, howed⟩
  | false =>
    have henqueued := mem_syncWorkEnsurePlan_enqueue.mpr ⟨howed, hblocks⟩
    obtain ⟨row, hrow, howns, hlane, hopen⟩ := h.written.opened lane henqueued
    refine ⟨row, h.cancelled.kept row hrow ?_, howns, hopen, Or.inl hlane⟩
    rintro ⟨_, hcancel⟩
    apply (mem_syncWorkEnsurePlan_cancel.mp hcancel).2.1
    rw [hlane]
    exact Or.inl howed

theorem PlanApplied.dropped (h : PlanApplied free state policy before mid after)
    {row : SyncWorkRecord} (hrow : row ∈ after.rows) (howns : state.owns row = true)
    (hpending : row.status = .pending) (hcatalog : row.lane ≠ .catalog) :
    laneCovered (owedSyncLanes state.phase state.mediaPending policy) row.lane := by
  rcases h.cancelled.only row hrow with hcancelled | ⟨hmid, hnot⟩
  · rw [hpending] at hcancelled
    cases hcancelled
  · have hfree := h.written.unassigned h.unassigned row hmid howns
    rcases h.written.only row hmid with hbefore | ⟨_, henqueued⟩
    · by_contra huncovered
      apply hnot
      refine ⟨howns, ?_, hfree, hpending⟩
      refine mem_syncWorkEnsurePlan_cancel.mpr ⟨hcatalog, huncovered, row, ?_, ?_, rfl, hpending⟩
      · exact mem_ownedRows.mpr ⟨hbefore, howns⟩
      · exact h.free_assigned hbefore howns
    · exact Or.inl (mem_syncWorkEnsurePlan_enqueue.mp henqueued).1

/-- The same write plans nothing over the rows it leaves. -/
theorem PlanApplied.satisfied (h : PlanApplied free state policy before mid after) :
    syncWorkEnsurePlan state.phase state.mediaPending (ownedRows state after) policy =
      ⟨[], []⟩ := by
  apply syncWorkEnsurePlan_satisfied
  · intro lane howed
    obtain ⟨row, hrow, howns, hopen, hlane⟩ := h.opened howed
    exact ⟨row, mem_ownedRows.mpr ⟨hrow, howns⟩, hopen, hlane⟩
  · intro row hrow _ hpending hcatalog
    obtain ⟨hmem, howns⟩ := mem_ownedRows.mp hrow
    exact h.dropped hmem howns hpending hcatalog

/-- What is left for a store to show: its repair query reads the plan, and its second
write runs it. -/
theorem PlanApplied.owes (h : PlanApplied free state policy before mid after)
    {again : Table SyncWorkRecord.id} {gaps : List SyncWorkGap}
    (hgaps : ∀ gap ∈ gaps, gap.streamKey ≠ state.streamKey) (hagain : again = after) :
    PhaseWriteOwes (owedSyncLanes state.phase state.mediaPending policy) state before after
      again gaps where
  opened _ howed := h.opened howed
  dropped _ hrow howns _ hpending hcatalog := h.dropped hrow howns hpending hcatalog
  dueKept row hrow howns hopen hcovered :=
    ⟨row, Table.get?_key (h.kept_of_open hrow howns hopen hcovered), rfl⟩
  noGap := hgaps
  repeated := hagain

end Regenic.Sync
