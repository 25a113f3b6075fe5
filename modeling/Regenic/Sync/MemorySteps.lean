import Regenic.Lib.Run
import Regenic.Sync.MemoryStore
import Regenic.Sync.WorkSteps

/-!
What one call of the in-memory store can do to the run and work tables.
-/

namespace Regenic.Sync

open Lib

namespace Memory

variable {db : MemoryTables}

theorem createSyncRun_cases (db : MemoryTables) (input : NewSyncRun) :
    commit db (createSyncRun db input) = db ∨
      ∃ free, commit db (createSyncRun db input) =
        { db with runs := db.runs.insert input.row free } := by
  unfold createSyncRun
  split
  · next free =>
    cases validateSyncRunOptions input.options with
    | error message => exact Or.inl rfl
    | ok _ =>
      simp only [bind, Except.bind]
      split
      · exact Or.inl rfl
      · exact Or.inr ⟨free, rfl⟩
  · exact Or.inl rfl

theorem commandRun_counters (input : CommandSyncRun) (run : SyncRun) :
    (commandRun input run).counters = run.counters := by
  unfold commandRun
  split_ifs <;> rfl

/-- What an enqueue leaves: nothing new, a re-pended row, or a row put under its id. -/
inductive EnqueueEffect (db : MemoryTables) (input : EnqueueSyncWork) : MemoryTables → Prop
  | running (id : String) (found : existingId db input = some id) (existing : SyncWorkRecord)
      (row : db.work.get? id = some existing) (status : existing.status = .running) :
      EnqueueEffect db input db
  | rePend (id : String) (found : existingId db input = some id) (existing : SyncWorkRecord)
      (row : db.work.get? id = some existing) (status : existing.status ≠ .running) :
      EnqueueEffect db input
        { db with work := db.work.update id (rePend input) (rePend_id input) }
  | put (missing : existingId db input = none) :
      EnqueueEffect db input
        { db with
          work := db.work.put input.row
          workKeys := db.workKeys.put (input.uniqueKey, input.id)
          runs := match present input.runId with
            | some runId => db.runs.update runId (Sqlite.bumpRun input.now)
                (Sqlite.bumpRun_id input.now)
            | none => db.runs }

/-- The run an enqueue names is stored. -/
def namesRun (db : MemoryTables) (input : EnqueueSyncWork) : Prop :=
  ∀ runId, present input.runId = some runId → (db.runs.get? runId).isSome = true

theorem enqueueSyncWork_effect {input : EnqueueSyncWork} {after : MemoryTables}
    {row : SyncWorkRecord} (h : enqueueSyncWork db input = .ok (after, row)) :
    namesRun db input ∧ EnqueueEffect db input after := by
  unfold enqueueSyncWork at h
  cases hrun : (present input.runId).filter (fun id => (db.runs.get? id).isNone) with
  | some missing =>
    rw [hrun] at h
    cases h
  | none =>
    rw [hrun] at h
    dsimp only at h
    have hnames : namesRun db input := by
      intro runId hid
      rw [hid] at hrun
      cases hget : db.runs.get? runId with
      | none => simp [hget] at hrun
      | some run => rfl
    refine ⟨hnames, ?_⟩
    cases hexisting : existingId db input with
    | some id =>
      rw [hexisting] at h
      dsimp only at h
      cases hget : db.work.get? id with
      | none =>
        rw [hget] at h
        cases h
      | some existing =>
        rw [hget] at h
        dsimp only at h
        split_ifs at h with hstatus
        · cases h
          exact .running id hexisting _ hget hstatus
        · cases h
          exact .rePend id hexisting _ hget hstatus
    | none =>
      rw [hexisting] at h
      cases h
      exact .put hexisting

theorem enqueueSyncWork_cases (db : MemoryTables) (input : EnqueueSyncWork) :
    commit db (enqueueSyncWork db input) = db ∨
      (namesRun db input ∧
        EnqueueEffect db input (commit db (enqueueSyncWork db input))) := by
  cases hrun : enqueueSyncWork db input with
  | error message => exact Or.inl rfl
  | ok result => exact Or.inr (enqueueSyncWork_effect hrun)

theorem enqueueSyncWorkMany_invariant (inv : MemoryTables → Prop)
    (inputs : List EnqueueSyncWork)
    (hinv : ∀ s input after, input ∈ inputs → inv s → namesRun s input →
      EnqueueEffect s input after → inv after)
    (db : MemoryTables) (hdb : inv db) : inv (enqueueSyncWorkMany db inputs).1 := by
  induction inputs generalizing db with
  | nil => exact hdb
  | cons input rest ih =>
    unfold enqueueSyncWorkMany
    cases hrun : enqueueSyncWork db input with
    | error message => exact hdb
    | ok result =>
      obtain ⟨hnames, heffect⟩ := enqueueSyncWork_effect hrun
      have hnext := hinv db input result.1 List.mem_cons_self hdb hnames heffect
      have htail := ih (fun s input' after hmem => hinv s input' after
        (List.mem_cons_of_mem input hmem)) result.1 hnext
      dsimp only
      split
      · next final count hrest => simpa [hrest] using htail
      · next final message hrest => simpa [hrest] using htail

theorem mem_claimIds {localeBefore : String → String → Bool} {input : ClaimSyncWork}
    {id : String} (h : id ∈ claimIds db localeBefore input) :
    ∃ work, db.work.get? id = some work ∧ claimable db input work = true := by
  obtain ⟨work, hmem, rfl⟩ := List.mem_map.mp h
  have hsorted := List.mem_of_mem_take hmem
  rw [List.mem_insertionSort] at hsorted
  obtain ⟨hrow, hclaim⟩ := List.mem_filter.mp hsorted
  exact ⟨work, Table.get?_key hrow, hclaim⟩

theorem claimSyncWork_ids (db : MemoryTables) (localeBefore : String → String → Bool)
    (input : ClaimSyncWork) :
    (claimSyncWork db localeBefore input).2.map (·.id) = claimIds db localeBefore input := by
  refine Table.map_key_filterMap_get? _ _ fun id hid => ?_
  obtain ⟨work, hwork, _⟩ := mem_claimIds hid
  rw [Table.get?_updateWhere, hwork]
  rfl

theorem claimSyncWork_work (db : MemoryTables) (localeBefore : String → String → Bool)
    (input : ClaimSyncWork) (id : String) :
    (claimSyncWork db localeBefore input).1.work.get? id =
      if id ∈ claimIds db localeBefore input then
        (db.work.get? id).map
          (SyncWorkRecord.claim input.owner input.now (input.now + input.leaseMs))
      else db.work.get? id := by
  unfold claimSyncWork
  dsimp only
  rw [Table.get?_updateWhere]
  cases hget : db.work.get? id with
  | none => simp
  | some work =>
    have hid := (Table.get?_eq_some.mp hget).2
    simp only [Option.map_some, List.contains_eq_mem, hid, decide_eq_true_eq]
    split <;> rfl

theorem claimSyncWork_runs (db : MemoryTables) (localeBefore : String → String → Bool)
    (input : ClaimSyncWork) :
    SameCounters db.runs (claimSyncWork db localeBefore input).1.runs :=
  SameCounters.updateWhere _ (Sqlite.startRun_id input.now) fun _ => rfl

theorem renewSyncWork_cases (db : MemoryTables) (input : RenewSyncWork) :
    (renewSyncWork db input).1 = db ∨
      ∃ work, db.work.get? input.id = some work ∧ work.status = .running ∧
        work.leaseOwner = some input.owner ∧
        (renewSyncWork db input).1 =
          { db with
            work := db.work.update input.id
              (SyncWorkRecord.renew input.now (input.now + input.leaseMs))
              (SyncWorkRecord.renew_id input.now (input.now + input.leaseMs)) } := by
  unfold renewSyncWork
  split
  · exact Or.inl rfl
  · next work hfind =>
    obtain ⟨hget, hguard⟩ := Option.filter_eq_some_iff.mp hfind
    simp only [Bool.and_eq_true, decide_eq_true_eq] at hguard
    exact Or.inr ⟨work, hget, hguard.1.1, hguard.1.2, rfl⟩

/-- The runs after `current` settled: only its run moves, and only on a final outcome. -/
def settledRuns (db : MemoryTables) (input : SettleSyncWork) (current : SyncWorkRecord) :
    Table SyncRun.id :=
  match (present current.runId).filter (fun _ => input.outcome ≠ .retry) with
  | none => db.runs
  | some runId =>
    let work := db.work.update input.id (SyncWorkRecord.settle input)
      (SyncWorkRecord.settle_id input)
    let remaining := Sqlite.hasOpenWork work runId
    let counted := db.runs.update runId (countSettled input) (countSettled_id input)
    counted.update runId (settleRunIfComplete remaining input.now)
      (completeBySettle_id input remaining)

/-- The run row of settled work, given whether the run has an open row left. -/
def settleRun (input : SettleSyncWork) (remaining : Bool) (run : SyncRun) : SyncRun :=
  settleRunIfComplete remaining input.now (countSettled input run)

theorem settledRuns_get? (db : MemoryTables) (input : SettleSyncWork)
    (current : SyncWorkRecord) (runId : String) :
    (settledRuns db input current).get? runId =
      (db.runs.get? runId).map fun run =>
        if input.outcome ≠ .retry ∧ present current.runId = some runId then
          settleRun input (Sqlite.hasOpenWork (db.work.update input.id
            (SyncWorkRecord.settle input) (SyncWorkRecord.settle_id input)) runId) run
        else run := by
  unfold settledRuns
  split
  · next hnone =>
    have hother : ¬ (input.outcome ≠ .retry ∧ present current.runId = some runId) := by
      rintro ⟨hfinal, hpresent⟩
      simp [hpresent, hfinal] at hnone
    simp [hother]
  · next settled hsettled =>
    obtain ⟨hpresent, hfinal⟩ := Option.filter_eq_some_iff.mp hsettled
    have hfinal' : input.outcome ≠ .retry := by simpa using hfinal
    dsimp only
    by_cases hid : runId = settled
    · subst hid
      simp only [hfinal', hpresent, ne_eq, not_false_eq_true, and_self, if_true, settleRun]
      rw [Table.get?_update, if_pos rfl, Table.get?_update, if_pos rfl, Option.map_map]
      rfl
    · have hother : ¬ (input.outcome ≠ .retry ∧ present current.runId = some runId) := by
        rintro ⟨_, hmine⟩
        rw [hpresent] at hmine
        exact hid (Option.some.inj hmine).symm
      simp only [if_neg hother, Option.map_id']
      rw [Table.get?_update, if_neg hid, Table.get?_update, if_neg hid]

theorem countSettled_countsOne (input : SettleSyncWork) (run : SyncRun) :
    CountsOne run (countSettled input run) := by
  unfold countSettled
  split
  · exact CountsOne.refl run
  · constructor <;> cases input.outcome <;> simp <;> omega

theorem settleRun_countsOne (input : SettleSyncWork) (remaining : Bool) (run : SyncRun) :
    CountsOne run (settleRun input remaining run) := by
  have hcount := countSettled_countsOne input run
  unfold settleRun settleRunIfComplete
  split_ifs
  · exact hcount
  · exact ⟨hcount.lower, hcount.upper⟩
  · exact ⟨hcount.lower, hcount.upper⟩
  · exact ⟨hcount.lower, hcount.upper⟩

theorem settledRuns_counters (db : MemoryTables) (input : SettleSyncWork)
    (current : SyncWorkRecord) (runId : String) (run : SyncRun)
    (hrun : db.runs.get? runId = some run) :
    ∃ run', (settledRuns db input current).get? runId = some run' ∧
      (run'.counters = run.counters ∨ current.runId = some runId) ∧ CountsOne run run' := by
  rw [settledRuns_get?, hrun, Option.map_some]
  split
  · next hmine =>
    exact ⟨_, rfl, Or.inr (present_some.mp hmine.2).1, settleRun_countsOne input _ run⟩
  · exact ⟨run, rfl, Or.inl rfl, CountsOne.refl run⟩

theorem settleSyncWork_cases (db : MemoryTables) (input : SettleSyncWork) :
    settleSyncWork db input = (db, none) ∨
      ∃ work, db.work.get? input.id = some work ∧ work.status = .running ∧
        work.leaseOwner = some input.owner ∧
        (settleSyncWork db input).2.isSome = true ∧
        (settleSyncWork db input).1 =
          { db with
            work := db.work.update input.id (SyncWorkRecord.settle input)
              (SyncWorkRecord.settle_id input)
            runs := settledRuns db input work } := by
  unfold settleSyncWork
  cases hget : db.work.get? input.id with
  | none => exact Or.inl rfl
  | some work =>
    split
    · exact Or.inl rfl
    · next current hfind =>
      obtain ⟨hcurrent, hguard⟩ := Option.filter_eq_some_iff.mp hfind
      obtain rfl := Option.some.inj hcurrent
      simp only [Bool.and_eq_true, decide_eq_true_eq] at hguard
      refine Or.inr ⟨work, rfl, hguard.1, hguard.2, ?_, rfl⟩
      simp [Table.get?_update, hget]

/-! ## The quiet steps -/

theorem createSyncRun_quiet (db : MemoryTables) (input : NewSyncRun) :
    Quiet db.toSyncTables (commit db (createSyncRun db input)).toSyncTables := by
  rcases createSyncRun_cases db input with h | ⟨free, h⟩
  · rw [h]
    exact Quiet.refl _
  · rw [h]
    exact ⟨KeepsRunning.refl _, SameCounters.insert _ free⟩

theorem commandSyncRun_quiet (db : MemoryTables) (input : CommandSyncRun) :
    Quiet db.toSyncTables (commandSyncRun db input).1.toSyncTables := by
  unfold commandSyncRun
  split
  · exact Quiet.refl _
  · refine ⟨?_, SameCounters.update _ (commandRun_id input) (commandRun_counters input)⟩
    dsimp only
    split
    · exact KeepsRunning.cancelWhere _ input.now
    · exact KeepsRunning.refl _

theorem EnqueueEffect.quiet {input : EnqueueSyncWork} {after : MemoryTables}
    (h : EnqueueEffect db input after) : Quiet db.toSyncTables after.toSyncTables := by
  cases h with
  | running id found existing row status => exact Quiet.refl _
  | rePend id found existing row status =>
    refine ⟨KeepsRunning.update _ (rePend_id input) ?_, SameCounters.refl _⟩
    intro work
    simp [Memory.rePend]
  | put missing =>
    refine ⟨KeepsRunning.put _ ?_, ?_⟩
    · simp [EnqueueSyncWork.row]
    · dsimp only
      cases present input.runId with
      | none => exact SameCounters.refl _
      | some runId => exact SameCounters.update _ (Sqlite.bumpRun_id input.now) fun _ => rfl

theorem enqueueSyncWork_quiet (db : MemoryTables) (input : EnqueueSyncWork) :
    Quiet db.toSyncTables (commit db (enqueueSyncWork db input)).toSyncTables := by
  rcases enqueueSyncWork_cases db input with h | ⟨_, h⟩
  · rw [h]
    exact Quiet.refl _
  · exact h.quiet

theorem enqueueSyncWorkMany_quiet (db : MemoryTables) (inputs : List EnqueueSyncWork) :
    Quiet db.toSyncTables (enqueueSyncWorkMany db inputs).1.toSyncTables :=
  enqueueSyncWorkMany_invariant (fun after => Quiet db.toSyncTables after.toSyncTables)
    inputs (fun _ _ _ _ hquiet _ heffect => hquiet.trans heffect.quiet) db (Quiet.refl _)

theorem wakeUnassignedSyncWork_quiet (db : MemoryTables) (input : WakeUnassignedSyncWork) :
    Quiet db.toSyncTables (wakeUnassignedSyncWork db input).1.toSyncTables := by
  unfold wakeUnassignedSyncWork
  dsimp only
  split
  · exact Quiet.refl _
  · refine ⟨KeepsRunning.updateWhere _ (SyncWorkRecord.wake_id input.now) ?_,
      SameCounters.refl _⟩
    intro work _ hwakes
    simp only [Bool.and_eq_true, decide_eq_true_eq] at hwakes
    simp [SyncWorkRecord.wake, hwakes.1.2]

theorem applyCatalogPage_quiet (db : MemoryTables) (input : ApplySyncCatalogPageInput) :
    Quiet db.toSyncTables (applyCatalogPage db input).1.toSyncTables := by
  unfold applyCatalogPage
  dsimp only
  split
  · exact ⟨KeepsRunning.cancelWhere _ input.now, SameCounters.refl _⟩
  · exact ⟨KeepsRunning.refl _, SameCounters.refl _⟩

theorem cancelLane_quiet (db : MemoryTables) (state : SyncStreamState) (lane : SyncLane) :
    Quiet db.toSyncTables (cancelLane db state lane).toSyncTables :=
  ⟨KeepsRunning.cancelWhere _ state.updatedAt, SameCounters.refl _⟩

/-- A phase write is the enqueues of its plan, then its cancellations. What both
keep, the write keeps. -/
theorem ensureOwedSyncWork_invariant (db : MemoryTables) (inv : MemoryTables → Prop)
    (state : SyncStreamState)
    (henqueue : ∀ s after lane, lane ∈ (syncWorkEnsurePlan state.phase state.mediaPending
        (workForStream db state) (historyPolicyForInstall db state.installationId)).enqueue →
      inv s → EnqueueEffect s (Sqlite.dueWork state lane) after → inv after)
    (hcancel : ∀ s lane, inv s → inv (cancelLane s state lane)) (hdb : inv db) :
    inv (ensureOwedSyncWork db state) := by
  unfold ensureOwedSyncWork
  dsimp only
  have henqueued := enqueueSyncWorkMany_invariant inv
    ((syncWorkEnsurePlan state.phase state.mediaPending (workForStream db state)
      (historyPolicyForInstall db state.installationId)).enqueue.map (Sqlite.dueWork state))
    (fun s input after hmem hs _ heffect => by
      obtain ⟨lane, hlane, rfl⟩ := List.mem_map.mp hmem
      exact henqueue s after lane hlane hs heffect) db hdb
  split
  · next enqueued count hmany =>
    rw [hmany] at henqueued
    exact run_invariant (fun s lane => cancelLane s state lane) inv hcancel enqueued
      henqueued _
  · next enqueued message hmany =>
    rw [hmany] at henqueued
    exact henqueued

theorem putSyncState_quiet (db : MemoryTables) (state : SyncStreamState) :
    Quiet db.toSyncTables (putSyncState db state).1.toSyncTables := by
  unfold putSyncState
  dsimp only
  split
  · exact ⟨KeepsRunning.cancelWhere _ _, SameCounters.refl _⟩
  · refine ensureOwedSyncWork_invariant _
      (fun after => Quiet db.toSyncTables after.toSyncTables) _ ?_ ?_ ?_
    · intro s after lane _ hquiet heffect
      exact hquiet.trans heffect.quiet
    · intro s lane hquiet
      exact hquiet.trans (cancelLane_quiet s _ lane)
    · exact ⟨KeepsRunning.refl _, SameCounters.refl _⟩

end Memory

end Regenic.Sync
