import Regenic.Lib.Run
import Regenic.Sync.WorkSteps

/-!
What one call of the SQLite store can do to the run and work tables, as one case
lemma for each operation. The later invariants are read off these cases.
-/

namespace Regenic.Sync

open Lib

namespace Sqlite

variable {db : SyncTables}

theorem createSyncRun_cases (db : SyncTables) (input : NewSyncRun) :
    commit db (createSyncRun db input) = db ∨
      ∃ free, commit db (createSyncRun db input) =
        { db with runs := db.runs.insert input.row free } := by
  unfold createSyncRun
  cases validateSyncRunOptions input.options with
  | error message => exact Or.inl rfl
  | ok _ =>
    simp only [bind, Except.bind]
    split
    · exact Or.inl rfl
    · split
      · next free => exact Or.inr ⟨free, rfl⟩
      · exact Or.inl rfl

/-- The row tables after a command that pauses, resumes or cancels a run. -/
inductive CommandEffect (db : SyncTables) (input : CommandSyncRun) : SyncTables → Prop
  | none : CommandEffect db input db
  | pause (run : SyncRun) (found : db.runs.get? input.id = some run)
      (claimable : syncRunIsClaimable run.status = true) :
      CommandEffect db input
        { db with runs := db.runs.update input.id (pauseRun input.now) (pauseRun_id input.now) }
  | resume (run : SyncRun) (found : db.runs.get? input.id = some run)
      (orgId : run.orgId = input.orgId) (command : input.command = .resume) (paused : run.status = .paused) :
      CommandEffect db input
        { db with runs := db.runs.update input.id (resumeRun input.now) (resumeRun_id input.now) }
  | cancel (run : SyncRun) (found : db.runs.get? input.id = some run) :
      CommandEffect db input
        { db with
          runs := db.runs.update input.id (cancelRun input.now) (cancelRun_id input.now)
          work := db.work.updateWhere
            (fun work => work.runId = some input.id && work.isOpen)
            (SyncWorkRecord.cancel input.now) (SyncWorkRecord.cancel_id input.now) }

theorem commandSyncRun_effect (db : SyncTables) (input : CommandSyncRun) :
    CommandEffect db input (commandSyncRun db input).1 := by
  unfold commandSyncRun
  cases hfind : (db.runs.get? input.id).filter (·.orgId = input.orgId) with
  | none => exact .none
  | some current =>
    obtain ⟨hrun, horg⟩ := Option.filter_eq_some_iff.mp hfind
    dsimp only
    split_ifs with hpause hresume hcancel
    · exact .pause current hrun hpause.2
    · exact .resume current hrun (by simpa using horg) hresume.1 hresume.2
    · exact .cancel current hrun
    · exact .none

/-- What an enqueue leaves: nothing new, a re-pended row, or an inserted row. -/
inductive EnqueueEffect (db : SyncTables) (input : EnqueueSyncWork) : SyncTables → Prop
  | running (current : SyncWorkRecord) (found : findSyncWorkByIdentity db input = some current)
      (status : current.status = .running) : EnqueueEffect db input db
  | rePend (current : SyncWorkRecord) (found : findSyncWorkByIdentity db input = some current)
      (status : current.status ≠ .running) (references : referencesRun db input.runId = true) :
      EnqueueEffect db input
        { db with work := db.work.update current.id (rePend input) (rePend_id input) }
  | insert (missing : findSyncWorkByIdentity db input = none)
      (references : referencesRun db input.runId = true)
      (free : db.work.get? input.row.id = none) :
      EnqueueEffect db input
        { db with
          work := db.work.insert input.row free
          runs := match present input.runId with
            | some runId => db.runs.update runId (bumpRun input.now) (bumpRun_id input.now)
            | none => db.runs }

theorem enqueueSyncWork_effect {input : EnqueueSyncWork} {after : SyncTables}
    {row : SyncWorkRecord} (h : enqueueSyncWorkUnlocked db input = .ok (after, row)) :
    EnqueueEffect db input after := by
  unfold enqueueSyncWorkUnlocked at h
  cases hfind : findSyncWorkByIdentity db input with
  | some current =>
    rw [hfind] at h
    dsimp only at h
    split_ifs at h with hstatus href
    · cases h
      exact .running current hfind hstatus
    · cases h
      exact .rePend current hfind hstatus href
  | none =>
    rw [hfind] at h
    dsimp only at h
    cases hrun : (present input.runId).filter (fun id => (db.runs.get? id).isNone) with
    | some missing =>
      rw [hrun] at h
      cases h
    | none =>
      rw [hrun] at h
      dsimp only at h
      split_ifs at h with href hfree
      cases h
      refine .insert hfind ?_ hfree
      cases hcheck : referencesRun db input.runId with
      | true => rfl
      | false => simp [hcheck] at href

/-- The tables an enqueue leaves: a thrown error keeps them. -/
theorem enqueueSyncWork_cases (db : SyncTables) (input : EnqueueSyncWork) :
    commit db (enqueueSyncWorkUnlocked db input) = db ∨
      EnqueueEffect db input (commit db (enqueueSyncWorkUnlocked db input)) := by
  cases hrun : enqueueSyncWorkUnlocked db input with
  | error message => exact Or.inl rfl
  | ok result => exact Or.inr (enqueueSyncWork_effect hrun)

/-- Any property kept by every enqueue that succeeds is kept by the batch, and a
batch that throws changes nothing. -/
theorem enqueueSyncWorkMany_invariant (inv : SyncTables → Prop)
    (hinv : ∀ db input after, inv db → EnqueueEffect db input after → inv after)
    (inputs : List EnqueueSyncWork) (hdb : inv db) :
    inv (commit db (enqueueSyncWorkMany db inputs)) := by
  unfold enqueueSyncWorkMany
  cases hfold : inputs.foldlM
      (fun db input => Prod.fst <$> enqueueSyncWorkUnlocked db input) db with
  | error message => exact hdb
  | ok after =>
    refine foldlM_invariant inv ?_ inputs db after hdb hfold
    intro s input s' hs hstep
    cases hrun : enqueueSyncWorkUnlocked s input with
    | error message =>
      rw [hrun] at hstep
      cases hstep
    | ok result =>
      rw [hrun] at hstep
      cases hstep
      exact hinv s input result.1 hs (enqueueSyncWork_effect hrun)

theorem mem_claimIds {input : ClaimSyncWork} {id : String} (h : id ∈ claimIds db input) :
    ∃ work, db.work.get? id = some work ∧ claimable db input work = true := by
  unfold claimIds at h
  split at h
  · cases h
  · obtain ⟨work, hmem, rfl⟩ := List.mem_map.mp h
    have hsorted := List.mem_of_mem_take hmem
    rw [List.mem_insertionSort] at hsorted
    obtain ⟨hrow, hclaim⟩ := List.mem_filter.mp hsorted
    exact ⟨work, Table.get?_key hrow, hclaim⟩

theorem claimSyncWork_ids (db : SyncTables) (input : ClaimSyncWork) :
    (claimSyncWork db input).2.map (·.id) = claimIds db input := by
  unfold claimSyncWork
  dsimp only
  split
  · next h => simpa using (List.isEmpty_iff.mp h).symm
  · rw [List.map_map]
    have hid : (fun work => work.id) ∘ toSyncWork = SyncWorkRecord.id := rfl
    rw [hid]
    refine Table.map_key_filterMap_get? _ _ fun id hid => ?_
    obtain ⟨work, hwork, _⟩ := mem_claimIds hid
    rw [Table.get?_updateWhere, hwork]
    rfl

theorem claimSyncWork_work (db : SyncTables) (input : ClaimSyncWork) (id : String) :
    (claimSyncWork db input).1.work.get? id =
      if id ∈ claimIds db input then
        (db.work.get? id).map
          (SyncWorkRecord.claim input.owner input.now (input.now + input.leaseMs))
      else db.work.get? id := by
  unfold claimSyncWork
  dsimp only
  split
  · next h => simp [List.isEmpty_iff.mp h]
  · rw [Table.get?_updateWhere]
    cases hget : db.work.get? id with
    | none => simp
    | some work =>
      have hid := (Table.get?_eq_some.mp hget).2
      simp only [Option.map_some, List.contains_eq_mem, hid, decide_eq_true_eq]
      split <;> rfl

theorem claimSyncWork_runs (db : SyncTables) (input : ClaimSyncWork) :
    SameCounters db.runs (claimSyncWork db input).1.runs := by
  unfold claimSyncWork
  dsimp only
  split
  · exact SameCounters.refl _
  · exact SameCounters.updateWhere _ (startRun_id input.now) fun _ => rfl

theorem renewSyncWork_cases (db : SyncTables) (input : RenewSyncWork) :
    (renewSyncWork db input).1 = db ∨
      ∃ work, db.work.get? input.id = some work ∧ work.status = .running ∧
        work.leaseOwner = some input.owner ∧
        (renewSyncWork db input).1 =
          { db with
            work := db.work.update input.id
              (SyncWorkRecord.renew input.now (input.now + input.leaseMs))
              (SyncWorkRecord.renew_id input.now (input.now + input.leaseMs)) } := by
  unfold renewSyncWork
  split
  · exact Or.inl rfl
  · next work hfind =>
    obtain ⟨hget, hguard⟩ := Option.filter_eq_some_iff.mp hfind
    simp only [Bool.and_eq_true, decide_eq_true_eq] at hguard
    exact Or.inr ⟨work, hget, hguard.1.1, hguard.1.2, rfl⟩

theorem finishBySettle_id (input : SettleSyncWork) (run : SyncRun) :
    (finishRun input.now run).id = run.id := finishRun_id input.now run

/-- The runs after `work` settled: only its run moves, and only on a final outcome. -/
def settledRuns (db : SyncTables) (input : SettleSyncWork) (current : SyncWorkRecord) :
    Table SyncRun.id :=
  match (present current.runId).filter (fun _ => input.outcome ≠ .retry) with
  | none => db.runs
  | some runId =>
    let counted := db.runs.update runId (countSettled input) (countSettled_id input)
    let work := db.work.update input.id (SyncWorkRecord.settle input)
      (SyncWorkRecord.settle_id input)
    if hasOpenWork work runId then counted
    else counted.update runId (finishRun input.now) (finishBySettle_id input)

/-- The run row of settled work, given whether the run has an open row left. -/
def settleRun (input : SettleSyncWork) (remaining : Bool) (run : SyncRun) : SyncRun :=
  if remaining then countSettled input run else finishRun input.now (countSettled input run)

theorem settledRuns_get? (db : SyncTables) (input : SettleSyncWork)
    (current : SyncWorkRecord) (runId : String) :
    (settledRuns db input current).get? runId =
      (db.runs.get? runId).map fun run =>
        if input.outcome ≠ .retry ∧ present current.runId = some runId then
          settleRun input (hasOpenWork (db.work.update input.id (SyncWorkRecord.settle input)
            (SyncWorkRecord.settle_id input)) runId) run
        else run := by
  unfold settledRuns
  split
  · next hnone =>
    have hother : ¬ (input.outcome ≠ .retry ∧ present current.runId = some runId) := by
      rintro ⟨hfinal, hpresent⟩
      simp [hpresent, hfinal] at hnone
    simp [hother]
  · next settled hsettled =>
    obtain ⟨hpresent, hfinal⟩ := Option.filter_eq_some_iff.mp hsettled
    have hfinal' : input.outcome ≠ .retry := by simpa using hfinal
    dsimp only
    by_cases hid : runId = settled
    · subst hid
      simp only [hfinal', hpresent, ne_eq, not_false_eq_true, and_self, if_true, settleRun]
      split
      · next hopen => rw [Table.get?_update, if_pos rfl]
      · rw [Table.get?_update, if_pos rfl, Table.get?_update, if_pos rfl, Option.map_map]
        rfl
    · have hother : ¬ (input.outcome ≠ .retry ∧ present current.runId = some runId) := by
        rintro ⟨_, hmine⟩
        rw [hpresent] at hmine
        exact hid (Option.some.inj hmine).symm
      simp only [if_neg hother, Option.map_id']
      split
      · rw [Table.get?_update, if_neg hid]
      · rw [Table.get?_update, if_neg hid, Table.get?_update, if_neg hid]

theorem countSettled_countsOne (input : SettleSyncWork) (run : SyncRun) :
    CountsOne run (countSettled input run) := by
  unfold countSettled
  split
  · exact CountsOne.refl run
  · constructor <;> cases input.outcome <;> simp <;> omega

theorem settleRun_countsOne (input : SettleSyncWork) (remaining : Bool) (run : SyncRun) :
    CountsOne run (settleRun input remaining run) := by
  have hcount := countSettled_countsOne input run
  unfold settleRun finishRun
  split
  · exact hcount
  · split
    · exact hcount
    · exact ⟨hcount.lower, hcount.upper⟩

theorem settledRuns_counters (db : SyncTables) (input : SettleSyncWork)
    (current : SyncWorkRecord) (runId : String) (run : SyncRun)
    (hrun : db.runs.get? runId = some run) :
    ∃ run', (settledRuns db input current).get? runId = some run' ∧
      (run'.counters = run.counters ∨ current.runId = some runId) ∧ CountsOne run run' := by
  rw [settledRuns_get?, hrun, Option.map_some]
  split
  · next hmine =>
    exact ⟨_, rfl, Or.inr (present_some.mp hmine.2).1, settleRun_countsOne input _ run⟩
  · exact ⟨run, rfl, Or.inl rfl, CountsOne.refl run⟩

theorem settleSyncWork_cases (db : SyncTables) (input : SettleSyncWork) :
    settleSyncWork db input = (db, none) ∨
      ∃ work, db.work.get? input.id = some work ∧ work.status = .running ∧
        work.leaseOwner = some input.owner ∧
        (settleSyncWork db input).2.isSome = true ∧
        (settleSyncWork db input).1 =
          { db with
            work := db.work.update input.id (SyncWorkRecord.settle input)
              (SyncWorkRecord.settle_id input)
            runs := settledRuns db input work } := by
  unfold settleSyncWork
  cases hget : db.work.get? input.id with
  | none => exact Or.inl rfl
  | some work =>
    simp only [Option.map_some]
    split
    · exact Or.inl rfl
    · next current hfind =>
      obtain ⟨hcurrent, hguard⟩ := Option.filter_eq_some_iff.mp hfind
      obtain rfl := Option.some.inj hcurrent
      simp only [Bool.and_eq_true, decide_eq_true_eq] at hguard
      have howner := (present_some.mp hguard.2).1
      refine Or.inr ⟨work, rfl, hguard.1, howner, ?_, rfl⟩
      simp [Table.get?_update, hget]

theorem createSyncRun_quiet (db : SyncTables) (input : NewSyncRun) :
    Quiet db (commit db (createSyncRun db input)) := by
  rcases createSyncRun_cases db input with h | ⟨free, h⟩
  · rw [h]
    exact Quiet.refl db
  · rw [h]
    exact ⟨KeepsRunning.refl _, SameCounters.insert _ free⟩

theorem CommandEffect.quiet {input : CommandSyncRun} {after : SyncTables}
    (h : CommandEffect db input after) : Quiet db after := by
  cases h with
  | none => exact Quiet.refl db
  | pause run found claimable =>
    exact ⟨KeepsRunning.refl _, SameCounters.update _ (pauseRun_id input.now) fun _ => rfl⟩
  | resume run found orgId command paused =>
    exact ⟨KeepsRunning.refl _, SameCounters.update _ (resumeRun_id input.now) fun _ => rfl⟩
  | cancel run found =>
    exact ⟨KeepsRunning.cancelWhere _ input.now,
      SameCounters.update _ (cancelRun_id input.now) fun _ => rfl⟩

theorem EnqueueEffect.quiet {input : EnqueueSyncWork} {after : SyncTables}
    (h : EnqueueEffect db input after) : Quiet db after := by
  cases h with
  | running current found status => exact Quiet.refl db
  | rePend current found status references =>
    refine ⟨KeepsRunning.update _ (rePend_id input) ?_, SameCounters.refl _⟩
    intro work
    simp [Sqlite.rePend]
  | insert missing references free =>
    refine ⟨KeepsRunning.insert _ free ?_, ?_⟩
    · simp [EnqueueSyncWork.row]
    · cases present input.runId with
      | none => exact SameCounters.refl _
      | some runId => exact SameCounters.update _ (bumpRun_id input.now) fun _ => rfl

theorem enqueueSyncWork_quiet (db : SyncTables) (input : EnqueueSyncWork) :
    Quiet db (commit db (enqueueSyncWorkUnlocked db input)) := by
  rcases enqueueSyncWork_cases db input with h | h
  · rw [h]
    exact Quiet.refl db
  · exact h.quiet

theorem enqueueSyncWorkMany_quiet (db : SyncTables) (inputs : List EnqueueSyncWork) :
    Quiet db (commit db (enqueueSyncWorkMany db inputs)) :=
  enqueueSyncWorkMany_invariant (Quiet db)
    (fun _ _ _ hquiet heffect => hquiet.trans heffect.quiet) inputs (Quiet.refl db)

theorem wakeUnassignedSyncWork_quiet (db : SyncTables) (input : WakeUnassignedSyncWork) :
    Quiet db (wakeUnassignedSyncWork db input).1 := by
  unfold wakeUnassignedSyncWork
  dsimp only
  split
  · exact Quiet.refl db
  · refine ⟨KeepsRunning.updateWhere _ (SyncWorkRecord.wake_id input.now) ?_,
      SameCounters.refl _⟩
    intro work _ hwakes
    simp only [Bool.and_eq_true, decide_eq_true_eq] at hwakes
    simp [SyncWorkRecord.wake, hwakes.1.2]

theorem dropStreamsLeftCatalog_quiet (db : SyncTables) (installationId : String)
    (streamKeys : List String) (now : Instant) :
    Quiet db (dropStreamsLeftCatalog db installationId streamKeys now) :=
  ⟨KeepsRunning.cancelWhere _ now, SameCounters.refl _⟩

theorem applySyncCatalogPage_quiet (db : SyncTables) (input : ApplySyncCatalogPageInput) :
    Quiet db (commit db (applySyncCatalogPage db input)) := by
  unfold applySyncCatalogPage
  dsimp only
  split
  · exact Quiet.refl db
  · simp only [commit]
    split
    · exact ⟨KeepsRunning.cancelWhere _ input.now, SameCounters.refl _⟩
    · exact ⟨KeepsRunning.refl _, SameCounters.refl _⟩

theorem cancelLane_quiet (db : SyncTables) (state : SyncStreamState) (lane : SyncLane) :
    Quiet db (cancelLane db state lane) :=
  ⟨KeepsRunning.cancelWhere _ state.updatedAt, SameCounters.refl _⟩

/-- A phase write is the enqueues of its plan, then its cancellations. What both
keep, the write keeps. -/
theorem ensureOwedSyncWork_invariant (db : SyncTables) (inv : SyncTables → Prop)
    (state : SyncStreamState)
    (henqueue : ∀ s after lane, lane ∈ (syncWorkEnsurePlan state.phase state.mediaPending
        (workForStream db state) (historyPolicyForInstall db state.installationId)).enqueue →
      inv s → EnqueueEffect s (dueWork state lane) after → inv after)
    (hcancel : ∀ s lane, inv s → inv (cancelLane s state lane))
    {after : SyncTables} (hdb : inv db)
    (h : ensureOwedSyncWorkUnlocked db state = .ok after) : inv after := by
  unfold ensureOwedSyncWorkUnlocked at h
  simp only [bind, Except.bind, pure, Except.pure] at h
  split at h
  · cases h
  · next enqueued hfold =>
    cases h
    have henqueued : inv enqueued := by
      refine foldlM_invariant_mem inv ?_ db enqueued hdb hfold
      intro s lane s' hlane hs hstep
      cases hrun : enqueueSyncWorkUnlocked s (dueWork state lane) with
      | error message =>
        rw [hrun] at hstep
        cases hstep
      | ok result =>
        rw [hrun] at hstep
        cases hstep
        exact henqueue s result.1 lane hlane hs (enqueueSyncWork_effect hrun)
    generalize (syncWorkEnsurePlan state.phase state.mediaPending (workForStream db state)
      (historyPolicyForInstall db state.installationId)).cancel = lanes
    exact run_invariant (fun s lane => cancelLane s state lane) inv hcancel enqueued
      henqueued lanes

/-- A phase write drops a stream outside its complete catalog, and otherwise stores
the released phase and ensures what it owes. -/
theorem putSyncState_cases (db : SyncTables) (state stored : SyncStreamState)
    (hstored : stored =
      releaseHistoryPhase state (historyPolicyForInstall db state.installationId)) :
    commit db (putSyncState db state) = db ∨
      (streamOutsideCompleteCatalog db stored.installationId stored.streamKey = true ∧
        commit db (putSyncState db state) = dropStreamsLeftCatalog db stored.installationId
          [stored.streamKey] stored.updatedAt) ∨
      (streamOutsideCompleteCatalog db stored.installationId stored.streamKey = false ∧
        ensureOwedSyncWorkUnlocked { db with states := db.states.put stored } stored =
          .ok (commit db (putSyncState db state))) := by
  unfold putSyncState
  rw [← hstored]
  by_cases houtside :
      streamOutsideCompleteCatalog db stored.installationId stored.streamKey = true
  · refine Or.inr (Or.inl ⟨houtside, ?_⟩)
    simp only [houtside, if_true]
    rfl
  · simp only [houtside, Bool.false_eq_true, if_false]
    split
    · exact Or.inl rfl
    · cases hensure : ensureOwedSyncWorkUnlocked
          { db with states := db.states.put stored } stored with
      | error message => exact Or.inl rfl
      | ok after => exact Or.inr (Or.inr ⟨by simp, rfl⟩)

theorem putSyncState_quiet (db : SyncTables) (state : SyncStreamState) :
    Quiet db (commit db (putSyncState db state)) := by
  rcases putSyncState_cases db state _ rfl with h | ⟨_, h⟩ | ⟨_, h⟩
  · rw [h]
    exact Quiet.refl db
  · rw [h]
    exact dropStreamsLeftCatalog_quiet db _ _ _
  · refine ensureOwedSyncWork_invariant _ (Quiet db) _ ?_ ?_ ?_ h
    · intro s after lane _ hquiet heffect
      exact hquiet.trans heffect.quiet
    · intro s lane hquiet
      exact hquiet.trans (cancelLane_quiet s _ lane)
    · exact ⟨KeepsRunning.refl _, SameCounters.refl _⟩

end Sqlite

end Regenic.Sync
