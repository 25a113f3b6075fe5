import Regenic.Sync.Books
import Regenic.Sync.MemorySteps

/-!
The books of the in-memory store. A found row keeps the run it has, so an enqueue can
name a run and leave it without a row; and an insert under the id of another row
replaces that row.
-/

namespace Regenic.Sync

open Lib

namespace Memory

variable {db : MemoryTables} {ever : List String}

instance (db : MemoryTables) (input : EnqueueSyncWork) : Decidable (namesRun db input) :=
  decidable_of_iff
    ((present input.runId).all (fun runId => (db.runs.get? runId).isSome) = true)
    (by simp [namesRun, Option.all_eq_true])

/-- The condition of one enqueue whose named run exists: an inserted row takes a free
id, and a found row fits. -/
def EnqueueFitsAt (db : MemoryTables) (input : EnqueueSyncWork) : Prop :=
  namesRun db input →
    match existingId db input with
    | none => db.work.get? input.row.id = none
    | some id =>
      match db.work.get? id with
      | none => True
      | some row => EnqueueFits db.runs db.work input row row.runId

instance (db : MemoryTables) (input : EnqueueSyncWork) :
    Decidable (EnqueueFitsAt db input) := by
  unfold EnqueueFitsAt
  split
  · infer_instance
  · split <;> infer_instance

/-- The condition of a batch, up to the input that throws. -/
def EnqueueManyFits : MemoryTables → List EnqueueSyncWork → Prop
  | _, [] => True
  | db, input :: rest =>
    EnqueueFitsAt db input ∧
      match enqueueSyncWork db input with
      | .error _ => True
      | .ok (after, _) => EnqueueManyFits after rest

def decidableEnqueueManyFits :
    (db : MemoryTables) → (inputs : List EnqueueSyncWork) →
      Decidable (EnqueueManyFits db inputs)
  | _, [] => isTrue trivial
  | db, input :: rest =>
    have : Decidable (match enqueueSyncWork db input with
        | .error _ => True
        | .ok (after, _) => EnqueueManyFits after rest) :=
      match enqueueSyncWork db input with
      | .error _ => isTrue trivial
      | .ok (after, _) => decidableEnqueueManyFits after rest
    inferInstanceAs (Decidable (EnqueueFitsAt db input ∧ _))

instance (db : MemoryTables) (inputs : List EnqueueSyncWork) :
    Decidable (EnqueueManyFits db inputs) :=
  decidableEnqueueManyFits db inputs

/-- The runs named by the inputs of a batch that take effect. -/
def enqueuedRunsMany : MemoryTables → List EnqueueSyncWork → List String
  | _, [] => []
  | db, input :: rest =>
    match enqueueSyncWork db input with
    | .error _ => []
    | .ok (after, _) => namedRuns db.runs input ++ enqueuedRunsMany after rest

def enqueuedRuns (db : MemoryTables) : SyncOp → List String
  | .enqueueSyncWork input => enqueuedRunsMany db [input]
  | .enqueueSyncWorkMany inputs => enqueuedRunsMany db inputs
  | _ => []

/-- The enqueues of a phase write. -/
def plannedWork (db : MemoryTables) (state : SyncStreamState) : List EnqueueSyncWork :=
  (syncWorkEnsurePlan state.phase state.mediaPending (workForStream db state)
    (historyPolicyForInstall db state.installationId)).enqueue.map (Sqlite.dueWork state)

def PhaseWriteFits (db : MemoryTables) (state : SyncStreamState) : Prop :=
  let stored := releaseHistoryPhase state (historyPolicyForInstall db state.installationId)
  streamOutsideCompleteCatalog db stored.installationId stored.streamKey = false →
    EnqueueManyFits { db with states := db.states.put stored }
      (plannedWork { db with states := db.states.put stored } stored)

instance (db : MemoryTables) (state : SyncStreamState) :
    Decidable (PhaseWriteFits db state) := by
  unfold PhaseWriteFits
  infer_instance

/-- The condition of a step, in the tables and the enqueue history before it. -/
def Fits (state : MemoryTables × List String) : SyncOp → Prop
  | .enqueueSyncWork input => EnqueueFitsAt state.1 input
  | .enqueueSyncWorkMany inputs => EnqueueManyFits state.1 inputs
  | .commandSyncRun input => ResumeFits state.1.toSyncTables state.2 input
  | .putSyncState input => PhaseWriteFits state.1 input
  | _ => True

/-- A step of the store together with its enqueue history. -/
def stepBooks (localeBefore : String → String → Bool) (state : MemoryTables × List String)
    (op : SyncOp) : MemoryTables × List String :=
  (step state.1 localeBefore op, state.2 ++ enqueuedRuns state.1 op)

theorem EnqueueEffect.accounted {after : MemoryTables} {input : EnqueueSyncWork}
    (heffect : EnqueueEffect db input after) (hnames : namesRun db input)
    (h : Accounted db.runs db.work ever) (hfits : EnqueueFitsAt db input) :
    Accounted after.runs after.work (ever ++ namedRuns db.runs input) := by
  have hfit := hfits hnames
  cases heffect with
  | running id found existing row status =>
    simp only [found, row] at hfit
    exact h.enqueueRunning input row status hfit
  | rePend id found existing row status =>
    simp only [found, row] at hfit
    refine h.rePend input row (rePend_id input) (fun _ => rfl) ?_ hfit
    intro runId hid hmine
    exact h.referenced existing (Table.get?_eq_some.mp row).1 runId hid hmine
  | put missing =>
    simp only [missing] at hfit
    have hinsert : db.work.put input.row = db.work.insert input.row hfit :=
      Table.put_eq_insert hfit
    dsimp only
    rw [hinsert]
    refine h.insertWork input hfit ?_
    intro runId hid hinput
    exact hnames runId (present_some.mpr ⟨hinput, hid⟩)

theorem enqueueSyncWorkMany_accounted (inputs : List EnqueueSyncWork) (db : MemoryTables)
    (ever : List String) (h : Accounted db.runs db.work ever)
    (hfits : EnqueueManyFits db inputs) :
    Accounted (enqueueSyncWorkMany db inputs).1.runs (enqueueSyncWorkMany db inputs).1.work
      (ever ++ enqueuedRunsMany db inputs) := by
  induction inputs generalizing db ever with
  | nil => simpa [enqueueSyncWorkMany, enqueuedRunsMany] using h
  | cons input rest ih =>
    obtain ⟨hhead, htail⟩ := hfits
    unfold enqueueSyncWorkMany enqueuedRunsMany
    cases hrun : enqueueSyncWork db input with
    | error message => simpa using h
    | ok result =>
      obtain ⟨hnames, heffect⟩ := enqueueSyncWork_effect hrun
      rw [hrun] at htail
      have hrest := ih result.1 (ever ++ namedRuns db.runs input)
        (heffect.accounted hnames h hhead) htail
      dsimp only
      rw [← List.append_assoc]
      split
      · next final count hmany => simpa [hmany] using hrest
      · next final message hmany => simpa [hmany] using hrest

theorem enqueueSyncWork_accounted (h : Accounted db.runs db.work ever)
    (input : EnqueueSyncWork) (hfits : EnqueueFitsAt db input) :
    Accounted (commit db (enqueueSyncWork db input)).runs
      (commit db (enqueueSyncWork db input)).work
      (ever ++ enqueuedRuns db (.enqueueSyncWork input)) := by
  simp only [enqueuedRuns, enqueuedRunsMany]
  cases hrun : enqueueSyncWork db input with
  | error message => simpa [commit] using h
  | ok result =>
    obtain ⟨hnames, heffect⟩ := enqueueSyncWork_effect hrun
    simpa [commit, enqueuedRunsMany] using heffect.accounted hnames h hfits

theorem createSyncRun_accounted (h : Accounted db.runs db.work ever) (input : NewSyncRun) :
    Accounted (commit db (createSyncRun db input)).runs
      (commit db (createSyncRun db input)).work ever := by
  rcases createSyncRun_cases db input with hsame | ⟨free, hinsert⟩
  · rw [hsame]
    exact h
  · rw [hinsert]
    exact h.insertRun input free

theorem commandRun_settled (input : CommandSyncRun) (run : SyncRun) :
    (commandRun input run).completedWork + (commandRun input run).failedWork =
      run.completedWork + run.failedWork := by
  unfold commandRun
  split_ifs <;> rfl

/-- What a command that is not a cancellation does to the books of its run. -/
theorem commandRun_move {input : CommandSyncRun} {run : SyncRun}
    (hrun : db.runs.get? input.id = some run) (horg : run.orgId = input.orgId)
    (hfits : ResumeFits db.toSyncTables ever input)
    (hkeep : ¬ (input.command = .cancel ∧
      (syncRunIsClaimable run.status ∨ run.status = .paused))) :
    RunLedger.Move (ledger db.work ever run) (ledger db.work ever (commandRun input run)) := by
  unfold commandRun
  rw [if_neg hkeep]
  split_ifs with hpause hresume
  · exact .pause hpause.2 rfl rfl rfl rfl
  · refine .resume hresume.2 rfl rfl rfl rfl ?_
    intro hever
    have hid := (Table.get?_eq_some.mp hrun).2
    simp only [ledger, hid] at hever ⊢
    exact hfits hresume.1 hever (by simp [hrun, horg, hresume.2])
  · exact ledger_move_keep rfl rfl rfl rfl rfl (fun hb => hb) fun he => he

theorem commandSyncRun_accounted (h : Accounted db.runs db.work ever)
    (input : CommandSyncRun) (hfits : ResumeFits db.toSyncTables ever input) :
    Accounted (commandSyncRun db input).1.runs (commandSyncRun db input).1.work ever := by
  unfold commandSyncRun
  cases hfind : (db.runs.get? input.id).filter (·.orgId = input.orgId) with
  | none => exact h
  | some run =>
    obtain ⟨hrun, horg⟩ := Option.filter_eq_some_iff.mp hfind
    dsimp only
    split
    · next hcancel =>
      refine h.cancelRun input.id input.now (commandRun_id input) ?_ ?_
        (commandRun_settled input)
      · intro run' hrun'
        rw [hrun] at hrun'
        cases hrun'
        have hpause : ¬ (input.command = .pause ∧ syncRunIsClaimable run.status) := by
          simp [hcancel.1]
        have hresume : ¬ (input.command = .resume ∧ run.status = .paused) := by
          simp [hcancel.1]
        unfold commandRun
        rw [if_neg hpause, if_neg hresume, if_pos hcancel]
      · intro run'
        unfold commandRun
        split_ifs <;> rfl
    · next hkeep =>
      refine h.updateRun input.id (commandRun_id input) ?_ (commandRun_settled input)
      intro run' hrun' _
      rw [hrun] at hrun'
      cases hrun'
      exact commandRun_move hrun (by simpa using horg) hfits (by simpa using hkeep)

theorem claimSyncWork_accounted (h : Accounted db.runs db.work ever)
    (localeBefore : String → String → Bool) (input : ClaimSyncWork) :
    Accounted (claimSyncWork db localeBefore input).1.runs
      (claimSyncWork db localeBefore input).1.work ever := by
  unfold claimSyncWork
  dsimp only
  refine h.claim (claimIds db localeBefore input) input.owner input.now
    (input.now + input.leaseMs) _ ?_ ?_
  · intro run hrun
    simp only [Bool.and_eq_true, decide_eq_true_eq] at hrun
    exact hrun.1
  · intro row hrow hid
    obtain ⟨work, hwork, hclaim⟩ := mem_claimIds hid
    obtain rfl : row = work := by
      rw [Table.get?_key hrow] at hwork
      exact Option.some.inj hwork
    simp only [claimable, Bool.and_eq_true, Bool.or_eq_true, decide_eq_true_eq] at hclaim
    obtain ⟨⟨_, hrun⟩, hdue⟩ := hclaim
    constructor
    · rcases hdue with hpending | hexpired
      · simp [SyncWorkRecord.isOpen, hpending.1]
      · simp [SyncWorkRecord.isOpen, hexpired.1]
    · intro run hmem hid hmine
      rw [present_some.mpr ⟨hmine, hid⟩] at hrun
      simpa [Table.get?_key hmem] using hrun

theorem renewSyncWork_accounted (h : Accounted db.runs db.work ever)
    (input : RenewSyncWork) :
    Accounted (renewSyncWork db input).1.runs (renewSyncWork db input).1.work ever := by
  rcases renewSyncWork_cases db input with hsame | ⟨_, _, _, _, hafter⟩
  · rw [hsame]
    exact h
  · rw [hafter]
    exact h.renew input.id input.now (input.now + input.leaseMs)

theorem settleRunIfComplete_notClaimable (now : Instant) (run : SyncRun) :
    syncRunIsClaimable (settleRunIfComplete false now run).status = false := by
  unfold settleRunIfComplete
  split_ifs with hcancelled hpaused
  · simp [hcancelled, syncRunIsClaimable]
  · have hstatus : run.status = .paused := by simpa using hpaused
    simp [hstatus, syncRunIsClaimable]
  · rfl
  · rfl

theorem settleRun_settles (input : SettleSyncWork) (remaining : Bool) (run : SyncRun) :
    SettlesRun remaining run (settleRun input remaining run) where
  id := by simp [settleRun]
  total := by
    unfold settleRun settleRunIfComplete countSettled
    split_ifs <;> rfl
  settled := (settleRun_countsOne input remaining run).upper
  open_ hremaining hactive := by
    subst hremaining
    unfold settleRun settleRunIfComplete countSettled
    split_ifs <;> simp_all
  done hremaining _ := by
    subst hremaining
    exact settleRunIfComplete_notClaimable input.now _

theorem settleSyncWork_accounted (h : Accounted db.runs db.work ever)
    (input : SettleSyncWork) :
    Accounted (settleSyncWork db input).1.runs (settleSyncWork db input).1.work ever := by
  rcases settleSyncWork_cases db input with hidle | ⟨row, hrow, hstatus, _, _, hafter⟩
  · rw [hidle]
    exact h
  · rw [hafter]
    exact h.settle input hrow hstatus (settleRun_settles input)
      (settledRuns_get? db input row)

theorem wakeUnassignedSyncWork_accounted (h : Accounted db.runs db.work ever)
    (input : WakeUnassignedSyncWork) :
    Accounted (wakeUnassignedSyncWork db input).1.runs
      (wakeUnassignedSyncWork db input).1.work ever := by
  unfold wakeUnassignedSyncWork
  dsimp only
  split
  · exact h
  · refine h.updateUnassigned (SyncWorkRecord.wake_id input.now) (fun _ => rfl) ?_ ?_
    · intro row hrow
      simp only [Bool.and_eq_true, Bool.not_eq_true'] at hrow
      exact hrow.1.1.2
    · intro row hrow
      simp only [Bool.and_eq_true, decide_eq_true_eq] at hrow
      simp [SyncWorkRecord.wake, hrow.1.2]

theorem cancelUnassigned_accounted {runs : Table SyncRun.id} {work : Table SyncWorkRecord.id}
    (h : Accounted runs work ever) {p : SyncWorkRecord → Bool}
    (hp : ∀ row, p row = true → row.assigned = false) (now : Instant) :
    Accounted runs
      (work.updateWhere p (SyncWorkRecord.cancel now) (SyncWorkRecord.cancel_id now)) ever := by
  refine h.updateUnassigned (SyncWorkRecord.cancel_id now) (fun _ => rfl) hp ?_
  intro row _
  simp [SyncWorkRecord.cancel]

theorem cancelUnassignedStreams_accounted (h : Accounted db.runs db.work ever)
    (installationId : String) (streamKeys : List String) (now : Instant) :
    Accounted (cancelUnassignedStreams db installationId streamKeys now).runs
      (cancelUnassignedStreams db installationId streamKeys now).work ever := by
  refine cancelUnassigned_accounted h ?_ now
  intro row hrow
  simp only [Bool.and_eq_true, Bool.not_eq_true'] at hrow
  exact hrow.1.1.2

theorem applyCatalogPage_accounted (h : Accounted db.runs db.work ever)
    (input : ApplySyncCatalogPageInput) :
    Accounted (applyCatalogPage db input).1.runs (applyCatalogPage db input).1.work
      ever := by
  unfold applyCatalogPage
  dsimp only
  split
  · exact cancelUnassignedStreams_accounted h _ _ _
  · exact h

theorem cancelLane_accounted (h : Accounted db.runs db.work ever)
    (state : SyncStreamState) (lane : SyncLane) :
    Accounted (cancelLane db state lane).runs (cancelLane db state lane).work ever := by
  refine cancelUnassigned_accounted h ?_ state.updatedAt
  intro row hrow
  simp only [Bool.and_eq_true, Bool.not_eq_true'] at hrow
  exact hrow.1.2

/-- Due work names no run, so a phase write adds nothing to the enqueue history. -/
theorem enqueuedRunsMany_dueWork (state : SyncStreamState) (lanes : List SyncLane)
    (db : MemoryTables) : enqueuedRunsMany db (lanes.map (Sqlite.dueWork state)) = [] := by
  induction lanes generalizing db with
  | nil => rfl
  | cons lane rest ih =>
    rw [List.map_cons]
    unfold enqueuedRunsMany
    split
    · rfl
    · rw [ih, List.append_nil]
      rfl

theorem ensureOwedSyncWork_accounted (h : Accounted db.runs db.work ever)
    (state : SyncStreamState) (hfits : EnqueueManyFits db (plannedWork db state)) :
    Accounted (ensureOwedSyncWork db state).runs (ensureOwedSyncWork db state).work ever := by
  have henqueued := enqueueSyncWorkMany_accounted _ db ever h hfits
  unfold plannedWork at henqueued
  rw [enqueuedRunsMany_dueWork, List.append_nil] at henqueued
  unfold ensureOwedSyncWork
  dsimp only
  split
  · next enqueued count hmany =>
    rw [hmany] at henqueued
    exact run_invariant (fun s lane => cancelLane s state lane)
      (fun s => Accounted s.runs s.work ever)
      (fun s lane hs => cancelLane_accounted hs state lane) enqueued henqueued _
  · next enqueued message hmany =>
    rw [hmany] at henqueued
    exact henqueued

theorem putSyncState_accounted (h : Accounted db.runs db.work ever)
    (state : SyncStreamState) (hfits : PhaseWriteFits db state) :
    Accounted (putSyncState db state).1.runs (putSyncState db state).1.work ever := by
  unfold PhaseWriteFits at hfits
  unfold putSyncState
  dsimp only at hfits ⊢
  split
  · exact cancelUnassignedStreams_accounted (by exact h) _ _ _
  · next hinside =>
    exact ensureOwedSyncWork_accounted (by exact h) _ (hfits (by simpa using hinside))

/-- One step keeps the books when its enqueues and resumes fit. -/
theorem stepBooks_accounted (localeBefore : String → String → Bool)
    (state : MemoryTables × List String) (op : SyncOp)
    (h : Accounted state.1.runs state.1.work state.2) (hfits : Fits state op) :
    Accounted (stepBooks localeBefore state op).1.runs (stepBooks localeBefore state op).1.work
      (stepBooks localeBefore state op).2 := by
  cases op with
  | enqueueSyncWork input => exact enqueueSyncWork_accounted h input hfits
  | enqueueSyncWorkMany inputs =>
    exact enqueueSyncWorkMany_accounted inputs state.1 state.2 h hfits
  | createSyncRun input =>
    simpa [stepBooks, enqueuedRuns, step] using createSyncRun_accounted h input
  | commandSyncRun input =>
    simpa [stepBooks, enqueuedRuns, step] using commandSyncRun_accounted h input hfits
  | claimSyncWork input =>
    simpa [stepBooks, enqueuedRuns, step] using claimSyncWork_accounted h localeBefore input
  | renewSyncWork input =>
    simpa [stepBooks, enqueuedRuns, step] using renewSyncWork_accounted h input
  | settleSyncWork input =>
    simpa [stepBooks, enqueuedRuns, step] using settleSyncWork_accounted h input
  | wakeUnassignedSyncWork input =>
    simpa [stepBooks, enqueuedRuns, step] using wakeUnassignedSyncWork_accounted h input
  | applySyncCatalogPage input =>
    simpa [stepBooks, enqueuedRuns, step] using applyCatalogPage_accounted h input
  | putSyncState input =>
    simpa [stepBooks, enqueuedRuns, step] using putSyncState_accounted h input hfits

/-- The run lemma: along fitting steps the books hold in every state reached. -/
theorem runBooks_accounted (localeBefore : String → String → Bool) (db : MemoryTables)
    (ops : List SyncOp)
    (hfits : Along (stepBooks localeBefore) Fits
      ({ db with runs := ∅, work := ∅, workKeys := ∅ }, []) ops) :
    Accounted
      (run (stepBooks localeBefore) ({ db with runs := ∅, work := ∅, workKeys := ∅ }, [])
        ops).1.runs
      (run (stepBooks localeBefore) ({ db with runs := ∅, work := ∅, workKeys := ∅ }, [])
        ops).1.work
      (run (stepBooks localeBefore) ({ db with runs := ∅, work := ∅, workKeys := ∅ }, [])
        ops).2 :=
  along_invariant (stepBooks localeBefore)
    (fun state : MemoryTables × List String =>
      Accounted state.1.runs state.1.work state.2)
    (stepBooks_accounted localeBefore) _ Accounted.empty ops hfits

end Memory

end Regenic.Sync
