import Regenic.Sync.Books
import Regenic.Sync.SqliteSteps

/-!
The books of the SQLite store. An enqueue that finds its row already there re-pends or
reassigns it without counting it, and a resume does not look at the rows a run has
left, so the books of a run hold along the runs whose enqueues and resumes fit.
-/

namespace Regenic.Sync

open Lib

namespace Sqlite

/-- The condition of one enqueue. A row that is not running is moved to the named run
only when that run exists. -/
def EnqueueFitsAt (db : SyncTables) (input : EnqueueSyncWork) : Prop :=
  match findSyncWorkByIdentity db input with
  | none => True
  | some row =>
    if row.status = .running then EnqueueFits db.runs db.work input row row.runId
    else referencesRun db input.runId = true →
      EnqueueFits db.runs db.work input row (input.runId <|> row.runId)

instance (db : SyncTables) (input : EnqueueSyncWork) : Decidable (EnqueueFitsAt db input) := by
  unfold EnqueueFitsAt
  split
  · infer_instance
  · split <;> infer_instance

/-- The condition of a batch, each input in the tables its predecessors leave. -/
def EnqueueManyFits (db : SyncTables) (inputs : List EnqueueSyncWork) : Prop :=
  match enqueueSyncWorkMany db inputs with
  | .error _ => True
  | .ok _ => Along (fun db input => commit db (enqueueSyncWorkUnlocked db input))
      EnqueueFitsAt db inputs

instance (db : SyncTables) (inputs : List EnqueueSyncWork) :
    Decidable (EnqueueManyFits db inputs) := by
  unfold EnqueueManyFits
  split <;> infer_instance

/-- The runs named by the enqueues of a step that take effect. -/
def enqueuedRuns (db : SyncTables) : SyncOp → List String
  | .enqueueSyncWork input =>
    match enqueueSyncWorkUnlocked db input with
    | .ok _ => namedRuns db.runs input
    | .error _ => []
  | .enqueueSyncWorkMany inputs =>
    match enqueueSyncWorkMany db inputs with
    | .ok _ => inputs.flatMap (namedRuns db.runs)
    | .error _ => []
  | _ => []

/-- The condition of a step, in the tables and the enqueue history before it. -/
def Fits (state : SyncTables × List String) : SyncOp → Prop
  | .enqueueSyncWork input => EnqueueFitsAt state.1 input
  | .enqueueSyncWorkMany inputs => EnqueueManyFits state.1 inputs
  | .commandSyncRun input => ResumeFits state.1 state.2 input
  | _ => True

/-- A step of the store together with its enqueue history. -/
def stepBooks (state : SyncTables × List String) (op : SyncOp) : SyncTables × List String :=
  (step state.1 op, state.2 ++ enqueuedRuns state.1 op)

theorem EnqueueEffect.runs_isSome {db after : SyncTables} {input : EnqueueSyncWork}
    (h : EnqueueEffect db input after) (runId : String) :
    (after.runs.get? runId).isSome = (db.runs.get? runId).isSome := by
  cases h with
  | running => rfl
  | rePend => rfl
  | insert missing references free =>
    dsimp only
    cases present input.runId with
    | none => rfl
    | some named =>
      rw [Table.get?_update]
      split
      · simp
      · rfl

theorem EnqueueEffect.accounted {db after : SyncTables} {input : EnqueueSyncWork}
    {ever : List String} (heffect : EnqueueEffect db input after)
    (h : Accounted db.runs db.work ever) (hfits : EnqueueFitsAt db input) :
    Accounted after.runs after.work (ever ++ namedRuns db.runs input) := by
  cases heffect with
  | running current found status =>
    have hrow : db.work.get? current.id = some current :=
      Table.get?_key (List.mem_of_find?_eq_some found)
    simp only [EnqueueFitsAt, found, status, if_true] at hfits
    exact h.enqueueRunning input hrow status hfits
  | rePend current found status references =>
    have hrow : db.work.get? current.id = some current :=
      Table.get?_key (List.mem_of_find?_eq_some found)
    simp only [EnqueueFitsAt, found, status, if_false] at hfits
    refine h.rePend input hrow (rePend_id input) (fun _ => rfl) ?_ (hfits references)
    intro runId hid hafter
    cases hinput : input.runId with
    | some named =>
      simp only [Sqlite.rePend, hinput] at hafter
      obtain rfl : named = runId := Option.some.inj hafter
      simpa only [referencesRun, hinput, Option.all_some] using references
    | none =>
      simp only [Sqlite.rePend, hinput] at hafter
      exact h.referenced current (List.mem_of_find?_eq_some found) runId hid hafter
  | insert missing references free =>
    refine h.insertWork input free ?_
    intro runId hid hinput
    simpa only [referencesRun, hinput, Option.all_some] using references

theorem enqueueSyncWork_accounted {db : SyncTables} {ever : List String}
    (h : Accounted db.runs db.work ever) (input : EnqueueSyncWork)
    (hfits : EnqueueFitsAt db input) :
    Accounted (commit db (enqueueSyncWorkUnlocked db input)).runs
      (commit db (enqueueSyncWorkUnlocked db input)).work
      (ever ++ enqueuedRuns db (.enqueueSyncWork input)) := by
  simp only [enqueuedRuns]
  cases hrun : enqueueSyncWorkUnlocked db input with
  | error message => simpa [commit] using h
  | ok result => exact (enqueueSyncWork_effect hrun).accounted h hfits

theorem enqueueFold_accounted (inputs : List EnqueueSyncWork) (db after : SyncTables)
    (ever : List String) (h : Accounted db.runs db.work ever)
    (hfold : inputs.foldlM
      (fun db input => Prod.fst <$> enqueueSyncWorkUnlocked db input) db = .ok after)
    (hfits : Along (fun db input => commit db (enqueueSyncWorkUnlocked db input))
      EnqueueFitsAt db inputs) :
    Accounted after.runs after.work (ever ++ inputs.flatMap (namedRuns db.runs)) := by
  induction inputs generalizing db ever with
  | nil =>
    simp only [List.foldlM_nil, pure, Except.pure, Except.ok.injEq] at hfold
    subst hfold
    simpa using h
  | cons input rest ih =>
    simp only [List.foldlM_cons, bind, Except.bind] at hfold
    obtain ⟨hhead, htail⟩ := hfits
    cases hrun : enqueueSyncWorkUnlocked db input with
    | error message =>
      rw [hrun] at hfold
      cases hfold
    | ok result =>
      rw [hrun] at hfold
      have heffect := enqueueSyncWork_effect hrun
      have hnext := heffect.accounted h hhead
      simp only [hrun, commit] at htail
      have hrest := ih result.1 (ever ++ namedRuns db.runs input) hnext hfold htail
      have hnamed : ∀ i, namedRuns result.1.runs i = namedRuns db.runs i := by
        intro i
        simp only [namedRuns, heffect.runs_isSome]
      have hsame : rest.flatMap (namedRuns result.1.runs) =
          rest.flatMap (namedRuns db.runs) := by
        rw [funext hnamed]
      rw [List.flatMap_cons, ← List.append_assoc, ← hsame]
      exact hrest

theorem enqueueSyncWorkMany_accounted {db : SyncTables} {ever : List String}
    (h : Accounted db.runs db.work ever) (inputs : List EnqueueSyncWork)
    (hfits : EnqueueManyFits db inputs) :
    Accounted (commit db (enqueueSyncWorkMany db inputs)).runs
      (commit db (enqueueSyncWorkMany db inputs)).work
      (ever ++ enqueuedRuns db (.enqueueSyncWorkMany inputs)) := by
  unfold EnqueueManyFits at hfits
  simp only [enqueuedRuns]
  cases hmany : enqueueSyncWorkMany db inputs with
  | error message => simpa [commit] using h
  | ok result =>
    rw [hmany] at hfits
    unfold enqueueSyncWorkMany at hmany
    simp only [bind, Except.bind, pure, Except.pure] at hmany
    split at hmany
    · cases hmany
    · next after hfold =>
      cases hmany
      exact enqueueFold_accounted inputs db after ever h hfold hfits

theorem createSyncRun_accounted {db : SyncTables} {ever : List String}
    (h : Accounted db.runs db.work ever) (input : NewSyncRun) :
    Accounted (commit db (createSyncRun db input)).runs
      (commit db (createSyncRun db input)).work ever := by
  rcases createSyncRun_cases db input with hsame | ⟨free, hinsert⟩
  · rw [hsame]
    exact h
  · rw [hinsert]
    exact h.insertRun input free

theorem commandSyncRun_accounted {db : SyncTables} {ever : List String}
    (h : Accounted db.runs db.work ever) (input : CommandSyncRun)
    (hfits : ResumeFits db ever input) :
    Accounted (commandSyncRun db input).1.runs (commandSyncRun db input).1.work ever := by
  have heffect := commandSyncRun_effect db input
  generalize (commandSyncRun db input).1 = after at heffect ⊢
  cases heffect with
  | none => exact h
  | pause run found claimable =>
    refine h.updateRun input.id (pauseRun_id input.now) ?_ fun _ => rfl
    intro run' found' _
    rw [found] at found'
    cases found'
    exact .pause claimable rfl rfl rfl rfl
  | resume run found orgId command paused =>
    refine h.updateRun input.id (resumeRun_id input.now) ?_ fun _ => rfl
    intro run' found' _
    rw [found] at found'
    cases found'
    refine .resume paused rfl rfl rfl rfl ?_
    intro hever
    have hid := (Table.get?_eq_some.mp found).2
    simp only [ledger, resumeRun_id, hid] at hever ⊢
    exact hfits command hever (by simp [found, orgId, paused])
  | cancel run found =>
    exact h.cancelRun input.id input.now (cancelRun_id input.now) (fun _ _ => rfl)
      (fun _ => rfl) fun _ => rfl

theorem claimSyncWork_accounted {db : SyncTables} {ever : List String}
    (h : Accounted db.runs db.work ever) (input : ClaimSyncWork) :
    Accounted (claimSyncWork db input).1.runs (claimSyncWork db input).1.work ever := by
  unfold claimSyncWork
  dsimp only
  split
  · exact h
  · refine h.claim (claimIds db input) input.owner input.now (input.now + input.leaseMs) _ ?_ ?_
    · intro run hrun
      simp only [Bool.and_eq_true, decide_eq_true_eq] at hrun
      exact hrun.1
    · intro row hrow hid
      obtain ⟨work, hwork, hclaim⟩ := mem_claimIds hid
      obtain rfl : row = work := by
        rw [Table.get?_key hrow] at hwork
        exact Option.some.inj hwork
      simp only [claimable, Bool.and_eq_true, Bool.or_eq_true, decide_eq_true_eq] at hclaim
      obtain ⟨⟨⟨⟨⟨hdue, hrun⟩, _⟩, _⟩, _⟩, _⟩ := hclaim
      constructor
      · rcases hdue with hpending | hexpired
        · simp [SyncWorkRecord.isOpen, hpending.1]
        · simp [SyncWorkRecord.isOpen, hexpired.1]
      · intro run hmem _ hmine
        rw [hmine] at hrun
        simpa [Table.get?_key hmem] using hrun

theorem renewSyncWork_accounted {db : SyncTables} {ever : List String}
    (h : Accounted db.runs db.work ever) (input : RenewSyncWork) :
    Accounted (renewSyncWork db input).1.runs (renewSyncWork db input).1.work ever := by
  rcases renewSyncWork_cases db input with hsame | ⟨_, _, _, _, hafter⟩
  · rw [hsame]
    exact h
  · rw [hafter]
    exact h.renew input.id input.now (input.now + input.leaseMs)

theorem finishRun_notClaimable (now : Instant) (run : SyncRun) :
    syncRunIsClaimable (finishRun now run).status = false := by
  unfold finishRun
  split
  · next hstatus => rcases hstatus with hstatus | hstatus <;> simp [hstatus, syncRunIsClaimable]
  · dsimp only
    split <;> rfl

theorem settleRun_settles (input : SettleSyncWork) (remaining : Bool) (run : SyncRun) :
    SettlesRun remaining run (settleRun input remaining run) where
  id := by
    unfold settleRun
    split <;> simp
  total := by
    unfold settleRun finishRun countSettled
    split_ifs <;> rfl
  settled := (settleRun_countsOne input remaining run).upper
  open_ hremaining hactive := by
    unfold settleRun countSettled
    simp only [hremaining, if_true]
    split <;> exact hactive
  done hremaining _ := by
    unfold settleRun
    rw [hremaining]
    exact finishRun_notClaimable input.now _

theorem settleSyncWork_accounted {db : SyncTables} {ever : List String}
    (h : Accounted db.runs db.work ever) (input : SettleSyncWork) :
    Accounted (settleSyncWork db input).1.runs (settleSyncWork db input).1.work ever := by
  rcases settleSyncWork_cases db input with hidle | ⟨row, hrow, hstatus, _, _, hafter⟩
  · rw [hidle]
    exact h
  · rw [hafter]
    exact h.settle input hrow hstatus (settleRun_settles input)
      (settledRuns_get? db input row)

theorem wakeUnassignedSyncWork_accounted {db : SyncTables} {ever : List String}
    (h : Accounted db.runs db.work ever) (input : WakeUnassignedSyncWork) :
    Accounted (wakeUnassignedSyncWork db input).1.runs
      (wakeUnassignedSyncWork db input).1.work ever := by
  unfold wakeUnassignedSyncWork
  dsimp only
  split
  · exact h
  · refine h.updateUnassigned (SyncWorkRecord.wake_id input.now) (fun _ => rfl) ?_ ?_
    · intro row hrow
      simp only [Bool.and_eq_true, decide_eq_true_eq, Option.isNone_iff_eq_none] at hrow
      simp [SyncWorkRecord.assigned, hrow.1.1.2]
    · intro row hrow
      simp only [Bool.and_eq_true, decide_eq_true_eq] at hrow
      simp [SyncWorkRecord.wake, hrow.1.2]

/-- Cancelling rows whose `run_id` is null touches no run. -/
theorem cancelUnassigned_accounted {runs : Table SyncRun.id}
    {work : Table SyncWorkRecord.id} {ever : List String} (h : Accounted runs work ever)
    {p : SyncWorkRecord → Bool} (hp : ∀ row, p row = true → row.runId = none)
    (now : Instant) :
    Accounted runs
      (work.updateWhere p (SyncWorkRecord.cancel now) (SyncWorkRecord.cancel_id now)) ever := by
  refine h.updateUnassigned (SyncWorkRecord.cancel_id now) (fun _ => rfl) ?_ ?_
  · intro row hrow
    simp [SyncWorkRecord.assigned, hp row hrow]
  · intro row _
    simp [SyncWorkRecord.cancel]

theorem dropStreamsLeftCatalog_accounted {db : SyncTables} {ever : List String}
    (h : Accounted db.runs db.work ever) (installationId : String)
    (streamKeys : List String) (now : Instant) :
    Accounted (dropStreamsLeftCatalog db installationId streamKeys now).runs
      (dropStreamsLeftCatalog db installationId streamKeys now).work ever := by
  refine cancelUnassigned_accounted h ?_ now
  intro row hrow
  simp only [Bool.and_eq_true, Option.isNone_iff_eq_none] at hrow
  exact hrow.1.1.2

theorem applySyncCatalogPage_accounted {db : SyncTables} {ever : List String}
    (h : Accounted db.runs db.work ever) (input : ApplySyncCatalogPageInput) :
    Accounted (commit db (applySyncCatalogPage db input)).runs
      (commit db (applySyncCatalogPage db input)).work ever := by
  unfold applySyncCatalogPage
  dsimp only
  split
  · exact h
  · simp only [commit]
    split
    · refine cancelUnassigned_accounted h ?_ input.now
      intro row hrow
      simp only [Bool.and_eq_true, Option.isNone_iff_eq_none] at hrow
      exact hrow.1.1.2
    · exact h

/-! ## Phase writes -/

/-- The rows of the stream on the lanes about to be enqueued belong to no run. -/
def LanesUnassigned (state : SyncStreamState) (lanes : List SyncLane) (db : SyncTables) :
    Prop :=
  ∀ row ∈ db.work.rows, row.installationId = state.installationId →
    row.streamKey = state.streamKey → row.generation = state.generation →
    row.lane ∈ lanes → row.assigned = false

theorem namedRuns_dueWork (runs : Table SyncRun.id) (state : SyncStreamState)
    (lane : SyncLane) : namedRuns runs (dueWork state lane) = [] := rfl

/-- A row of no run, enqueued for no run, moves the books of none. -/
theorem enqueueFits_unassigned {runs : Table SyncRun.id} {work : Table SyncWorkRecord.id}
    {input : EnqueueSyncWork} {row : SyncWorkRecord} (hrow : row.assigned = false)
    (hinput : present input.runId = none) : EnqueueFits runs work input row row.runId := by
  intro run _ hid _
  have hapart : row.runId ≠ some run.id := by
    intro heq
    simp [SyncWorkRecord.assigned, heq, present, hid] at hrow
  refine ⟨?_, ?_, ?_⟩
  · intro hmine
    exact absurd hmine hapart
  · intro _ _ hmine
    exact absurd hmine hapart
  · intro _ hnamed
    rw [hinput] at hnamed
    cases hnamed

theorem dueWork_fits {db : SyncTables} {state : SyncStreamState} {lanes : List SyncLane}
    {lane : SyncLane} (hlane : lane ∈ lanes) (h : LanesUnassigned state lanes db) :
    EnqueueFitsAt db (dueWork state lane) := by
  unfold EnqueueFitsAt
  split
  · trivial
  · next row hfind =>
    have hnames := List.find?_some hfind
    simp only [EnqueueSyncWork.names, Bool.and_eq_true, decide_eq_true_eq] at hnames
    obtain ⟨⟨⟨hinst, hstream⟩, hsame⟩, hgeneration⟩ := hnames
    have hrowlane : row.lane ∈ lanes := by
      rw [hsame]
      exact hlane
    have hfree := h row (List.mem_of_find?_eq_some hfind) hinst hstream hgeneration hrowlane
    have hfits : EnqueueFits db.runs db.work (dueWork state lane) row row.runId :=
      enqueueFits_unassigned hfree rfl
    split
    · exact hfits
    · exact fun _ => hfits

theorem EnqueueEffect.lanesUnassigned {db after : SyncTables} {state : SyncStreamState}
    {lanes : List SyncLane} {lane : SyncLane}
    (heffect : EnqueueEffect db (dueWork state lane) after)
    (h : LanesUnassigned state lanes db) : LanesUnassigned state lanes after := by
  cases heffect with
  | running => exact h
  | rePend current found status references =>
    intro row hrow hinst hstream hgeneration hlane
    have hupdated : row ∈ (db.work.update current.id (Sqlite.rePend (dueWork state lane))
      (rePend_id _)).rows := hrow
    rcases Table.mem_update hupdated with ⟨hmem, _⟩ | ⟨before, hmem, _, rfl⟩
    · exact h row hmem hinst hstream hgeneration hlane
    · exact h before hmem hinst hstream hgeneration hlane
  | insert missing references free =>
    intro row hrow hinst hstream hgeneration hlane
    simp only [Table.rows_insert, List.mem_append, List.mem_singleton] at hrow
    rcases hrow with hrow | rfl
    · exact h row hrow hinst hstream hgeneration hlane
    · rfl

theorem cancelLane_accounted {db : SyncTables} {ever : List String}
    (h : Accounted db.runs db.work ever) (state : SyncStreamState) (lane : SyncLane) :
    Accounted (cancelLane db state lane).runs (cancelLane db state lane).work ever := by
  refine cancelUnassigned_accounted h ?_ state.updatedAt
  intro row hrow
  simp only [Bool.and_eq_true, Option.isNone_iff_eq_none] at hrow
  exact hrow.1.2

theorem cancelLane_lanesUnassigned {db : SyncTables} {state : SyncStreamState}
    {lanes : List SyncLane} (h : LanesUnassigned state lanes db) (lane : SyncLane) :
    LanesUnassigned state lanes (cancelLane db state lane) := by
  intro row hrow hinst hstream hgeneration hlane
  obtain ⟨before, hmem, rfl⟩ := List.mem_map.mp hrow
  split at hinst
  all_goals simp_all only [if_true, if_false, Bool.false_eq_true]
  all_goals exact h before hmem hinst hstream hgeneration hlane

/-- The plan of a phase write enqueues no lane that a run holds a row of. -/
theorem lanesUnassigned_plan (db : SyncTables) (state : SyncStreamState) :
    LanesUnassigned state (syncWorkEnsurePlan state.phase state.mediaPending
      (workForStream db state) (historyPolicyForInstall db state.installationId)).enqueue
      db := by
  intro row hrow hinst hstream hgeneration hlane
  have hblocks := (mem_syncWorkEnsurePlan_enqueue.mp hlane).2
  refine (laneBlocksEnqueue_eq_false hblocks ?_ rfl).1
  simp [workForStream, hrow, hinst, hstream, hgeneration]

theorem ensureOwedSyncWork_accounted {db after : SyncTables} {ever : List String}
    (h : Accounted db.runs db.work ever) (state : SyncStreamState)
    (hrun : ensureOwedSyncWorkUnlocked db state = .ok after) :
    Accounted after.runs after.work ever := by
  have hboth := ensureOwedSyncWork_invariant db
    (fun s => Accounted s.runs s.work ever ∧ LanesUnassigned state (syncWorkEnsurePlan
      state.phase state.mediaPending (workForStream db state)
      (historyPolicyForInstall db state.installationId)).enqueue s)
    state ?_ ?_ ⟨h, lanesUnassigned_plan db state⟩ hrun
  · exact hboth.1
  · rintro s next lane hlane ⟨haccounted, hfree⟩ heffect
    have hnext := heffect.accounted haccounted (dueWork_fits hlane hfree)
    rw [namedRuns_dueWork, List.append_nil] at hnext
    exact ⟨hnext, heffect.lanesUnassigned hfree⟩
  · rintro s lane ⟨haccounted, hfree⟩
    exact ⟨cancelLane_accounted haccounted state lane, cancelLane_lanesUnassigned hfree lane⟩

theorem putSyncState_accounted {db : SyncTables} {ever : List String}
    (h : Accounted db.runs db.work ever) (state : SyncStreamState) :
    Accounted (commit db (putSyncState db state)).runs
      (commit db (putSyncState db state)).work ever := by
  rcases putSyncState_cases db state _ rfl with hsame | ⟨_, hdrop⟩ | ⟨_, hensure⟩
  · rw [hsame]
    exact h
  · rw [hdrop]
    exact dropStreamsLeftCatalog_accounted h _ _ _
  · exact ensureOwedSyncWork_accounted (by exact h) _ hensure

/-- One step keeps the books when its enqueues and resumes fit. -/
theorem stepBooks_accounted (state : SyncTables × List String) (op : SyncOp)
    (h : Accounted state.1.runs state.1.work state.2) (hfits : Fits state op) :
    Accounted (stepBooks state op).1.runs (stepBooks state op).1.work
      (stepBooks state op).2 := by
  cases op with
  | enqueueSyncWork input => exact enqueueSyncWork_accounted h input hfits
  | enqueueSyncWorkMany inputs => exact enqueueSyncWorkMany_accounted h inputs hfits
  | createSyncRun input =>
    simpa [stepBooks, enqueuedRuns, step] using createSyncRun_accounted h input
  | commandSyncRun input =>
    simpa [stepBooks, enqueuedRuns, step] using commandSyncRun_accounted h input hfits
  | claimSyncWork input =>
    simpa [stepBooks, enqueuedRuns, step] using claimSyncWork_accounted h input
  | renewSyncWork input =>
    simpa [stepBooks, enqueuedRuns, step] using renewSyncWork_accounted h input
  | settleSyncWork input =>
    simpa [stepBooks, enqueuedRuns, step] using settleSyncWork_accounted h input
  | wakeUnassignedSyncWork input =>
    simpa [stepBooks, enqueuedRuns, step] using wakeUnassignedSyncWork_accounted h input
  | applySyncCatalogPage input =>
    simpa [stepBooks, enqueuedRuns, step] using applySyncCatalogPage_accounted h input
  | putSyncState input =>
    simpa [stepBooks, enqueuedRuns, step] using putSyncState_accounted h input

/-- The run lemma: along fitting steps the books hold in every state reached. -/
theorem runBooks_accounted (db : SyncTables) (ops : List SyncOp)
    (hfits : Along stepBooks Fits ({ db with runs := ∅, work := ∅ }, []) ops) :
    Accounted (run stepBooks ({ db with runs := ∅, work := ∅ }, []) ops).1.runs
      (run stepBooks ({ db with runs := ∅, work := ∅ }, []) ops).1.work
      (run stepBooks ({ db with runs := ∅, work := ∅ }, []) ops).2 :=
  along_invariant stepBooks
    (fun state : SyncTables × List String => Accounted state.1.runs state.1.work state.2)
    stepBooks_accounted _ Accounted.empty ops hfits

end Sqlite

end Regenic.Sync
