import Regenic.Sync.SqliteSteps
import Regenic.Sync.MemorySteps

/-!
Who may settle a sync work row. The claim history of a row says who claimed it
last and whether it has stopped running since; the status and lease columns say
the same, so a settle or renew that the columns let through is the holder's.
-/

namespace Regenic.Sync

open Lib

/-- A work store as its workers see it: its steps, its tables, the ids of the rows
a claim returns, and whether a settle returns a row. -/
structure WorkStore (σ : Type) where
  step : σ → SyncOp → σ
  tables : σ → SyncTables
  claimed : σ → ClaimSyncWork → List String
  settled : σ → SettleSyncWork → Bool

def sqliteWork : WorkStore SyncTables where
  step := Sqlite.step
  tables db := db
  claimed db input := (Sqlite.claimSyncWork db input).2.map (·.id)
  settled db input := (Sqlite.settleSyncWork db input).2.isSome

def memoryWork (localeBefore : String → String → Bool) : WorkStore MemoryTables where
  step db op := Memory.step db localeBefore op
  tables db := db.toSyncTables
  claimed db input := (Memory.claimSyncWork db localeBefore input).2.map (·.id)
  settled db input := (Memory.settleSyncWork db input).2.isSome

namespace WorkStore

variable {σ : Type} (store : WorkStore σ)

def row (s : σ) (id : String) : Option SyncWorkRecord := (store.tables s).work.get? id

def countersOf (s : σ) (runId : String) : Option (Nat × Nat × Nat) :=
  ((store.tables s).runs.get? runId).map SyncRun.counters

def isRunning (s : σ) (id : String) : Bool := (store.row s id).any (·.status = .running)

/-- The owner the columns name, for a row that runs. -/
def held (s : σ) (id : String) : Option String :=
  (store.row s id).bind fun work => if work.status = .running then work.leaseOwner else none

/-! ## The history of one row -/

/-- A claim of the row records its owner; a step that leaves the row settled,
cancelled or pending again ends the claim; any other step records nothing. -/
def recordsClaim (id : String) (s : σ) (op : SyncOp) : Option (Option String) :=
  match op with
  | .claimSyncWork input =>
    if id ∈ store.claimed s input then some (some input.owner) else none
  | op => if store.isRunning (store.step s op) id then none else some none

/-- The owner of the latest claim of the row along `ops`, if no step has settled,
cancelled or re-pended the row since. -/
def latestClaimant (id : String) (s : σ) (ops : List SyncOp) : Option String :=
  latest store.step (store.recordsClaim id) s (store.held s id) ops

/-- How often the step claims the row. -/
def claimsRow (id : String) (s : σ) (op : SyncOp) : Nat :=
  match op with
  | .claimSyncWork input => if id ∈ store.claimed s input then 1 else 0
  | _ => 0

/-- Whether the step is a settle of the row that takes effect. -/
def settlesRow (id : String) (s : σ) (op : SyncOp) : Nat :=
  match op with
  | .settleSyncWork input => if input.id = id ∧ store.settled s input = true then 1 else 0
  | _ => 0

/-! ## The history of one run -/

/-- How many rows of the run the step claims. -/
def claimsOfRun (runId : String) (s : σ) (op : SyncOp) : Nat :=
  match op with
  | .claimSyncWork input => (store.claimed s input).countP fun id =>
      (store.row s id).any (·.runId = some runId)
  | _ => 0

/-- Whether the step moves a counter of a run that is already stored. -/
def growsRun (runId : String) (s : σ) (op : SyncOp) : Nat :=
  if (store.countersOf s runId).isSome = true ∧
      store.countersOf (store.step s op) runId ≠ store.countersOf s runId
  then 1 else 0

/-- Rows of the run that are running. -/
def runningOfRun (runId : String) (s : σ) : Nat :=
  (store.tables s).work.rows.countP fun work =>
    work.runId = some runId && work.status = .running

/-- What the ownership argument asks of a store, one field for each kind of step. -/
structure Lawful : Prop where
  claim_work : ∀ s input id, store.row (store.step s (.claimSyncWork input)) id =
    if id ∈ store.claimed s input then
      (store.row s id).map
        (SyncWorkRecord.claim input.owner input.now (input.now + input.leaseMs))
    else store.row s id
  claim_known : ∀ s input, ∀ id ∈ store.claimed s input, (store.row s id).isSome
  claim_runs : ∀ s input,
    SameCounters (store.tables s).runs
      (store.tables (store.step s (.claimSyncWork input))).runs
  renew : ∀ s input, store.step s (.renewSyncWork input) = s ∨
    ∃ work, store.row s input.id = some work ∧ work.status = .running ∧
      work.leaseOwner = some input.owner ∧
      store.tables (store.step s (.renewSyncWork input)) =
        { store.tables s with
          work := (store.tables s).work.update input.id
            (SyncWorkRecord.renew input.now (input.now + input.leaseMs))
            (SyncWorkRecord.renew_id input.now (input.now + input.leaseMs)) }
  settle_idle : ∀ s input, store.settled s input = false →
    store.step s (.settleSyncWork input) = s
  settle_work : ∀ s input, store.settled s input = true →
    ∃ work, store.row s input.id = some work ∧ work.status = .running ∧
      work.leaseOwner = some input.owner ∧
      (store.tables (store.step s (.settleSyncWork input))).work =
        (store.tables s).work.update input.id (SyncWorkRecord.settle input)
          (SyncWorkRecord.settle_id input) ∧
      ∀ runId run, (store.tables s).runs.get? runId = some run →
        ∃ run', (store.tables (store.step s (.settleSyncWork input))).runs.get? runId =
            some run' ∧
          (run'.counters = run.counters ∨ work.runId = some runId) ∧
          run.completedWork + run.failedWork ≤ run'.completedWork + run'.failedWork ∧
          run'.completedWork + run'.failedWork ≤ run.completedWork + run.failedWork + 1
  other : ∀ s op, (∀ input, op ≠ .claimSyncWork input) → (∀ input, op ≠ .renewSyncWork input) →
    (∀ input, op ≠ .settleSyncWork input) →
    Quiet (store.tables s) (store.tables (store.step s op))

variable {store}

theorem Lawful.keepsRunning (h : store.Lawful) (s : σ) (op : SyncOp)
    (hclaim : ∀ input, op ≠ .claimSyncWork input)
    (hrenew : ∀ input, op ≠ .renewSyncWork input) :
    KeepsRunning (store.tables s).work (store.tables (store.step s op)).work := by
  by_cases hsettle : ∀ input, op ≠ .settleSyncWork input
  · exact (h.other s op hclaim hrenew hsettle).work
  · simp only [ne_eq, not_forall, not_not] at hsettle
    obtain ⟨input, rfl⟩ := hsettle
    cases hsettled : store.settled s input with
    | false =>
      rw [h.settle_idle s input hsettled]
      exact KeepsRunning.refl _
    | true =>
      obtain ⟨work, _, _, _, hwork, _⟩ := h.settle_work s input hsettled
      rw [hwork]
      refine KeepsRunning.update _ (SyncWorkRecord.settle_id input) fun w => ?_
      cases houtcome : input.outcome <;>
        simp [SyncWorkRecord.settle, SyncWorkOutcome.status, houtcome]

/-- A renew leaves every row running that ran, for the same run and owner. -/
theorem Lawful.renew_row (h : store.Lawful) (s : σ) (input : RenewSyncWork) (id : String) :
    store.row (store.step s (.renewSyncWork input)) id = store.row s id ∨
      (id = input.id ∧ ∃ work, store.row s id = some work ∧ work.status = .running ∧
        work.leaseOwner = some input.owner ∧
        store.row (store.step s (.renewSyncWork input)) id =
          some (work.renew input.now (input.now + input.leaseMs))) := by
  rcases h.renew s input with hsame | ⟨work, hwork, hrunning, howner, htables⟩
  · left
    rw [hsame]
  · simp only [WorkStore.row] at hwork ⊢
    rw [htables]
    simp only [Table.get?_update]
    by_cases hid : id = input.id
    · right
      subst hid
      exact ⟨rfl, work, hwork, hrunning, howner, by simp [hwork]⟩
    · left
      simp [hid]

theorem isRunning_iff {s : σ} {id : String} :
    store.isRunning s id = true ↔
      ∃ work, store.row s id = some work ∧ work.status = .running := by
  unfold isRunning
  cases store.row s id with
  | none => simp
  | some work => simp

theorem held_of_running {s : σ} {id : String} {work : SyncWorkRecord}
    (hrow : store.row s id = some work) (hrunning : work.status = .running) :
    store.held s id = work.leaseOwner := by
  simp [held, hrow, hrunning]

theorem held_of_idle {s : σ} {id : String} (h : store.isRunning s id = false) :
    store.held s id = none := by
  unfold held
  cases hrow : store.row s id with
  | none => rfl
  | some work =>
    simp only [isRunning, hrow, Option.any_some, decide_eq_false_iff_not] at h
    simp [h]

/-- One step moves the columns exactly as it moves the claim history. -/
theorem Lawful.held_step (h : store.Lawful) (id : String) (s : σ) (op : SyncOp) :
    store.held (store.step s op) id = (store.recordsClaim id s op).getD (store.held s id) := by
  by_cases hclaim : ∀ input, op ≠ .claimSyncWork input
  · have hrecords : store.recordsClaim id s op =
        if store.isRunning (store.step s op) id then none else some none := by
      cases op with
      | claimSyncWork input => exact absurd rfl (hclaim input)
      | _ => rfl
    rw [hrecords]
    cases hrunning : store.isRunning (store.step s op) id with
    | false => exact held_of_idle hrunning
    | true =>
      simp only [if_true, Option.getD_none]
      by_cases hrenew : ∀ input, op ≠ .renewSyncWork input
      · obtain ⟨work, hwork, hstatus⟩ := isRunning_iff.mp hrunning
        have hbefore := h.keepsRunning s op hclaim hrenew id work hwork hstatus
        rw [held_of_running hwork hstatus, held_of_running hbefore hstatus]
      · simp only [ne_eq, not_forall, not_not] at hrenew
        obtain ⟨input, rfl⟩ := hrenew
        rcases h.renew_row s input id with hsame | ⟨_, work, hwork, hstatus, _, hafter⟩
        · simp [held, hsame]
        · rw [held_of_running hafter hstatus, held_of_running hwork hstatus]
          rfl
  · simp only [ne_eq, not_forall, not_not] at hclaim
    obtain ⟨input, rfl⟩ := hclaim
    have hrow := h.claim_work s input id
    simp only [recordsClaim]
    by_cases hid : id ∈ store.claimed s input
    · obtain ⟨work, hwork⟩ := Option.isSome_iff_exists.mp (h.claim_known s input id hid)
      rw [if_pos hid, hwork] at hrow
      rw [if_pos hid, held_of_running hrow rfl]
      rfl
    · rw [if_neg hid] at hrow
      rw [if_neg hid]
      simp [held, hrow]

/-- The claim history and the columns name the same holder after every run. -/
theorem Lawful.latestClaimant_eq_held (h : store.Lawful) (id : String) (s : σ)
    (ops : List SyncOp) :
    store.latestClaimant id s ops = store.held (run store.step s ops) id :=
  latest_eq_read store.step (store.recordsClaim id) (fun s => store.held s id)
    (fun _ => True) (fun _ _ _ => trivial) (fun s op _ => h.held_step id s op) s trivial ops

theorem Lawful.isRunning_of_step (h : store.Lawful) (id : String) (s : σ) (op : SyncOp)
    (hclaim : ∀ input, op ≠ .claimSyncWork input)
    (hrunning : store.isRunning (store.step s op) id = true) :
    store.isRunning s id = true := by
  obtain ⟨work, hwork, hstatus⟩ := isRunning_iff.mp hrunning
  by_cases hrenew : ∀ input, op ≠ .renewSyncWork input
  · exact isRunning_iff.mpr ⟨work, h.keepsRunning s op hclaim hrenew id work hwork hstatus,
      hstatus⟩
  · simp only [ne_eq, not_forall, not_not] at hrenew
    obtain ⟨input, rfl⟩ := hrenew
    rcases h.renew_row s input id with hsame | ⟨_, before, hbefore, hstatus', _, _⟩
    · rw [hsame] at hwork
      exact isRunning_iff.mpr ⟨work, hwork, hstatus⟩
    · exact isRunning_iff.mpr ⟨before, hbefore, hstatus'⟩

/-- A running row is one settle the history still owes. -/
theorem Lawful.settles_step (h : store.Lawful) (id : String) (s : σ) (op : SyncOp) :
    (if store.isRunning (store.step s op) id then 1 else 0) + store.settlesRow id s op ≤
      (if store.isRunning s id then 1 else 0) + store.claimsRow id s op := by
  have hkeep : (∀ input, op ≠ .claimSyncWork input) →
      (if store.isRunning (store.step s op) id then 1 else 0) ≤
        if store.isRunning s id then 1 else 0 := by
    intro hclaim
    cases hafter : store.isRunning (store.step s op) id with
    | false => simp
    | true => simp [h.isRunning_of_step id s op hclaim hafter]
  cases op with
  | claimSyncWork input =>
    simp only [settlesRow, claimsRow]
    by_cases hid : id ∈ store.claimed s input
    · rw [if_pos hid]
      split <;> split <;> omega
    · have hrow := h.claim_work s input id
      rw [if_neg hid] at hrow
      have hsame : store.isRunning (store.step s (.claimSyncWork input)) id =
          store.isRunning s id := by
        simp only [isRunning, hrow]
      rw [hsame]
      omega
  | settleSyncWork input =>
    simp only [settlesRow, claimsRow, Nat.add_zero]
    by_cases hsettle : input.id = id ∧ store.settled s input = true
    · obtain ⟨rfl, hsettled⟩ := hsettle
      obtain ⟨work, hwork, hstatus, _, htable, _⟩ := h.settle_work s input hsettled
      have hbefore : store.isRunning s input.id = true :=
        isRunning_iff.mpr ⟨work, hwork, hstatus⟩
      have hafter : store.isRunning (store.step s (.settleSyncWork input)) input.id =
          false := by
        have hrow : store.row (store.step s (.settleSyncWork input)) input.id =
            some (work.settle input) := by
          simp only [WorkStore.row] at hwork ⊢
          rw [htable, Table.get?_update, if_pos rfl, hwork]
          rfl
        cases houtcome : input.outcome <;>
          simp [isRunning, hrow, SyncWorkRecord.settle, SyncWorkOutcome.status, houtcome]
      simp [hbefore, hafter, hsettled]
    · rw [if_neg hsettle]
      exact hkeep (by simp)
  | _ => exact hkeep (by simp)

theorem Lawful.runningOfRun_le (h : store.Lawful) (runId : String) (s : σ) (op : SyncOp)
    (hclaim : ∀ input, op ≠ .claimSyncWork input)
    (hrenew : ∀ input, op ≠ .renewSyncWork input) :
    store.runningOfRun runId (store.step s op) ≤ store.runningOfRun runId s := by
  have hle := Table.countP_le_add (store.tables s).work (store.tables (store.step s op)).work
    (fun work => work.runId = some runId && work.status = .running) [] (by
      intro work hmem hq _
      simp only [Bool.and_eq_true, decide_eq_true_eq] at hq
      exact (Table.get?_eq_some.mp (h.keepsRunning s op hclaim hrenew work.id work
        (Table.get?_key hmem) hq.2)).1)
  simpa [runningOfRun] using hle

theorem growsRun_eq_zero {runId : String} {s : σ} {op : SyncOp}
    (h : SameCounters (store.tables s).runs (store.tables (store.step s op)).runs) :
    store.growsRun runId s op = 0 := by
  unfold growsRun
  rw [if_neg]
  rintro ⟨hsome, hne⟩
  unfold countersOf at hsome hne
  cases hrun : (store.tables s).runs.get? runId with
  | none => simp [hrun] at hsome
  | some run =>
    obtain ⟨run', hrun', hsame⟩ := h runId run hrun
    exact hne (by simp [hrun, hrun', hsame])

theorem Lawful.grows_other (h : store.Lawful) (runId : String) (s : σ) (op : SyncOp)
    (hclaim : ∀ input, op ≠ .claimSyncWork input)
    (hrenew : ∀ input, op ≠ .renewSyncWork input)
    (hsettle : ∀ input, op ≠ .settleSyncWork input) :
    store.runningOfRun runId (store.step s op) + store.growsRun runId s op ≤
      store.runningOfRun runId s := by
  rw [growsRun_eq_zero (h.other s op hclaim hrenew hsettle).runs, Nat.add_zero]
  exact h.runningOfRun_le runId s op hclaim hrenew

/-- Each running row of a run is one growth its counters are still allowed. -/
theorem Lawful.grows_step (h : store.Lawful) (runId : String) (s : σ) (op : SyncOp) :
    store.runningOfRun runId (store.step s op) + store.growsRun runId s op ≤
      store.runningOfRun runId s + store.claimsOfRun runId s op := by
  cases op with
  | claimSyncWork input =>
    rw [growsRun_eq_zero (h.claim_runs s input)]
    have hle := Table.countP_le_add (store.tables s).work
      (store.tables (store.step s (.claimSyncWork input))).work
      (fun work => work.runId = some runId && work.status = .running)
      ((store.claimed s input).filter fun id =>
        (store.row s id).any (·.runId = some runId)) (by
        intro work hmem hq hnot
        simp only [Bool.and_eq_true, decide_eq_true_eq] at hq
        have hrow := h.claim_work s input work.id
        have hafter : store.row (store.step s (.claimSyncWork input)) work.id = some work :=
          Table.get?_key hmem
        rw [hafter] at hrow
        by_cases hid : work.id ∈ store.claimed s input
        · rw [if_pos hid] at hrow
          obtain ⟨before, hbefore, hclaimed⟩ := Option.map_eq_some_iff.mp hrow.symm
          refine absurd (List.mem_filter.mpr ⟨hid, ?_⟩) hnot
          have hrunId : before.runId = some runId := by
            rw [← hq.1, ← hclaimed]
            rfl
          simp [hbefore, hrunId]
        · rw [if_neg hid] at hrow
          exact (Table.get?_eq_some.mp hrow.symm).1)
    simpa [runningOfRun, claimsOfRun, List.countP_eq_length_filter] using hle
  | renewSyncWork input =>
    rcases h.renew s input with hsame | ⟨work, _, _, _, htables⟩
    · have hgrows : store.growsRun runId s (.renewSyncWork input) = 0 := by
        simp [growsRun, hsame]
      rw [hgrows, hsame]
      simp [claimsOfRun]
    · have hgrows : store.growsRun runId s (.renewSyncWork input) = 0 := by
        simp [growsRun, countersOf, htables]
      have hcount : store.runningOfRun runId (store.step s (.renewSyncWork input)) =
          store.runningOfRun runId s := by
        unfold runningOfRun
        rw [htables]
        exact Table.countP_updateWhere_eq _ _ _
          (SyncWorkRecord.renew_id input.now (input.now + input.leaseMs)) _ fun _ _ _ => rfl
      rw [hgrows, hcount]
      simp [claimsOfRun]
  | settleSyncWork input =>
    simp only [claimsOfRun, Nat.add_zero]
    cases hsettled : store.settled s input with
    | false =>
      have hsame := h.settle_idle s input hsettled
      simp [growsRun, hsame]
    | true =>
      obtain ⟨work, hwork, hstatus, _, htable, hruns⟩ := h.settle_work s input hsettled
      have hcount := Table.countP_update (store.tables s).work input.id
        (SyncWorkRecord.settle input) (SyncWorkRecord.settle_id input)
        (fun work => work.runId = some runId && work.status = .running) hwork
      have hsettledRow : (work.settle input).status ≠ .running := by
        cases houtcome : input.outcome <;>
          simp [SyncWorkRecord.settle, SyncWorkOutcome.status, houtcome]
      rw [← htable] at hcount
      simp only [hstatus, hsettledRow, decide_true, decide_false, Bool.and_true,
        Bool.and_false, Bool.false_eq_true, if_false, Nat.add_zero] at hcount
      unfold runningOfRun
      by_cases hrun : work.runId = some runId
      · have hgrows : store.growsRun runId s (.settleSyncWork input) ≤ 1 := by
          unfold growsRun
          split <;> omega
        simp only [hrun, decide_true, if_true] at hcount
        omega
      · have hgrows : store.growsRun runId s (.settleSyncWork input) = 0 := by
          unfold growsRun
          rw [if_neg]
          rintro ⟨hsome, hne⟩
          unfold countersOf at hsome hne
          cases hget : (store.tables s).runs.get? runId with
          | none => simp [hget] at hsome
          | some run =>
            obtain ⟨run', hget', hor, _⟩ := hruns runId run hget
            rcases hor with hsame | hmine
            · exact hne (by simp [hget, hget', hsame])
            · exact hrun hmine
        simp only [hrun, decide_false, Bool.false_eq_true, if_false] at hcount
        omega
  | _ => exact (h.grows_other runId s _ (by simp) (by simp) (by simp)).trans (by simp)

variable (store)

/-- What it means that only its current holder settles a row. From any store state
and after any steps: a settle or renew that changes a row is by the owner of the
row's latest claim, with no settlement, cancellation or re-pending since; over the
steps a row is settled at most as often as it is claimed, the claim it may start
with included; and the counters of a run move at most once for each claim of its
rows, by at most one settled row. -/
structure SettledByHolder : Prop where
  settle : ∀ s ops input id,
    store.row (store.step (run store.step s ops) (.settleSyncWork input)) id ≠
      store.row (run store.step s ops) id →
    id = input.id ∧ store.latestClaimant id s ops = some input.owner
  renew : ∀ s ops input id,
    store.row (store.step (run store.step s ops) (.renewSyncWork input)) id ≠
      store.row (run store.step s ops) id →
    id = input.id ∧ store.latestClaimant id s ops = some input.owner
  settles_le_claims : ∀ s ops id,
    tally store.step (store.settlesRow id) s ops ≤
      (if store.isRunning s id then 1 else 0) + tally store.step (store.claimsRow id) s ops
  grows_le_claims : ∀ s ops runId,
    tally store.step (store.growsRun runId) s ops ≤
      store.runningOfRun runId s + tally store.step (store.claimsOfRun runId) s ops
  grows_by_one : ∀ s op runId run, (store.tables s).runs.get? runId = some run →
    ∃ run', (store.tables (store.step s op)).runs.get? runId = some run' ∧
      run.completedWork + run.failedWork ≤ run'.completedWork + run'.failedWork ∧
      run'.completedWork + run'.failedWork ≤ run.completedWork + run.failedWork + 1

variable {store}

theorem Lawful.settle_changes (h : store.Lawful) (s : σ) (input : SettleSyncWork) (id : String)
    (hne : store.row (store.step s (.settleSyncWork input)) id ≠ store.row s id) :
    id = input.id ∧ store.held s id = some input.owner := by
  cases hsettled : store.settled s input with
  | false =>
    rw [h.settle_idle s input hsettled] at hne
    exact absurd rfl hne
  | true =>
    obtain ⟨work, hwork, hstatus, howner, htable, _⟩ := h.settle_work s input hsettled
    have hid : id = input.id := by
      by_contra hother
      apply hne
      simp only [WorkStore.row]
      rw [htable, Table.get?_update, if_neg hother]
    subst hid
    exact ⟨rfl, (held_of_running hwork hstatus).trans howner⟩

theorem Lawful.renew_changes (h : store.Lawful) (s : σ) (input : RenewSyncWork) (id : String)
    (hne : store.row (store.step s (.renewSyncWork input)) id ≠ store.row s id) :
    id = input.id ∧ store.held s id = some input.owner := by
  rcases h.renew_row s input id with hsame | ⟨hid, work, hwork, hstatus, howner, _⟩
  · exact absurd hsame hne
  · exact ⟨hid, (held_of_running hwork hstatus).trans howner⟩

theorem SameCounters.grows_by_one {before after : Table SyncRun.id}
    (h : SameCounters before after) {runId : String} {run : SyncRun}
    (hrun : before.get? runId = some run) :
    ∃ run', after.get? runId = some run' ∧
      run.completedWork + run.failedWork ≤ run'.completedWork + run'.failedWork ∧
      run'.completedWork + run'.failedWork ≤ run.completedWork + run.failedWork + 1 := by
  obtain ⟨run', hrun', hsame⟩ := h runId run hrun
  simp only [SyncRun.counters, Prod.mk.injEq] at hsame
  exact ⟨run', hrun', by omega, by omega⟩

theorem Lawful.grows_by_one (h : store.Lawful) (s : σ) (op : SyncOp) (runId : String)
    (run : SyncRun) (hrun : (store.tables s).runs.get? runId = some run) :
    ∃ run', (store.tables (store.step s op)).runs.get? runId = some run' ∧
      run.completedWork + run.failedWork ≤ run'.completedWork + run'.failedWork ∧
      run'.completedWork + run'.failedWork ≤ run.completedWork + run.failedWork + 1 := by
  cases op with
  | claimSyncWork input => exact SameCounters.grows_by_one (h.claim_runs s input) hrun
  | renewSyncWork input =>
    rcases h.renew s input with hsame | ⟨_, _, _, _, htables⟩
    · rw [hsame]
      exact ⟨run, hrun, le_rfl, by omega⟩
    · rw [htables]
      exact ⟨run, hrun, le_rfl, by omega⟩
  | settleSyncWork input =>
    cases hsettled : store.settled s input with
    | false =>
      rw [h.settle_idle s input hsettled]
      exact ⟨run, hrun, le_rfl, by omega⟩
    | true =>
      obtain ⟨_, _, _, _, _, hruns⟩ := h.settle_work s input hsettled
      obtain ⟨run', hrun', _, hbounds⟩ := hruns runId run hrun
      exact ⟨run', hrun', hbounds⟩
  | _ =>
    exact SameCounters.grows_by_one (h.other s _ (by simp) (by simp) (by simp)).runs hrun

theorem Lawful.settledByHolder (h : store.Lawful) : store.SettledByHolder where
  settle s ops input id hne := by
    rw [h.latestClaimant_eq_held id s ops]
    exact h.settle_changes _ input id hne
  renew s ops input id hne := by
    rw [h.latestClaimant_eq_held id s ops]
    exact h.renew_changes _ input id hne
  settles_le_claims s ops id := by
    have hbalance := tally_balance store.step (store.settlesRow id) (store.claimsRow id)
      (fun s => if store.isRunning s id then 1 else 0) (fun _ => True)
      (fun _ _ _ => trivial) (fun s op _ => h.settles_step id s op) s trivial ops
    omega
  grows_le_claims s ops runId := by
    have hbalance := tally_balance store.step (store.growsRun runId) (store.claimsOfRun runId)
      (store.runningOfRun runId) (fun _ => True) (fun _ _ _ => trivial)
      (fun s op _ => h.grows_step runId s op) s trivial ops
    omega
  grows_by_one s op runId run hrun := h.grows_by_one s op runId run hrun

end WorkStore

/-! ## Both stores are lawful -/

theorem sqliteWork_lawful : sqliteWork.Lawful where
  claim_work db input id := by
    simp only [sqliteWork, WorkStore.row, Sqlite.step, Sqlite.claimSyncWork_ids]
    exact Sqlite.claimSyncWork_work db input id
  claim_known db input id hid := by
    simp only [sqliteWork, Sqlite.claimSyncWork_ids] at hid
    obtain ⟨work, hwork, _⟩ := Sqlite.mem_claimIds hid
    exact Option.isSome_iff_exists.mpr ⟨work, hwork⟩
  claim_runs db input := Sqlite.claimSyncWork_runs db input
  renew db input := Sqlite.renewSyncWork_cases db input
  settle_idle db input hsettled := by
    simp only [sqliteWork] at hsettled
    simp only [sqliteWork, Sqlite.step]
    rcases Sqlite.settleSyncWork_cases db input with hidle | ⟨_, _, _, _, hsome, _⟩
    · rw [hidle]
    · rw [hsome] at hsettled
      cases hsettled
  settle_work db input hsettled := by
    simp only [sqliteWork] at hsettled
    rcases Sqlite.settleSyncWork_cases db input with
      hidle | ⟨work, hwork, hstatus, howner, _, hafter⟩
    · rw [hidle] at hsettled
      cases hsettled
    · refine ⟨work, hwork, hstatus, howner, ?_, ?_⟩
      · simp only [sqliteWork, Sqlite.step, hafter]
      · intro runId run hrun
        obtain ⟨run', hrun', hcounters, hbounds⟩ :=
          Sqlite.settledRuns_counters db input work runId run hrun
        refine ⟨run', ?_, hcounters, hbounds.lower, hbounds.upper⟩
        simpa only [sqliteWork, Sqlite.step, hafter] using hrun'
  other db op hclaim hrenew hsettle := by
    cases op with
    | claimSyncWork input => exact absurd rfl (hclaim input)
    | renewSyncWork input => exact absurd rfl (hrenew input)
    | settleSyncWork input => exact absurd rfl (hsettle input)
    | createSyncRun input => exact Sqlite.createSyncRun_quiet db input
    | commandSyncRun input => exact (Sqlite.commandSyncRun_effect db input).quiet
    | enqueueSyncWork input => exact Sqlite.enqueueSyncWork_quiet db input
    | enqueueSyncWorkMany inputs => exact Sqlite.enqueueSyncWorkMany_quiet db inputs
    | wakeUnassignedSyncWork input => exact Sqlite.wakeUnassignedSyncWork_quiet db input
    | applySyncCatalogPage input => exact Sqlite.applySyncCatalogPage_quiet db input
    | putSyncState state => exact Sqlite.putSyncState_quiet db state

theorem memoryWork_lawful (localeBefore : String → String → Bool) :
    (memoryWork localeBefore).Lawful where
  claim_work db input id := by
    simp only [memoryWork, WorkStore.row, Memory.step, Memory.claimSyncWork_ids]
    exact Memory.claimSyncWork_work db localeBefore input id
  claim_known db input id hid := by
    simp only [memoryWork, Memory.claimSyncWork_ids] at hid
    obtain ⟨work, hwork, _⟩ := Memory.mem_claimIds hid
    exact Option.isSome_iff_exists.mpr ⟨work, hwork⟩
  claim_runs db input := Memory.claimSyncWork_runs db localeBefore input
  renew db input := by
    simp only [memoryWork, WorkStore.row, Memory.step]
    rcases Memory.renewSyncWork_cases db input with hsame |
      ⟨work, hwork, hstatus, howner, hafter⟩
    · exact Or.inl hsame
    · exact Or.inr ⟨work, hwork, hstatus, howner, by rw [hafter]⟩
  settle_idle db input hsettled := by
    simp only [memoryWork] at hsettled
    simp only [memoryWork, Memory.step]
    rcases Memory.settleSyncWork_cases db input with hidle | ⟨_, _, _, _, hsome, _⟩
    · rw [hidle]
    · rw [hsome] at hsettled
      cases hsettled
  settle_work db input hsettled := by
    simp only [memoryWork] at hsettled
    rcases Memory.settleSyncWork_cases db input with
      hidle | ⟨work, hwork, hstatus, howner, _, hafter⟩
    · rw [hidle] at hsettled
      cases hsettled
    · refine ⟨work, hwork, hstatus, howner, ?_, ?_⟩
      · simp only [memoryWork, Memory.step, hafter]
      · intro runId run hrun
        obtain ⟨run', hrun', hcounters, hbounds⟩ :=
          Memory.settledRuns_counters db input work runId run hrun
        refine ⟨run', ?_, hcounters, hbounds.lower, hbounds.upper⟩
        simpa only [memoryWork, Memory.step, hafter] using hrun'
  other db op hclaim hrenew hsettle := by
    cases op with
    | claimSyncWork input => exact absurd rfl (hclaim input)
    | renewSyncWork input => exact absurd rfl (hrenew input)
    | settleSyncWork input => exact absurd rfl (hsettle input)
    | createSyncRun input => exact Memory.createSyncRun_quiet db input
    | commandSyncRun input => exact Memory.commandSyncRun_quiet db input
    | enqueueSyncWork input => exact Memory.enqueueSyncWork_quiet db input
    | enqueueSyncWorkMany inputs => exact Memory.enqueueSyncWorkMany_quiet db inputs
    | wakeUnassignedSyncWork input => exact Memory.wakeUnassignedSyncWork_quiet db input
    | applySyncCatalogPage input => exact Memory.applyCatalogPage_quiet db input
    | putSyncState state => exact Memory.putSyncState_quiet db state

/-- In the SQLite store and in the in-memory store, sync work is settled only by its
current holder, whatever enqueues, wakes, catalog drops and run commands come in
between and whatever the clocks read. -/
theorem syncWork_settledByHolder :
    sqliteWork.SettledByHolder ∧
      ∀ localeBefore, (memoryWork localeBefore).SettledByHolder :=
  ⟨sqliteWork_lawful.settledByHolder,
    fun localeBefore => (memoryWork_lawful localeBefore).settledByHolder⟩

end Regenic.Sync
