import Regenic.Sync.Ledger
import Regenic.Sync.WorkSteps

/-!
The books of every run, read off the run and work tables of a store, and what the
table updates of either store do to them.
-/

namespace Regenic.Sync

open Lib

/-- Rows of the run that are pending or running. -/
def openRows (work : Table SyncWorkRecord.id) (runId : String) : Nat :=
  work.rows.countP fun row => row.runId = some runId && row.isOpen

def Busy (work : Table SyncWorkRecord.id) (runId : String) : Prop :=
  ∃ row ∈ work.rows, row.runId = some runId ∧ row.status = .running

/-- The books of a run. `ever` are the runs work was enqueued for so far. -/
def ledger (work : Table SyncWorkRecord.id) (ever : List String) (run : SyncRun) :
    RunLedger where
  status := run.status
  total := run.totalWork
  completed := run.completedWork
  failed := run.failedWork
  openRows := openRows work run.id
  busy := Busy work run.id
  enqueued := run.id ∈ ever

/-- The books of every named run balance. The empty id names no run: no row counts
for it, and nothing settles into it. -/
structure Accounted (runs : Table SyncRun.id) (work : Table SyncWorkRecord.id)
    (ever : List String) : Prop where
  balanced : ∀ run ∈ runs.rows, run.id ≠ "" → (ledger work ever run).Balanced
  referenced : ∀ row ∈ work.rows, ∀ runId, runId ≠ "" → row.runId = some runId →
    (runs.get? runId).isSome
  known : ∀ runId ∈ ever, runId ≠ "" ∧ (runs.get? runId).isSome
  unnamed : ∀ run ∈ runs.rows, run.id = "" → run.completedWork + run.failedWork = 0

variable {runs : Table SyncRun.id} {work : Table SyncWorkRecord.id} {ever : List String}

theorem Busy.openRows_pos {runId : String} (h : Busy work runId) :
    0 < openRows work runId := by
  obtain ⟨row, hrow, hrun, hstatus⟩ := h
  refine List.countP_pos_iff.mpr ⟨row, hrow, ?_⟩
  simp [hrun, SyncWorkRecord.isOpen, hstatus]

theorem openRows_pos_iff {runId : String} :
    0 < openRows work runId ↔
      ∃ row ∈ work.rows, row.runId = some runId ∧ row.isOpen = true := by
  simp [openRows, List.countP_pos_iff]

theorem hasOpenWork_iff {runId : String} :
    Sqlite.hasOpenWork work runId = true ↔ 0 < openRows work runId := by
  simp [Sqlite.hasOpenWork, openRows_pos_iff]

theorem openRows_update {id : String} {f : SyncWorkRecord → SyncWorkRecord}
    (hf : ∀ row, (f row).id = row.id) {row : SyncWorkRecord}
    (hrow : work.get? id = some row) (runId : String) :
    openRows (work.update id f hf) runId +
        (if row.runId = some runId ∧ row.isOpen = true then 1 else 0) =
      openRows work runId +
        (if (f row).runId = some runId ∧ (f row).isOpen = true then 1 else 0) := by
  have hcount := Table.countP_update work id f hf
    (fun row => row.runId = some runId && row.isOpen) hrow
  simp only [Bool.and_eq_true, decide_eq_true_eq] at hcount
  exact hcount

/-- Rows that belong to no named run may change as they like, as long as they stay
apart from the run and start nothing. -/
theorem openRows_updateWhere {p : SyncWorkRecord → Bool} {f : SyncWorkRecord → SyncWorkRecord}
    (hf : ∀ row, (f row).id = row.id) {runId : String}
    (hp : ∀ row ∈ work.rows, p row = true →
      (row.runId = some runId ∧ row.isOpen = true ↔
        (f row).runId = some runId ∧ (f row).isOpen = true)) :
    openRows (work.updateWhere p f hf) runId = openRows work runId := by
  refine Table.countP_updateWhere_eq work p f hf _ fun row hrow hrowp => ?_
  have hiff := hp row hrow hrowp
  rw [Bool.eq_iff_iff]
  simp only [Bool.and_eq_true, decide_eq_true_eq]
  exact hiff.symm

theorem Busy.of_keepsRunning {after : Table SyncWorkRecord.id} {runId : String}
    (h : KeepsRunning work after) (hbusy : Busy after runId) : Busy work runId := by
  obtain ⟨row, hrow, hrun, hstatus⟩ := hbusy
  have hbefore := h row.id row (Table.get?_key hrow) hstatus
  exact ⟨row, (Table.get?_eq_some.mp hbefore).1, hrun, hstatus⟩

/-- The books after a step in which every stored run makes one move. -/
theorem Accounted.step {runs' : Table SyncRun.id} {work' : Table SyncWorkRecord.id}
    {ever' : List String} (h : Accounted runs work ever)
    (hmove : ∀ run' ∈ runs'.rows, run'.id ≠ "" →
      ∃ run, runs.get? run'.id = some run ∧
        RunLedger.Move (ledger work ever run) (ledger work' ever' run'))
    (hreferenced : ∀ row ∈ work'.rows, ∀ runId, runId ≠ "" → row.runId = some runId →
      (runs'.get? runId).isSome)
    (hknown : ∀ runId ∈ ever', runId ≠ "" ∧ (runs'.get? runId).isSome)
    (hunnamed : ∀ run ∈ runs'.rows, run.id = "" →
      run.completedWork + run.failedWork = 0) :
    Accounted runs' work' ever' where
  balanced run' hrun' hid := by
    obtain ⟨run, hrun, move⟩ := hmove run' hrun' hid
    obtain ⟨hmem, hkey⟩ := Table.get?_eq_some.mp hrun
    exact (h.balanced run hmem (hkey ▸ hid)).move move
  referenced := hreferenced
  known := hknown
  unnamed := hunnamed

/-- A new run is stored under a free id, so no row and no enqueue names it yet. -/
theorem Accounted.insertRun (h : Accounted runs work ever) (input : NewSyncRun)
    (free : runs.get? input.row.id = none) :
    Accounted (runs.insert input.row free) work ever where
  balanced run hrun hid := by
    rw [Table.rows_insert, List.mem_append, List.mem_singleton] at hrun
    rcases hrun with hrun | rfl
    · exact h.balanced run hrun hid
    · have hrow : ∀ row ∈ work.rows, row.runId ≠ some input.row.id := by
        intro row hmem heq
        have hsome := h.referenced row hmem input.row.id hid heq
        rw [free] at hsome
        cases hsome
      have hidle : ¬ Busy work input.row.id := by
        rintro ⟨row, hmem, heq, _⟩
        exact hrow row hmem heq
      refine RunLedger.Balanced.fresh rfl ?_ hidle ?_
      · refine List.countP_eq_zero.mpr fun row hmem => ?_
        simp [hrow row hmem]
      · intro hever
        have hsome := (h.known input.row.id hever).2
        rw [free] at hsome
        cases hsome
  referenced row hrow runId hid heq := by
    rw [Table.get?_insert]
    split
    · rfl
    · exact h.referenced row hrow runId hid heq
  known runId hever := by
    refine ⟨(h.known runId hever).1, ?_⟩
    rw [Table.get?_insert]
    split
    · rfl
    · exact (h.known runId hever).2
  unnamed run hrun hid := by
    rw [Table.rows_insert, List.mem_append, List.mem_singleton] at hrun
    rcases hrun with hrun | rfl
    · exact h.unnamed run hrun hid
    · rfl

/-- Rows and enqueue history that a step changes for no run, seen from the books. -/
theorem ledger_move_keep {work' : Table SyncWorkRecord.id} {ever' : List String}
    {run run' : SyncRun} (hid : run'.id = run.id) (status : run'.status = run.status)
    (total : run'.totalWork = run.totalWork)
    (settled : run'.completedWork + run'.failedWork = run.completedWork + run.failedWork)
    (rows : openRows work' run.id = openRows work run.id)
    (busy : Busy work' run.id → Busy work run.id) (enqueued : run.id ∈ ever' → run.id ∈ ever) :
    RunLedger.Move (ledger work ever run) (ledger work' ever' run') := by
  refine .keep status total settled ?_ ?_ ?_
  · simp only [ledger, hid, rows]
  · simp only [ledger, hid]
    exact busy
  · simp only [ledger, hid]
    exact enqueued

/-- One run row rewritten, by a move on its own books. -/
theorem Accounted.updateRun (h : Accounted runs work ever) (id : String)
    {f : SyncRun → SyncRun} (hf : ∀ run, (f run).id = run.id)
    (hmove : ∀ run, runs.get? id = some run → id ≠ "" →
      RunLedger.Move (ledger work ever run) (ledger work ever (f run)))
    (hsettled : ∀ run, (f run).completedWork + (f run).failedWork =
      run.completedWork + run.failedWork) :
    Accounted (runs.update id f hf) work ever := by
  have hsome : ∀ runId, (runs.get? runId).isSome →
      ((runs.update id f hf).get? runId).isSome := by
    intro runId hrun
    rw [Table.get?_update]
    split
    · simpa using hrun
    · exact hrun
  refine h.step ?_ ?_ ?_ ?_
  · intro run' hrun' hid
    rcases Table.mem_update hrun' with ⟨hmem, _⟩ | ⟨run, hmem, hkey, rfl⟩
    · exact ⟨run', Table.get?_key hmem,
        ledger_move_keep rfl rfl rfl rfl rfl (fun hb => hb) (fun he => he)⟩
    · rw [hf] at hid ⊢
      refine ⟨run, Table.get?_key hmem, hmove run ?_ (hkey ▸ hid)⟩
      exact Table.get?_eq_some.mpr ⟨hmem, hkey⟩
  · intro row hrow runId hid heq
    exact hsome runId (h.referenced row hrow runId hid heq)
  · intro runId hever
    exact ⟨(h.known runId hever).1, hsome runId (h.known runId hever).2⟩
  · intro run' hrun' hid
    rcases Table.mem_update hrun' with ⟨hmem, _⟩ | ⟨run, hmem, _, rfl⟩
    · exact h.unnamed run' hmem hid
    · rw [hsettled]
      rw [hf] at hid
      exact h.unnamed run hmem hid

/-- A step on the rows alone that no run can tell: every row keeps its run, open
rows stay as many, and nothing new runs. -/
theorem Accounted.workStep (h : Accounted runs work ever) {work' : Table SyncWorkRecord.id}
    (hrows : ∀ runId, runId ≠ "" → openRows work' runId = openRows work runId)
    (hbusy : ∀ runId, Busy work' runId → Busy work runId)
    (hreferenced : ∀ row ∈ work'.rows, ∀ runId, runId ≠ "" → row.runId = some runId →
      (runs.get? runId).isSome) :
    Accounted runs work' ever := by
  refine h.step ?_ hreferenced h.known h.unnamed
  intro run hrun hid
  exact ⟨run, Table.get?_key hrun,
    ledger_move_keep rfl rfl rfl rfl (hrows run.id hid) (hbusy run.id) fun he => he⟩

/-- Cancelling or waking unassigned rows touches the books of no run. -/
theorem Accounted.updateUnassigned (h : Accounted runs work ever)
    {p : SyncWorkRecord → Bool} {f : SyncWorkRecord → SyncWorkRecord}
    (hf : ∀ row, (f row).id = row.id) (hrun : ∀ row, (f row).runId = row.runId)
    (hp : ∀ row, p row = true → row.assigned = false)
    (hstart : ∀ row, p row = true → (f row).status ≠ .running) :
    Accounted runs (work.updateWhere p f hf) ever := by
  have hapart : ∀ row runId, runId ≠ "" → p row = true → row.runId ≠ some runId := by
    intro row runId hid hprow heq
    have hnone := hp row hprow
    simp [SyncWorkRecord.assigned, heq, present, hid] at hnone
  refine h.workStep ?_ ?_ ?_
  · intro runId hid
    refine openRows_updateWhere hf fun row _ hprow => ?_
    simp [hrun, hapart row runId hid hprow]
  · intro runId
    exact Busy.of_keepsRunning (KeepsRunning.updateWhere work hf fun row _ => hstart row)
  · intro row hrow runId hid heq
    obtain ⟨before, hmem, rfl⟩ := List.mem_map.mp hrow
    refine h.referenced before hmem runId hid ?_
    split at heq
    · rw [hrun] at heq
      exact heq
    · exact heq

/-- A cancelled run keeps its counters and loses its open rows. -/
theorem Accounted.cancelRun (h : Accounted runs work ever) (id : String) (now : Instant)
    {f : SyncRun → SyncRun} (hf : ∀ run, (f run).id = run.id)
    (hstatus : ∀ run, runs.get? id = some run → (f run).status = .cancelled)
    (htotal : ∀ run, (f run).totalWork = run.totalWork)
    (hsettled : ∀ run, (f run).completedWork + (f run).failedWork =
      run.completedWork + run.failedWork) :
    Accounted (runs.update id f hf)
      (work.updateWhere (fun row => row.runId = some id && row.isOpen)
        (SyncWorkRecord.cancel now) (SyncWorkRecord.cancel_id now)) ever := by
  have hsome : ∀ runId, (runs.get? runId).isSome →
      ((runs.update id f hf).get? runId).isSome := by
    intro runId hrun
    rw [Table.get?_update]
    split
    · simpa using hrun
    · exact hrun
  have hbusy : ∀ runId, Busy (work.updateWhere (fun row => row.runId = some id && row.isOpen)
      (SyncWorkRecord.cancel now) (SyncWorkRecord.cancel_id now)) runId → Busy work runId :=
    fun runId => Busy.of_keepsRunning (KeepsRunning.cancelWhere work now)
  refine h.step ?_ ?_ ?_ ?_
  · intro run' hrun' hid
    rcases Table.mem_update hrun' with ⟨hmem, hne⟩ | ⟨run, hmem, hkey, rfl⟩
    · refine ⟨run', Table.get?_key hmem,
        ledger_move_keep rfl rfl rfl rfl ?_ (hbusy run'.id) (fun he => he)⟩
      refine openRows_updateWhere _ fun row _ hrow => ?_
      simp only [Bool.and_eq_true, decide_eq_true_eq] at hrow
      have hapart : id ≠ run'.id := fun heq => hne heq.symm
      simp [SyncWorkRecord.cancel, hrow.1, hapart]
    · refine ⟨run, by rw [hf]; exact Table.get?_key hmem, .cancel ?_ (htotal run)
        (hsettled run) ?_⟩
      · exact hstatus run (Table.get?_eq_some.mpr ⟨hmem, hkey⟩)
      · simp only [ledger, hf, hkey]
        rintro ⟨row, hrow, hrun, hrunning⟩
        obtain ⟨before, _, rfl⟩ := List.mem_map.mp hrow
        split at hrunning
        · cases hrunning
        · next hnot =>
          simp only [hnot] at hrun
          apply hnot
          simp [SyncWorkRecord.isOpen, hrunning] at hrun ⊢
          exact hrun
  · intro row hrow runId hid heq
    obtain ⟨before, hmem, rfl⟩ := List.mem_map.mp hrow
    refine hsome runId (h.referenced before hmem runId hid ?_)
    split at heq <;> exact heq
  · intro runId hever
    exact ⟨(h.known runId hever).1, hsome runId (h.known runId hever).2⟩
  · intro run' hrun' hid
    rcases Table.mem_update hrun' with ⟨hmem, _⟩ | ⟨run, hmem, _, rfl⟩
    · exact h.unnamed run' hmem hid
    · rw [hsettled]
      rw [hf] at hid
      exact h.unnamed run hmem hid

/-! ## Enqueues -/

/-- The run an enqueue names, if the store has it. -/
def namedRuns (runs : Table SyncRun.id) (input : EnqueueSyncWork) : List String :=
  (present input.runId).toList.filter fun runId => (runs.get? runId).isSome

theorem mem_namedRuns {input : EnqueueSyncWork} {runId : String} :
    runId ∈ namedRuns runs input ↔
      present input.runId = some runId ∧ (runs.get? runId).isSome = true := by
  simp [namedRuns, Option.mem_toList]

/-- What an enqueue that finds `row` owes an unfinished run, given the run the row
belongs to afterwards. A row that was not already an open row of the run needs room
in its counters; a claimable run that loses the row keeps another open one; a
claimable run that is named without getting the row has one. -/
structure RunFits (work : Table SyncWorkRecord.id) (input : EnqueueSyncWork)
    (row : SyncWorkRecord) (runIdAfter : Option String) (run : SyncRun) : Prop where
  gains : runIdAfter = some run.id →
    (row.isOpen = true ∧ row.runId = some run.id) ∨
      run.completedWork + run.failedWork + openRows work run.id < run.totalWork
  loses : syncRunIsClaimable run.status = true → row.isOpen = true →
    row.runId = some run.id → runIdAfter ≠ some run.id → 1 < openRows work run.id
  named : syncRunIsClaimable run.status = true → present input.runId = some run.id →
    runIdAfter ≠ some run.id → 0 < openRows work run.id

instance (work : Table SyncWorkRecord.id) (input : EnqueueSyncWork) (row : SyncWorkRecord)
    (runIdAfter : Option String) (run : SyncRun) :
    Decidable (RunFits work input row runIdAfter run) :=
  decidable_of_iff
    ((runIdAfter = some run.id →
      (row.isOpen = true ∧ row.runId = some run.id) ∨
        run.completedWork + run.failedWork + openRows work run.id < run.totalWork) ∧
    (syncRunIsClaimable run.status = true → row.isOpen = true →
      row.runId = some run.id → runIdAfter ≠ some run.id → 1 < openRows work run.id) ∧
    (syncRunIsClaimable run.status = true → present input.runId = some run.id →
      runIdAfter ≠ some run.id → 0 < openRows work run.id))
    ⟨fun h => ⟨h.1, h.2.1, h.2.2⟩, fun h => ⟨h.gains, h.loses, h.named⟩⟩

def EnqueueFits (runs : Table SyncRun.id) (work : Table SyncWorkRecord.id)
    (input : EnqueueSyncWork) (row : SyncWorkRecord) (runIdAfter : Option String) : Prop :=
  ∀ run ∈ runs.rows, run.id ≠ "" → run.status.isActive = true →
    RunFits work input row runIdAfter run

instance (runs : Table SyncRun.id) (work : Table SyncWorkRecord.id)
    (input : EnqueueSyncWork) (row : SyncWorkRecord) (runIdAfter : Option String) :
    Decidable (EnqueueFits runs work input row runIdAfter) :=
  inferInstanceAs (Decidable (∀ run ∈ runs.rows, run.id ≠ "" → run.status.isActive = true →
    RunFits work input row runIdAfter run))

theorem openRows_pos_of_row {id : String} {row : SyncWorkRecord} {runId : String}
    (hrow : work.get? id = some row) (hopen : row.isOpen = true)
    (hrun : row.runId = some runId) : 0 < openRows work runId :=
  openRows_pos_iff.mpr ⟨row, (Table.get?_eq_some.mp hrow).1, hrun, hopen⟩

theorem known_append_named (h : Accounted runs work ever) (input : EnqueueSyncWork) :
    ∀ runId ∈ ever ++ namedRuns runs input, runId ≠ "" ∧ (runs.get? runId).isSome := by
  intro runId hmem
  rcases List.mem_append.mp hmem with hever | hnamed
  · exact h.known runId hever
  · obtain ⟨hpresent, hsome⟩ := mem_namedRuns.mp hnamed
    exact ⟨(present_some.mp hpresent).2, hsome⟩

/-- An enqueue that finds its row running changes nothing but the history. -/
theorem Accounted.enqueueRunning (h : Accounted runs work ever) (input : EnqueueSyncWork)
    {id : String} {row : SyncWorkRecord} (hrow : work.get? id = some row)
    (hstatus : row.status = .running) (hfits : EnqueueFits runs work input row row.runId) :
    Accounted runs work (ever ++ namedRuns runs input) := by
  refine h.step ?_ h.referenced (known_append_named h input) h.unnamed
  intro run hrun hid
  refine ⟨run, Table.get?_key hrun, .enqueue rfl le_rfl rfl (fun hb => hb) ?_ ?_⟩
  · exact (h.balanced run hrun hid).owed
  · intro hclaimable hever
    have hfit := hfits run hrun hid (isActive_of_claimable hclaimable)
    rcases List.mem_append.mp hever with hever | hnamed
    · exact (h.balanced run hrun hid).unstuck hclaimable hever
    · by_cases hmine : row.runId = some run.id
      · exact openRows_pos_of_row hrow (by simp [SyncWorkRecord.isOpen, hstatus]) hmine
      · exact hfit.named hclaimable (mem_namedRuns.mp hnamed).1 hmine

/-- An enqueue that re-pends its row. -/
theorem Accounted.rePend (h : Accounted runs work ever) (input : EnqueueSyncWork)
    {id : String} {row : SyncWorkRecord} (hrow : work.get? id = some row)
    {f : SyncWorkRecord → SyncWorkRecord} (hf : ∀ row, (f row).id = row.id)
    (hpending : ∀ row, (f row).status = .pending)
    (hreferenced : ∀ runId, runId ≠ "" → (f row).runId = some runId →
      (runs.get? runId).isSome)
    (hfits : EnqueueFits runs work input row (f row).runId) :
    Accounted runs (work.update id f hf) (ever ++ namedRuns runs input) := by
  have hbusy : ∀ runId, Busy (work.update id f hf) runId → Busy work runId :=
    fun runId => Busy.of_keepsRunning (KeepsRunning.update work hf (by simp [hpending]))
  refine h.step ?_ ?_ (known_append_named h input) h.unnamed
  · intro run hrun hid
    have hbooks := h.balanced run hrun hid
    have hcount := openRows_update hf hrow run.id
    have hopen : (f row).isOpen = true := by simp [SyncWorkRecord.isOpen, hpending]
    simp only [hopen, and_true] at hcount
    refine ⟨run, Table.get?_key hrun, .enqueue rfl le_rfl rfl (hbusy run.id) ?_ ?_⟩
    · intro hactive
      have howed := hbooks.owed hactive
      have hfit := (hfits run hrun hid hactive).gains
      simp only [ledger, RunLedger.settled] at howed ⊢
      by_cases hafter : (f row).runId = some run.id
      · rw [if_pos hafter] at hcount
        rcases hfit hafter with hbefore | hroom
        · rw [if_pos ⟨hbefore.2, hbefore.1⟩] at hcount
          omega
        · omega
      · rw [if_neg hafter] at hcount
        omega
    · intro hclaimable hever
      have hfit := hfits run hrun hid (isActive_of_claimable hclaimable)
      simp only [ledger]
      by_cases hbefore : row.runId = some run.id ∧ row.isOpen = true
      · have hpos := openRows_pos_of_row hrow hbefore.2 hbefore.1
        rw [if_pos hbefore] at hcount
        by_cases hafter : (f row).runId = some run.id
        · rw [if_pos hafter] at hcount
          omega
        · have hmore := hfit.loses hclaimable hbefore.2 hbefore.1 hafter
          omega
      · rw [if_neg hbefore] at hcount
        by_cases hafter : (f row).runId = some run.id
        · rw [if_pos hafter] at hcount
          omega
        · rw [if_neg hafter] at hcount
          rcases List.mem_append.mp hever with hever | hnamed
          · have hpos := hbooks.unstuck hclaimable hever
            simp only [ledger] at hpos
            omega
          · have hpos := hfit.named hclaimable (mem_namedRuns.mp hnamed).1 hafter
            omega
  · intro after hafter runId hid heq
    rcases Table.mem_update hafter with ⟨hmem, _⟩ | ⟨before, hmem, hkey, rfl⟩
    · exact h.referenced after hmem runId hid heq
    · have hsame : before = row := by
        rw [← Option.some.injEq, ← hrow, ← hkey]
        exact (Table.get?_key hmem).symm
      exact hreferenced runId hid (hsame ▸ heq)

/-- An enqueue that inserts a row counts it in the total of the run it names. -/
theorem Accounted.insertWork (h : Accounted runs work ever) (input : EnqueueSyncWork)
    (free : work.get? input.row.id = none)
    (hreferenced : ∀ runId, runId ≠ "" → input.runId = some runId →
      (runs.get? runId).isSome) :
    Accounted
      (match present input.runId with
        | some runId => runs.update runId (Sqlite.bumpRun input.now)
            (Sqlite.bumpRun_id input.now)
        | none => runs)
      (work.insert input.row free) (ever ++ namedRuns runs input) := by
  have hbusy : ∀ runId, Busy (work.insert input.row free) runId → Busy work runId :=
    fun runId => Busy.of_keepsRunning
      (KeepsRunning.insert work free (by simp [EnqueueSyncWork.row]))
  have hcount : ∀ runId, openRows (work.insert input.row free) runId =
      openRows work runId + if input.runId = some runId then 1 else 0 := by
    intro runId
    simp only [openRows, Table.countP_insert, EnqueueSyncWork.row, SyncWorkRecord.isOpen,
      decide_true, Bool.true_or, Bool.and_true, decide_eq_true_eq]
  have hrows : ∀ row ∈ (work.insert input.row free).rows, ∀ runId, runId ≠ "" →
      row.runId = some runId → (runs.get? runId).isSome := by
    intro row hrow runId hid heq
    rw [Table.rows_insert, List.mem_append, List.mem_singleton] at hrow
    rcases hrow with hrow | rfl
    · exact h.referenced row hrow runId hid heq
    · exact hreferenced runId hid heq
  cases hpresent : present input.runId with
  | none =>
    have hnone : ∀ runId, runId ≠ "" → input.runId ≠ some runId := by
      intro runId hid heq
      rw [present_eq_none] at hpresent
      rcases hpresent with hempty | hempty <;> rw [hempty] at heq <;> simp_all
    have hnamed : namedRuns runs input = [] := by simp [namedRuns, hpresent]
    rw [hnamed, List.append_nil]
    refine h.step ?_ hrows h.known h.unnamed
    intro run hrun hid
    refine ⟨run, Table.get?_key hrun,
      ledger_move_keep rfl rfl rfl rfl ?_ (hbusy run.id) fun he => he⟩
    rw [hcount, if_neg (hnone run.id hid), Nat.add_zero]
  | some named =>
    obtain ⟨hinput, hne⟩ := present_some.mp hpresent
    have hsome : ∀ runId, (runs.get? runId).isSome →
        ((runs.update named (Sqlite.bumpRun input.now)
          (Sqlite.bumpRun_id input.now)).get? runId).isSome := by
      intro runId hrun
      rw [Table.get?_update]
      split
      · simpa using hrun
      · exact hrun
    refine h.step ?_ ?_ ?_ ?_
    · intro run' hrun' hid
      rcases Table.mem_update hrun' with ⟨hmem, hother⟩ | ⟨run, hmem, hkey, rfl⟩
      · have hapart : input.runId ≠ some run'.id := by
          rw [hinput]
          exact fun heq => hother (Option.some.inj heq).symm
        refine ⟨run', Table.get?_key hmem, ledger_move_keep rfl rfl rfl rfl ?_
          (hbusy run'.id) ?_⟩
        · rw [hcount, if_neg hapart, Nat.add_zero]
        · intro hever
          rcases List.mem_append.mp hever with hever | hnamed
          · exact hever
          · rw [(mem_namedRuns.mp hnamed).1] at hpresent
            exact absurd (Option.some.inj hpresent) hother
      · rw [Sqlite.bumpRun_id] at hid ⊢
        have hbooks := h.balanced run hmem hid
        have hmine : input.runId = some run.id := by rw [hinput, hkey]
        refine ⟨run, Table.get?_key hmem, .enqueue rfl (Nat.le_succ _) rfl ?_ ?_ ?_⟩
        · exact hbusy run.id
        · intro hactive
          have howed := hbooks.owed hactive
          simp only [ledger, RunLedger.settled, Sqlite.bumpRun_id, hcount, if_pos hmine]
            at howed ⊢
          simp only [Sqlite.bumpRun]
          omega
        · intro _ _
          simp only [ledger, Sqlite.bumpRun_id, hcount, if_pos hmine]
          omega
    · intro row hrow runId hid heq
      exact hsome runId (hrows row hrow runId hid heq)
    · intro runId hever
      obtain ⟨hid, hrun⟩ := known_append_named h input runId hever
      exact ⟨hid, hsome runId hrun⟩
    · intro run' hrun' hid
      rcases Table.mem_update hrun' with ⟨hmem, _⟩ | ⟨run, hmem, _, rfl⟩
      · exact h.unnamed run' hmem hid
      · exact h.unnamed run hmem hid

/-! ## Claims, renewals and settlements -/

/-- A claim starts open rows of claimable runs, and starts those runs. -/
theorem Accounted.claim (h : Accounted runs work ever) (ids : List String) (owner : String)
    (now leaseExpiresAt : Instant) (p : SyncRun → Bool)
    (hqueued : ∀ run, p run = true → run.status = .queued)
    (hclaim : ∀ row ∈ work.rows, row.id ∈ ids → row.isOpen = true ∧
      ∀ run ∈ runs.rows, run.id ≠ "" → row.runId = some run.id →
        syncRunIsClaimable run.status = true) :
    Accounted (runs.updateWhere p (Sqlite.startRun now) (Sqlite.startRun_id now))
      (work.updateWhere (fun row => ids.contains row.id)
        (SyncWorkRecord.claim owner now leaseExpiresAt)
        (SyncWorkRecord.claim_id owner now leaseExpiresAt)) ever := by
  have hsome : ∀ runId, (runs.get? runId).isSome →
      ((runs.updateWhere p (Sqlite.startRun now) (Sqlite.startRun_id now)).get?
        runId).isSome := by
    intro runId hrun
    rw [Table.get?_updateWhere]
    simpa using hrun
  have hrows : ∀ runId, openRows (work.updateWhere (fun row => ids.contains row.id)
      (SyncWorkRecord.claim owner now leaseExpiresAt)
      (SyncWorkRecord.claim_id owner now leaseExpiresAt)) runId = openRows work runId := by
    intro runId
    refine openRows_updateWhere _ fun row hrow hid => ?_
    have hopen := (hclaim row hrow (by simpa using hid)).1
    simp only [SyncWorkRecord.claim, hopen, and_true]
    simp [SyncWorkRecord.isOpen]
  refine h.step ?_ ?_ ?_ ?_
  · intro run' hrun' hid
    obtain ⟨run, hrun, rfl⟩ := List.mem_map.mp hrun'
    have hkey : (if p run = true then Sqlite.startRun now run else run).id = run.id := by
      split <;> rfl
    rw [hkey] at hid ⊢
    refine ⟨run, Table.get?_key hrun, .claim ?_ ?_ ?_ ?_ ?_ ?_⟩
    · simp only [ledger]
      split
      · next hp => exact Or.inr ⟨by simp [syncRunIsClaimable, hqueued run hp], rfl⟩
      · exact Or.inl rfl
    · simp only [ledger]
      split <;> rfl
    · simp only [ledger, RunLedger.settled]
      split <;> rfl
    · simp only [ledger, hkey, hrows]
    · simp only [ledger, hkey]
      rintro ⟨row, hrow, hmine, hrunning⟩
      obtain ⟨before, hbefore, rfl⟩ := List.mem_map.mp hrow
      split at hmine
      · next hclaimed =>
        exact Or.inr ((hclaim before hbefore (by simpa using hclaimed)).2 run hrun hid hmine)
      · next hsame =>
        simp only [hsame, if_false, Bool.false_eq_true] at hrunning
        exact Or.inl ⟨before, hbefore, hmine, hrunning⟩
    · simp only [ledger, hkey]
      exact fun he => he
  · intro row hrow runId hid heq
    obtain ⟨before, hmem, rfl⟩ := List.mem_map.mp hrow
    refine hsome runId (h.referenced before hmem runId hid ?_)
    split at heq <;> exact heq
  · intro runId hever
    exact ⟨(h.known runId hever).1, hsome runId (h.known runId hever).2⟩
  · intro run' hrun' hid
    obtain ⟨run, hrun, rfl⟩ := List.mem_map.mp hrun'
    split at hid <;> split <;> exact h.unnamed run hrun hid

theorem Accounted.renew (h : Accounted runs work ever) (id : String)
    (now leaseExpiresAt : Instant) :
    Accounted runs (work.update id (SyncWorkRecord.renew now leaseExpiresAt)
      (SyncWorkRecord.renew_id now leaseExpiresAt)) ever := by
  refine h.workStep ?_ ?_ ?_
  · intro runId _
    exact openRows_updateWhere _ fun row _ _ => Iff.rfl
  · rintro runId ⟨row, hrow, hmine, hrunning⟩
    rcases Table.mem_update hrow with ⟨hmem, _⟩ | ⟨before, hmem, _, rfl⟩
    · exact ⟨row, hmem, hmine, hrunning⟩
    · exact ⟨before, hmem, hmine, hrunning⟩
  · intro row hrow runId hid heq
    rcases Table.mem_update hrow with ⟨hmem, _⟩ | ⟨before, hmem, _, rfl⟩
    · exact h.referenced row hmem runId hid heq
    · exact h.referenced before hmem runId hid heq

/-- What a settle does to the run row of the settled work, in either store. -/
structure SettlesRun (remaining : Bool) (run run' : SyncRun) : Prop where
  id : run'.id = run.id
  total : run'.totalWork = run.totalWork
  settled : run'.completedWork + run'.failedWork ≤ run.completedWork + run.failedWork + 1
  open_ : remaining = true → run.status.isActive = true → run'.status.isActive = true
  done : remaining = false → run.status.isActive = true →
    syncRunIsClaimable run'.status = false

/-- A settle of a running row. Its run counts it, and finishes when no row is left. -/
theorem Accounted.settle (h : Accounted runs work ever) (input : SettleSyncWork)
    {row : SyncWorkRecord} (hrow : work.get? input.id = some row)
    (hstatus : row.status = .running) {runs' : Table SyncRun.id}
    {settleRun : Bool → SyncRun → SyncRun}
    (hsettle : ∀ remaining run, SettlesRun remaining run (settleRun remaining run))
    (hruns : ∀ runId, runs'.get? runId = (runs.get? runId).map fun run =>
      if input.outcome ≠ .retry ∧ present row.runId = some runId then
        settleRun (Sqlite.hasOpenWork (work.update input.id (SyncWorkRecord.settle input)
          (SyncWorkRecord.settle_id input)) runId) run
      else run) :
    Accounted runs' (work.update input.id (SyncWorkRecord.settle input)
      (SyncWorkRecord.settle_id input)) ever := by
  have hsome : ∀ runId, (runs.get? runId).isSome → (runs'.get? runId).isSome := by
    intro runId hrun
    rw [hruns]
    simpa using hrun
  have hcases : ∀ run' ∈ runs'.rows, ∃ run, runs.get? run'.id = some run ∧
      (run' = run ∧ (input.outcome = .retry ∨ present row.runId ≠ some run.id) ∨
        input.outcome ≠ .retry ∧ present row.runId = some run.id ∧
          SettlesRun (Sqlite.hasOpenWork (work.update input.id (SyncWorkRecord.settle input)
            (SyncWorkRecord.settle_id input)) run.id) run run') := by
    intro run' hrun'
    have hget := Table.get?_key hrun'
    rw [hruns] at hget
    obtain ⟨run, hrun, hrest⟩ := Option.map_eq_some_iff.mp hget
    have hid := (Table.get?_eq_some.mp hrun).2
    refine ⟨run, hrun, ?_⟩
    rw [← hid] at hrest
    split at hrest
    · next hmine =>
      rw [← hrest]
      exact Or.inr ⟨hmine.1, hmine.2, hsettle _ run⟩
    · next hother =>
      refine Or.inl ⟨hrest.symm, ?_⟩
      by_cases hretry : input.outcome = .retry
      · exact Or.inl hretry
      · exact Or.inr fun hpresent => hother ⟨hretry, hpresent⟩
  have hopen : row.isOpen = true := by simp [SyncWorkRecord.isOpen, hstatus]
  have hbusy : ∀ runId, Busy (work.update input.id (SyncWorkRecord.settle input)
      (SyncWorkRecord.settle_id input)) runId → Busy work runId :=
    fun runId => Busy.of_keepsRunning (KeepsRunning.update work _ fun w => by
      cases houtcome : input.outcome <;>
        simp [SyncWorkRecord.settle, SyncWorkOutcome.status, houtcome])
  have hrunId : (row.settle input).runId = row.runId := rfl
  refine h.step ?_ ?_ ?_ ?_
  · intro run' hrun' hid
    obtain ⟨run, hrun, hsplit⟩ := hcases run' hrun'
    obtain ⟨hmem, hkey⟩ := Table.get?_eq_some.mp hrun
    refine ⟨run, hrun, ?_⟩
    have hcount := openRows_update (SyncWorkRecord.settle_id input) hrow run.id
    rw [hrunId] at hcount
    simp only [hopen, and_true] at hcount
    rcases hsplit with ⟨rfl, hwhy⟩ | ⟨hfinal, hmine, hsettles⟩
    · refine ledger_move_keep rfl rfl rfl rfl ?_ (hbusy run'.id) fun he => he
      rcases hwhy with hretry | hother
      · have hstill : (row.settle input).isOpen = true := by
          simp [SyncWorkRecord.settle, SyncWorkOutcome.status, SyncWorkRecord.isOpen, hretry]
        simp only [hstill, and_true] at hcount
        omega
      · have hapart : row.runId ≠ some run'.id := by
          intro heq
          exact hother (present_some.mpr ⟨heq, hid⟩)
        simp only [hapart, false_and, if_false] at hcount
        omega
    · have hmineRaw := (present_some.mp hmine).1
      have hclosed : (row.settle input).isOpen = false := by
        cases houtcome : input.outcome <;>
          simp_all [SyncWorkRecord.settle, SyncWorkOutcome.status, SyncWorkRecord.isOpen]
      simp only [hmineRaw, hclosed, if_true, Bool.false_eq_true, and_false, if_false]
        at hcount
      have hbusyRun : Busy work run.id :=
        ⟨row, (Table.get?_eq_some.mp hrow).1, hmineRaw, hstatus⟩
      have hactive := (h.balanced run hmem (hkey ▸ hid)).live hbusyRun
      refine .settle hactive hsettles.total ?_ ?_ ?_
      · have hbound := hsettles.settled
        simp only [ledger, RunLedger.settled, hsettles.id]
        omega
      · intro hstill
        simp only [ledger, hsettles.id] at hstill
        exact hsettles.open_ (hasOpenWork_iff.mpr hstill.openRows_pos) hactive
      · intro hclaimable
        simp only [ledger, hsettles.id] at hclaimable ⊢
        rw [← hasOpenWork_iff]
        cases hremaining : Sqlite.hasOpenWork (work.update input.id
            (SyncWorkRecord.settle input) (SyncWorkRecord.settle_id input)) run.id with
        | true => rfl
        | false =>
          rw [hsettles.done hremaining hactive] at hclaimable
          exact hclaimable
  · intro after hafter runId hid heq
    rcases Table.mem_update hafter with ⟨hmem, _⟩ | ⟨before, hmem, _, rfl⟩
    · exact hsome runId (h.referenced after hmem runId hid heq)
    · exact hsome runId (h.referenced before hmem runId hid heq)
  · intro runId hever
    exact ⟨(h.known runId hever).1, hsome runId (h.known runId hever).2⟩
  · intro run' hrun' hid
    obtain ⟨run, hrun, hsplit⟩ := hcases run' hrun'
    obtain ⟨hmem, hkey⟩ := Table.get?_eq_some.mp hrun
    rcases hsplit with ⟨rfl, _⟩ | ⟨_, hmine, _⟩
    · exact h.unnamed run' hmem hid
    · exact absurd (hkey.trans hid) (present_some.mp hmine).2

/-! ## What the books promise -/

/-- What the accounting of sync runs promises of a store state. `ever` are the runs
for which work was ever enqueued. -/
structure RunsAccounted (db : SyncTables) (ever : List String) : Prop where
  counted : ∀ run ∈ db.runs.rows, run.completedWork + run.failedWork ≤ run.totalWork
  unstuck : ∀ run ∈ db.runs.rows, syncRunIsClaimable run.status = true → run.id ∈ ever →
    ∃ row ∈ db.work.rows, row.runId = some run.id ∧ row.isOpen = true

theorem Accounted.runsAccounted {db : SyncTables} {ever : List String}
    (h : Accounted db.runs db.work ever) : RunsAccounted db ever where
  counted run hrun := by
    by_cases hid : run.id = ""
    · have hnothing := h.unnamed run hrun hid
      omega
    · exact (h.balanced run hrun hid).counted
  unstuck run hrun hclaimable hever := by
    have hid := (h.known run.id hever).1
    exact openRows_pos_iff.mp ((h.balanced run hrun hid).unstuck hclaimable hever)

/-- A paused run that work was enqueued for is resumed only with an open row left. -/
def ResumeFits (db : SyncTables) (ever : List String) (input : CommandSyncRun) : Prop :=
  input.command = .resume → input.id ∈ ever →
    (db.runs.get? input.id).any
      (fun run => run.orgId = input.orgId && run.status = .paused) = true →
    0 < openRows db.work input.id

instance (db : SyncTables) (ever : List String) (input : CommandSyncRun) :
    Decidable (ResumeFits db ever input) := by
  unfold ResumeFits
  infer_instance

theorem Accounted.empty : Accounted ∅ ∅ [] where
  balanced run hrun := by cases hrun
  referenced row hrow := by cases hrow
  known runId hever := by cases hever
  unnamed run hrun := by cases hrun

end Regenic.Sync
