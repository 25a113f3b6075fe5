import Regenic.Sync.Release

/-!
Planner rows and the primary key. A lookup goes by identity and an insert by the id that
the identity spells; the two agree as long as no row changes its lane and no two
identities spell the same id.
-/

namespace Regenic.Sync

open Lib

def SyncWorkKey.onLane (key : SyncWorkKey) (lane : SyncLane) : SyncWorkKey := { key with lane }

@[simp] theorem SyncWorkKey.onLane_installationId (key : SyncWorkKey) (lane : SyncLane) :
    (key.onLane lane).installationId = key.installationId := rfl

/-- A planner row for the identity. -/
def SyncWorkKey.plannedRow (key : SyncWorkKey) : EnqueueSyncWork where
  id := key.dueId
  installationId := key.installationId
  streamKey := key.streamKey
  lane := key.lane
  nextDueAt := 0
  generation := key.generation
  now := 0

theorem SyncWorkKey.plannedRow_planned (key : SyncWorkKey) : key.plannedRow.Planned := ⟨rfl, rfl⟩

@[simp] theorem SyncWorkKey.plannedRow_uniqueKey (key : SyncWorkKey) :
    key.plannedRow.uniqueKey = key := rfl

theorem EnqueueSyncWork.names_iff {input : EnqueueSyncWork} {row : SyncWorkRecord} :
    input.names row = true ↔ row.uniqueKey = input.uniqueKey := by
  simp [EnqueueSyncWork.names, SyncWorkRecord.uniqueKey, EnqueueSyncWork.uniqueKey, and_assoc]

namespace Sqlite

/-- A planner row of a stored installation. -/
def Enqueues (db : SyncTables) (input : EnqueueSyncWork) : Prop :=
  input.Planned ∧ referencesInstallation db input.installationId = true

/-- Whatever the planner enqueues next, no insert meets an id that another row has, and
no batch aborts. -/
structure NeverCollides (db : SyncTables) : Prop where
  free : ∀ input, Enqueues db input → findSyncWorkByIdentity db input = none →
    db.work.get? input.id = none
  batch : ∀ inputs : List EnqueueSyncWork, (∀ input ∈ inputs, Enqueues db input) →
    ∃ after, enqueueSyncWorkMany db inputs = .ok after

/-- Identities of stored installations that spell the same id are the same. -/
def PlainIds (db : SyncTables) : Prop :=
  ∀ key key' : SyncWorkKey, referencesInstallation db key.installationId = true →
    referencesInstallation db key'.installationId = true → key.dueId = key'.dueId → key = key'

/-- Every row is named by its identity, or was before it moved to the live lane. -/
def Named (db : SyncTables) : Prop :=
  ∀ id key, keyUnder db.work id = some key →
    referencesInstallation db key.installationId = true ∧
      (id = key.dueId ∨ key.lane = .live ∧ id = (key.onLane .interactive).dueId)

def OwnNames (db : SyncTables) : Prop :=
  ∀ id key, keyUnder db.work id = some key →
    referencesInstallation db key.installationId = true ∧ id = key.dueId

/-- A row on the live lane still has the id of its interactive lane. -/
def Moved (db : SyncTables) : Prop :=
  ∃ id key, keyUnder db.work id = some key ∧ key.lane = .live ∧
    id = (key.onLane .interactive).dueId

/-! ## The release -/

section Release

variable (db : SyncTables) (executors : List ExecutorRun) (input : ReleaseFinishedExecutorPolls)

theorem release_uniqueKey (row : SyncWorkRecord) :
    (release db input row).uniqueKey =
      if movesLane db row then row.uniqueKey.onLane .live else row.uniqueKey := by
  unfold release
  split <;> rfl

theorem keyUnder_release (id : String) :
    keyUnder (releaseFinishedExecutorPolls db executors input).1.work id =
      (db.work.get? id).map fun row =>
        if releasable executors input row ∧ movesLane db row then row.uniqueKey.onLane .live
        else row.uniqueKey := by
  unfold keyUnder releaseFinishedExecutorPolls
  rw [Table.get?_updateWhere, Option.map_map]
  congr 1
  funext row
  simp only [Function.comp_apply]
  cases releasable executors input row with
  | true => simp only [if_true, release_uniqueKey, true_and]
  | false => simp

theorem movesLane_interactive {row : SyncWorkRecord} (h : movesLane db row = true) :
    row.lane = .interactive := by
  simp only [movesLane, Bool.and_eq_true, decide_eq_true_eq] at h
  exact h.1

/-- Only interactive rows change their identity. -/
theorem keyUnder_release_kept {id : String} {key : SyncWorkKey}
    (hkey : keyUnder db.work id = some key) (hlane : key.lane ≠ .interactive) :
    keyUnder (releaseFinishedExecutorPolls db executors input).1.work id = some key := by
  obtain ⟨row, hrow, rfl⟩ := Option.map_eq_some_iff.mp hkey
  rw [keyUnder_release, hrow, Option.map_some, if_neg]
  rintro ⟨_, hmoves⟩
  exact hlane (movesLane_interactive db hmoves)

theorem keyUnder_release_some {id : String} {key : SyncWorkKey}
    (hkey : keyUnder (releaseFinishedExecutorPolls db executors input).1.work id = some key) :
    keyUnder db.work id = some key ∨
      key.lane = .live ∧ keyUnder db.work id = some (key.onLane .interactive) := by
  rw [keyUnder_release] at hkey
  obtain ⟨row, hrow, hcase⟩ := Option.map_eq_some_iff.mp hkey
  have hbefore : keyUnder db.work id = some row.uniqueKey := by
    rw [keyUnder, hrow]
    rfl
  split at hcase
  · next hmoves =>
    right
    subst hcase
    have hlane : row.uniqueKey.lane = .interactive := movesLane_interactive db hmoves.2
    refine ⟨rfl, ?_⟩
    rw [hbefore, ← hlane]
    rfl
  · left
    rw [hbefore, hcase]

theorem keyUnder_release_of_not_moves
    (h : ¬ MovesRow db (.releaseFinishedExecutorPolls executors input)) (id : String) :
    keyUnder (releaseFinishedExecutorPolls db executors input).1.work id =
      keyUnder db.work id := by
  rw [keyUnder_release, keyUnder]
  cases hrow : db.work.get? id with
  | none => rfl
  | some row =>
    rw [Option.map_some, Option.map_some, if_neg]
    intro hmoves
    exact h ⟨row, (Table.get?_eq_some.mp hrow).1, hmoves⟩

end Release

/-! ## Invariants of the queue -/

section Invariants

variable {db after : SyncTables}

theorem referencesInstallation_congr (h : after.installations = db.installations)
    (installationId : String) :
    referencesInstallation after installationId = referencesInstallation db installationId := by
  unfold referencesInstallation
  rw [h]

theorem NamesRows.named (h : NamesRows db after) (hnamed : Named db) : Named after := by
  intro id key hkey
  rw [referencesInstallation_congr h.installations]
  rcases h.added id key hkey with hold | ⟨hid, hregistered⟩
  · exact hnamed id key hold
  · exact ⟨hregistered, Or.inl hid⟩

theorem NamesRows.ownNames (h : NamesRows db after) (hown : OwnNames db) : OwnNames after := by
  intro id key hkey
  rw [referencesInstallation_congr h.installations]
  rcases h.added id key hkey with hold | ⟨hid, hregistered⟩
  · exact hown id key hold
  · exact ⟨hregistered, hid⟩

theorem queueStep_installations (db : SyncTables) (op : QueueOp) :
    (queueStep db op).installations = db.installations := by
  cases op with
  | call planned => exact (step_namesRows db planned).installations
  | releaseFinishedExecutorPolls executors input => rfl

theorem queueStep_named (db : SyncTables) (op : QueueOp) (hnamed : Named db) :
    Named (queueStep db op) := by
  cases op with
  | call planned => exact (step_namesRows db planned).named hnamed
  | releaseFinishedExecutorPolls executors input =>
    intro id key hkey
    rcases keyUnder_release_some db executors input hkey with hold | ⟨hlive, hold⟩
    · exact hnamed id key hold
    · obtain ⟨hregistered, hid⟩ := hnamed id _ hold
      refine ⟨hregistered, Or.inr ⟨hlive, ?_⟩⟩
      rcases hid with hid | ⟨hlane, _⟩
      · exact hid
      · cases hlane

theorem queueStep_ownNames (db : SyncTables) (op : QueueOp) (hown : OwnNames db)
    (hstays : ¬ MovesRow db op) : OwnNames (queueStep db op) := by
  cases op with
  | call planned => exact (step_namesRows db planned).ownNames hown
  | releaseFinishedExecutorPolls executors input =>
    intro id key hkey
    have hold : keyUnder db.work id = some key := by
      rw [← keyUnder_release_of_not_moves db executors input hstays]
      exact hkey
    exact hown id key hold

/-- A moved row stays moved. -/
theorem queueStep_moved (db : SyncTables) (op : QueueOp) (hmoved : Moved db) :
    Moved (queueStep db op) := by
  obtain ⟨id, key, hkey, hlane, hid⟩ := hmoved
  refine ⟨id, key, ?_, hlane, hid⟩
  cases op with
  | call planned => exact (step_namesRows db planned).kept id key hkey
  | releaseFinishedExecutorPolls executors input =>
    exact keyUnder_release_kept db executors input hkey (by simp [hlane])

theorem queueStep_moves (db : SyncTables) (op : QueueOp) (hnamed : Named db)
    (hmoves : MovesRow db op) : Moved (queueStep db op) := by
  cases op with
  | call planned => cases hmoves
  | releaseFinishedExecutorPolls executors input =>
    obtain ⟨row, hrow, hboth⟩ := hmoves
    have hlane := movesLane_interactive db hboth.2
    have hafter : keyUnder (releaseFinishedExecutorPolls db executors input).1.work row.id =
        some (row.uniqueKey.onLane .live) := by
      rw [keyUnder_release, Table.get?_key hrow, Option.map_some, if_pos hboth]
    refine ⟨row.id, row.uniqueKey.onLane .live, hafter, rfl, ?_⟩
    have hinteractive : (row.uniqueKey.onLane .live).onLane .interactive = row.uniqueKey := by
      rw [← hlane]
      rfl
    rw [hinteractive]
    rcases (hnamed row.id row.uniqueKey (keyUnder_of_mem hrow)).2 with hid | ⟨hlive, _⟩
    · exact hid
    · have hlane' : row.lane = .live := hlive
      rw [hlane] at hlane'
      cases hlane'

/-- Either no release of the run moves a row, or the moved row is there in the end. -/
theorem run_stays_or_moved (db : SyncTables) (hnamed : Named db) (ops : List QueueOp) :
    Along queueStep (fun s op => ¬ MovesRow s op) db ops ∨ Moved (run queueStep db ops) := by
  induction ops generalizing db with
  | nil => exact Or.inl trivial
  | cons op rest ih =>
    by_cases hmoves : MovesRow db op
    · right
      exact run_invariant queueStep Moved queueStep_moved _
        (queueStep_moves db op hnamed hmoves) rest
    · rcases ih (queueStep db op) (queueStep_named db op hnamed) with hstays | hmoved
      · exact Or.inl ⟨hmoves, hstays⟩
      · exact Or.inr hmoved

end Invariants

/-! ## Collisions -/

section Collisions

variable {db after : SyncTables}

theorem findSyncWorkByIdentity_none {input : EnqueueSyncWork}
    (h : ∀ row ∈ db.work.rows, row.uniqueKey ≠ input.uniqueKey) :
    findSyncWorkByIdentity db input = none := by
  apply List.find?_eq_none.mpr
  intro row hrow hnames
  exact h row hrow (EnqueueSyncWork.names_iff.mp hnames)

/-- The interactive row of a moved row's identity is not found, and cannot be inserted. -/
theorem Moved.collides (hnamed : Named db) (hmoved : Moved db) : ¬ NeverCollides db := by
  rintro ⟨hfree, _⟩
  obtain ⟨id, key, hkey, hlane, hid⟩ := hmoved
  have hregistered := (hnamed id key hkey).1
  have hmissing : findSyncWorkByIdentity db (key.onLane .interactive).plannedRow = none := by
    apply findSyncWorkByIdentity_none
    intro row hrow hsame
    have hrowKey := keyUnder_of_mem hrow
    rw [hsame, SyncWorkKey.plannedRow_uniqueKey] at hrowKey
    rcases (hnamed row.id _ hrowKey).2 with hown | ⟨hlive, _⟩
    · rw [hown, ← hid, hkey] at hrowKey
      have hother := congrArg SyncWorkKey.lane (Option.some.inj hrowKey)
      rw [hlane] at hother
      cases hother
    · cases hlive
  have hnone := hfree (key.onLane .interactive).plannedRow
    ⟨SyncWorkKey.plannedRow_planned _, hregistered⟩ hmissing
  have htaken : keyUnder db.work (key.onLane .interactive).plannedRow.id = some key := by
    have hsame : (key.onLane .interactive).plannedRow.id = id := hid.symm
    rw [hsame]
    exact hkey
  rw [keyUnder, hnone] at htaken
  cases htaken

theorem OwnNames.free (hown : OwnNames db) (hplain : PlainIds db) {input : EnqueueSyncWork}
    (henqueues : Enqueues db input) (hmissing : findSyncWorkByIdentity db input = none) :
    db.work.get? input.id = none := by
  cases htaken : db.work.get? input.id with
  | none => rfl
  | some row =>
    obtain ⟨hrow, hid⟩ := Table.get?_eq_some.mp htaken
    obtain ⟨hregistered, hname⟩ := hown row.id row.uniqueKey (keyUnder_of_mem hrow)
    have hspells : row.uniqueKey.dueId = input.uniqueKey.dueId := by
      rw [← hname, hid, henqueues.1.id_eq]
    have hsame := hplain _ _ hregistered henqueues.2 hspells
    have hnot := List.find?_eq_none.mp hmissing row hrow
    exact absurd (EnqueueSyncWork.names_iff.mpr hsame) hnot

/-- A planner row whose id is free or its own goes in. -/
theorem enqueueSyncWork_isOk {input : EnqueueSyncWork} (henqueues : Enqueues db input)
    (hfree : findSyncWorkByIdentity db input = none → db.work.get? input.id = none) :
    ∃ result, enqueueSyncWorkUnlocked db input = .ok result := by
  have hrun : referencesRun db input.runId = true := by
    rw [henqueues.1.2]
    rfl
  unfold enqueueSyncWorkUnlocked
  cases hfind : findSyncWorkByIdentity db input with
  | some current =>
    dsimp only
    split
    · exact ⟨_, rfl⟩
    · exact ⟨_, rfl⟩
  | none =>
    have hid : db.work.get? input.row.id = none := hfree hfind
    have hpresent : (present input.runId).filter (fun id => (db.runs.get? id).isNone) = none := by
      rw [henqueues.1.2]
      rfl
    dsimp only
    rw [hpresent]
    simp [hrun, henqueues.2, hid]

theorem OwnNames.batch (hown : OwnNames db) (hplain : PlainIds db)
    (inputs : List EnqueueSyncWork) (henqueues : ∀ input ∈ inputs, Enqueues db input) :
    ∃ after, inputs.foldlM (fun db input => Prod.fst <$> enqueueSyncWorkUnlocked db input) db =
      .ok after := by
  induction inputs generalizing db with
  | nil => exact ⟨db, rfl⟩
  | cons input rest ih =>
    have hhead := henqueues input List.mem_cons_self
    obtain ⟨⟨next, row⟩, hrun⟩ := enqueueSyncWork_isOk hhead fun hmissing =>
      hown.free hplain hhead hmissing
    have hnames := enqueueSyncWork_namesRows hhead.1 hrun
    have hregistered := referencesInstallation_congr hnames.installations
    have hplain' : PlainIds next := by
      intro key key' hkey hkey'
      rw [hregistered] at hkey hkey'
      exact hplain key key' hkey hkey'
    have hrest : ∀ other ∈ rest, Enqueues next other := by
      intro other hmem
      obtain ⟨hplanned, hstored⟩ := henqueues other (List.mem_cons_of_mem input hmem)
      exact ⟨hplanned, by rw [hregistered]; exact hstored⟩
    obtain ⟨after, hafter⟩ := ih (hnames.ownNames hown) hplain' hrest
    refine ⟨after, ?_⟩
    rw [List.foldlM_cons, hrun]
    exact hafter

theorem OwnNames.neverCollides (hown : OwnNames db) (hplain : PlainIds db) :
    NeverCollides db := by
  constructor
  · intro input henqueues hmissing
    exact hown.free hplain henqueues hmissing
  · intro inputs henqueues
    obtain ⟨after, hafter⟩ := hown.batch hplain inputs henqueues
    refine ⟨(after, inputs.length), ?_⟩
    unfold enqueueSyncWorkMany
    rw [hafter]
    rfl

/-- An enqueue that does not throw leaves a row for its identity. -/
theorem enqueueSyncWork_serves {input : EnqueueSyncWork} {row : SyncWorkRecord}
    (h : enqueueSyncWorkUnlocked db input = .ok (after, row)) :
    ∃ id, keyUnder after.work id = some input.uniqueKey := by
  have hfound : ∀ current, findSyncWorkByIdentity db input = some current →
      keyUnder db.work current.id = some input.uniqueKey := by
    intro current hcurrent
    have hkey := EnqueueSyncWork.names_iff.mp (List.find?_some hcurrent)
    rw [← hkey]
    exact keyUnder_of_mem (List.mem_of_find?_eq_some hcurrent)
  cases enqueueSyncWork_effect h with
  | running current found status => exact ⟨current.id, hfound current found⟩
  | rePend current found status references =>
    refine ⟨current.id, ?_⟩
    rw [Table.update, keyUnder_updateWhere _ _ (rePend_id input) fun _ => rfl]
    exact hfound current found
  | insert missing references free =>
    refine ⟨input.row.id, ?_⟩
    rw [keyUnder, Table.get?_insert, if_pos rfl]
    rfl

/-- Two identities with one id do not fit in one batch. -/
theorem OwnNames.plainIds (hown : OwnNames db) (hnever : NeverCollides db) : PlainIds db := by
  intro key key' hkey hkey' hspells
  have hpair : ∀ input ∈ [key.plannedRow, key'.plannedRow], Enqueues db input := by
    intro input hmem
    simp only [List.mem_cons, List.not_mem_nil, or_false] at hmem
    rcases hmem with rfl | rfl
    · exact ⟨key.plannedRow_planned, hkey⟩
    · exact ⟨key'.plannedRow_planned, hkey'⟩
  obtain ⟨result, hbatch⟩ := hnever.batch _ hpair
  unfold enqueueSyncWorkMany at hbatch
  simp only [List.foldlM_cons, List.foldlM_nil] at hbatch
  cases hfirst : enqueueSyncWorkUnlocked db key.plannedRow with
  | error message =>
    rw [hfirst] at hbatch
    cases hbatch
  | ok first =>
    rw [hfirst] at hbatch
    change (do
      let after ← (Prod.fst <$> enqueueSyncWorkUnlocked first.1 key'.plannedRow) >>= pure
      pure (after, 2)) = Except.ok result at hbatch
    cases hsecond : enqueueSyncWorkUnlocked first.1 key'.plannedRow with
    | error message =>
      rw [hsecond] at hbatch
      cases hbatch
    | ok second =>
      have hnames := enqueueSyncWork_namesRows key.plannedRow_planned hfirst
      have hnames' := enqueueSyncWork_namesRows key'.plannedRow_planned hsecond
      obtain ⟨id, hserves⟩ := enqueueSyncWork_serves hfirst
      obtain ⟨id', hserves'⟩ := enqueueSyncWork_serves hsecond
      have hkept := hnames'.kept id _ hserves
      have hown' := hnames'.ownNames (hnames.ownNames hown)
      have hid : id = id' := by
        rw [(hown' id _ hkept).2, (hown' id' _ hserves').2]
        exact hspells
      rw [hid, hserves'] at hkept
      exact (Option.some.inj hkept).symm

/-- In the store after any run of planner rows, claims, settles, catalog pages, phase
writes and releases, planner rows never collide exactly when no release of the run moved
a row to another lane and no two identities of stored installations spell one id. -/
theorem plannerRows_neverCollide_iff (db : SyncTables) (ops : List QueueOp) :
    NeverCollides (run queueStep { db with work := ∅ } ops) ↔
      Along queueStep (fun s op => ¬ MovesRow s op) { db with work := ∅ } ops ∧ PlainIds db := by
  have hempty : OwnNames { db with work := ∅ } := by
    intro id key hkey
    cases hkey
  have hnamed : Named { db with work := ∅ } := by
    intro id key hkey
    cases hkey
  have hinstallations : (run queueStep { db with work := ∅ } ops).installations =
      db.installations := by
    apply run_invariant queueStep (fun s => s.installations = db.installations)
    · intro s op hsame
      exact (queueStep_installations s op).trans hsame
    · rfl
  have hplain : PlainIds (run queueStep { db with work := ∅ } ops) ↔ PlainIds db := by
    unfold PlainIds
    simp only [referencesInstallation_congr hinstallations]
  constructor
  · intro hnever
    rcases run_stays_or_moved _ hnamed ops with hstays | hmoved
    · have hown := along_invariant queueStep OwnNames queueStep_ownNames _ hempty ops hstays
      exact ⟨hstays, hplain.mp (hown.plainIds hnever)⟩
    · have hfinal := run_invariant queueStep Named queueStep_named _ hnamed ops
      exact absurd hnever (hmoved.collides hfinal)
  · rintro ⟨hstays, hdb⟩
    have hown := along_invariant queueStep OwnNames queueStep_ownNames _ hempty ops hstays
    exact hown.neverCollides (hplain.mpr hdb)

/-- An interactive row of a session whose executor has finished, and its release. -/
def releasedSession : List QueueOp :=
  [.call
      { op := .enqueueSyncWork (SyncWorkKey.plannedRow ⟨"inst", "session:1", .interactive, 1⟩)
        plans := SyncWorkKey.plannedRow_planned _ },
    .releaseFinishedExecutorPolls [{ agentThreadId := some "dsh:1", itemStatus := .done }]
      { now := 1, parkedBefore := 10, nextDueAt := 20 }]

def oneInstallation : SyncTables where
  installations := (∅ : Table ConnectorInstallation.id).put
    { id := "inst", orgId := "org", status := .enabled, historyPolicy := none }

/-- The next interactive row of the session is not found under its identity, its id is
taken by the row that moved, and the batch aborts. -/
theorem plannerRows_collide :
    ¬ NeverCollides (run queueStep { oneInstallation with work := ∅ } releasedSession) := by
  intro hnever
  have hfree := hnever.free (SyncWorkKey.plannedRow ⟨"inst", "session:1", .interactive, 1⟩)
    ⟨SyncWorkKey.plannedRow_planned _, by decide +kernel⟩ (by decide +kernel)
  revert hfree
  decide +kernel

end Collisions

end Sqlite

end Regenic.Sync
