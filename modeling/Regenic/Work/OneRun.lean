import Regenic.Work.Acknowledged

/-!
One active run for a work item. The claim of a start is the only way a run becomes active; it
looks in its transaction for another. Every other writer puts a run made from a copy, and as
long as no copy is put that the end of its run has overtaken, an ended run stays ended.
-/

namespace Regenic.Work

open Lib Reply

/-! ## Sound runs -/

structure RunsSound (s : WorkTables) : Prop where
  oneActive : ∀ left ∈ s.runs.rows, ∀ right ∈ s.runs.rows,
    left.workItemId = right.workItemId → left.status.isActive = true →
    right.status.isActive = true → left = right
  /-- Only a run that is active can be starting. -/
  starting : ∀ run ∈ s.runs.rows, run.startState ≠ none → run.status.isActive = true

instance (s : WorkTables) : Decidable (RunsSound s) :=
  decidable_of_iff ((∀ left ∈ s.runs.rows, ∀ right ∈ s.runs.rows,
      left.workItemId = right.workItemId → left.status.isActive = true →
      right.status.isActive = true → left = right) ∧
    ∀ run ∈ s.runs.rows, run.startState ≠ none → run.status.isActive = true)
    ⟨fun h => ⟨h.1, h.2⟩, fun h => ⟨h.1, h.2⟩⟩

/-- What one call does to the runs, when no put lands on a run that ended since its copy. -/
inductive RunChange (s s' : WorkTables) : Prop where
  | same (hruns : s'.runs = s.runs)
  | put {row : WorkRun} (hruns : s'.runs = (s.putWorkRun row).runs)
      (hlive : row.status.isActive = true →
        ∃ stored, s.runs.get? row.id = some stored ∧ stored.status.isActive = true)
      (hstart : row.startState ≠ none → row.status.isActive = true)
  | claim {run : WorkRun} (hruns : s'.runs = (s.putWorkRun run).runs)
      (hnew : s.runs.get? run.id = none) (hactive : run.status.isActive = true)
      (hfree : s.activeRuns run.workItemId = [])
      (hopened : ∃ item, s.items.get? run.workItemId = some item ∧ item.status = .opened)

section Changes

variable {s s' : WorkTables}

/-- The row that a put leaves, or an older one under another id. -/
theorem mem_putWorkRun {row stored : WorkRun} (hmem : stored ∈ (s.putWorkRun row).runs.rows) :
    (stored.id = row.id ∧ stored.status = row.status ∧ stored.startState = row.startState ∧
      stored.workItemId = ((s.runs.get? row.id).map (·.workItemId)).getD row.workItemId) ∨
      (stored ∈ s.runs.rows ∧ stored.id ≠ row.id) := by
  rcases Table.mem_put.mp hmem with heq | hold
  · rw [heq]
    exact Or.inl ⟨rfl, rfl, rfl, rfl⟩
  · exact Or.inr hold

/-- No other run of the item is active beside one that a put keeps active. -/
theorem no_rival {row new old : WorkRun} (h : RunsSound s)
    (hlive : row.status.isActive = true →
      ∃ stored, s.runs.get? row.id = some stored ∧ stored.status.isActive = true)
    (hstatus : new.status = row.status)
    (hitem : new.workItemId = ((s.runs.get? row.id).map (·.workItemId)).getD row.workItemId)
    (hold : old ∈ s.runs.rows) (hother : old.id ≠ row.id)
    (hsame : new.workItemId = old.workItemId) (hnew : new.status.isActive = true)
    (holdActive : old.status.isActive = true) : False := by
  rw [hstatus] at hnew
  obtain ⟨stored, hstored, hactive⟩ := hlive hnew
  obtain ⟨hmem, hid⟩ := Table.get?_eq_some.mp hstored
  rw [hstored, Option.map_some, Option.getD_some] at hitem
  have heq := h.oneActive stored hmem old hold (hitem.symm.trans hsame) hactive holdActive
  rw [heq] at hid
  exact hother hid

theorem no_rival_claim {run new old : WorkRun} (hnew : s.runs.get? run.id = none)
    (hfree : s.activeRuns run.workItemId = [])
    (hitem : new.workItemId = ((s.runs.get? run.id).map (·.workItemId)).getD run.workItemId)
    (hold : old ∈ s.runs.rows) (hsame : new.workItemId = old.workItemId)
    (hactive : old.status.isActive = true) : False := by
  rw [hnew, Option.map_none, Option.getD_none] at hitem
  have hended := WorkTables.activeRuns_eq_nil.mp hfree old.id old (Table.get?_key hold)
    (hsame.symm.trans hitem)
  rw [hended] at hactive
  cases hactive

theorem RunChange.sound (hchange : RunChange s s') (h : RunsSound s) : RunsSound s' := by
  cases hchange with
  | same hruns =>
    constructor
    · rw [hruns]
      exact h.oneActive
    · rw [hruns]
      exact h.starting
  | put hruns hlive hstart =>
    constructor
    · rw [hruns]
      intro left hleft right hright hsame hleftActive hrightActive
      rcases mem_putWorkRun hleft with ⟨hid, hstatus, _, hitem⟩ | ⟨hold, hother⟩
      · rcases mem_putWorkRun hright with ⟨hid', _, _, _⟩ | ⟨hold', hother'⟩
        · exact Table.eq_of_key hleft hright (hid.trans hid'.symm)
        · exact (no_rival h hlive hstatus hitem hold' hother' hsame hleftActive
            hrightActive).elim
      · rcases mem_putWorkRun hright with ⟨_, hstatus', _, hitem'⟩ | ⟨hold', _⟩
        · exact (no_rival h hlive hstatus' hitem' hold hother hsame.symm hrightActive
            hleftActive).elim
        · exact h.oneActive left hold right hold' hsame hleftActive hrightActive
    · rw [hruns]
      intro run hrun hstarting
      rcases mem_putWorkRun hrun with ⟨_, hstatus, hstartState, _⟩ | ⟨hold, _⟩
      · rw [hstartState] at hstarting
        rw [hstatus]
        exact hstart hstarting
      · exact h.starting run hold hstarting
  | claim hruns hnew hactive hfree _ =>
    constructor
    · rw [hruns]
      intro left hleft right hright hsame hleftActive hrightActive
      rcases mem_putWorkRun hleft with ⟨hid, _, _, hitem⟩ | ⟨hold, _⟩
      · rcases mem_putWorkRun hright with ⟨hid', _, _, _⟩ | ⟨hold', _⟩
        · exact Table.eq_of_key hleft hright (hid.trans hid'.symm)
        · exact (no_rival_claim hnew hfree hitem hold' hsame hrightActive).elim
      · rcases mem_putWorkRun hright with ⟨_, _, _, hitem'⟩ | ⟨hold', _⟩
        · exact (no_rival_claim hnew hfree hitem' hold hsame.symm hleftActive).elim
        · exact h.oneActive left hold right hold' hsame hleftActive hrightActive
    · rw [hruns]
      intro run hrun hstarting
      rcases mem_putWorkRun hrun with ⟨_, hstatus, _, _⟩ | ⟨hold, _⟩
      · rw [hstatus]
        exact hactive
      · exact h.starting run hold hstarting

theorem get?_isSome_putWorkRun {row : WorkRun} {id : String}
    (h : (s.runs.get? id).isSome = true) : ((s.putWorkRun row).runs.get? id).isSome = true := by
  rw [WorkTables.get?_putWorkRun]
  split
  · rfl
  · exact h

/-- Runs are never removed. -/
theorem RunChange.stored (hchange : RunChange s s') {id : String}
    (h : (s.runs.get? id).isSome = true) : (s'.runs.get? id).isSome = true := by
  cases hchange with
  | same hruns =>
    rw [hruns]
    exact h
  | put hruns _ _ =>
    rw [hruns]
    exact get?_isSome_putWorkRun h
  | claim hruns _ _ _ _ =>
    rw [hruns]
    exact get?_isSome_putWorkRun h

/-- The run has ended. -/
def EndedRun (id : String) (s : WorkTables) : Prop :=
  ∃ run ∈ s.runs.get? id, run.status.isActive = false

instance (id : String) (s : WorkTables) : Decidable (EndedRun id s) :=
  inferInstanceAs (Decidable (∃ run ∈ s.runs.get? id, _))

theorem RunChange.ended (hchange : RunChange s s') {id : String} (h : EndedRun id s) :
    EndedRun id s' := by
  obtain ⟨run, hrun, hended⟩ := h
  cases hchange with
  | same hruns =>
    unfold EndedRun
    rw [hruns]
    exact ⟨run, hrun, hended⟩
  | @put row hruns hlive _ =>
    unfold EndedRun
    rw [hruns]
    by_cases hid : row.id = id
    · refine ⟨_, (WorkTables.get?_putWorkRun row id).trans (if_pos hid), ?_⟩
      cases hactive : row.status.isActive with
      | false => rfl
      | true =>
        obtain ⟨stored, hstored, hstoredActive⟩ := hlive hactive
        rw [hid, Option.mem_def.mp hrun, Option.some.injEq] at hstored
        rw [← hstored, hended] at hstoredActive
        cases hstoredActive
    · exact ⟨run, ((WorkTables.get?_putWorkRun row id).trans (if_neg hid)).trans hrun, hended⟩
  | @claim new hruns hnew _ _ _ =>
    unfold EndedRun
    rw [hruns]
    have hid : new.id ≠ id := by
      intro heq
      rw [heq, Option.mem_def.mp hrun] at hnew
      cases hnew
    exact ⟨run, ((WorkTables.get?_putWorkRun new id).trans (if_neg hid)).trans hrun, hended⟩

end Changes

/-! ## The condition -/

/-- A run is put from an active copy only while the stored run is active. -/
def EndNotOvertaken : WorkCall → WorkEnv → WorkState → Prop
  | .putWorkRun (some copy) _, _, s =>
    copy.status.isActive = true → ∀ stored ∈ s.tables.getWorkRun copy.id,
      stored.status.isActive = true
  | _, _, _ => True

instance : (c : WorkCall) → (env : WorkEnv) → (s : WorkState) →
    Decidable (EndNotOvertaken c env s)
  | .putWorkRun (some copy) _, _, s => inferInstanceAs (Decidable
    (copy.status.isActive = true → ∀ stored ∈ s.tables.getWorkRun copy.id, _))
  | .putWorkRun none _, _, _
  | .listWorkItems _, _, _ | .getWorkItem _, _, _ | .getWorkItemByThread _, _, _
  | .putWorkItem _ _, _, _ | .listWorkRuns _, _, _ | .getWorkRun _, _, _
  | .getActiveWorkRun _, _, _ | .claimWorkRunStart _ _, _, _
  | .listDueWorkDeliveries _, _, _ | .getWorkDeliveryByItem _, _, _
  | .latestWorkDelivery _, _, _ | .putWorkDelivery _ _, _, _ | .getRecipe _, _, _
  | .listRecipes, _, _ | .isStarting _ _, _, _ | .reserveStart _ _ _ _, _, _
  | .takeStart _ _ _, _, _ | .releaseStart _ _, _, _ | .startFlush _ _ _, _, _
  | .withTimeout _ _, _, _ | .settle _, _, _ | .expire _, _, _ | .egressSend _ _, _, _
  | .answerPrompt _ _, _, _ | .outside _, _, _ => isTrue trivial

/-! ## What was read of a run -/

def ReadActive (run : WorkRun) (s : WorkState) : Prop :=
  run.status.isActive = true ∧ (s.tables.runs.get? run.id).isSome = true

def ReadStarting (run : WorkRun) (s : WorkState) : Prop :=
  (run.startState ≠ none → run.status.isActive = true) ∧
    (s.tables.runs.get? run.id).isSome = true

/-- A run that was read stays stored; what was read as active or as starting was active. -/
def RunRead : Told WorkCall.Response → WorkState → Prop
  | ⟨.getActiveWorkRun _, .ok (some run)⟩, s => ReadActive run s
  | ⟨.getWorkRun _, .ok (some run)⟩, s => ReadStarting run s
  | _, _ => True

theorem RunRead.mono {s s' : WorkState} (hchange : RunChange s.tables s'.tables)
    {told : Told WorkCall.Response} (h : RunRead told s) : RunRead told s' := by
  obtain ⟨c, r⟩ := told
  cases r with
  | error e => cases c <;> trivial
  | ok a =>
    cases c with
    | getActiveWorkRun workItemId =>
      cases a with
      | none => trivial
      | some run => exact ⟨h.1, hchange.stored h.2⟩
    | getWorkRun id =>
      cases a with
      | none => trivial
      | some run => exact ⟨h.1, hchange.stored h.2⟩
    | _ => trivial

section Steps

variable {rules : WorkRules} {h : WorkHistory} {s : WorkState}

theorem live_active (hall : AllStand RunRead h s) {status : WorkRunStatus}
    (hlive : Live h status) : status.isActive = true := by
  cases hlive with
  | active hactive => exact hactive
  | found hheard => exact (hall _ hheard).1
  | starting hheard hstart => exact (hall _ hheard).1 hstart

theorem stored_isSome (hall : AllStand RunRead h s) {id : String} (hstored : Stored h id) :
    (s.tables.runs.get? id).isSome = true := by
  cases hstored with
  | active hheard => exact (hall _ hheard).2
  | run hheard => exact (hall _ hheard).2

/-- What an orderly call does to the runs, unless the end of a run overtook its copy. -/
theorem runChange_exec (hall : AllStand RunRead h s) (c : WorkCall) (env : WorkEnv)
    (hc : Allowed rules h c) (hcond : EndNotOvertaken c env s) :
    RunChange s.tables (c.exec env s).2.tables := by
  rcases WorkCall.exec_runs c env s with heq | ⟨copy, row, rfl, heq⟩ |
      ⟨run, maxConcurrent, tables, rfl, hclaim, heq⟩
  · exact .same heq
  · cases copy with
    | none =>
      obtain ⟨hended, hstart⟩ := hc
      apply RunChange.put (by rw [heq])
      · intro hactive
        rw [hended] at hactive
        cases hactive
      · intro hstarting
        exact absurd hstart hstarting
    | some copy =>
      apply RunChange.put (by rw [heq])
      · intro hactive
        have hcopy := live_active hall (hc.live hactive)
        obtain ⟨stored, hstored⟩ := Option.isSome_iff_exists.mp (stored_isSome hall hc.stored)
        rw [hc.id]
        exact ⟨stored, hstored, hcond hcopy stored hstored⟩
      · intro hstarting
        exact live_active hall (hc.start hstarting)
  · obtain ⟨item, hstart, _, hnew, htables⟩ := WorkTables.claim_some_true hclaim
    obtain ⟨hstored, _, _, hopened, hfree⟩ := WorkTables.startable_some hstart
    refine .claim ?_ hnew hc.1 hfree ⟨item, hstored, hopened⟩
    rw [heq, htables]
    rfl

theorem runRead_exec (hsound : RunsSound s.tables) (c : WorkCall) (env : WorkEnv) :
    RunRead ⟨c, (c.exec env s).1⟩ (c.exec env s).2 := by
  cases c with
  | getActiveWorkRun workItemId =>
    cases hfound : s.tables.getActiveWorkRun workItemId with
    | none =>
      simp only [WorkCall.exec, hfound]
      trivial
    | some run =>
      simp only [WorkCall.exec, hfound]
      obtain ⟨hrow, _, hactive⟩ := WorkTables.getActiveWorkRun_some hfound
      exact ⟨hactive, Option.isSome_iff_exists.mpr ⟨run, hrow⟩⟩
  | getWorkRun id =>
    cases hfound : s.tables.getWorkRun id with
    | none =>
      simp only [WorkCall.exec, hfound]
      trivial
    | some run =>
      simp only [WorkCall.exec, hfound]
      have hmem := (Table.get?_eq_some.mp hfound).1
      exact ⟨hsound.starting run hmem, Option.isSome_iff_exists.mpr ⟨run, Table.get?_key hmem⟩⟩
  | claimWorkRunStart run maxConcurrent =>
    simp only [WorkCall.exec]
    split
    · trivial
    · trivial
  | reserveStart dispatcher workItemId recipe items =>
    simp only [WorkCall.exec]
    split
    · trivial
    · trivial
  | egressSend delivery text =>
    simp only [WorkCall.exec]
    cases env.send <;> trivial
  | answerPrompt delivery text =>
    simp only [WorkCall.exec]
    cases env.prompt <;> trivial
  | outside call =>
    simp only [WorkCall.exec]
    cases env.answer call <;> trivial
  | _ => trivial

/-- The rule for the runs: what every change of them keeps, every run of the pool keeps. -/
theorem runs_keep {cond : WorkCall → WorkEnv → WorkState → Prop}
    (hcond : ∀ c env s, cond c env s → EndNotOvertaken c env s) (J : WorkTables → Prop)
    (hJ : ∀ s s' : WorkTables, RunChange s s' → J s → J s') :
    Pool.Keeps (workProtocol rules) startHistory WorkCall.exec workFork cond fun modes s =>
      (RunsSound s.tables ∧ J s.tables) ∧ ∀ i, AllStand RunRead (modes i) s := by
  apply orderly_keeps (fun s => RunsSound s.tables ∧ J s.tables)
  intro h s c env hinv hall hc hmeets
  have hchange := runChange_exec hall c env hc (hcond c env s hmeets)
  refine ⟨⟨hchange.sound hinv.1, hJ _ _ hchange hinv.2⟩, runRead_exec hinv.1 c env, ?_⟩
  intro told htold
  exact htold.mono hchange

end Steps

/-! ## Every run -/

def AtMostOneActive (s : WorkState) : Prop :=
  ∀ left ∈ s.tables.runs.rows, ∀ right ∈ s.tables.runs.rows,
    left.workItemId = right.workItemId → left.status.isActive = true →
    right.status.isActive = true → left = right

instance (s : WorkState) : Decidable (AtMostOneActive s) :=
  inferInstanceAs (Decidable (∀ left ∈ s.tables.runs.rows, _))

/-- In every state at most one run of an item is active, and a run that was once stored as
ended is ended in every later state. -/
structure OneRunForItem (pool : WorkPool) (events : List (Nat × WorkEnv)) : Prop where
  oneActive : ∀ first rest, events = first ++ rest →
    AtMostOneActive (run WorkPool.step pool first).state
  stayEnded : ∀ first second rest, events = first ++ (second ++ rest) → ∀ id,
    EndedRun id (run WorkPool.step pool first).state.tables →
    EndedRun id (run WorkPool.step pool (first ++ second)).state.tables

/-- One active run for a work item, and ended runs stay ended, in every run of the operations
in which no put of a run is made from a copy that its end has overtaken. -/
theorem workItem_oneRun (digest : Digest) (ops : List WorkOperation) (state : WorkState)
    (hstart : RunsSound state.tables) (events : List (Nat × WorkEnv))
    (hcond : Along WorkPool.step (Pool.Meets EndNotOvertaken)
      (WorkPool.start (ops.map (·.program digest)) state) events) :
    OneRunForItem (WorkPool.start (ops.map (·.program digest)) state) events := by
  have hcalm : ∀ p ∈ ops.map (·.program digest), Calm anyRules [] p := by
    intro p hp
    obtain ⟨op, _, rfl⟩ := List.mem_map.mp hp
    exact op.program_any digest
  have hsound : Pool.Keeps (workProtocol anyRules) startHistory WorkCall.exec workFork
      EndNotOvertaken _ := runs_keep (fun _ _ _ h => h) (fun _ => True) fun _ _ _ _ => trivial
  constructor
  · intro first rest hsplit
    rw [hsplit] at hcond
    obtain ⟨_, _, ⟨hruns, _⟩, _⟩ := hsound.run (Pool.freeEnds_true _)
      (start_follow state hcalm) ⟨⟨hstart, trivial⟩, allStand_nil _ _⟩ first
      ((along_append ..).mp hcond).1
    exact hruns.oneActive
  · intro first second rest hsplit id hended
    rw [hsplit] at hcond
    obtain ⟨hfirst, hlater⟩ := (along_append ..).mp hcond
    obtain ⟨modes, hfollow, ⟨hruns, _⟩, hall⟩ := hsound.run (Pool.freeEnds_true _)
      (start_follow state hcalm) ⟨⟨hstart, trivial⟩, allStand_nil _ _⟩ first hfirst
    obtain ⟨_, _, ⟨_, hstill⟩, _⟩ := (runs_keep (fun _ _ _ h => h) (EndedRun id)
      fun _ _ hchange h => hchange.ended h).run (Pool.freeEnds_true _) hfollow
      ⟨⟨hruns, hended⟩, hall⟩ second ((along_append ..).mp hlater).1
    rw [run_append]
    exact hstill

/-- An item with an active run. -/
def oneActiveRun : WorkState where
  tables :=
    { items := (∅ : Table WorkItem.id).put (sampleItem "w1" .running)
      runs := (∅ : Table WorkRun.id).put (sampleRun "run-1" "w1" .running)
      recipes := (∅ : Table Recipe.id).put sampleRecipe }

def saysRunning : WorkEnv := agreeable { externalRunId := "x1", status := .running } 1

/-- A supervisor's tick and the resumption after a prompt was answered. -/
def twoRefreshers : WorkPool :=
  WorkPool.start
    ([WorkOperation.refreshRuns, .afterPrompt "dsh:a"].map (·.program sampleDigest)) oneActiveRun

/-- The resumed run ends before the tick reads it. -/
theorem workItem_oneRun_inTurns :
    OneRunForItem twoRefreshers (List.replicate 18 (1, saysBye) ++
      List.replicate 9 (0, saysRunning)) :=
  workItem_oneRun _ _ _ (by decide +kernel) _ (by decide +kernel)

/-- The tick has heard that the run is running and passed its checks when the resumption stores
the run as completed; the tick then stores it as running. -/
theorem workItem_runRevived :
    ¬ OneRunForItem twoRefreshers ((List.replicate 9 (0, saysRunning) ++
      List.replicate 18 (1, saysBye)) ++ ([(0, saysRunning)] ++ [])) := by
  intro h
  have hstill := h.stayEnded _ _ _ rfl "run-1" (by decide +kernel)
  exact absurd hstill (by decide +kernel)

end Regenic.Work
