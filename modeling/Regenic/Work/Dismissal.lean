import Regenic.Work.OneRun

/-!
What a dismissal leaves. It stores the item as skipped, looks for the active run and cancels
it, and no claim starts another one while the item is skipped. Every other writer puts a whole
item made from a copy; as long as no copy is put that the dismissal has overtaken, and none of
a run that its end has overtaken, the item stays skipped and its runs stay ended.
-/

namespace Regenic.Work

open Lib Reply

/-! ## What a dismissal is to leave -/

def StoredSkipped (id : String) (s : WorkTables) : Prop :=
  ∃ item ∈ s.items.get? id, item.status = .skipped

instance (id : String) (s : WorkTables) : Decidable (StoredSkipped id s) :=
  inferInstanceAs (Decidable (∃ item ∈ s.items.get? id, _))

/-- The item is skipped and none of its runs is running or waiting for a human. -/
def Dismissed (id : String) (s : WorkTables) : Prop :=
  StoredSkipped id s ∧ s.activeRuns id = []

instance (id : String) (s : WorkTables) : Decidable (Dismissed id s) :=
  inferInstanceAs (Decidable (_ ∧ _))

/-- No run of the item is active but the one that is named, when one is. -/
def OnlyActive (id : String) (runId : Option String) (s : WorkTables) : Prop :=
  ∀ row ∈ s.runs.rows, row.workItemId = id → row.status.isActive = true → some row.id = runId

section Tables

variable {s s' : WorkTables} {id : String} {runId : Option String}

theorem activeRuns_of_onlyActive (h : OnlyActive id none s) : s.activeRuns id = [] := by
  apply WorkTables.activeRuns_eq_nil.mpr
  intro rowId row hrow hitem
  cases hactive : row.status.isActive with
  | false => rfl
  | true => cases h row (Table.get?_eq_some.mp hrow).1 hitem hactive

/-- The run that is looked up is the only active one. -/
theorem onlyActive_getActiveWorkRun (hsound : RunsSound s) (id : String) :
    OnlyActive id ((s.getActiveWorkRun id).map (·.id)) s := by
  intro row hrow hitem hactive
  cases hfound : s.getActiveWorkRun id with
  | none =>
    have hnone := WorkTables.activeRuns_eq_nil.mp (WorkTables.getActiveWorkRun_none hfound)
    rw [hnone row.id row (Table.get?_key hrow) hitem] at hactive
    cases hactive
  | some run =>
    obtain ⟨hrun, hrunItem, hrunActive⟩ := WorkTables.getActiveWorkRun_some hfound
    have hmem := (Table.get?_eq_some.mp hrun).1
    rw [hsound.oneActive row hrow run hmem (hitem.trans hrunItem.symm) hactive hrunActive]
    rfl

/-- Of an item that is skipped no further run becomes active. -/
theorem RunChange.onlyActive (hchange : RunChange s s') (hskipped : StoredSkipped id s)
    (h : OnlyActive id runId s) : OnlyActive id runId s' := by
  intro row hrow hitem hactive
  cases hchange with
  | same hruns =>
    rw [hruns] at hrow
    exact h row hrow hitem hactive
  | @put put hruns hlive _ =>
    rw [hruns] at hrow
    rcases mem_putWorkRun hrow with ⟨hid, hstatus, _, hrowItem⟩ | ⟨hold, _⟩
    · rw [hstatus] at hactive
      obtain ⟨stored, hstored, hstoredActive⟩ := hlive hactive
      obtain ⟨hmem, hstoredId⟩ := Table.get?_eq_some.mp hstored
      rw [hstored, Option.map_some, Option.getD_some] at hrowItem
      have hsame : stored.id = row.id := hstoredId.trans hid.symm
      rw [← hsame]
      exact h stored hmem (hrowItem.symm.trans hitem) hstoredActive
    · exact h row hold hitem hactive
  | @claim run hruns hnew _ _ hopened =>
    rw [hruns] at hrow
    rcases mem_putWorkRun hrow with ⟨_, _, _, hrowItem⟩ | ⟨hold, _⟩
    · rw [hnew, Option.map_none, Option.getD_none] at hrowItem
      obtain ⟨item, hstored, hstatus⟩ := hskipped
      obtain ⟨other, hother, hopen⟩ := hopened
      rw [hrowItem.symm.trans hitem, Option.mem_def.mp hstored, Option.some.injEq] at hother
      rw [← hother, hstatus] at hopen
      cases hopen
    · exact h row hold hitem hactive

/-- The only run that was active has ended. -/
theorem OnlyActive.ended {run : String} (h : OnlyActive id (some run) s)
    (hended : EndedRun run s) : OnlyActive id none s := by
  intro row hrow hitem hactive
  obtain ⟨stored, hstored, hstoredEnded⟩ := hended
  have hid : row.id = run := Option.some.inj (h row hrow hitem hactive)
  have hget := Table.get?_key hrow
  rw [show WorkRun.id row = run from hid, Option.mem_def.mp hstored, Option.some.injEq] at hget
  rw [← hget, hstoredEnded] at hactive
  cases hactive

end Tables

/-! ## The condition -/

/-- A row that does not dismiss is put from a copy that was not dismissed only while the stored
item is not; and a run from an active copy only while the stored run is active. -/
def DismissalNotOvertaken : WorkCall → WorkEnv → WorkState → Prop
  | .putWorkItem (some copy) row, _, s =>
    copy.status ≠ .skipped → row.status ≠ .skipped → ¬ StoredSkipped row.id s.tables
  | c, env, s => EndNotOvertaken c env s

instance : (c : WorkCall) → (env : WorkEnv) → (s : WorkState) →
    Decidable (DismissalNotOvertaken c env s)
  | .putWorkItem (some copy) row, _, s => inferInstanceAs
    (Decidable (copy.status ≠ .skipped → row.status ≠ .skipped → ¬ StoredSkipped row.id s.tables))
  | .putWorkItem none row, env, s =>
    inferInstanceAs (Decidable (EndNotOvertaken (.putWorkItem none row) env s))
  | .putWorkRun copy row, env, s =>
    inferInstanceAs (Decidable (EndNotOvertaken (.putWorkRun copy row) env s))
  | .listWorkItems _, _, _ | .getWorkItem _, _, _ | .getWorkItemByThread _, _, _
  | .listWorkRuns _, _, _ | .getWorkRun _, _, _ | .getActiveWorkRun _, _, _
  | .claimWorkRunStart _ _, _, _ | .listDueWorkDeliveries _, _, _
  | .getWorkDeliveryByItem _, _, _ | .latestWorkDelivery _, _, _ | .putWorkDelivery _ _, _, _
  | .getRecipe _, _, _ | .listRecipes, _, _ | .isStarting _ _, _, _
  | .reserveStart _ _ _ _, _, _ | .takeStart _ _ _, _, _ | .releaseStart _ _, _, _
  | .startFlush _ _ _, _, _ | .withTimeout _ _, _, _ | .settle _, _, _ | .expire _, _, _
  | .egressSend _ _, _, _ | .answerPrompt _ _, _, _ | .outside _, _, _ => isTrue trivial

theorem DismissalNotOvertaken.runs {c : WorkCall} {env : WorkEnv} {s : WorkState}
    (h : DismissalNotOvertaken c env s) : EndNotOvertaken c env s := by
  cases c with
  | putWorkItem copy row => trivial
  | _ => exact h

/-! ## What a program knows -/

/-- An entry that tells of an item that is found under its own id, or of a run that the program
has stored as ended. -/
def FoundOrEnded : Told WorkCall.Response → WorkState → Prop
  | ⟨.getWorkItem id, .ok (some item)⟩, _ => item.id = id
  | ⟨.putWorkRun _ row, .ok ()⟩, s => row.status.isActive = false → EndedRun row.id s.tables
  | _, _ => True

/-- The item was known to be dismissed when its active run was looked up. -/
def Searched (h : WorkHistory) (id : String) (found : Option WorkRun) : Prop :=
  ∃ earlier, KnownSkipped earlier id ∧
    ((⟨.getActiveWorkRun id, .ok found⟩ : Told WorkCall.Response) :: earlier) <:+ h

/-- What a program was told is true of the state, as far as dismissals go. -/
structure DismissalsHold (h : WorkHistory) (s : WorkState) : Prop where
  runs : AllStand RunRead h s
  found : AllStand FoundOrEnded h s
  skipped : ∀ id, KnownSkipped h id → StoredSkipped id s.tables
  stillSkipped : ∀ id, ¬ Unskipped h id
  searched : ∀ id found, Searched h id found → OnlyActive id (found.map (·.id)) s.tables

theorem dismissalsHold_nil (s : WorkState) : DismissalsHold [] s where
  runs := allStand_nil _ s 0
  found := allStand_nil _ s 0
  skipped := by
    intro id hknown
    cases hknown with
    | found hheard | onThread hheard | put hheard => cases hheard
    | listed hheard => cases hheard
  stillSkipped := by
    intro id hopen
    obtain ⟨_, _, _, hsuffix, _⟩ := hopen
    cases List.suffix_nil.mp hsuffix
  searched := by
    intro id found hsearched
    obtain ⟨_, _, hsuffix⟩ := hsearched
    cases List.suffix_nil.mp hsuffix

theorem FoundOrEnded.mono {s s' : WorkState} (hchange : RunChange s.tables s'.tables)
    {told : Told WorkCall.Response} (h : FoundOrEnded told s) : FoundOrEnded told s' := by
  obtain ⟨c, r⟩ := told
  cases r with
  | error e => cases c <;> trivial
  | ok a =>
    cases c with
    | getWorkItem id =>
      cases a with
      | none => trivial
      | some item => exact h
    | putWorkRun copy row => exact fun hended => hchange.ended (h hended)
    | _ => trivial

/-- What was known stays true as long as skipped items stay skipped. -/
theorem DismissalsHold.mono {h : WorkHistory} {s s' : WorkState}
    (hchange : RunChange s.tables s'.tables)
    (hskipped : ∀ id, StoredSkipped id s.tables → StoredSkipped id s'.tables)
    (hhold : DismissalsHold h s) : DismissalsHold h s' where
  runs := fun told htold => (hhold.runs told htold).mono hchange
  found := fun told htold => (hhold.found told htold).mono hchange
  skipped := fun id hknown => hskipped id (hhold.skipped id hknown)
  stillSkipped := hhold.stillSkipped
  searched := by
    intro id found hsearched
    have honly := hhold.searched id found hsearched
    obtain ⟨earlier, hknown, hsuffix⟩ := hsearched
    have hnow := hknown.mono ((List.suffix_cons _ _).trans hsuffix)
    exact hchange.onlyActive (hhold.skipped id hnow) honly

/-! ## What a call tells -/

section Answers

variable {rules : WorkRules} {h : WorkHistory} {s : WorkState}

theorem foundOrEnded_exec (c : WorkCall) (env : WorkEnv) :
    FoundOrEnded ⟨c, (c.exec env s).1⟩ (c.exec env s).2 := by
  cases c with
  | getWorkItem id =>
    simp only [WorkCall.exec]
    cases hfound : s.tables.getWorkItem id with
    | none => trivial
    | some item => exact (Table.get?_eq_some.mp hfound).2
  | putWorkRun copy row =>
    intro hended
    exact ⟨_, (WorkTables.get?_putWorkRun row row.id).trans (if_pos rfl), hended⟩
  | claimWorkRunStart run maxConcurrent =>
    simp only [WorkCall.exec]
    split
    · trivial
    · trivial
  | reserveStart dispatcher workItemId recipe items =>
    simp only [WorkCall.exec]
    split
    · trivial
    · trivial
  | egressSend delivery text =>
    simp only [WorkCall.exec]
    cases env.send <;> trivial
  | answerPrompt delivery text =>
    simp only [WorkCall.exec]
    cases env.prompt <;> trivial
  | outside call =>
    simp only [WorkCall.exec]
    cases env.answer call <;> trivial
  | _ => trivial

/-- A history ends with the answer of its last call. -/
theorem heard_exec {c c' : WorkCall} {env : WorkEnv} {a : c'.Answer}
    (hheard : Heard (⟨c, (c.exec env s).1⟩ :: h) c' a) :
    (c = c' ∧ (c'.exec env s).1 = .ok a) ∨ Heard h c' a := by
  rcases List.mem_cons.mp hheard with heq | hold
  · obtain ⟨rfl, hanswer⟩ := Sigma.mk.inj_iff.mp heq
    exact Or.inl ⟨rfl, (eq_of_heq hanswer).symm⟩
  · exact Or.inr hold

theorem storedSkipped_of_mem {item : WorkItem} (hmem : item ∈ s.tables.items.rows)
    (hskipped : item.status = .skipped) : StoredSkipped item.id s.tables :=
  ⟨item, Table.get?_key hmem, hskipped⟩

/-- A call that tells of a dismissed item leaves it stored as skipped. -/
theorem knownSkipped_exec {c : WorkCall} {env : WorkEnv} {id : String}
    (hknown : KnownSkipped (⟨c, (c.exec env s).1⟩ :: h) id) :
    StoredSkipped id (c.exec env s).2.tables ∨ KnownSkipped h id := by
  cases hknown with
  | @found _ item hheard hskipped =>
    rcases heard_exec hheard with ⟨rfl, hanswer⟩ | hold
    · obtain ⟨hmem, _⟩ := Table.get?_eq_some.mp (Except.ok.inj hanswer)
      exact Or.inl (storedSkipped_of_mem hmem hskipped)
    · exact Or.inr (.found hold hskipped)
  | @onThread _ item hheard hskipped =>
    rcases heard_exec hheard with ⟨rfl, hanswer⟩ | hold
    · have hrow := WorkTables.mem_of_head?_insertionSort (Except.ok.inj hanswer)
      exact Or.inl (storedSkipped_of_mem (List.mem_filter.mp hrow).1 hskipped)
    · exact Or.inr (.onThread hold hskipped)
  | @listed _ items item hheard hmem hskipped =>
    rcases heard_exec hheard with ⟨rfl, hanswer⟩ | hold
    · rw [← Except.ok.inj hanswer] at hmem
      have hrow := (List.mem_insertionSort _).mp hmem
      exact Or.inl (storedSkipped_of_mem (List.mem_filter.mp hrow).1 hskipped)
    · exact Or.inr (.listed hold hmem hskipped)
  | @put copy row hheard hskipped =>
    rcases heard_exec hheard with ⟨rfl, _⟩ | hold
    · exact Or.inl ⟨_, (WorkTables.get?_putWorkItem row row.id).trans (if_pos rfl), hskipped⟩
    · exact Or.inr (.put hold hskipped)

/-- An item that is stored as skipped is not found to be anything else. -/
theorem unskipped_exec {c : WorkCall} {env : WorkEnv} {id : String}
    (hskipped : KnownSkipped h id → StoredSkipped id s.tables)
    (hopen : Unskipped (⟨c, (c.exec env s).1⟩ :: h) id) : Unskipped h id := by
  obtain ⟨earlier, hknown, found, hsuffix, hnot⟩ := hopen
  rcases List.suffix_cons_iff.mp hsuffix with heq | hsuffix
  · obtain ⟨htold, rfl⟩ := List.cons.inj heq
    obtain ⟨rfl, hanswer⟩ := Sigma.mk.inj_iff.mp htold
    obtain ⟨item, hitem, hstatus⟩ := hskipped hknown
    have hfound : s.tables.items.get? id = found := (Except.ok.inj (eq_of_heq hanswer)).symm
    rw [← hfound, Option.mem_def.mp hitem, Option.any_some, hstatus] at hnot
    cases hnot
  · exact ⟨earlier, hknown, found, hsuffix, hnot⟩

theorem searched_exec {c : WorkCall} {env : WorkEnv} {id : String} {found : Option WorkRun}
    (hsound : RunsSound s.tables)
    (hsearched : Searched (⟨c, (c.exec env s).1⟩ :: h) id found) :
    OnlyActive id (found.map (·.id)) (c.exec env s).2.tables ∨ Searched h id found := by
  obtain ⟨earlier, hknown, hsuffix⟩ := hsearched
  rcases List.suffix_cons_iff.mp hsuffix with heq | hsuffix
  · obtain ⟨htold, rfl⟩ := List.cons.inj heq
    obtain ⟨rfl, hanswer⟩ := Sigma.mk.inj_iff.mp htold
    have hfound : s.tables.getActiveWorkRun id = found := (Except.ok.inj (eq_of_heq hanswer)).symm
    rw [← hfound]
    exact Or.inl (onlyActive_getActiveWorkRun hsound id)
  · exact Or.inr ⟨earlier, hknown, hsuffix⟩

/-- What the next answer adds. -/
theorem DismissalsHold.next (hsound : RunsSound s.tables) {c : WorkCall} {env : WorkEnv}
    (hbefore : DismissalsHold h s) (hafter : DismissalsHold h (c.exec env s).2) :
    DismissalsHold (⟨c, (c.exec env s).1⟩ :: h) (c.exec env s).2 where
  runs := hafter.runs.cons (runRead_exec hsound c env)
  found := hafter.found.cons (foundOrEnded_exec c env)
  skipped := fun id hknown => (knownSkipped_exec hknown).elim (fun hstored => hstored)
    (hafter.skipped id)
  stillSkipped := fun id hopen =>
    hbefore.stillSkipped id (unskipped_exec (hbefore.skipped id) hopen)
  searched := fun id found hsearched => (searched_exec hsound hsearched).elim
    (fun honly => honly) (hafter.searched id found)

/-- A skipped item stays skipped, unless its dismissal has overtaken the copy that is put. -/
theorem storedSkipped_exec {c : WorkCall} {env : WorkEnv} (hhold : DismissalsHold h s)
    (hreopens : ¬ rules.reopens) (hc : Allowed rules h c)
    (hcond : DismissalNotOvertaken c env s) {id : String} (hskipped : StoredSkipped id s.tables) :
    StoredSkipped id (c.exec env s).2.tables := by
  rcases WorkCall.exec_items c env s with heq | ⟨copy, row, rfl, heq⟩ |
      ⟨run, maxConcurrent, tables, rfl, hclaim, heq⟩
  · unfold StoredSkipped
    rw [heq]
    exact hskipped
  · rw [heq]
    by_cases hid : row.id = id
    · refine ⟨_, (WorkTables.get?_putWorkItem row id).trans (if_pos hid), ?_⟩
      cases copy with
      | none => exact absurd hc hreopens
      | some copy =>
        have hwrite : ItemWrite h copy row := hc.resolve_left hreopens
        by_contra hrow
        have hcopy : copy.status = .skipped := by
          by_contra hcopy
          rw [← hid] at hskipped
          exact hcond hcopy hrow hskipped
        rcases hwrite.skipped hcopy with hagain | hopen
        · exact hrow hagain
        · exact hhold.stillSkipped _ hopen
    · obtain ⟨item, hitem, hstatus⟩ := hskipped
      exact ⟨item, (WorkTables.get?_putWorkItem row id).trans ((if_neg hid).trans hitem), hstatus⟩
  · obtain ⟨opened, hstart, _, _, htables⟩ := WorkTables.claim_some_true hclaim
    obtain ⟨hstored, hopenedId, _, hopened, _⟩ := WorkTables.startable_some hstart
    obtain ⟨item, hitem, hstatus⟩ := hskipped
    have hid : opened.id ≠ id := by
      intro hsame
      rw [← hopenedId, hsame, Option.mem_def.mp hitem, Option.some.injEq] at hstored
      rw [hstored, hopened] at hstatus
      cases hstatus
    rw [heq, htables]
    exact ⟨item, (Table.get?_put _ _ _).trans ((if_neg hid).trans hitem), hstatus⟩

end Answers

/-- The rule for dismissals. -/
theorem dismissals_keep (rules : WorkRules) (hreopens : ¬ rules.reopens) :
    Pool.Keeps (workProtocol rules) startHistory WorkCall.exec workFork DismissalNotOvertaken
      fun modes s => RunsSound s.tables ∧ ∀ i, DismissalsHold (modes i) s := by
  have hchanges : ∀ {h : WorkHistory} {s : WorkState} (c : WorkCall) (env : WorkEnv),
      DismissalsHold h s → Allowed rules h c → DismissalNotOvertaken c env s →
      RunChange s.tables (c.exec env s).2.tables ∧
        ∀ h', DismissalsHold h' s → DismissalsHold h' (c.exec env s).2 := by
    intro h s c env hhold hc hcond
    have hchange := runChange_exec hhold.runs c env hc hcond.runs
    refine ⟨hchange, fun h' hhold' => hhold'.mono hchange ?_⟩
    exact fun id hskipped => storedSkipped_exec hhold hreopens hc hcond hskipped
  apply Pool.Keeps.of_local
  · intro h s c env _ _ _ _
    trivial
  · intro h s c env hsound hhold hc hcond
    obtain ⟨hchange, hstable⟩ := hchanges c env hhold hc hcond
    exact ⟨hchange.sound hsound, hhold.next hsound (hstable h hhold), hstable⟩
  · intro h c r p _ _ hfork
    exact workFork_follows c r p hfork
  · intro h s c env hsound _ _ _ _
    exact (dismissalsHold_nil s).next hsound (dismissalsHold_nil _)

/-! ## What a dismissal does -/

/-- What a dismissal has been told when it returns. -/
structure DismissalDone (h : WorkHistory) (id : String) : Prop where
  skipped : KnownSkipped h id
  ended : ∃ found, Searched h id found ∧ ∀ run, found = some run →
    ∃ copy row, Heard h (.putWorkRun copy row) () ∧ row.id = run.id ∧ row.status.isActive = false

section Dismiss

variable {rules : WorkRules} {h : WorkHistory}

theorem skipItem_orderly {id : String} {item : WorkItem}
    (hfound : Heard h (.getWorkItem id) (some item)) (now : Instant) :
    Orderly rules h (skipItem item now) fun h' _ => KnownSkipped h' item.id := by
  refine Obeys.ite (fun hskipped => orderly_pure (.found hfound hskipped)) fun _ => ?_
  refine ask_orderly (Or.inr (itemWrite_skipped rfl rfl)) fun h₁ _ _ hput => ?_
  have hknown := KnownSkipped.put hput rfl
  exact hknown

theorem cancelActive_orderly {workItemId : String} {found : Option WorkRun}
    (hfound : Heard h (.getActiveWorkRun workItemId) found) (now : Instant) :
    Orderly rules h (cancelActive found now) fun h' _ => ∀ run, found = some run →
      ∃ copy row, Heard h' (.putWorkRun copy row) () ∧ row.id = run.id ∧
        row.status.isActive = false := by
  cases found with
  | none =>
    refine orderly_pure fun run hrun => ?_
    cases hrun
  | some run =>
    refine calm_then (calm_attempt (ask_calm trivial)) fun h₁ _ hsub₁ => ?_
    refine ask_orderly (cancelled_write (.active (hfound.mono hsub₁)) now) fun h₂ _ _ hput => ?_
    intro other hother
    cases hother
    exact ⟨_, _, hput, rfl, rfl⟩

theorem dismissWorkItem_orderly (id : String) :
    Orderly rules h (dismissWorkItem id) fun h' _ => ∃ item,
      Heard h' (.getWorkItem id) (some item) ∧ DismissalDone h' item.id := by
  refine orderly_then (requireItem_orderly id) fun h₁ item _ hfound => ?_
  refine ask_then trivial fun h₂ now hsub₂ _ => ?_
  refine orderly_then (skipItem_orderly (hfound.mono hsub₂) now) fun h₃ _ hsub₃ hskipped => ?_
  refine ask_then_last trivial fun (found : Option WorkRun) => ?_
  refine orderly_then (cancelActive_orderly heard_head now) fun h₅ _ hsub₅ hended => ?_
  refine calm_then (abandonDelivery_calm _ _) fun h₆ _ hsub₆ => ?_
  refine ask_orderly trivial fun h₇ _ hsub₇ _ => ?_
  have hlate := (hsub₅.trans hsub₆).trans hsub₇
  have hlater := (List.suffix_cons _ h₃).trans hlate
  refine ⟨item, hfound.mono ((hsub₂.trans hsub₃).trans hlater), hskipped.mono hlater, found, ?_, ?_⟩
  · exact ⟨h₃, hskipped, hlate⟩
  · intro run hrun
    obtain ⟨copy, row, hput, hid, hstatus⟩ := hended run hrun
    exact ⟨copy, row, hput.mono (hsub₆.trans hsub₇), hid, hstatus⟩

end Dismiss

/-- A dismissal that is done leaves the item dismissed. -/
theorem DismissalsHold.dismissed {h : WorkHistory} {s : WorkState} (hhold : DismissalsHold h s)
    {id : String} (hdone : DismissalDone h id) : Dismissed id s.tables := by
  refine ⟨hhold.skipped id hdone.skipped, ?_⟩
  obtain ⟨found, hsearched, hended⟩ := hdone.ended
  have honly := hhold.searched id found hsearched
  apply activeRuns_of_onlyActive
  cases found with
  | none => exact honly
  | some run =>
    obtain ⟨copy, row, hput, hid, hstatus⟩ := hended run rfl
    have hrun : EndedRun row.id s.tables := hhold.found _ hput hstatus
    rw [hid] at hrun
    exact honly.ended hrun

/-! ## Every run -/

/-- Any operation may run beside a dismissal. -/
def dismissalRules : WorkRules := { limits := fun _ _ => True, replaces := True, reopens := False }

theorem WorkOperation.program_dismissal (digest : Digest) {op : WorkOperation}
    (hkeeps : op.KeepsDismissed) : Calm dismissalRules [] (op.program digest) := by
  have hlimits : op.LimitsBy dismissalRules.limits := by
    cases op with
    | runWorkItem dispatcher id => exact fun _ => trivial
    | tryRecipe dispatcher recipeId threadId => exact fun _ => trivial
    | _ => trivial
  exact op.program_calm trivial hlimits (Or.inr hkeeps)

/-- What is expected of the end of program `i`. -/
def DismissalEnds (ops : List WorkOperation) (i : Nat) (h : WorkHistory)
    (r : Except Thrown Unit) : Prop :=
  ∀ id, ops[i]? = some (.dismissWorkItem id) → r = .ok () →
    ∃ item, Heard h (.getWorkItem id) (some item) ∧ DismissalDone h item.id

theorem dismissals_follow (digest : Digest) (ops : List WorkOperation)
    (hops : ∀ op ∈ ops, op.KeepsDismissed) (state : WorkState) :
    (WorkPool.start (ops.map (·.program digest)) state).Follow (workProtocol dismissalRules)
      (DismissalEnds ops) fun _ => [] := by
  intro i p hp
  rw [show (WorkPool.start (ops.map (·.program digest)) state).procs =
    ops.map (·.program digest) from rfl, List.getElem?_map] at hp
  obtain ⟨op, hop, rfl⟩ := Option.map_eq_some_iff.mp hp
  have hcalm := WorkOperation.program_dismissal digest (hops op (List.mem_of_getElem? hop))
  cases op with
  | dismissWorkItem id =>
    apply Follows.mono (dismissWorkItem_orderly id)
    intro h r hpost id' hid hr
    rw [hop, Option.some.injEq, WorkOperation.dismissWorkItem.injEq] at hid
    rw [← hid]
    exact hpost.2 () hr
  | _ =>
    apply Follows.mono hcalm
    intro h r _ id hid
    rw [hop] at hid
    cases hid

theorem dismissals_freeEnds (digest : Digest) (ops : List WorkOperation) (state : WorkState) :
    (WorkPool.start (ops.map (·.program digest)) state).FreeEnds (DismissalEnds ops) := by
  intro n hn h r id hid
  rw [show (WorkPool.start (ops.map (·.program digest)) state).procs =
    ops.map (·.program digest) from rfl, List.length_map] at hn
  rw [List.getElem?_eq_none hn] at hid
  cases hid

/-- From its return on a dismissal has the item dismissed. -/
theorem dismissed_of_returned (digest : Digest) (ops : List WorkOperation)
    (hops : ∀ op ∈ ops, op.KeepsDismissed) (state : WorkState) (hstart : RunsSound state.tables)
    (events : List (Nat × WorkEnv))
    (hcond : Along WorkPool.step (Pool.Meets DismissalNotOvertaken)
      (WorkPool.start (ops.map (·.program digest)) state) events) {i : Nat} {id : String}
    (hop : ops[i]? = some (.dismissWorkItem id))
    (hreturned : (run WorkPool.step (WorkPool.start (ops.map (·.program digest)) state)
      events).returned i = true) :
    Dismissed id (run WorkPool.step (WorkPool.start (ops.map (·.program digest)) state)
      events).state.tables := by
  have hkeeps := dismissals_keep dismissalRules fun hreopens => hreopens
  obtain ⟨modes, hfollow, _, hhold⟩ := hkeeps.run (dismissals_freeEnds digest ops state)
    (dismissals_follow digest ops hops state) ⟨hstart, fun _ => dismissalsHold_nil _⟩ events hcond
  obtain ⟨⟨⟩, hdone⟩ := Pool.returned_eq_true hreturned
  obtain ⟨item, hfound, hend⟩ := hfollow.ended hdone id hop rfl
  have hid : item.id = id := (hhold i).found _ hfound
  rw [← hid]
  exact (hhold i).dismissed hend

/-- Whenever everything has finished, each dismissal that returned has its item dismissed. -/
def DismissalFinal (ops : List WorkOperation) (pool : WorkPool) (events : List (Nat × WorkEnv)) :
    Prop :=
  ∀ first rest, events = first ++ rest → (run WorkPool.step pool first).finished = true →
    ∀ i id, ops[i]? = some (.dismissWorkItem id) →
      (run WorkPool.step pool first).returned i = true →
      Dismissed id (run WorkPool.step pool first).state.tables

/-- Dismissal is final in every run of starts, retries, refreshes and the other operations in
which no copy of an item or a run is put that a dismissal or an end has overtaken. -/
theorem dismissal_final (digest : Digest) (ops : List WorkOperation)
    (hops : ∀ op ∈ ops, op.KeepsDismissed) (state : WorkState) (hstart : RunsSound state.tables)
    (events : List (Nat × WorkEnv))
    (hcond : Along WorkPool.step (Pool.Meets DismissalNotOvertaken)
      (WorkPool.start (ops.map (·.program digest)) state) events) :
    DismissalFinal ops (WorkPool.start (ops.map (·.program digest)) state) events := by
  intro first rest hsplit _ i id hop hreturned
  rw [hsplit] at hcond
  exact dismissed_of_returned digest ops hops state hstart first ((along_append ..).mp hcond).1
    hop hreturned

/-- A supervisor's tick and a dismissal. -/
def tickAndDismissal : List WorkOperation := [.refreshRuns, .dismissWorkItem "w1"]

theorem tickAndDismissal_keeps : ∀ op ∈ tickAndDismissal, op.KeepsDismissed := by
  intro op hop
  rcases List.mem_cons.mp hop with rfl | hop
  · trivial
  · rw [List.mem_singleton.mp hop]
    trivial

def tickAndDismissalPool : WorkPool :=
  WorkPool.start (tickAndDismissal.map (·.program sampleDigest)) oneActiveRun

/-- The dismissal falls between two of the tick's looks at the item. -/
theorem dismissal_final_atCheck :
    DismissalFinal tickAndDismissal tickAndDismissalPool (List.replicate 7 (0, saysBye) ++
      List.replicate 8 (1, saysBye) ++ List.replicate 3 (0, saysBye)) :=
  dismissal_final sampleDigest tickAndDismissal tickAndDismissal_keeps oneActiveRun
    (by decide +kernel) _ (by decide +kernel)

/-- The tick has looked at the item for the last time and is about to store it as done when the
dismissal comes and goes; then the item is done. -/
theorem dismissal_overwritten :
    ¬ DismissalFinal tickAndDismissal tickAndDismissalPool ((List.replicate 16 (0, saysBye) ++
      List.replicate 8 (1, saysBye) ++ List.replicate 2 (0, saysBye)) ++ []) := by
  intro h
  have hdismissed := h _ _ rfl (by decide +kernel) 1 "w1" rfl (by decide +kernel)
  exact absurd hdismissed (by decide +kernel)

end Regenic.Work
