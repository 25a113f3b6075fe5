import Regenic.Work.FlushDiscipline

/-!
Every operation of the work services keeps to the rules: runs are written from runs that were
read, active only from active ones, results are enqueued over the delivery that was read, and
a start is claimed under the cap of its mode.
-/

namespace Regenic.Work

open Lib Reply

variable {rules : WorkRules} {h : WorkHistory} {digest : Digest} {dispatcher : Nat}
  {item : WorkItem} {recipe : Recipe} {run : WorkRun}

/-! ## Supervision -/

theorem cancelled_write (hstored : Stored h run.id) (now : Instant) :
    RunWrite h run (cancelWorkRun run now) :=
  ⟨rfl, hstored, nofun, fun hstart => absurd rfl hstart⟩

/-- Where it does not abandon, the item was just found not to be dismissed. -/
theorem abandonIfSkipped_orderly (hstored : Stored h run.id) (item : WorkItem) :
    Orderly rules h (abandonIfSkipped item run)
      fun h' skipped => skipped = false → FoundOpen h h' item.id := by
  refine ask_then_last trivial fun (latest : Option WorkItem) => ?_
  refine Obeys.ite (fun _ => ?_) fun hopen => ?_
  · have hsub := List.suffix_cons (⟨.getWorkItem item.id, .ok latest⟩ : Told _) h
    refine Obeys.ite (fun _ => ?_) fun _ => orderly_pure nofun
    refine ask_then trivial fun h₂ now hsub₂ _ => ?_
    refine ask_then (cancelled_write (hstored.mono (hsub.trans hsub₂)) now) fun h₃ _ _ _ => ?_
    exact orderly_pure nofun
  · apply orderly_pure
    intro _
    exact ⟨latest, List.suffix_refl _, Bool.eq_false_iff.mpr hopen⟩

theorem unlessSkipped_calm {p : WorkProg Unit} (hstored : Stored h run.id) (item : WorkItem)
    (hp : ∀ h', h <:+ h' → FoundOpen h h' item.id → Calm rules h' p) :
    Calm rules h (unlessSkipped item run p) := by
  refine orderly_then (abandonIfSkipped_orderly hstored item) fun h₁ skipped hsub₁ hopen => ?_
  refine Obeys.ite (fun _ => calm_pure _) fun hne => ?_
  exact hp h₁ hsub₁ (hopen (Bool.eq_false_iff.mpr hne))

/-- The item is written only right after it was found not to be dismissed. -/
theorem settleItem_calm (hstored : Stored h run.id) (hitem : Known h item) (recipe : Recipe)
    (status : WorkItemStatus) (now : Instant) :
    Calm rules h (settleItem item recipe run status now) := by
  refine unlessSkipped_calm hstored item fun h₁ _ hopen => ?_
  have hwrite : ItemWrite h₁ item { item with status, updatedAt := now } :=
    ⟨rfl, fun hskipped => Or.inr ⟨h, hitem hskipped, hopen⟩⟩
  have hput : Calm rules h₁ (putStatus item status now) :=
    Obeys.ite (fun _ => ask_calm (Or.inr hwrite)) fun _ => calm_pure _
  refine calm_then hput fun h₂ _ _ => ?_
  exact Obeys.ite (fun _ => ask_calm trivial) fun _ => calm_pure _

theorem enqueueResult_calm (hreplaces : rules.replaces) (hstored : Stored h run.id)
    (hitem : Known h item) {delivery : Option WorkDelivery}
    (hheard : Heard h (.getWorkDeliveryByItem item.id) delivery) (recipe : Recipe)
    (handle : ExecutorRunHandle) (now : Instant) :
    Calm rules h (enqueueResult digest item recipe run handle delivery now) := by
  refine unlessSkipped_calm hstored item fun h₁ hsub₁ _ => ?_
  refine ask_then trivial fun h₂ newId hsub₂ _ => ?_
  have hinput : Heard h₂ (.getWorkDeliveryByItem
      (writeBackInput newId item recipe handle now).workItemId) delivery :=
    hheard.mono (hsub₁.trans hsub₂)
  refine ask_then (.enqueue hreplaces hinput) fun h₃ _ hsub₃ _ => ?_
  have hsub := (hsub₁.trans hsub₂).trans hsub₃
  exact settleItem_calm (hstored.mono hsub) (hitem.mono hsub) _ _ _

theorem found_backed {id : String} {row : WorkDelivery}
    (hheard : Heard h (.getWorkDeliveryByItem id) (some row)) : Backed h row :=
  ⟨.found hheard, .found hheard⟩

theorem applyResult_calm (hreplaces : rules.replaces) (hstored : Stored h run.id)
    (hitem : Known h item) (recipe : Recipe) (handle : ExecutorRunHandle) (now : Instant) :
    Calm rules h (applyResult digest item recipe run handle now) := by
  refine ask_then trivial fun h₁ (delivery : Option WorkDelivery) hsub₁ hdelivery => ?_
  refine ask_then trivial fun h₂ wants hsub₂ _ => ?_
  have hstored₂ := hstored.mono (hsub₁.trans hsub₂)
  have hitem₂ := hitem.mono (hsub₁.trans hsub₂)
  have hdelivery₂ := hdelivery.mono hsub₂
  refine Obeys.ite (fun _ => ?_) fun _ => ?_
  · exact enqueueResult_calm hreplaces hstored₂ hitem₂ hdelivery₂ _ _ _
  · cases hrow : delivery.filter fun row => handle.status = .completed ∧ row.status ≠ .acked with
    | none => exact settleItem_calm hstored₂ hitem₂ _ _ _
    | some row =>
      rw [(Option.filter_eq_some_iff.mp hrow).1] at hdelivery₂
      refine calm_then (calm_putDerived (found_backed hdelivery₂) (derived_abandoned _ _))
        fun h₃ _ hsub₃ => ?_
      exact settleItem_calm (hstored₂.mono hsub₃) (hitem₂.mono hsub₃) _ _ _

/-- The run that a handle is applied to was stored, and active. -/
theorem applyHandle_calm (hreplaces : rules.replaces) (hstored : Stored h run.id)
    (hlive : Live h run.status) (hitem : Known h item) (recipe : Recipe)
    (handle : ExecutorRunHandle) : Calm rules h (applyHandle digest item recipe run handle) := by
  refine unlessSkipped_calm hstored item fun h₁ hsub₁ _ => ?_
  refine ask_then trivial fun h₂ now hsub₂ _ => ?_
  have hstored₂ := hstored.mono (hsub₁.trans hsub₂)
  have hlive₂ := hlive.mono (hsub₁.trans hsub₂)
  have hnext : Stored h₂ (nextRun run handle now).id := hstored₂
  refine unlessSkipped_calm hnext item fun h₃ hsub₃ _ => ?_
  have hwrite : RunWrite h₃ run (nextRun run handle now) :=
    ⟨rfl, hstored₂.mono hsub₃, fun _ => hlive₂.mono hsub₃, fun hstart => absurd rfl hstart⟩
  refine ask_then hwrite fun h₄ _ hsub₄ _ => ?_
  refine unlessSkipped_calm (hnext.mono (hsub₃.trans hsub₄)) item fun h₅ hsub₅ _ => ?_
  have hsub := (hsub₃.trans hsub₄).trans hsub₅
  exact applyResult_calm hreplaces (hnext.mono hsub)
    (hitem.mono ((hsub₁.trans hsub₂).trans hsub)) _ _ _

theorem refreshOne_calm (hreplaces : rules.replaces) (hstored : Stored h run.id)
    (hlive : Live h run.status) (hitem : Known h item) (recipe : Recipe) :
    Calm rules h (refreshOne digest item recipe run) := by
  refine Obeys.ite (fun _ => calm_pure _) fun _ => ?_
  refine ask_then trivial fun h₁ known hsub₁ _ => ?_
  refine Obeys.ite (fun _ => ?_) fun _ => calm_pure _
  refine ask_then trivial fun h₂ handle hsub₂ _ => ?_
  have hsub := hsub₁.trans hsub₂
  refine Obeys.ite (fun _ => ?_) fun _ => ?_
  · refine ask_then trivial fun h₃ reaped hsub₃ _ => ?_
    have hsub' := hsub.trans hsub₃
    exact applyHandle_calm hreplaces (hstored.mono hsub') (hlive.mono hsub') (hitem.mono hsub') _ _
  · exact applyHandle_calm hreplaces (hstored.mono hsub) (hlive.mono hsub) (hitem.mono hsub) _ _

theorem withActiveRun_calm {p : Recipe → WorkRun → WorkProg Unit} (item : WorkItem)
    (hp : ∀ h' recipe run, h <:+ h' → Stored h' run.id → Live h' run.status →
      Calm rules h' (p recipe run)) :
    Calm rules h (withActiveRun item p) := by
  refine calm_then (recipeOf_calm item) fun h₁ recipe hsub₁ => ?_
  refine ask_then trivial fun h₂ (found : Option WorkRun) hsub₂ hfound => ?_
  cases recipe with
  | none => exact calm_pure _
  | some recipe =>
    cases found with
    | none => exact calm_pure _
    | some run => exact hp h₂ recipe run (hsub₁.trans hsub₂) (.active hfound) (.found hfound)

theorem refreshEach_calm (hreplaces : rules.replaces) (items : List WorkItem)
    (hitems : ∀ item ∈ items, Known h item) : Calm rules h (refreshEach digest items) := by
  induction items generalizing h with
  | nil => exact calm_pure _
  | cons item rest ih =>
    have hfirst : Calm rules h (withActiveRun item fun recipe run => do
        let _ ← attempt (refreshOne digest item recipe run)
        pure ()) := by
      refine withActiveRun_calm item fun h₁ recipe run hsub₁ hstored hlive => ?_
      have hitem := (hitems item List.mem_cons_self).mono hsub₁
      exact calm_then (calm_attempt (refreshOne_calm hreplaces hstored hlive hitem recipe))
        fun h₂ _ _ => calm_pure _
    refine calm_then hfirst fun h₁ _ hsub₁ => ih ?_
    intro other hother
    exact (hitems other (List.mem_cons_of_mem _ hother)).mono hsub₁

theorem refreshRuns_calm (hreplaces : rules.replaces) : Calm rules h (refreshRuns digest) := by
  refine ask_then trivial fun h₁ (items : List WorkItem) _ hlisted => ?_
  apply refreshEach_calm hreplaces
  intro item hitem hskipped
  exact .listed hlisted ((List.mem_insertionSort _).mp hitem) hskipped

theorem wake_calm (hreplaces : rules.replaces) (workItemId : String) :
    Calm rules h (wake digest workItemId) := by
  refine ask_then trivial fun h₁ (found : Option WorkItem) _ hfound => ?_
  cases found with
  | none => exact calm_pure _
  | some item =>
    refine Obeys.ite (fun _ => ?_) fun _ => calm_pure _
    have hitem : Known h₁ item := .found hfound
    refine withActiveRun_calm item fun h₂ recipe run hsub₂ hstored hlive => ?_
    refine calm_then (calm_attempt (ask_calm trivial)) fun h₃ _ hsub₃ => ?_
    exact refreshOne_calm hreplaces (hstored.mono hsub₃) (hlive.mono hsub₃)
      (hitem.mono (hsub₂.trans hsub₃)) recipe

/-! ## Starting -/

theorem acquireStart_calm (recipe : Recipe) (workItemId : String) (mode : StartMode) :
    Calm rules h (acquireStart dispatcher recipe workItemId mode) := by
  refine Obeys.ite (fun _ => ?_) fun _ => ?_
  · exact ask_then trivial fun _ _ _ _ => calm_pure _
  · cases recipe.maxConcurrent with
    | none => exact ask_calm trivial
    | some max =>
      refine ask_then trivial fun h₁ starting _ _ => ?_
      refine Obeys.ite (fun _ => calm_pure _) fun _ => ?_
      exact ask_then trivial fun _ _ _ _ => ask_calm trivial

/-- A context that is still wanted has an active run. -/
theorem currentStart_orderly (run : WorkRun) :
    Orderly rules h (currentStart run)
      fun h' saved => Stored h' saved.id ∧ saved.status.isActive = true := by
  refine ask_then trivial fun h₁ (saved : Option WorkRun) _ hsaved => ?_
  refine ask_then trivial fun h₂ (item : Option WorkItem) hsub₂ _ => ?_
  cases saved with
  | none => exact orderly_throw _ _ _
  | some saved =>
    cases item with
    | none => exact orderly_throw _ _ _
    | some item =>
      refine Obeys.ite (fun _ => orderly_throw _ _ _) fun hwanted => orderly_pure ?_
      refine ⟨.run (hsaved.mono hsub₂), ?_⟩
      cases hactive : saved.status.isActive with
      | true => rfl
      | false => exact absurd (Or.inr hactive) hwanted

theorem recordSysout_calm (run : WorkRun) (sysoutId : String) (startState : Option StartState) :
    Calm rules h (recordSysout run sysoutId startState) := by
  refine orderly_then (currentStart_orderly run) fun h₁ saved _ hsaved => ?_
  refine ask_then trivial fun h₂ now hsub₂ _ => ?_
  apply ask_calm
  exact ⟨rfl, hsaved.1.mono hsub₂, fun _ => .active hsaved.2, fun _ => .active hsaved.2⟩

theorem startStep_calm (run : WorkRun) (step : StartStep) : Calm rules h (startStep run step) := by
  cases step with
  | spawnSysout =>
    refine orderly_then (currentStart_orderly run) fun h₁ _ _ _ => ?_
    exact ask_then trivial fun _ _ _ _ => recordSysout_calm _ _ _
  | writeStdin threadId =>
    refine orderly_then (currentStart_orderly run) fun h₁ _ _ _ => ?_
    exact ask_then trivial fun _ _ _ _ => recordSysout_calm _ _ _

theorem startSteps_calm (run : WorkRun) (steps : List StartStep) :
    Calm rules h (startSteps run steps) := by
  induction steps generalizing h with
  | nil => exact calm_pure _
  | cons step rest ih =>
    exact calm_then (calm_attempt (startStep_calm run step)) fun _ _ _ => ih

theorem executorStart_calm (item : WorkItem) (run : WorkRun) :
    Calm rules h (executorStart item run) := by
  refine ask_then trivial fun h₁ plan _ _ => ?_
  refine calm_then (startSteps_calm _ _) fun h₂ _ _ => ?_
  exact orderly_liftThrown _ fun _ _ => trivial

theorem refuseStart_calm {α : Type} (mode : StartMode) (code message : String) (status : Nat) :
    Calm rules h (refuseStart mode code message status : WorkProg (Option α)) :=
  Obeys.ite (fun _ => calm_pure _) fun _ => orderly_throw _ _ _

section SavedRun

variable {saved : WorkRun} {id : String} (hsaved : Heard h (.getWorkRun id) (some saved))

include hsaved

theorem failStart_calm (mode : StartMode) {latestItem : WorkItem}
    (hopen : latestItem.status ≠ .skipped) (error : Thrown) :
    Calm rules h (failStart mode saved latestItem error) := by
  refine ask_then trivial fun h₁ failedAt hsub₁ _ => ?_
  have hwrite : RunWrite h₁ saved { saved with
      startState := none
      status := .failed
      result := some { summary := errorMessage error }
      updatedAt := failedAt } :=
    ⟨rfl, .run (hsaved.mono hsub₁), nofun, fun hstart => absurd rfl hstart⟩
  refine ask_then hwrite fun h₂ _ _ _ => ?_
  refine ask_then (Or.inr (itemWrite_of_ne rfl hopen)) fun h₃ _ _ _ => ?_
  exact Obeys.ite (fun _ => calm_pure _) fun _ => Obeys.fail _

theorem leaveUncertain_calm {latestItem : WorkItem} (hopen : latestItem.status ≠ .skipped)
    (error : Thrown) : Calm rules h (leaveUncertain saved latestItem error) := by
  refine Obeys.ite (fun hpending => ?_) fun _ => calm_pure _
  refine ask_then trivial fun h₁ now hsub₁ _ => ?_
  have hstart : saved.startState ≠ none := by
    rw [hpending]
    nofun
  have hwrite : RunWrite h₁ saved { saved with
      startState := some .uncertain
      status := .waitingHuman
      result := some { summary := uncertainMessage error }
      updatedAt := now } :=
    ⟨rfl, .run (hsaved.mono hsub₁), fun _ => .starting (hsaved.mono hsub₁) hstart,
      fun _ => .active rfl⟩
  refine ask_then hwrite fun h₂ _ _ _ => ask_then trivial fun h₃ _ _ _ => ?_
  exact ask_calm (Or.inr (itemWrite_of_ne rfl hopen))

end SavedRun

theorem reportUncertain_calm (mode : StartMode) (run : WorkRun) (saved : Option WorkRun) :
    Calm rules h (reportUncertain mode run saved) :=
  Obeys.ite (fun _ => refuseStart_calm _ _ _ _) fun _ => refuseStart_calm _ _ _ _

theorem startFailed_calm (mode : StartMode) (item : WorkItem) (run : WorkRun) (error : Thrown) :
    Calm rules h (startFailed mode item run error) := by
  refine ask_then trivial fun h₁ (saved : Option WorkRun) _ hsaved => ?_
  refine ask_then trivial fun h₂ (latestItem : Option WorkItem) hsub₂ _ => ?_
  cases saved with
  | none => exact reportUncertain_calm _ _ _
  | some saved =>
    cases latestItem with
    | none => exact reportUncertain_calm _ _ _
    | some latestItem =>
      have hsaved₂ := hsaved.mono hsub₂
      refine Obeys.ite (fun hdefinite => ?_) fun _ => ?_
      · exact failStart_calm hsaved₂ _ hdefinite.2.2.2.2 _
      · refine Obeys.ite (fun hgoing => ?_) fun _ => reportUncertain_calm _ _ _
        exact calm_then (leaveUncertain_calm hsaved₂ hgoing.2 _)
          fun _ _ _ => reportUncertain_calm _ _ _

theorem startAcknowledged_calm (hreplaces : rules.replaces) (item : WorkItem) (recipe : Recipe)
    (run : WorkRun) (handle : ExecutorRunHandle) (startedAt : Instant) :
    Calm rules h (startAcknowledged digest item recipe run handle startedAt) := by
  refine ask_then trivial fun h₁ (saved : Option WorkRun) _ hsaved => ?_
  cases saved with
  | none => exact Obeys.fail _
  | some saved =>
    refine Obeys.ite (fun _ => calm_pure _) fun hgoing => ?_
    refine ask_then trivial fun h₂ now hsub₂ _ => ?_
    have hstart : saved.startState ≠ none := fun hnone => hgoing (Or.inr hnone)
    have hsaved₂ := hsaved.mono hsub₂
    have hlive : Live h₂ saved.status := .starting hsaved₂ hstart
    have hwrite : RunWrite h₂ saved (acknowledgedRun saved handle now) :=
      ⟨rfl, .run hsaved₂, fun _ => hlive, fun _ => hlive⟩
    refine ask_then hwrite fun h₃ _ hsub₃ _ => ?_
    let submitted := { acknowledgedRun saved handle now with startState := none }
    have hsavedStored : Stored h₃ saved.id := .run (hsaved₂.mono hsub₃)
    have hstored : Stored h₃ submitted.id := hsavedStored
    have hstillLive : Live h₃ submitted.status := hlive.mono hsub₃
    have hrunning : Known h₃ { item with status := .running, updatedAt := startedAt } :=
      fun hskipped => nomatch hskipped
    refine calm_then (applyHandle_calm hreplaces hstored hstillLive hrunning _ _) fun h₄ _ _ => ?_
    refine ask_then trivial fun h₅ (latest : Option WorkRun) _ _ => ?_
    cases latest with
    | some latest => exact calm_pure _
    | none => exact ask_then trivial fun _ _ _ _ => calm_pure _

theorem startRun_calm (hreplaces : rules.replaces) {mode : StartMode}
    (hlimits : rules.limits run.recipeId (startLimit recipe mode))
    (hactive : run.status.isActive = true) (item : WorkItem) (now : Instant) :
    Calm rules h (startRun digest item recipe mode run now) := by
  refine ask_then ⟨hactive, hlimits⟩ fun h₁ claimed _ _ => ?_
  refine Obeys.ite (fun _ => ?_) fun _ => refuseStart_calm _ _ _ _
  refine calm_then (calm_attempt (executorStart_calm item run)) fun h₂ outcome _ => ?_
  cases outcome with
  | ok handle => exact startAcknowledged_calm hreplaces _ _ _ _ _
  | error error => exact startFailed_calm _ _ _ _

theorem startClaimedItem_calm (hreplaces : rules.replaces) {mode : StartMode}
    (hlimits : rules.limits recipe.id (startLimit recipe mode)) (item : WorkItem) :
    Calm rules h (startClaimedItem digest item recipe mode) := by
  refine ask_then trivial fun h₁ now _ _ => ask_then trivial fun h₂ _ _ _ => ?_
  refine ask_then trivial fun h₃ _ _ _ => ask_then trivial fun h₄ (uuid : String) _ _ => ?_
  exact startRun_calm hreplaces hlimits rfl _ _

/-- A start is handed no dismissed item, unless dismissed items are opened again. -/
def Startable (rules : WorkRules) (item : WorkItem) : Prop :=
  rules.reopens ∨ item.status ≠ .skipped

theorem Startable.write (hopen : Startable rules item) {row : WorkItem} (hid : row.id = item.id) :
    rules.reopens ∨ ItemWrite h item row := hopen.imp_right (itemWrite_of_ne hid)

theorem noteStartFailed_calm (hopen : Startable rules item) (recipe : Recipe) (error : String)
    (mode : StartMode) : Calm rules h (noteStartFailed item recipe error mode) := by
  refine ask_then trivial fun h₁ now _ _ => ask_then trivial fun h₂ uuid _ _ => ?_
  refine ask_then ⟨rfl, rfl⟩ fun h₃ _ _ _ => ?_
  exact Obeys.ite (fun _ => ask_calm (hopen.write rfl)) fun _ => calm_pure _

theorem startReserved_calm (hreplaces : rules.replaces) {mode : StartMode}
    (hlimits : rules.limits recipe.id (startLimit recipe mode)) (item : WorkItem) :
    Calm rules h (startReserved digest dispatcher item recipe mode) := by
  refine calm_then (acquireStart_calm _ _ _) fun h₁ acquired _ => ?_
  refine Obeys.ite (fun _ => ?_) fun _ => calm_pure _
  refine calm_then (calm_attempt (startClaimedItem_calm hreplaces hlimits item))
    fun h₂ result _ => ?_
  exact ask_then trivial fun _ _ _ _ => orderly_liftThrown _ fun _ _ => trivial

/-- A start claims under the cap of its mode. -/
theorem startItem_calm (hreplaces : rules.replaces) {mode : StartMode}
    (hlimits : rules.limits recipe.id (startLimit recipe mode)) (hopen : Startable rules item) :
    Calm rules h (startItem digest dispatcher item recipe mode) := by
  refine ask_then trivial fun h₁ _ _ _ => Obeys.ite (fun _ => refuseStart_calm _ _ _ _) fun _ => ?_
  refine ask_then trivial fun h₂ _ _ _ => Obeys.ite (fun _ => ?_) fun _ => ?_
  · exact calm_then (noteStartFailed_calm hopen _ _ _) fun _ _ _ => refuseStart_calm _ _ _ _
  · refine ask_then trivial fun h₃ _ _ _ => ?_
    refine Obeys.ite (fun _ => refuseStart_calm _ _ _ _) fun _ => ?_
    refine ask_then trivial fun h₄ _ _ _ => ?_
    exact Obeys.ite (fun _ => refuseStart_calm _ _ _ _) fun _ =>
      startReserved_calm hreplaces hlimits item

section Retries

variable (hreplaces : rules.replaces) (hlimits : rules.limits recipe.id recipe.maxConcurrent)

include hreplaces hlimits

theorem startAuto_calm (hopen : Startable rules item) :
    Calm rules h (startAuto digest dispatcher item recipe) :=
  calm_then (startItem_calm hreplaces hlimits hopen) fun _ _ _ => calm_pure _

theorem retryOpen_calm (hopen : Startable rules item) :
    Calm rules h (retryOpen digest dispatcher item recipe) := by
  refine ask_then trivial fun h₁ (active : Option WorkRun) _ _ => ?_
  cases active with
  | some active => exact calm_pure _
  | none =>
    refine ask_then trivial fun h₂ _ _ _ => ask_then trivial fun h₃ _ _ _ => ?_
    exact Obeys.ite (fun _ => calm_pure _) fun _ => startAuto_calm hreplaces hlimits hopen

theorem retryFailed_calm (hopen : Startable rules item) :
    Calm rules h (retryFailed digest dispatcher item recipe) := by
  refine ask_then trivial fun h₁ _ _ _ => ask_then trivial fun h₂ _ _ _ => ?_
  refine Obeys.ite (fun _ => ?_) fun _ => calm_pure _
  refine ask_then trivial fun h₃ _ _ _ => ask_then (hopen.write rfl) fun h₄ _ _ _ => ?_
  exact startAuto_calm hreplaces hlimits (Or.inr nofun)

theorem retryOrResume_calm (item : WorkItem) :
    Calm rules h (retryOrResume digest dispatcher item recipe) := by
  unfold retryOrResume
  cases hstatus : item.status with
  | opened => exact retryOpen_calm hreplaces hlimits (Or.inr (by simp [hstatus]))
  | failed => exact retryFailed_calm hreplaces hlimits (Or.inr (by simp [hstatus]))
  | _ => exact calm_pure _

end Retries

end Regenic.Work
