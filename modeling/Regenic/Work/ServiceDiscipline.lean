import Regenic.Work.RunDiscipline

/-!
The operations of the work service keep to the rules, and so does every program of a process
that serves work: one theorem for all of them, under what the group of operations is allowed.
-/

namespace Regenic.Work

open Lib Reply

variable {rules : WorkRules} {h : WorkHistory} {digest : Digest} {dispatcher : Nat}
  {item : WorkItem} {recipe : Recipe} {run : WorkRun}

/-! ## Run -/

theorem requireItem_orderly (id : String) :
    Orderly rules h (requireItem id) fun h' item => Heard h' (.getWorkItem id) (some item) := by
  refine ask_then trivial fun h₁ (found : Option WorkItem) _ hfound => ?_
  cases found with
  | none => exact orderly_throw _ _ _
  | some item => exact Obeys.ite (fun _ => orderly_throw _ _ _) fun _ => orderly_pure hfound

theorem assertStartConfirmed_calm (run : WorkRun) : Calm rules h (assertStartConfirmed run) :=
  Obeys.ite (fun _ => orderly_throw _ _ _) fun _ => calm_pure _

theorem flushQueued_calm (opened : WorkItem) (recipe : Recipe) :
    Calm rules h (flushQueued opened recipe) := by
  refine ask_then trivial fun h₁ latest _ _ => ?_
  refine ask_then trivial fun h₂ (queued : Option WorkDelivery) _ hqueued => ?_
  cases queued with
  | none => exact calm_pure _
  | some queued =>
    refine ask_then trivial fun h₃ now hsub₃ _ => ?_
    refine Obeys.ite (fun _ => ?_) fun _ => calm_pure _
    refine ask_then trivial fun h₄ wants hsub₄ _ => ?_
    refine Obeys.ite (fun _ => ?_) fun _ => calm_pure _
    exact flushOne_calm ((found_backed hqueued).mono (hsub₃.trans hsub₄)) _ _ _

section Running

variable (hreplaces : rules.replaces) (hreopens : rules.reopens)
  (hmanual : rules.limits recipe.id none)

include hreplaces hreopens hmanual

theorem startManually_calm (item : WorkItem) :
    Calm rules h (startManually digest dispatcher item recipe) := by
  have hreopened : Calm rules h (startManually.reopened item) := by
    refine Obeys.ite (fun _ => calm_pure _) fun _ => ?_
    exact ask_then trivial fun _ _ _ _ => ask_then (Or.inl hreopens) fun _ _ _ _ => calm_pure _
  refine calm_then hreopened fun h₁ opened _ => ?_
  refine calm_then (startItem_calm hreplaces hmanual (Or.inl hreopens)) fun h₂ _ _ => ?_
  exact flushQueued_calm opened recipe

theorem runActive_calm (hstored : Stored h run.id) (hlive : Live h run.status)
    (hitem : Known h item) : Calm rules h (runActive digest dispatcher item recipe run) := by
  refine calm_then (assertStartConfirmed_calm run) fun h₁ _ hsub₁ => ?_
  refine Obeys.ite (fun _ => ?_) fun _ => ?_
  · exact refreshOne_calm hreplaces (hstored.mono hsub₁) (hlive.mono hsub₁) (hitem.mono hsub₁)
      recipe
  · refine ask_then trivial fun h₂ now hsub₂ _ => ?_
    refine ask_then (cancelled_write (hstored.mono (hsub₁.trans hsub₂)) now) fun h₃ _ _ _ => ?_
    exact startManually_calm hreplaces hreopens hmanual item

theorem runItem_calm (hitem : Known h item) :
    Calm rules h (runItem digest dispatcher item recipe) := by
  refine ask_then trivial fun h₁ (delivery : Option WorkDelivery) hsub₁ hdelivery => ?_
  cases hresend : delivery.filter (needsResend item) with
  | some row =>
    rw [(Option.filter_eq_some_iff.mp hresend).1] at hdelivery
    exact flushOne_calm (found_backed hdelivery) item recipe true
  | none =>
    refine ask_then trivial fun h₂ (active : Option WorkRun) hsub₂ hactive => ?_
    cases active with
    | none => exact startManually_calm hreplaces hreopens hmanual item
    | some active =>
      exact runActive_calm hreplaces hreopens hmanual (.active hactive) (.found hactive)
        (hitem.mono (hsub₁.trans hsub₂))

end Running

theorem runWorkItem_calm (hreplaces : rules.replaces) (hreopens : rules.reopens)
    (hmanual : ∀ id, rules.limits id none) (id : String) :
    Calm rules h (runWorkItem digest dispatcher id) := by
  refine ask_then trivial fun h₁ _ _ _ => ?_
  refine orderly_then (requireItem_orderly id) fun h₂ item _ hfound => ?_
  refine calm_then (recipeOf_calm item) fun h₃ recipe hsub₃ => ?_
  cases recipe with
  | none => exact orderly_throw _ _ _
  | some recipe =>
    have hitem : Known h₃ item := .found (hfound.mono hsub₃)
    exact runItem_calm hreplaces hreopens (hmanual recipe.id) hitem

/-! ## Dismiss and cancel -/

theorem cancelActive_calm {workItemId : String} {found : Option WorkRun}
    (hfound : Heard h (.getActiveWorkRun workItemId) found) (now : Instant) :
    Calm rules h (cancelActive found now) := by
  cases found with
  | none => exact calm_pure _
  | some run =>
    refine calm_then (calm_attempt (ask_calm trivial)) fun h₁ _ hsub₁ => ?_
    exact ask_calm (cancelled_write (.active (hfound.mono hsub₁)) now)

theorem abandonDelivery_calm (workItemId : String) (now : Instant) :
    Calm rules h (abandonDelivery workItemId now) := by
  refine ask_then trivial fun h₁ (found : Option WorkDelivery) _ hfound => ?_
  cases found with
  | none => exact calm_pure _
  | some delivery =>
    refine Obeys.ite (fun _ => ?_) fun _ => calm_pure _
    exact calm_putDerived (found_backed hfound) (derived_abandoned _ _)

theorem skipItem_calm (item : WorkItem) (now : Instant) : Calm rules h (skipItem item now) :=
  Obeys.ite (fun _ => calm_pure _) fun _ => ask_calm (Or.inr (itemWrite_skipped rfl rfl))

theorem dismissWorkItem_calm (id : String) : Calm rules h (dismissWorkItem id) := by
  refine orderly_then (requireItem_orderly id) fun h₁ item _ _ => ?_
  refine ask_then trivial fun h₂ now _ _ => ?_
  refine calm_then (skipItem_calm item now) fun h₃ _ _ => ?_
  refine ask_then trivial fun h₄ found _ hfound => ?_
  refine calm_then (cancelActive_calm hfound now) fun h₅ _ _ => ?_
  exact calm_then (abandonDelivery_calm _ _) fun h₆ _ _ => ask_calm trivial

theorem requireExecution_orderly (id : String) :
    Orderly rules h (requireExecution id)
      fun h' item => Heard h' (.getWorkItem id) (some item) := by
  refine ask_then trivial fun h₁ (found : Option WorkItem) _ hfound => ?_
  cases found with
  | none => exact orderly_throw _ _ _
  | some item => exact Obeys.ite (fun _ => orderly_pure hfound) fun _ => orderly_throw _ _ _

theorem cancelAuxiliaryExecution_calm (id : String) :
    Calm rules h (cancelAuxiliaryExecution id) := by
  refine ask_then trivial fun h₁ _ _ _ => ?_
  refine orderly_then (requireExecution_orderly id) fun h₂ item _ _ => ?_
  refine Obeys.ite (fun _ => ?_) fun _ => calm_pure _
  refine ask_then trivial fun h₃ now _ _ => ask_then trivial fun h₄ found _ hfound => ?_
  refine calm_then (cancelActive_calm hfound now) fun h₅ _ _ => ?_
  exact ask_calm (Or.inr (itemWrite_skipped rfl rfl))

/-! ## Auxiliary executions and prompts -/

theorem refreshAuxiliaryExecution_calm (hreplaces : rules.replaces) (id : String) :
    Calm rules h (refreshAuxiliaryExecution digest id) := by
  refine ask_then trivial fun h₁ _ _ _ => ?_
  refine orderly_then (requireExecution_orderly id) fun h₂ item _ hfound => ?_
  refine withActiveRun_calm item fun h₃ recipe run hsub₃ hstored hlive => ?_
  exact refreshOne_calm hreplaces hstored hlive (.found (hfound.mono hsub₃)) recipe

theorem auxiliaryStartThrew_calm (hopen : Startable rules item) (error : Thrown) :
    Calm rules h (auxiliaryStartThrew item error) := by
  refine ask_then trivial fun h₁ runs _ _ => ?_
  refine Obeys.ite (fun _ => calm_pure _) fun _ => ?_
  refine Obeys.ite (fun _ => ?_) fun _ => Obeys.fail _
  exact ask_then trivial fun _ _ _ _ => ask_then (hopen.write rfl) fun _ _ _ _ => Obeys.fail _

theorem startPreparedAuxiliaryExecution_calm (hreplaces : rules.replaces)
    (hlimits : rules.limits recipe.id recipe.maxConcurrent) (hopen : Startable rules item) :
    Calm rules h (startPreparedAuxiliaryExecution digest dispatcher item recipe) := by
  refine calm_then (calm_attempt (startItem_calm hreplaces hlimits hopen)) fun h₁ result _ => ?_
  cases result with
  | error error => exact auxiliaryStartThrew_calm hopen error
  | ok started =>
    cases started with
    | some run => exact calm_pure _
    | none =>
      refine ask_then trivial fun h₂ now _ _ => ?_
      exact ask_then (Or.inr (itemWrite_skipped rfl rfl)) fun _ _ _ _ => orderly_throw _ _ _

theorem afterPrompt_calm (hreplaces : rules.replaces) (threadId : String) :
    Calm rules h (afterPrompt digest threadId) := by
  refine ask_then trivial fun h₁ (found : Option WorkItem) _ hfound => ?_
  cases found with
  | none => exact calm_pure _
  | some item =>
    refine ask_then trivial fun h₂ (active : Option WorkRun) hsub₂ hactive => ?_
    cases active with
    | none => exact calm_pure _
    | some run =>
      refine calm_then (assertStartConfirmed_calm run) fun h₃ _ hsub₃ => ?_
      refine calm_then (recipeOf_calm item) fun h₄ recipe hsub₄ => ?_
      cases recipe with
      | none => exact calm_pure _
      | some recipe =>
        refine ask_then trivial fun h₅ known hsub₅ _ => ?_
        refine Obeys.ite (fun _ => ?_) fun _ => calm_pure _
        refine ask_then trivial fun h₆ handle hsub₆ _ => ?_
        have hsub := ((hsub₃.trans hsub₄).trans hsub₅).trans hsub₆
        have hactive₆ := hactive.mono hsub
        have hitem : Known h₆ item := .onThread (hfound.mono (hsub₂.trans hsub))
        exact applyHandle_calm hreplaces (.active hactive₆) (.found hactive₆) hitem _ _

/-! ## Try -/

theorem openTryItem_calm (hreopens : rules.reopens) (recipe : Recipe) (threadId : String)
    (existing : Option WorkItem) (now : Instant) :
    Calm rules h (openTryItem recipe threadId existing now) := by
  have hnew : ∀ h', Calm rules h' (openTryItem.newItem recipe threadId now) := fun h' =>
    ask_then trivial fun _ _ _ _ => ask_then hreopens fun _ _ _ _ => calm_pure _
  cases existing with
  | none => exact hnew h
  | some item =>
    refine ask_then trivial fun h₁ _ _ _ => Obeys.ite (fun _ => ?_) fun _ => hnew h₁
    exact ask_then (Or.inl hreopens) fun _ _ _ _ => calm_pure _

theorem checkExisting_calm (recipe : Recipe) (existing : Option WorkItem) :
    Calm rules h (checkExisting recipe existing) := by
  cases existing with
  | none => exact calm_pure _
  | some existing =>
    refine ask_then trivial fun h₁ (active : Option WorkRun) _ _ => ?_
    cases tryConflict existing active recipe with
    | none => exact calm_pure _
    | some message => exact orderly_throw _ _ _

theorem tryRecipe_calm (hreplaces : rules.replaces) (hreopens : rules.reopens)
    (hmanual : ∀ id, rules.limits id none) (recipeId threadId : String) :
    Calm rules h (tryRecipe digest dispatcher recipeId threadId) := by
  refine Obeys.ite (fun _ => orderly_throw _ _ _) fun _ => ?_
  refine ask_then trivial fun h₁ _ _ _ => ?_
  refine ask_then trivial fun h₂ (recipe : Option Recipe) _ _ => ?_
  cases recipe with
  | none => exact orderly_throw _ _ _
  | some recipe =>
    refine ask_then trivial fun h₃ existing _ _ => ?_
    refine calm_then (checkExisting_calm recipe existing) fun h₄ _ _ => ?_
    refine ask_then trivial fun h₅ _ _ _ => Obeys.ite (fun _ => orderly_throw _ _ _) fun _ => ?_
    refine ask_then trivial fun h₆ now _ _ => ?_
    refine calm_then (openTryItem_calm hreopens recipe threadId existing now) fun h₇ item _ => ?_
    refine calm_then (abandonDelivery_calm item.id now) fun h₈ _ _ => ?_
    exact runWorkItem_calm hreplaces hreopens hmanual item.id

/-! ## All operations -/

/-- What a process that serves work may be asked to do. Dispatchers are told apart by their
memory. -/
inductive WorkOperation where
  | flushDeliveries
  | refreshRuns
  | wake (workItemId : String)
  | afterPrompt (threadId : String)
  | startItem (dispatcher : Nat) (item : WorkItem) (recipe : Recipe) (mode : StartMode)
  | retryOrResume (dispatcher : Nat) (item : WorkItem) (recipe : Recipe)
  | runWorkItem (dispatcher : Nat) (id : String)
  | tryRecipe (dispatcher : Nat) (recipeId threadId : String)
  | dismissWorkItem (id : String)
  | cancelAuxiliaryExecution (id : String)
  | refreshAuxiliaryExecution (id : String)
  | startPreparedAuxiliaryExecution (dispatcher : Nat) (item : WorkItem) (recipe : Recipe)

namespace WorkOperation

def program (digest : Digest) : WorkOperation → WorkProg Unit
  | .flushDeliveries => Work.flushDeliveries
  | .refreshRuns => Work.refreshRuns digest
  | .wake workItemId => Work.wake digest workItemId
  | .afterPrompt threadId => Work.afterPrompt digest threadId
  | .startItem dispatcher item recipe mode => do
    let _ ← Work.startItem digest dispatcher item recipe mode
    pure ()
  | .retryOrResume dispatcher item recipe => Work.retryOrResume digest dispatcher item recipe
  | .runWorkItem dispatcher id => Work.runWorkItem digest dispatcher id
  | .tryRecipe dispatcher recipeId threadId => Work.tryRecipe digest dispatcher recipeId threadId
  | .dismissWorkItem id => Work.dismissWorkItem id
  | .cancelAuxiliaryExecution id => Work.cancelAuxiliaryExecution id
  | .refreshAuxiliaryExecution id => Work.refreshAuxiliaryExecution digest id
  | .startPreparedAuxiliaryExecution dispatcher item recipe =>
    Work.startPreparedAuxiliaryExecution digest dispatcher item recipe

/-- The caps under which the operation may claim a start. -/
def LimitsBy (limits : String → Option Nat → Prop) : WorkOperation → Prop
  | .startItem _ _ recipe mode => limits recipe.id (startLimit recipe mode)
  | .retryOrResume _ _ recipe | .startPreparedAuxiliaryExecution _ _ recipe =>
    limits recipe.id recipe.maxConcurrent
  | .runWorkItem _ _ | .tryRecipe _ _ _ => ∀ id, limits id none
  | _ => True

/-- The operation opens no dismissed item: a user may run one again, and a start may not be
handed one. -/
def KeepsDismissed : WorkOperation → Prop
  | .runWorkItem _ _ | .tryRecipe _ _ _ => False
  | .startItem _ item _ _ | .startPreparedAuxiliaryExecution _ item _ => item.status ≠ .skipped
  | _ => True

/-- Whatever the answers are, every operation keeps to the rules. -/
theorem program_calm (hreplaces : rules.replaces) (op : WorkOperation)
    (hlimits : op.LimitsBy rules.limits) (hopens : rules.reopens ∨ op.KeepsDismissed) :
    Calm rules h (op.program digest) := by
  cases op with
  | flushDeliveries => exact flushDeliveries_calm
  | refreshRuns => exact refreshRuns_calm hreplaces
  | wake workItemId => exact wake_calm hreplaces workItemId
  | afterPrompt threadId => exact afterPrompt_calm hreplaces threadId
  | startItem dispatcher item recipe mode =>
    exact calm_then (startItem_calm hreplaces hlimits hopens) fun _ _ _ => calm_pure _
  | retryOrResume dispatcher item recipe => exact retryOrResume_calm hreplaces hlimits item
  | runWorkItem dispatcher itemId =>
    exact runWorkItem_calm hreplaces (hopens.resolve_right id) hlimits itemId
  | tryRecipe dispatcher recipeId threadId =>
    exact tryRecipe_calm hreplaces (hopens.resolve_right id) hlimits recipeId threadId
  | dismissWorkItem id => exact dismissWorkItem_calm id
  | cancelAuxiliaryExecution id => exact cancelAuxiliaryExecution_calm id
  | refreshAuxiliaryExecution id => exact refreshAuxiliaryExecution_calm hreplaces id
  | startPreparedAuxiliaryExecution dispatcher item recipe =>
    exact startPreparedAuxiliaryExecution_calm hreplaces hlimits hopens

end WorkOperation

/-! ## Pools -/

abbrev WorkPool : Type := Pool WorkCall.Response Thrown Unit WorkState

namespace WorkPool

def step : WorkPool → Nat × WorkEnv → WorkPool := Pool.step WorkCall.exec workFork

/-- The pool of some programs before their first call. -/
def start (programs : List (WorkProg Unit)) (state : WorkState) : WorkPool :=
  { procs := programs, state }

end WorkPool

end Regenic.Work
