import Regenic.Work.Effects

/-!
When a work result is sent once. A flush works from a copy of the delivery that it took before,
and every put overwrites the whole row; as long as no step works from a copy that the stored
row's payload or receipt has overtaken, a stored receipt stops all later sends.
-/

namespace Regenic.Work

open Lib Reply

/-! ## The flushers -/

/-- The first part of `runItem`: a result that could not be sent back is sent by force. -/
def resendOr (item : WorkItem) (recipe : Recipe) (otherwise : WorkProg Unit) : WorkProg Unit := do
  let delivery ← Call.getWorkDeliveryByItem item.id
  match delivery.filter (needsResend item) with
  | some delivery => flushOne item recipe delivery true
  | none => otherwise

theorem runItem_eq_resendOr (digest : Digest) (dispatcher : Nat) (item : WorkItem)
    (recipe : Recipe) :
    runItem digest dispatcher item recipe = resendOr item recipe (do
      match ← Call.getActiveWorkRun item.id with
      | some active => runActive digest dispatcher item recipe active
      | none => startManually digest dispatcher item recipe) := rfl

/-- Who flushes or abandons a delivery: a tick, the two flushes of `runWorkItem`, a dismissal. -/
inductive FlushCaller where
  | tick
  | resend (item : WorkItem) (recipe : Recipe)
  | queued (opened : WorkItem) (recipe : Recipe)
  | dismiss (id : String)

def FlushCaller.program : FlushCaller → WorkProg Unit
  | .tick => flushDeliveries
  | .resend item recipe => resendOr item recipe (pure ())
  | .queued opened recipe => flushQueued opened recipe
  | .dismiss id => dismissWorkItem id

/-- Flushers enqueue no results and open no items. -/
def flushRules : WorkRules := { limits := fun _ _ => True, replaces := False, reopens := False }

theorem FlushCaller.program_calm (caller : FlushCaller) :
    Calm flushRules [] caller.program := by
  cases caller with
  | tick => exact flushDeliveries_calm
  | queued opened recipe => exact flushQueued_calm opened recipe
  | dismiss id => exact dismissWorkItem_calm id
  | resend item recipe =>
    refine ask_then trivial fun h₁ (delivery : Option WorkDelivery) _ hdelivery => ?_
    cases hresend : delivery.filter (needsResend item) with
    | none => exact calm_pure _
    | some row =>
      rw [(Option.filter_eq_some_iff.mp hresend).1] at hdelivery
      exact flushOne_calm (found_backed hdelivery) item recipe true

/-! ## The property -/

/-- A send or a prompt answer for the payload. -/
def WorkCall.sendsPayload (ref : String × Option String) : WorkCall → Bool
  | .egressSend delivery _ | .answerPrompt delivery _ => delivery.payloadRef = ref
  | _ => false

def AcceptedSend (ref : String × Option String) (s : WorkState) : Prop :=
  ∃ send ∈ s.sends, send.accepted = true ∧ (send.workItemId, send.idempotencyKey) = ref

def StoredReceipt (ref : String × Option String) (s : WorkState) : Prop :=
  ∃ row ∈ s.tables.getWorkDeliveryByItem ref.1, row.payloadRef = ref ∧
    deliveryChannelReceipt row ≠ none

instance (ref : String × Option String) (s : WorkState) : Decidable (AcceptedSend ref s) :=
  inferInstanceAs (Decidable (∃ send ∈ s.sends, _))

instance (ref : String × Option String) (s : WorkState) : Decidable (StoredReceipt ref s) :=
  inferInstanceAs (Decidable (∃ row ∈ s.tables.getWorkDeliveryByItem ref.1, _))

/-- Once a send of a payload was accepted and its receipt stored, no later step sends that
payload. -/
def ResultSentOnce (pool : WorkPool) (events : List (Nat × WorkEnv)) : Prop :=
  ∀ first second, events = first ++ second → ∀ ref,
    AcceptedSend ref (run WorkPool.step pool first).state →
    StoredReceipt ref (run WorkPool.step pool first).state →
    Along WorkPool.step (Pool.Meets fun c _ _ => c.sendsPayload ref = false)
      (run WorkPool.step pool first) second

/-! ## The condition -/

/-- The stored row has the payload and the receipt of the copy. -/
def UpToDate (s : WorkState) (copy : WorkDelivery) : Prop :=
  ∀ stored ∈ s.tables.getWorkDeliveryByItem copy.workItemId,
    stored.idempotencyKey = copy.idempotencyKey ∧ stored.channelReceipt = copy.channelReceipt

instance (s : WorkState) (copy : WorkDelivery) : Decidable (UpToDate s copy) :=
  inferInstanceAs (Decidable (∀ stored ∈ s.tables.getWorkDeliveryByItem copy.workItemId, _))

/-- Puts, sends and prompt answers work from a copy that nobody has overtaken, and a receipt
that was not accepted takes no accepted one's place. -/
def NotOvertaken : WorkCall → WorkEnv → WorkState → Prop
  | .putWorkDelivery (some copy) row, _, s =>
    UpToDate s copy ∧ (deliveryChannelReceipt copy ≠ none → deliveryChannelReceipt row ≠ none)
  | .egressSend delivery _, _, s | .answerPrompt delivery _, _, s => UpToDate s delivery
  | _, _, _ => True

instance : (c : WorkCall) → (env : WorkEnv) → (s : WorkState) → Decidable (NotOvertaken c env s)
  | .putWorkDelivery (some copy) row, _, s =>
    inferInstanceAs (Decidable (UpToDate s copy ∧
      (deliveryChannelReceipt copy ≠ none → deliveryChannelReceipt row ≠ none)))
  | .putWorkDelivery none _, _, _ => isTrue trivial
  | .egressSend delivery _, _, s => inferInstanceAs (Decidable (UpToDate s delivery))
  | .answerPrompt delivery _, _, s => inferInstanceAs (Decidable (UpToDate s delivery))
  | .listWorkItems _, _, _ | .getWorkItem _, _, _ | .getWorkItemByThread _, _, _
  | .putWorkItem _ _, _, _ | .listWorkRuns _, _, _ | .getWorkRun _, _, _
  | .getActiveWorkRun _, _, _ | .putWorkRun _ _, _, _ | .claimWorkRunStart _ _, _, _
  | .listDueWorkDeliveries _, _, _ | .getWorkDeliveryByItem _, _, _
  | .latestWorkDelivery _, _, _ | .getRecipe _, _, _ | .listRecipes, _, _
  | .isStarting _ _, _, _ | .reserveStart _ _ _ _, _, _ | .takeStart _ _ _, _, _
  | .releaseStart _ _, _, _ | .startFlush _ _ _, _, _ | .withTimeout _ _, _, _
  | .settle _, _, _ | .expire _, _, _ | .outside _, _, _ => isTrue trivial

/-! ## The receipt stays -/

/-- The stored delivery of the item has an accepted receipt. -/
def HasReceipt (workItemId : String) (s : WorkState) : Prop :=
  ∃ row, s.tables.getWorkDeliveryByItem workItemId = some row ∧ deliveryChannelReceipt row ≠ none

theorem UpToDate.receipt {s : WorkState} {copy : WorkDelivery} (h : UpToDate s copy)
    (hreceipt : HasReceipt copy.workItemId s) : deliveryChannelReceipt copy ≠ none := by
  obtain ⟨stored, hstored, hsome⟩ := hreceipt
  have hsame := (h stored hstored).2
  rw [deliveryChannelReceipt_congr hsame] at hsome
  exact hsome

theorem HasReceipt.exec {workItemId : String} {h : WorkHistory} {s : WorkState} (c : WorkCall)
    (env : WorkEnv) (hreceipt : HasReceipt workItemId s) (hc : Allowed flushRules h c)
    (hcond : NotOvertaken c env s) : HasReceipt workItemId (c.exec env s).2 := by
  rcases WorkCall.exec_deliveries c env s with heq | ⟨copy, row, rfl, heq⟩
  · unfold HasReceipt WorkTables.getWorkDeliveryByItem
    rw [heq]
    exact hreceipt
  · unfold HasReceipt WorkTables.getWorkDeliveryByItem
    rw [heq]
    by_cases hitem : row.workItemId = workItemId
    · cases hc with
      | enqueue hreplaces => exact hreplaces.elim
      | patch hseen href hrow hvouched =>
        next copy =>
        have hcopy : copy.workItemId = workItemId := (Prod.ext_iff.mp href).1.symm.trans hitem
        rw [← hcopy] at hreceipt
        refine ⟨_, (WorkTables.get?_putWorkDelivery row _).trans (if_pos hitem), ?_⟩
        exact hcond.2 (hcond.1.receipt hreceipt)
    · obtain ⟨stored, hstored, hsome⟩ := hreceipt
      exact ⟨stored, ((WorkTables.get?_putWorkDelivery row _).trans (if_neg hitem)).trans hstored,
        hsome⟩

theorem HasReceipt.not_sends {ref : String × Option String} {h : WorkHistory} {s : WorkState}
    {c : WorkCall} {env : WorkEnv} (hreceipt : HasReceipt ref.1 s)
    (hc : Allowed flushRules h c) (hcond : NotOvertaken c env s) : c.sendsPayload ref = false := by
  cases c with
  | egressSend delivery text =>
    apply decide_eq_false
    intro href
    rw [← href] at hreceipt
    exact UpToDate.receipt hcond hreceipt hc
  | answerPrompt delivery text =>
    apply decide_eq_false
    intro href
    rw [← href] at hreceipt
    exact UpToDate.receipt hcond hreceipt hc
  | _ => rfl

/-- A work result is sent once in every run of ticks, of `runWorkItem`'s flushes and of
dismissals in which no step works from a copy of the delivery that a change of its payload or
receipt has overtaken. -/
theorem result_sentOnce (callers : List FlushCaller) (state : WorkState)
    (events : List (Nat × WorkEnv))
    (hcond : Along WorkPool.step (Pool.Meets NotOvertaken)
      (WorkPool.start (callers.map FlushCaller.program) state) events) :
    ResultSentOnce (WorkPool.start (callers.map FlushCaller.program) state) events := by
  intro first second hsplit ref _ hstored
  rw [hsplit] at hcond
  obtain ⟨hfirst, hsecond⟩ := (along_append ..).mp hcond
  have hcalm : ∀ p ∈ callers.map FlushCaller.program, Calm flushRules [] p := by
    intro p hp
    obtain ⟨caller, _, rfl⟩ := List.mem_map.mp hp
    exact caller.program_calm
  obtain ⟨modes, hfollow⟩ := run_follow state hcalm first
  have hreceipt : HasReceipt ref.1
      (run WorkPool.step (WorkPool.start (callers.map FlushCaller.program) state) first).state := by
    obtain ⟨row, hrow, _, hsome⟩ := hstored
    exact ⟨row, hrow, hsome⟩
  have hkeeps := orderly_keeps_state (HasReceipt ref.1)
    fun c env h (hc : Allowed flushRules _ c) (hmeets : NotOvertaken c env _) =>
      h.exec c env hc hmeets
  apply hkeeps.along _ (Pool.freeEnds_true _) hfollow ⟨hreceipt, allStand_true _ _⟩ second hsecond
  intro modes' s i c env hinv hc hmeets
  exact hinv.1.not_sends hc hmeets

def sampleDelivery : WorkDelivery :=
  { id := "d1", workItemId := "w1", recipeId := "r1", kind := .manual, unitKey := "u1"
    status := .queued, writeBack := .pending, attempts := 0
    payload := some { summary := "hi" }, idempotencyKey := some "k1"
    createdAt := 0, updatedAt := 0 }

/-- A finished item whose result is queued. -/
def queuedResult : WorkState where
  tables :=
    { items := (∅ : Table WorkItem.id).put (sampleItem "w1" .done)
      recipes := (∅ : Table Recipe.id).put sampleRecipe
      deliveries := (∅ : Table WorkDelivery.workItemId).put sampleDelivery }

def works : WorkEnv := agreeable { externalRunId := "x1", status := .completed } 1

/-- A tick and the flush after a manual start. -/
def twoFlushers : WorkPool :=
  WorkPool.start ([FlushCaller.tick, .queued (sampleItem "w1" .done) sampleRecipe].map
    FlushCaller.program) queuedResult

/-- One flusher after the other sends the result once. -/
theorem result_sentOnce_inTurns :
    ResultSentOnce twoFlushers (List.replicate 20 (1, works) ++ List.replicate 6 (0, works)) :=
  result_sentOnce _ _ _ (by decide +kernel)

/-- The tick has listed the row and started its flush when the other flush sends the result
and stores the receipt; the tick's flush then puts its copy back and sends again. -/
theorem result_sentTwice :
    ¬ ResultSentOnce twoFlushers
      ((List.replicate 5 (0, works) ++ List.replicate 20 (1, works)) ++
        (List.replicate 8 (2, works) ++ [(2, works)])) := by
  intro h
  have halong := h _ _ rfl ("w1", some "k1") (by decide +kernel) (by decide +kernel)
  obtain ⟨_, hlast, _⟩ := (along_append ..).mp halong
  have hsends : ∃ c ∈ (run WorkPool.step (run WorkPool.step twoFlushers
      (List.replicate 5 (0, works) ++ List.replicate 20 (1, works)))
      (List.replicate 8 (2, works))).asks 2, c.sendsPayload ("w1", some "k1") = true := by
    decide +kernel
  obtain ⟨c, hc, hsend⟩ := hsends
  have hnot : c.sendsPayload ("w1", some "k1") = false := hlast c hc
  rw [hsend] at hnot
  cases hnot

end Regenic.Work
