import Regenic.Work.SentOnce

/-!
When an acknowledgement is true. After a send the flush patches the row it then finds; as long
as no result has replaced the payload between the claim and that read, and the channel answers
no send with a refusal that does not throw, a row that counts as sent carries a payload that
was sent.
-/

namespace Regenic.Work

open Lib Reply

/-! ## The property -/

instance (delivery : WorkDelivery) : Decidable (Claims delivery) :=
  inferInstanceAs (Decidable (_ ∨ _))

/-- Every row that is acked as sent, or has an accepted receipt, carries a payload for which
the channel accepted a send or a prompt answer. -/
def AckedAsSent (s : WorkState) : Prop :=
  ∀ row ∈ s.tables.deliveries.rows, Claims row → AcceptedSend row.payloadRef s

instance (s : WorkState) : Decidable (AckedAsSent s) :=
  inferInstanceAs (Decidable (∀ row ∈ s.tables.deliveries.rows, _))

/-! ## The condition -/

/-- A flush reads the payload again that it claimed, and the channel refuses by throwing. -/
def PayloadKept : WorkCall → WorkEnv → WorkState → Prop
  | .latestWorkDelivery current, _, s =>
    ∀ stored ∈ s.tables.getWorkDeliveryByItem current.workItemId,
      stored.idempotencyKey = current.idempotencyKey
  | .egressSend _ _, env, _ => ∀ receipt ∈ env.send.toOption, receipt.accepted = true
  | _, _, _ => True

instance : (c : WorkCall) → (env : WorkEnv) → (s : WorkState) → Decidable (PayloadKept c env s)
  | .latestWorkDelivery current, _, s => inferInstanceAs
    (Decidable (∀ stored ∈ s.tables.getWorkDeliveryByItem current.workItemId, _))
  | .egressSend _ _, env, _ => inferInstanceAs (Decidable (∀ receipt ∈ env.send.toOption, _))
  | .listWorkItems _, _, _ | .getWorkItem _, _, _ | .getWorkItemByThread _, _, _
  | .putWorkItem _ _, _, _ | .listWorkRuns _, _, _ | .getWorkRun _, _, _
  | .getActiveWorkRun _, _, _ | .putWorkRun _ _, _, _ | .claimWorkRunStart _ _, _, _
  | .listDueWorkDeliveries _, _, _ | .getWorkDeliveryByItem _, _, _
  | .putWorkDelivery _ _, _, _ | .getRecipe _, _, _ | .listRecipes, _, _
  | .isStarting _ _, _, _ | .reserveStart _ _ _ _, _, _ | .takeStart _ _ _, _, _
  | .releaseStart _ _, _, _ | .startFlush _ _ _, _, _ | .withTimeout _ _, _, _
  | .settle _, _, _ | .expire _, _, _ | .answerPrompt _ _, _, _ | .outside _, _, _ =>
    isTrue trivial

/-! ## Rows that tell the truth -/

/-- The row has a key, as every row that is enqueued gets one, and what it claims was sent. -/
structure TrueRow (s : WorkState) (row : WorkDelivery) : Prop where
  keyed : present row.idempotencyKey ≠ none
  sent : Claims row → AcceptedSend row.payloadRef s

instance (s : WorkState) (row : WorkDelivery) : Decidable (TrueRow s row) :=
  decidable_of_iff (present row.idempotencyKey ≠ none ∧
    (Claims row → AcceptedSend row.payloadRef s)) ⟨fun h => ⟨h.1, h.2⟩, fun h => ⟨h.1, h.2⟩⟩

def AllTrue (s : WorkState) (rows : List WorkDelivery) : Prop := ∀ row ∈ rows, TrueRow s row

abbrev TrueRows (s : WorkState) : Prop := AllTrue s s.tables.deliveries.rows

instance (s : WorkState) (rows : List WorkDelivery) : Decidable (AllTrue s rows) :=
  inferInstanceAs (Decidable (∀ row ∈ rows, _))

theorem AcceptedSend.mono {s s' : WorkState} (hsends : s.sends <+: s'.sends)
    {ref : String × Option String} (h : AcceptedSend ref s) : AcceptedSend ref s' := by
  obtain ⟨send, hmem, haccepted⟩ := h
  exact ⟨send, hsends.subset hmem, haccepted⟩

theorem TrueRow.mono {s s' : WorkState} (hsends : s.sends <+: s'.sends) {row : WorkDelivery}
    (h : TrueRow s row) : TrueRow s' row :=
  ⟨h.keyed, fun hclaims => (h.sent hclaims).mono hsends⟩

/-- What an answer still says, whatever was called since. -/
def Delivered : Told WorkCall.Response → WorkState → Prop
  | ⟨.listDueWorkDeliveries _, .ok rows⟩, s => AllTrue s rows
  | ⟨.getWorkDeliveryByItem _, .ok (some row)⟩, s => TrueRow s row
  | ⟨.latestWorkDelivery current, .ok row⟩, s =>
    WorkDelivery.payloadRef row = current.payloadRef ∧ (TrueRow s row ∨ row = current)
  | ⟨.startFlush _ _ delivery, .ok _⟩, s | ⟨.withTimeout delivery _, .ok _⟩, s =>
    TrueRow s delivery
  | ⟨.egressSend delivery _, .ok _⟩, s | ⟨.answerPrompt delivery _, .ok true⟩, s =>
    AcceptedSend delivery.payloadRef s
  | _, _ => True

theorem Delivered.mono {s s' : WorkState} (hsends : s.sends <+: s'.sends)
    {told : Told WorkCall.Response} (h : Delivered told s) : Delivered told s' := by
  obtain ⟨c, r⟩ := told
  cases r with
  | error e => cases c <;> trivial
  | ok a =>
    cases c with
    | listDueWorkDeliveries now => exact fun row hrow => (h row hrow).mono hsends
    | getWorkDeliveryByItem id =>
      cases a with
      | none => trivial
      | some row => exact TrueRow.mono hsends h
    | latestWorkDelivery current => exact ⟨h.1, h.2.imp_left (TrueRow.mono hsends)⟩
    | startFlush item recipe delivery => exact TrueRow.mono hsends h
    | withTimeout delivery now => exact TrueRow.mono hsends h
    | egressSend delivery text => exact AcceptedSend.mono hsends h
    | answerPrompt delivery text =>
      cases a with
      | false => trivial
      | true => exact AcceptedSend.mono hsends h
    | _ => trivial

theorem freshDelivery_true (s : WorkState) (digest : Digest) (input : WriteBackInput)
    (existing : Option WorkDelivery) : TrueRow s (freshDelivery digest input existing) where
  keyed := by
    have hkey : writeBackIdempotencyKey digest input.workItemId input.payload ≠ "" := by
      intro hempty
      have hlength := congrArg String.length hempty
      simp [writeBackIdempotencyKey] at hlength
    simp [freshDelivery, present, hkey]
  sent := by
    rintro (hreceipt | hsent)
    · exact absurd rfl hreceipt
    · cases hsent.1

section Reading

variable {h : WorkHistory} {s : WorkState} (hall : AllStand Delivered h s)

include hall

theorem seen_keyed {ref : String × Option String} (hseen : Seen h ref) :
    present ref.2 ≠ none := by
  induction hseen with
  | listed hheard hmem => exact (hall _ hheard _ hmem).keyed
  | found hheard => exact TrueRow.keyed (hall _ hheard)
  | latest hheard _ ih =>
    have href := (hall _ hheard).1
    rw [href]
    exact ih
  | started hheard => exact TrueRow.keyed (hall _ hheard)
  | timed hheard => exact TrueRow.keyed (hall _ hheard)

/-- What a program has a reason to believe was sent. -/
theorem vouched_accepted {ref : String × Option String} (hvouched : Vouched h ref) :
    AcceptedSend ref s := by
  induction hvouched with
  | sent hheard => exact hall _ hheard
  | answered hheard => exact hall _ hheard
  | listed hheard hmem hclaims => exact (hall _ hheard _ hmem).sent hclaims
  | found hheard hclaims => exact TrueRow.sent (hall _ hheard) hclaims
  | latest hheard hclaims _ ih =>
    rcases (hall _ hheard).2 with htrue | heq
    · exact htrue.sent hclaims
    · rw [heq] at hclaims ⊢
      exact ih hclaims
  | patched hheard _ ih =>
    have href := (hall _ hheard).1
    rw [href]
    exact ih
  | started hheard hclaims => exact TrueRow.sent (hall _ hheard) hclaims
  | timed hheard hclaims => exact TrueRow.sent (hall _ hheard) hclaims

theorem backed_true {delivery : WorkDelivery} (hbacked : Backed h delivery) :
    TrueRow s delivery :=
  ⟨seen_keyed hall hbacked.seen, fun hclaims => vouched_accepted hall (hbacked.vouched hclaims)⟩

/-- A write tells the truth when what the program was told does. -/
theorem write_true {replaces : Prop} {copy : Option WorkDelivery} {row : WorkDelivery}
    (hwrite : DeliveryWrite replaces h copy row) : TrueRow s row := by
  cases hwrite with
  | patch hseen href _ hvouched =>
    have hkeyed := seen_keyed hall hseen
    rw [← href] at hkeyed
    exact ⟨hkeyed, fun hclaims => vouched_accepted hall (hvouched hclaims)⟩
  | @enqueue digest input _ _ hheard =>
    cases copy with
    | none => exact freshDelivery_true s digest input none
    | some row =>
      have htrue : TrueRow s row := hall _ hheard
      unfold enqueueWriteBack
      by_cases hsame : deliveryPayloadKey digest row =
          some (writeBackIdempotencyKey digest input.workItemId input.payload)
      · simp only [if_pos hsame]
        cases hkey : present row.idempotencyKey with
        | none => exact absurd hkey htrue.keyed
        | some key => exact htrue
      · simp only [if_neg hsame]
        exact freshDelivery_true s digest input (some row)

end Reading

/-! ## Every run -/

section Steps

variable {rules : WorkRules} {h : WorkHistory} {s : WorkState}

theorem mem_putWorkDelivery {t : WorkTables} {row stored : WorkDelivery}
    (hmem : stored ∈ (t.putWorkDelivery row).deliveries.rows) :
    (∃ createdAt, stored = { row with createdAt }) ∨ stored ∈ t.deliveries.rows := by
  rcases Table.mem_put.mp hmem with heq | ⟨hold, _⟩
  · exact Or.inl ⟨_, heq⟩
  · exact Or.inr hold

theorem trueRows_exec (hrows : TrueRows s) (hall : AllStand Delivered h s) (c : WorkCall)
    (env : WorkEnv) (hc : Allowed rules h c) : TrueRows (c.exec env s).2 := by
  have hsends := WorkCall.exec_sends c env s
  intro stored hstored
  rcases WorkCall.exec_deliveries c env s with heq | ⟨copy, row, rfl, heq⟩
  · rw [heq] at hstored
    exact (hrows stored hstored).mono hsends
  · rw [heq] at hstored
    rcases mem_putWorkDelivery hstored with ⟨createdAt, rfl⟩ | hold
    · have htrue := (write_true hall hc).mono hsends
      exact ⟨htrue.keyed, htrue.sent⟩
    · exact (hrows stored hold).mono hsends

theorem recorded_accepted (delivery : WorkDelivery) :
    AcceptedSend delivery.payloadRef (s.record delivery true) :=
  ⟨_, List.mem_append_right _ List.mem_cons_self, rfl, rfl⟩

/-- The answer of a call stands right after it. -/
theorem delivered_exec (hrows : TrueRows s) (hall : AllStand Delivered h s) (c : WorkCall)
    (env : WorkEnv) (hc : Allowed rules h c) (hcond : PayloadKept c env s) :
    Delivered ⟨c, (c.exec env s).1⟩ (c.exec env s).2 := by
  cases c with
  | listDueWorkDeliveries now =>
    intro row hrow
    have hfiltered := (List.mem_insertionSort _).mp hrow
    exact hrows row (List.mem_filter.mp hfiltered).1
  | getWorkDeliveryByItem id =>
    cases hfound : s.tables.getWorkDeliveryByItem id with
    | none =>
      simp only [WorkCall.exec, hfound]
      trivial
    | some row =>
      simp only [WorkCall.exec, hfound]
      exact hrows row (Table.get?_eq_some.mp hfound).1
  | latestWorkDelivery current =>
    cases hfound : s.tables.getWorkDeliveryByItem current.workItemId with
    | none =>
      simp only [WorkCall.exec, hfound, Option.getD_none]
      exact ⟨rfl, Or.inr rfl⟩
    | some row =>
      simp only [WorkCall.exec, hfound, Option.getD_some]
      obtain ⟨hmem, hitem⟩ := Table.get?_eq_some.mp hfound
      exact ⟨Prod.ext hitem (hcond row hfound), Or.inl (hrows row hmem)⟩
  | startFlush item recipe delivery => exact backed_true hall hc
  | withTimeout delivery now =>
    exact (backed_true hall hc).mono (WorkCall.exec_sends (.withTimeout delivery now) env s)
  | egressSend delivery text =>
    cases hsend : env.send with
    | error error =>
      simp only [WorkCall.exec, hsend]
      trivial
    | ok receipt =>
      have haccepted : receipt.accepted = true := hcond receipt (by simp [hsend, Except.toOption])
      simp only [WorkCall.exec, hsend, haccepted]
      exact recorded_accepted delivery
  | answerPrompt delivery text =>
    cases hprompt : env.prompt with
    | error error =>
      simp only [WorkCall.exec, hprompt]
      trivial
    | ok accepted =>
      simp only [WorkCall.exec, hprompt]
      cases accepted with
      | false => trivial
      | true => exact recorded_accepted delivery
  | claimWorkRunStart run maxConcurrent =>
    simp only [WorkCall.exec]
    split
    · trivial
    · trivial
  | reserveStart dispatcher workItemId recipe items =>
    simp only [WorkCall.exec]
    split
    · trivial
    · trivial
  | outside call =>
    simp only [WorkCall.exec]
    cases env.answer call <;> trivial
  | _ => trivial

end Steps

/-- Every operation, without a word on caps. -/
def anyRules : WorkRules := { limits := fun _ _ => True, replaces := True, reopens := True }

theorem WorkOperation.program_any (digest : Digest) (op : WorkOperation) :
    Calm anyRules [] (op.program digest) := by
  have hlimits : op.LimitsBy anyRules.limits := by
    cases op with
    | runWorkItem dispatcher id => exact fun _ => trivial
    | tryRecipe dispatcher recipeId threadId => exact fun _ => trivial
    | _ => trivial
  exact op.program_calm trivial hlimits (Or.inl trivial)

/-- A write-back is acknowledged only for what was sent, in every run of the operations in
which flushes read the payload again that they claimed, and the channel refuses by throwing. -/
theorem writeBack_ackedAsSent (digest : Digest) (ops : List WorkOperation) (state : WorkState)
    (hstart : TrueRows state) (events : List (Nat × WorkEnv))
    (hcond : Along WorkPool.step (Pool.Meets PayloadKept)
      (WorkPool.start (ops.map (·.program digest)) state) events) :
    AckedAsSent
      (run WorkPool.step (WorkPool.start (ops.map (·.program digest)) state) events).state := by
  have hcalm : ∀ p ∈ ops.map (·.program digest), Calm anyRules [] p := by
    intro p hp
    obtain ⟨op, _, rfl⟩ := List.mem_map.mp hp
    exact op.program_any digest
  have hkeeps : Pool.Keeps (workProtocol anyRules) startHistory WorkCall.exec workFork
      PayloadKept fun modes s => TrueRows s ∧ ∀ i, AllStand Delivered (modes i) s := by
    apply orderly_keeps
    intro h s c env hrows hall hc hmeets
    refine ⟨trueRows_exec hrows hall c env hc, delivered_exec hrows hall c env hc hmeets, ?_⟩
    intro told htold
    exact htold.mono (WorkCall.exec_sends c env s)
  obtain ⟨_, _, hrows, _⟩ := hkeeps.run (Pool.freeEnds_true _) (start_follow state hcalm)
    ⟨hstart, allStand_nil _ _⟩ events hcond
  intro row hrow
  exact (hrows row hrow).sent

/-- The digests of the two results that the samples name. -/
def sampleDigest : Digest := fun text =>
  if text = "bye" then "b49f425a7e1f9cff" else "8f434346648f6b96"

/-- A result is queued while the item runs again. -/
def queuedWhileRunning : WorkState where
  tables :=
    { items := (∅ : Table WorkItem.id).put (sampleItem "w1" .running)
      runs := (∅ : Table WorkRun.id).put (sampleRun "run-1" "w1" .running)
      recipes := (∅ : Table Recipe.id).put sampleRecipe
      deliveries := (∅ : Table WorkDelivery.workItemId).put
        { sampleDelivery with idempotencyKey := some "work-back:w1:8f434346648f6b96" } }

def saysBye : WorkEnv :=
  agreeable { externalRunId := "x1", status := .completed, result := some { summary := "bye" } } 1

/-- A flush tick and a supervisor's tick. -/
def flushAndRefresh : WorkPool :=
  WorkPool.start ([WorkOperation.flushDeliveries, .refreshRuns].map (·.program sampleDigest))
    queuedWhileRunning

/-- The flush ends before the next result arrives. -/
theorem writeBack_ackedAsSent_inTurns :
    AckedAsSent (run WorkPool.step flushAndRefresh (List.replicate 5 (0, saysBye) ++
      List.replicate 16 (2, saysBye) ++ List.replicate 18 (1, saysBye))).state :=
  writeBack_ackedAsSent _ _ _ (by decide +kernel) _ (by decide +kernel)

/-- The flush has sent "hi" when the supervisor enqueues "bye" over the row; the receipt and
the ack of the flush then land on "bye", which was never sent. -/
theorem writeBack_ackedUnsent :
    ¬ AckedAsSent (run WorkPool.step flushAndRefresh (List.replicate 5 (0, saysBye) ++
      List.replicate 9 (2, saysBye) ++ List.replicate 18 (1, saysBye) ++
      List.replicate 7 (2, saysBye))).state := by decide +kernel

end Regenic.Work
