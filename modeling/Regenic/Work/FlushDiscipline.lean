import Regenic.Work.Discipline

/-!
A flush keeps to the rules: what it writes of a delivery is made from a copy it was told of,
it calls the channel only for a copy without a receipt, and it acknowledges as sent only after
its send or prompt answer, or on a receipt it found.
-/

namespace Regenic.Work

open Lib Reply

/-! ## Rows made from a copy -/

/-- The row keeps the payload and the receipt, and counts as sent only where the copy does. -/
structure Derived (copy row : WorkDelivery) : Prop where
  ref : row.payloadRef = copy.payloadRef
  receipt : row.channelReceipt = copy.channelReceipt
  sent : row.status = .acked ∧ row.writeBack = .sent →
    copy.status = .acked ∧ copy.writeBack = .sent

theorem derived_refl (delivery : WorkDelivery) : Derived delivery delivery := ⟨rfl, rfl, id⟩

theorem Derived.trans {first second third : WorkDelivery} (hfirst : Derived first second)
    (hsecond : Derived second third) : Derived first third :=
  ⟨hsecond.ref.trans hfirst.ref, hsecond.receipt.trans hfirst.receipt,
    fun h => hfirst.sent (hsecond.sent h)⟩

theorem derived_abandoned (delivery : WorkDelivery) (now : Instant) :
    Derived delivery (deliveryAbandoned delivery now) := ⟨rfl, rfl, fun h => nomatch h.2⟩

theorem derived_claimSend (delivery : WorkDelivery) (now : Instant) :
    Derived delivery (deliveryClaimSend delivery now) := ⟨rfl, rfl, fun h => nomatch h.1⟩

theorem derived_retryNow (delivery : WorkDelivery) (now : Instant) :
    Derived delivery (deliveryRetryNow delivery now) := ⟨rfl, rfl, fun h => nomatch h.1⟩

theorem derived_writeBackFailed (delivery : WorkDelivery) (error : String) (now : Instant) :
    Derived delivery (deliveryWriteBackFailed delivery error now) :=
  ⟨rfl, rfl, fun h => nomatch h.2⟩

theorem derived_sendTimedOut (delivery : WorkDelivery) (now : Instant) :
    Derived delivery (deliverySendTimedOut delivery now) := ⟨rfl, rfl, id⟩

theorem derived_skipped (delivery : WorkDelivery) (now : Instant) :
    Derived delivery (deliveryAcked delivery .skipped now) := ⟨rfl, rfl, fun h => nomatch h.2⟩

theorem derived_reclaim (delivery : WorkDelivery) (now : Instant) :
    Derived delivery (reclaimDeliveryLease delivery now) := by
  unfold reclaimDeliveryLease
  by_cases hexpired : isDeliveryLeaseExpired delivery now = true
  · rw [if_pos hexpired]
    cases delivery.payload with
    | some payload => exact ⟨rfl, rfl, fun h => nomatch h.1⟩
    | none => exact derived_abandoned _ _
  · rw [if_neg hexpired]
    exact derived_refl delivery

theorem deliveryChannelReceipt_congr {left right : WorkDelivery}
    (h : left.channelReceipt = right.channelReceipt) :
    deliveryChannelReceipt left = deliveryChannelReceipt right := by
  unfold deliveryChannelReceipt
  rw [h]

theorem Derived.claims {copy row : WorkDelivery} (hderived : Derived copy row)
    (hclaims : Claims row) : Claims copy := by
  rcases hclaims with hreceipt | hsent
  · rw [deliveryChannelReceipt_congr hderived.receipt] at hreceipt
    exact Or.inl hreceipt
  · exact Or.inr (hderived.sent hsent)

section Copies

variable {rules : WorkRules} {h : WorkHistory} {copy row : WorkDelivery}

theorem Backed.derived (hbacked : Backed h copy) (hderived : Derived copy row) :
    Backed h row := by
  have hseen := hbacked.seen
  have hvouched := hbacked.vouched
  rw [← hderived.ref] at hseen hvouched
  exact ⟨hseen, fun hclaims => hvouched (hderived.claims hclaims)⟩

theorem Backed.write (hbacked : Backed h copy) (hderived : Derived copy row) :
    DeliveryWrite rules.replaces h (some copy) row :=
  .patch hbacked.seen hderived.ref (Or.inl hderived.receipt) (hbacked.derived hderived).vouched

theorem calm_putDerived (hbacked : Backed h copy) (hderived : Derived copy row) :
    Calm rules h (Call.putWorkDelivery copy row) := ask_calm (hbacked.write hderived)

end Copies

/-! ## The channel -/

section Flush

variable {rules : WorkRules} {h : WorkHistory} {item : WorkItem} {current delivery : WorkDelivery}

theorem recipeOf_calm (item : WorkItem) : Calm rules h (recipeOf item) := by
  unfold recipeOf
  cases present item.recipeId with
  | none => exact calm_pure _
  | some id => exact ask_calm trivial

/-- Reading a copy again gives a copy to go on from. -/
theorem latest_backed {row : WorkDelivery} (hbacked : Backed h current)
    (hheard : Heard h (.latestWorkDelivery current) row) : Backed h row :=
  ⟨.latest hheard hbacked.seen, fun hclaims => .latest hheard hclaims hbacked.vouched⟩

/-- The receipt callback runs only after something vouched for the send. -/
theorem onReceipt_calm (hseen : Seen h current.payloadRef)
    (hvouched : Vouched h current.payloadRef) (receipt : ChannelReceipt) :
    Calm rules h (onReceipt current receipt) := by
  refine ask_then trivial fun h₁ sentAt hsub₁ _ => ?_
  refine ask_then trivial fun h₂ latest hsub₂ hlatest => ?_
  have hsub := hsub₁.trans hsub₂
  have hpatched : Vouched h₂ latest.payloadRef := .patched hlatest (hvouched.mono hsub)
  apply ask_calm
  exact .patch (.latest hlatest (hseen.mono hsub)) rfl (Or.inr ⟨receipt, sentAt, rfl⟩)
    fun _ => hpatched

theorem receiptOrSend_orderly (hbacked : Backed h delivery) (text : String) :
    Orderly rules h (receiptOrSend (deliveryChannelReceipt delivery) delivery text)
      fun h' _ => Vouched h' delivery.payloadRef := by
  cases hrecorded : deliveryChannelReceipt delivery with
  | some receipt =>
    apply orderly_pure
    apply hbacked.vouched
    exact Or.inl (by simp [hrecorded])
  | none => exact ask_orderly hrecorded fun _ receipt _ hsent => .sent hsent

theorem sendText_orderly (hbacked : Backed h delivery) (thread : ConversationThread)
    (text : String) :
    Orderly rules h (sendText thread text delivery (deliveryChannelReceipt delivery))
      fun h' _ => Vouched h' delivery.payloadRef := by
  refine ask_then trivial fun h₁ found hsub₁ _ => ?_
  refine Obeys.ite (fun _ => orderly_throw _ _ _) fun _ => ?_
  refine ask_then trivial fun h₂ _ hsub₂ _ => ?_
  have hbacked₂ := hbacked.mono (hsub₁.trans hsub₂)
  refine orderly_then (receiptOrSend_orderly hbacked₂ text) fun h₃ receipt hsub₃ hvouched => ?_
  have hseen := hbacked₂.seen.mono hsub₃
  refine calm_then (onReceipt_calm hseen hvouched receipt) fun h₄ _ hsub₄ => ?_
  exact ask_orderly trivial fun _ _ hsub₅ _ => hvouched.mono (hsub₄.trans hsub₅)

theorem answerPromptWith_orderly (hbacked : Backed h delivery)
    (hnone : deliveryChannelReceipt delivery = none) (thread : ConversationThread)
    (text : String) :
    Orderly rules h (answerPromptWith thread text delivery)
      fun h' _ => Vouched h' delivery.payloadRef := by
  refine ask_then trivial fun h₁ matched hsub₁ _ => ?_
  cases matched with
  | noPrompt => exact orderly_throw _ _ _
  | noOption => exact orderly_throw _ _ _
  | option =>
    refine ask_then hnone fun h₂ accepted hsub₂ hanswered => ?_
    cases accepted with
    | false => exact orderly_throw _ _ _
    | true =>
      have hseen := hbacked.seen.mono (hsub₁.trans hsub₂)
      have hvouched : Vouched h₂ delivery.payloadRef := .answered hanswered
      refine calm_then (onReceipt_calm hseen hvouched _) fun h₃ _ hsub₃ => ?_
      exact orderly_pure (hvouched.mono hsub₃)

/-- A write-back that went through the channel has something to show for it. -/
theorem writeBackThrough_orderly (hbacked : Backed h delivery) (thread : ConversationThread)
    (text : String) :
    Orderly rules h (writeBackThrough thread text delivery)
      fun h' _ => Vouched h' delivery.payloadRef := by
  refine ask_then trivial fun h₁ found hsub₁ _ => ?_
  have hbacked₁ := hbacked.mono hsub₁
  refine Obeys.ite (fun _ => ?_) fun _ => ?_
  · refine orderly_then (sendText_orderly hbacked₁ thread text) fun h₂ _ _ hvouched => ?_
    exact orderly_pure hvouched
  · cases hrecorded : deliveryChannelReceipt delivery with
    | none => exact answerPromptWith_orderly hbacked₁ hrecorded thread text
    | some receipt =>
      have hvouched := hbacked₁.vouched (Or.inl (by simp [hrecorded]))
      refine calm_then (onReceipt_calm hbacked₁.seen hvouched receipt) fun h₂ _ hsub₂ => ?_
      exact orderly_pure (hvouched.mono hsub₂)

/-- What an outcome says of the payload. -/
def OutcomeVouched (delivery : WorkDelivery) (h : WorkHistory) (outcome : WriteBackOutcome) :
    Prop := outcome = .sent → Vouched h delivery.payloadRef

theorem writeBackTo_orderly (hbacked : Backed h delivery) (item : WorkItem) (recipe : Recipe)
    (payload : ResultEnvelope) :
    Orderly rules h (writeBackTo item recipe payload delivery) (OutcomeVouched delivery) := by
  refine calm_then (orderly_liftThrown _ fun _ _ => trivial) fun h₁ thread hsub₁ => ?_
  refine Obeys.ite (fun _ => orderly_throw _ _ _) fun _ => ?_
  apply Obeys.mono (writeBackThrough_orderly (hbacked.mono hsub₁) thread _)
  intro _ _ _ hvouched _
  exact hvouched

theorem writeBack_orderly (hbacked : Backed h delivery) (item : WorkItem)
    (payload : ResultEnvelope) :
    Orderly rules h (writeBack item payload delivery) (OutcomeVouched delivery) := by
  refine calm_then (recipeOf_calm item) fun h₁ recipe hsub₁ => ?_
  cases recipe with
  | none => exact orderly_pure nofun
  | some recipe =>
    refine Obeys.ite (fun _ => orderly_pure nofun) fun _ => ?_
    refine ask_then trivial fun h₂ latest hsub₂ _ => ?_
    refine Obeys.ite (fun _ => orderly_pure nofun) fun _ => ?_
    exact writeBackTo_orderly (hbacked.mono (hsub₁.trans hsub₂)) _ _ _

/-! ## One delivery -/

theorem sendTimedOut_calm (hbacked : Backed h current) (now : Instant) (race : Nat) :
    Calm rules h (sendTimedOut current now race) := by
  refine ask_then trivial fun h₁ expired hsub₁ _ => ?_
  refine Obeys.ite (fun _ => ?_) fun _ => calm_pure _
  refine ask_then trivial fun h₂ latest hsub₂ hlatest => ?_
  have hbacked₂ := hbacked.mono (hsub₁.trans hsub₂)
  exact calm_putDerived (latest_backed hbacked₂ hlatest) (derived_sendTimedOut _ _)

theorem recordOutcome_calm (hbacked : Backed h current) (now : Instant) (force : Bool)
    (outcome : Except Thrown WriteBackOutcome)
    (houtcome : ∀ o, outcome = .ok o → OutcomeVouched current h o) :
    Calm rules h (recordOutcome current now force outcome) := by
  cases outcome with
  | error error =>
    refine ask_then trivial fun h₁ latest hsub₁ hlatest => ?_
    have hlatestBacked := latest_backed (hbacked.mono hsub₁) hlatest
    refine calm_then (calm_putDerived hlatestBacked (derived_writeBackFailed _ _ _))
      fun h₂ _ _ => ?_
    exact Obeys.ite (fun _ => Obeys.fail _) fun _ => calm_pure _
  | ok outcome =>
    refine ask_then trivial fun h₁ latest hsub₁ hlatest => ?_
    have hlatestBacked := latest_backed (hbacked.mono hsub₁) hlatest
    cases outcome with
    | skipped => exact calm_putDerived hlatestBacked (derived_skipped _ _)
    | sent =>
      have hvouched := (houtcome .sent rfl rfl).mono hsub₁
      have hpatched : Vouched h₁ latest.payloadRef := .patched hlatest hvouched
      apply ask_calm
      exact .patch hlatestBacked.seen rfl (Or.inl rfl) fun _ => hpatched

theorem flushCurrent_calm {copy : WorkDelivery} (hbacked : Backed h copy)
    (hderived : Derived copy current) (item : WorkItem) (now : Instant) (force : Bool) :
    Calm rules h (flushCurrent item copy current now force) := by
  unfold flushCurrent
  cases current.payload with
  | none => exact calm_putDerived hbacked (hderived.trans (derived_writeBackFailed _ _ _))
  | some payload =>
    have hclaim := hderived.trans (derived_claimSend current now)
    have hclaimed := hbacked.derived hclaim
    refine calm_then (calm_putDerived hbacked hclaim) fun h₁ _ hsub₁ => ?_
    refine ask_then (hclaimed.mono hsub₁) fun h₂ race hsub₂ _ => ?_
    have hclaimed₂ := hclaimed.mono (hsub₁.trans hsub₂)
    refine orderly_then (orderly_attempt (writeBack_orderly hclaimed₂ item payload))
      fun h₃ outcome hsub₃ houtcome => ?_
    refine ask_then trivial fun h₄ settled hsub₄ _ => ?_
    refine Obeys.ite (fun _ => ?_) fun _ => calm_pure _
    apply recordOutcome_calm (hclaimed₂.mono (hsub₃.trans hsub₄))
    intro o ho hsent
    exact (houtcome o ho hsent).mono hsub₄

theorem flushOne_calm (hbacked : Backed h delivery) (item : WorkItem) (recipe : Recipe)
    (force : Bool) : Calm rules h (flushOne item recipe delivery force) := by
  refine ask_then trivial fun h₁ now hsub₁ _ => ?_
  have hbacked₁ := hbacked.mono hsub₁
  have hreclaim := derived_reclaim delivery now
  refine Obeys.ite (fun _ => ?_) fun _ => Obeys.ite (fun _ => ?_) fun _ => calm_pure _
  · exact flushCurrent_calm hbacked₁ (hreclaim.trans (derived_retryNow _ _)) _ _ _
  · exact flushCurrent_calm hbacked₁ hreclaim _ _ _

/-! ## A tick -/

def AllBacked (h : WorkHistory) (pending : List PendingFlush) : Prop :=
  ∀ p ∈ pending, Backed h p.delivery

theorem AllBacked.mono {h' : WorkHistory} {pending : List PendingFlush} (hsub : h <:+ h')
    (hall : AllBacked h pending) : AllBacked h' pending :=
  fun p hp => (hall p hp).mono hsub

theorem allBacked_nil : AllBacked h [] := fun _ hp => absurd hp List.not_mem_nil

theorem preparePending_orderly (hbacked : Backed h delivery) (recipes : List Recipe)
    (now : Instant) :
    Orderly rules h (preparePending recipes now delivery)
      fun h' found => AllBacked h' found.toList := by
  have hreclaim := derived_reclaim delivery now
  have hput : Calm rules h (putReclaimed delivery now) :=
    Obeys.ite (fun _ => calm_putDerived hbacked hreclaim) fun _ => calm_pure _
  refine calm_then hput fun h₁ _ hsub₁ => ?_
  refine ask_then trivial fun h₂ item hsub₂ _ => ?_
  have hreclaimed := (hbacked.mono (hsub₁.trans hsub₂)).derived hreclaim
  refine Obeys.ite (fun _ => ?_) fun _ => ?_
  · refine calm_then (calm_putDerived hreclaimed (derived_abandoned _ _)) fun h₃ _ _ => ?_
    exact orderly_pure allBacked_nil
  · apply orderly_pure
    split
    · split
      · intro p hp
        rw [Option.toList_some, List.mem_singleton] at hp
        rw [hp]
        exact hreclaimed
      · exact allBacked_nil
    · exact allBacked_nil

theorem preparePendings_orderly (recipes : List Recipe) (now : Instant)
    (deliveries : List WorkDelivery) (hbacked : ∀ d ∈ deliveries, Backed h d) :
    Orderly rules h (preparePendings recipes now deliveries) AllBacked := by
  induction deliveries generalizing h with
  | nil => exact orderly_pure allBacked_nil
  | cons delivery rest ih =>
    refine orderly_then (preparePending_orderly (hbacked delivery List.mem_cons_self) _ _)
      fun h₁ first hsub₁ hfirst => ?_
    have hrest : ∀ d ∈ rest, Backed h₁ d := by
      intro d hd
      exact (hbacked d (List.mem_cons_of_mem _ hd)).mono hsub₁
    refine orderly_then (ih hrest) fun h₂ others hsub₂ hothers => ?_
    apply orderly_pure
    intro p hp
    rcases List.mem_append.mp hp with hp | hp
    · exact hfirst.mono hsub₂ p hp
    · exact hothers p hp

theorem startFlushes_calm (pending : List PendingFlush) (hall : AllBacked h pending) :
    Calm rules h (startFlushes pending) := by
  induction pending generalizing h with
  | nil => exact calm_pure _
  | cons p rest ih =>
    refine ask_then (hall p List.mem_cons_self) fun h₁ _ hsub₁ _ => ?_
    apply ih
    intro q hq
    exact (hall q (List.mem_cons_of_mem _ hq)).mono hsub₁

theorem flushDeliveries_calm : Calm rules h flushDeliveries := by
  refine ask_then trivial fun h₁ now _ _ => ?_
  refine ask_then trivial fun h₂ (deliveries : List WorkDelivery) _ hlisted => ?_
  refine ask_then trivial fun h₃ recipes hsub₃ _ => ?_
  have hbacked : ∀ d ∈ deliveries, Backed h₃ d := by
    intro d hd
    have hheard := hlisted.mono hsub₃
    exact ⟨.listed hheard hd, fun hclaims => .listed hheard hd hclaims⟩
  refine orderly_then (preparePendings_orderly recipes now deliveries hbacked)
    fun h₄ pending _ hall => startFlushes_calm pending hall

/-- A program that a call starts goes on from the copy it is given. -/
theorem workFork_follows (c : WorkCall) (r : c.Response) (p : WorkProg Unit)
    (hfork : workFork c r = some p) :
    Follows (workProtocol rules) (fun _ _ => True) (startHistory c r) p := by
  cases c with
  | withTimeout current now =>
    cases r with
    | error e => cases hfork
    | ok race =>
      cases hfork
      exact (sendTimedOut_calm ⟨.timed heard_head, .timed heard_head⟩ now race).follows
  | startFlush item recipe delivery =>
    cases r with
    | error e => cases hfork
    | ok u =>
      cases hfork
      exact (flushOne_calm ⟨.started heard_head, .started heard_head⟩ item recipe false).follows
  | _ => cases hfork

end Flush

end Regenic.Work
