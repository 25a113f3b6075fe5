import Regenic.Reply.Service

/-!
The protocol that every replica keeps to, whatever the outside answers: only a claim that
succeeded is followed by a send, only the send's own end decides what may be put, and only
the reader of an accepted attempt stores a reply it did not send itself.
-/

namespace Regenic.Reply

open Lib

/-- Where a replica stands with one request id. -/
inductive ReplyMode where
  | free
  | holding (id : String)
  | sending (id : String) (index : Nat)
  | refused (id : String)
  | delivered (id : String)
  | recovering (id : String)
  | ended
  deriving DecidableEq, Repr

/-- After a read: an accepted attempt with its receipt is recovered from. -/
def afterRead (orgId : String) (mode : ReplyMode) (readOrg id : String)
    (found : Option OutboundAttempt) : ReplyMode :=
  match mode, found with
  | .free, some row =>
    if readOrg = orgId ∧ row.status = .accepted ∧ row.receipt.isSome then .recovering id
    else .free
  | _, _ => mode

/-- After the end of a send. -/
def afterSend (id : String) : Except Thrown DeliveryReceipt → ReplyMode
  | .ok receipt => if receipt.accepted then .delivered id else .ended
  | .error (.sendNotAccepted _ _ _) => .refused id
  | .error _ => .ended

def afterClaim (id : String) : Except Thrown Bool → ReplyMode
  | .ok true => .holding id
  | .ok false => .free
  | .error _ => .ended

def afterPut (mode : ReplyMode) : Except Thrown Unit → ReplyMode
  | .ok _ => match mode with
    | .delivered id | .recovering id => .recovering id
    | _ => .ended
  | .error _ => match mode with
    | .recovering id => .recovering id
    | _ => .ended

/-- What a replica may put for this id, by where it stands. -/
def PutAllowed (orgId : String) (input : OutboundAttemptPut) : ReplyMode → Prop
  | .refused id => input.orgId = orgId ∧ input.clientRequestId = id ∧
      input.status = .rejected ∧ input.receipt = none
  | .delivered id => input.orgId = orgId ∧ input.clientRequestId = id ∧ input.receipt.isSome
  | .recovering id => input.orgId = orgId ∧ input.clientRequestId = id
  | _ => False

def protocol (orgId : String) : Protocol ReplyCall.Response ReplyMode where
  allowed mode
    | .getOutboundAttempt _ _ | .outside _ => True
    | .claimOutboundAttempt input => mode = .free ∧ input.orgId = orgId
    | .upsertOutboundAttempt input _ => PutAllowed orgId input mode
    | .startSend intent => mode = .holding intent.idempotencyKey
    | .awaitSend index => ∃ id, mode = .sending id index
  answers
    | _, .startSend _, r => ∃ index, r = .ok index
    | _, _, _ => True
  after mode
    | .getOutboundAttempt readOrg id, .ok found => afterRead orgId mode readOrg id found
    | .claimOutboundAttempt input, r => afterClaim input.clientRequestId r
    | .upsertOutboundAttempt _ _, r => afterPut mode r
    | .startSend intent, .ok index => .sending intent.idempotencyKey index
    | .awaitSend _, r => match mode with
      | .sending id _ => afterSend id r
      | _ => mode
    | _, _ => mode

/-! ## Programs that leave the mode alone -/

/-- The program keeps to the protocol and ends where it started. -/
def Stays {α : Type} (orgId : String) (mode : ReplyMode) (p : ReplyProg α) : Prop :=
  Follows (protocol orgId) (fun m _ => m = mode) mode p

section Stay

variable {orgId : String} {mode : ReplyMode} {α β : Type}

theorem stays_pure (a : α) : Stays orgId mode (pure a) := .done rfl

theorem stays_throw (code message : String) (status : Nat) :
    Stays orgId mode (throwConnector code message status : ReplyProg α) := .fail rfl

theorem stays_bind {p : ReplyProg α} {f : α → ReplyProg β} (hp : Stays orgId mode p)
    (hf : ∀ a, Stays orgId mode (f a)) : Stays orgId mode (p >>= f) := by
  apply Follows.bind hp
  · intro m a hm
    rw [hm]
    exact hf a
  · intro m e hm
    exact hm

theorem stays_ite {c : Prop} {_ : Decidable c} {p q : ReplyProg α} (hp : Stays orgId mode p)
    (hq : Stays orgId mode q) : Stays orgId mode (if c then p else q) := by
  by_cases hc : c
  · rw [if_pos hc]
    exact hp
  · rw [if_neg hc]
    exact hq

theorem stays_wrapping {fallback : String} {p : ReplyProg α} (hp : Stays orgId mode p) :
    Stays orgId mode (wrapping fallback p) :=
  Follows.tryCatch hp (fun _ _ hm => hm) fun _ _ hm => .fail hm

theorem stays_outside (call : OutsideCall) : Stays orgId mode (Call.outside call) := by
  refine .call trivial fun r _ => ?_
  cases r with
  | ok a => exact .done rfl
  | error e => exact .fail rfl

theorem stays_liftThrown (r : Except Thrown α) : Stays orgId mode (liftThrown r) := by
  cases r with
  | ok a => exact .done rfl
  | error e => exact .fail rfl

/-- A condition on the mode a result comes with; an error ends the replica. -/
def OnResult (post : ReplyMode → α → Prop) (m : ReplyMode) : Except Thrown α → Prop
  | .ok a => post m a
  | .error _ => True

theorem stays_then {post : ReplyMode → β → Prop} {p : ReplyProg α} {f : α → ReplyProg β}
    (hp : Stays orgId mode p)
    (hf : ∀ a, Follows (protocol orgId) (OnResult post) mode (f a)) :
    Follows (protocol orgId) (OnResult post) mode (p >>= f) := by
  apply Follows.bind hp
  · intro m a hm
    rw [hm]
    exact hf a
  · intro m e _
    trivial

theorem result_then {post : ReplyMode → α → Prop} {post' : ReplyMode → β → Prop}
    {p : ReplyProg α} {f : α → ReplyProg β}
    (hp : Follows (protocol orgId) (OnResult post) mode p)
    (hf : ∀ m a, post m a → Follows (protocol orgId) (OnResult post') m (f a)) :
    Follows (protocol orgId) (OnResult post') mode (p >>= f) :=
  Follows.bind hp hf fun _ _ _ => trivial

theorem stays_result {post : ReplyMode → α → Prop} {p : ReplyProg α} (hp : Stays orgId mode p)
    (hpost : ∀ a, post mode a) : Follows (protocol orgId) (OnResult post) mode p := by
  apply Follows.mono hp
  intro m r hm
  cases r with
  | ok a =>
    rw [hm]
    exact hpost a
  | error e => trivial

/-- A handler that only throws again. -/
theorem caught_result {post : ReplyMode → α → Prop} {p : ReplyProg α}
    {error : Thrown → Thrown} (hp : Follows (protocol orgId) (OnResult post) mode p) :
    Follows (protocol orgId) (OnResult post) mode
      (p.tryCatch fun e => (.fail (error e) : ReplyProg α)) :=
  Follows.tryCatch hp (fun _ _ h => h) fun _ _ _ => .fail trivial

theorem throw_result {post : ReplyMode → α → Prop} (code message : String) (status : Nat) :
    Follows (protocol orgId) (OnResult post) mode
      (throwConnector code message status : ReplyProg α) := .fail trivial

end Stay

/-! ## Storing a delivered reply -/

section Storing

variable {orgId : String}

theorem putOutboundAttempt_stays {id : String} {input : OutboundAttemptPut}
    (horg : input.orgId = orgId) (hid : input.clientRequestId = id) :
    Stays orgId (.recovering id) (putOutboundAttempt input) := by
  have hread : Stays orgId (.recovering id)
      (Call.getOutboundAttempt input.orgId input.clientRequestId) := by
    refine .call trivial fun r _ => ?_
    cases r with
    | ok found => exact .done rfl
    | error e => exact .fail rfl
  refine stays_bind hread fun previous => .call ⟨horg, hid⟩ fun r _ => ?_
  cases r with
  | ok u => exact .done rfl
  | error e => exact .fail rfl

theorem bindChannelAliases_stays {mode : ReplyMode} (eventId : String)
    (aliases : List IdentityAlias) :
    Stays orgId mode (bindChannelAliases eventId aliases) :=
  stays_ite (stays_pure _) (stays_outside _)

theorem storeDeliveredReply_stays (batch : ReplyBatch) (receipt : DeliveryReceipt)
    (threadId id : String) :
    Stays orgId (.recovering id) (storeDeliveredReply orgId batch receipt threadId id) := by
  refine stays_bind (stays_liftThrown _) fun thread => ?_
  refine stays_bind (stays_outside _) fun ingested => stays_ite (stays_throw _ _ _) ?_
  cases present ingested.eventId with
  | none => exact stays_throw _ _ _
  | some eventId =>
    refine stays_bind (bindChannelAliases_stays _ _) fun _ => ?_
    refine stays_bind (stays_outside _) fun now => ?_
    refine stays_bind (putOutboundAttempt_stays rfl rfl) fun _ => ?_
    refine stays_bind (stays_outside _) fun item => ?_
    cases item with
    | none => exact stays_throw _ _ _
    | some item => exact stays_pure _

end Storing

/-! ## Replaying a prior attempt -/

section Replaying

variable {orgId : String}

theorem replaySent_stays {mode : ReplyMode} (id : String) (prior : OutboundAttempt) :
    Stays orgId mode (replaySent id prior) := by
  unfold replaySent
  cases prior.eventId with
  | none => exact stays_throw _ _ _
  | some eventId =>
    refine stays_bind (stays_outside _) fun item => ?_
    cases item with
    | none => exact stays_throw _ _ _
    | some item => exact stays_pure _

/-- A replay that comes to nothing leaves a free replica free. -/
def FreeIfNone : ReplyMode → Except Thrown (Option ReplyView) → Prop :=
  OnResult fun mode found => found = none → mode = .free

theorem some_freeIfNone {mode : ReplyMode} {p : ReplyProg ReplyView}
    (hp : Stays orgId mode p) : Follows (protocol orgId) FreeIfNone mode (some <$> p) :=
  stays_then hp fun _ => .done fun hsome => nomatch hsome

theorem free_freeIfNone {p : ReplyProg (Option ReplyView)} (hp : Stays orgId .free p) :
    Follows (protocol orgId) FreeIfNone .free p := stays_result hp fun _ _ => rfl

theorem replayAccepted_follows (id : String) (prior : OutboundAttempt) :
    Follows (protocol orgId) FreeIfNone (.recovering id) (replayAccepted orgId id prior) := by
  unfold replayAccepted
  cases prior.recoveryHash with
  | none => exact throw_result _ _ _
  | some hash =>
    cases prior.receipt.filter (·.accepted) with
    | none => exact throw_result _ _ _
    | some receipt =>
      refine stays_then (stays_outside _) fun batch => ?_
      refine stays_then (stays_outside _) fun stops => ?_
      cases stops with
      | true =>
        refine some_freeIfNone (stays_bind (stays_outside _) fun org => stays_ite ?_ ?_)
        · exact stays_wrapping (stays_bind (stays_outside _) fun _ =>
            storeDeliveredReply_stays _ _ _ _)
        · exact stays_throw _ _ _
      | false => exact some_freeIfNone (storeDeliveredReply_stays _ _ _ _)

/-- An accepted attempt without its receipt is not recovered from. -/
theorem replayAccepted_stays_of_none {mode : ReplyMode} (id : String) {prior : OutboundAttempt}
    (h : prior.receipt = none) : Stays orgId mode (replayAccepted orgId id prior) := by
  unfold replayAccepted
  rw [h]
  cases prior.recoveryHash with
  | none => exact stays_throw _ _ _
  | some hash => exact stays_throw _ _ _

theorem afterRead_of_ne {id : String} {prior : OutboundAttempt} (h : prior.status ≠ .accepted) :
    afterRead orgId .free orgId id (some prior) = .free := by
  simp [afterRead, h]

theorem replayByStatus_follows (id : String) (prior : OutboundAttempt) :
    Follows (protocol orgId) FreeIfNone
      (afterRead orgId .free orgId id (some prior)) (replayByStatus orgId id prior) := by
  unfold replayByStatus
  cases hstatus : prior.status with
  | pending =>
    rw [afterRead_of_ne (by simp [hstatus])]
    exact throw_result _ _ _
  | failed =>
    rw [afterRead_of_ne (by simp [hstatus])]
    exact throw_result _ _ _
  | rejected =>
    rw [afterRead_of_ne (by simp [hstatus])]
    exact free_freeIfNone (stays_ite (stays_throw _ _ _) (stays_pure _))
  | sent =>
    rw [afterRead_of_ne (by simp [hstatus])]
    exact free_freeIfNone (replaySent_stays _ _)
  | accepted =>
    cases hreceipt : prior.receipt with
    | none =>
      have hmode : afterRead orgId .free orgId id (some prior) = .free := by
        simp [afterRead, hreceipt]
      rw [hmode]
      exact free_freeIfNone (replayAccepted_stays_of_none id hreceipt)
    | some receipt =>
      have hmode : afterRead orgId .free orgId id (some prior) = .recovering id := by
        simp [afterRead, hstatus, hreceipt]
      rw [hmode]
      exact replayAccepted_follows id prior

theorem replayFor_follows (id : String) (threadId : Option String) (prior : OutboundAttempt) :
    Follows (protocol orgId) FreeIfNone
      (afterRead orgId .free orgId id (some prior)) (replayFor orgId id threadId prior) := by
  unfold replayFor
  cases present (threadId.map jsTrim) with
  | none => exact replayByStatus_follows id prior
  | some wanted =>
    by_cases hother : prior.threadId ≠ wanted
    · simp only [if_pos hother]
      exact throw_result _ _ _
    · simp only [if_neg hother]
      exact replayByStatus_follows id prior

theorem replayPriorAttempt_follows (id : String) (threadId : Option String) :
    Follows (protocol orgId) FreeIfNone .free (replayPriorAttempt orgId id threadId) := by
  refine .call trivial fun r _ => ?_
  cases r with
  | error e => exact .fail trivial
  | ok found =>
    cases found with
    | none => exact .done fun _ => rfl
    | some prior => exact replayFor_follows id threadId prior

end Replaying

/-! ## Sending -/

section Sending

variable {orgId : String}

theorem afterRead_of_ne_free {mode : ReplyMode} (hmode : mode ≠ .free) (readOrg id : String)
    (found : Option OutboundAttempt) : afterRead orgId mode readOrg id found = mode := by
  cases mode with
  | free => exact absurd rfl hmode
  | _ => rfl

theorem read_stays {mode : ReplyMode} (hmode : mode ≠ .free) (readOrg id : String) :
    Stays orgId mode (Call.getOutboundAttempt readOrg id) := by
  refine .call trivial fun r _ => ?_
  cases r with
  | error e => exact .fail rfl
  | ok found => exact .done (afterRead_of_ne_free hmode readOrg id found)

/-- The put of an acceptance makes the sender one who recovers. -/
theorem putAccepted_follows {id : String} {input : OutboundAttemptPut}
    (horg : input.orgId = orgId) (hid : input.clientRequestId = id)
    (hreceipt : input.receipt.isSome) :
    Follows (protocol orgId) (OnResult fun m _ => m = .recovering id) (.delivered id)
      (putOutboundAttempt input) := by
  have hmode : ReplyMode.delivered id ≠ .free := nofun
  refine stays_then (read_stays hmode _ _) fun previous => ?_
  refine .call ⟨horg, hid, hreceipt⟩ fun r _ => ?_
  cases r with
  | ok u => exact .done rfl
  | error e => exact .fail trivial

theorem putRejected_follows {id : String} {input : OutboundAttemptPut}
    (horg : input.orgId = orgId) (hid : input.clientRequestId = id)
    (hstatus : input.status = .rejected) (hreceipt : input.receipt = none) :
    Follows (protocol orgId) (OnResult fun _ _ => True) (.refused id)
      (putOutboundAttempt input) := by
  have hmode : ReplyMode.refused id ≠ .free := nofun
  refine stays_then (read_stays hmode _ _) fun previous => ?_
  refine .call ⟨horg, hid, hstatus, hreceipt⟩ fun r _ => ?_
  cases r with
  | ok u => exact .done trivial
  | error e => exact .fail trivial

/-- Where the end of a send leaves the replica. -/
def AfterSend (id : String) (mode : ReplyMode) : Except Thrown DeliveryReceipt → Prop
  | .ok _ => mode = .delivered id
  | .error (.sendNotAccepted _ _ _) => mode = .refused id
  | .error _ => True

theorem confirmedSend_follows (intent : SendIntent) :
    Follows (protocol orgId) (AfterSend intent.idempotencyKey)
      (.holding intent.idempotencyKey) (confirmedSend intent) := by
  refine .call rfl fun r hr => ?_
  obtain ⟨index, rfl⟩ := hr
  refine .call ⟨intent.idempotencyKey, rfl⟩ fun r _ => ?_
  cases r with
  | ok receipt =>
    cases haccepted : receipt.accepted with
    | true =>
      have hafter : afterSend intent.idempotencyKey (.ok receipt) =
          .delivered intent.idempotencyKey := by
        simp [afterSend, haccepted]
      show Follows (protocol orgId) (AfterSend intent.idempotencyKey)
        (afterSend intent.idempotencyKey (.ok receipt))
        (if receipt.accepted then pure receipt else .fail _)
      rw [hafter, haccepted]
      exact .done rfl
    | false =>
      show Follows (protocol orgId) (AfterSend intent.idempotencyKey)
        (afterSend intent.idempotencyKey (.ok receipt))
        (if receipt.accepted then pure receipt else .fail _)
      rw [haccepted]
      exact .fail trivial
  | error e =>
    cases e with
    | sendNotAccepted code message reason => exact .fail rfl
    | _ => exact .fail trivial

theorem sendFailed_follows (id threadId hash : String) {mode : ReplyMode} {e : Thrown}
    (h : AfterSend id mode (.error e)) :
    Follows (protocol orgId) (OnResult fun m _ => m = .delivered id) mode
      (sendFailed orgId id threadId hash e) := by
  cases e with
  | sendNotAccepted code message reason =>
    have hmode : mode = .refused id := h
    rw [hmode]
    have hput : Follows (protocol orgId) (OnResult fun _ _ => True) (.refused id)
        (do let now ← Call.now
            putOutboundAttempt
              { orgId
                clientRequestId := id
                threadId
                status := .rejected
                recoveryHash := some hash
                now } : ReplyProg Unit) :=
      stays_then (stays_outside _) fun now => putRejected_follows rfl rfl rfl rfl
    exact result_then (caught_result hput) fun _ _ _ => .fail trivial
  | _ => exact throw_result _ _ _

theorem recordDelivery_follows (id threadId : String) (thread : ConversationThread)
    (batch : ReplyBatch) (receipt : DeliveryReceipt) :
    Follows (protocol orgId) (OnResult fun _ _ => True) (.delivered id)
      (recordDelivery orgId id threadId thread batch receipt) := by
  refine stays_then (stays_outside _) fun externalId => ?_
  refine stays_then (stays_outside _) fun deliveredHash => ?_
  refine stays_then (stays_outside _) fun now => ?_
  refine result_then (putAccepted_follows rfl rfl rfl) fun m _ hm => ?_
  rw [hm]
  exact stays_result (storeDeliveredReply_stays _ _ _ _) fun _ => trivial

theorem deliver_follows (id threadId hash : String) (thread : ConversationThread)
    (batch : ReplyBatch) :
    Follows (protocol orgId) (OnResult fun _ _ => True) (.holding id)
      (deliver orgId id threadId hash thread batch) := by
  let intent : SendIntent :=
    { installationId := batch.connectorId
      scopeId := thread.target
      content := batch.content
      idempotencyKey := id }
  have hsend : Follows (protocol orgId) (OnResult fun m _ => m = .delivered id) (.holding id)
      ((confirmedSend intent).tryCatch (sendFailed orgId id threadId hash)) :=
    Follows.tryCatch (confirmedSend_follows intent) (fun _ _ hm => hm)
      fun m e he => sendFailed_follows id threadId hash he
  refine result_then hsend fun m receipt hm => ?_
  rw [hm]
  exact caught_result (recordDelivery_follows _ _ _ _ _)

theorem claimAndDeliver_follows (id threadId : String) (thread : ConversationThread)
    (batch : ReplyBatch) :
    Follows (protocol orgId) (OnResult fun _ _ => True) .free
      (claimAndDeliver orgId id threadId thread batch) := by
  refine stays_then (stays_outside _) fun hash => ?_
  refine .call ⟨rfl, rfl⟩ fun r _ => ?_
  cases r with
  | error e => exact .fail trivial
  | ok claimed =>
    cases claimed with
    | true => exact deliver_follows _ _ _ _ _
    | false =>
      show Follows (protocol orgId) _ .free (replayPriorAttempt orgId id (some threadId) >>= _)
      refine result_then (replayPriorAttempt_follows id (some threadId)) fun m found _ => ?_
      cases found with
      | some prior => exact .done trivial
      | none => exact .fail trivial

theorem findSender_stays {mode : ReplyMode} (thread : ConversationThread) :
    Stays orgId mode (findSender thread) := by
  refine stays_bind (stays_outside _) fun found => ?_
  cases found with
  | none => exact stays_throw _ _ _
  | some sender => exact stays_ite (stays_pure _) (stays_throw _ _ _)

theorem checkText_stays {mode : ReplyMode} (text : String)
    (attachments : List PreparedAttachment) : Stays orgId mode (checkText text attachments) :=
  stays_ite (stays_throw _ _ _) (stays_ite (stays_throw _ _ _) (stays_pure _))

theorem quotedItem_stays {mode : ReplyMode} (eventId : Option String) :
    Stays orgId mode (quotedItem eventId) := by
  cases eventId with
  | none => exact stays_pure _
  | some eventId => exact stays_outside _

theorem sendOnce_follows (input : ReplyInput) (id : String) :
    Follows (protocol orgId) (OnResult fun _ _ => True) .free (sendOnce orgId input id) := by
  refine stays_then (stays_wrapping (stays_liftThrown _)) fun thread => ?_
  refine stays_then (stays_outside _) fun attachments => ?_
  refine stays_then (checkText_stays _ _) fun _ => ?_
  refine stays_then (findSender_stays _) fun sender => ?_
  refine caught_result ?_
  refine stays_then (stays_outside _) fun _ => ?_
  refine stays_then (quotedItem_stays _) fun quoted => ?_
  refine stays_then (stays_wrapping (stays_outside _)) fun _ => ?_
  refine stays_then (stays_outside _) fun now => ?_
  refine stays_then (stays_outside _) fun _ => ?_
  exact claimAndDeliver_follows _ _ _ _

theorem requestId_stays {mode : ReplyMode} (input : ReplyInput) :
    Stays orgId mode (requestId input) := by
  unfold requestId
  cases present (input.clientRequestId.map jsTrim) with
  | none => exact stays_outside _
  | some id => exact stays_pure _

/-- A replica that serves one request keeps to the protocol. -/
theorem send_follows (input : ReplyInput) :
    Follows (protocol orgId) (fun _ _ => True) .free (send orgId input) := by
  have hresult : Follows (protocol orgId) (OnResult fun _ _ => True) .free
      (send orgId input) := by
    refine stays_then (requestId_stays _) fun id => ?_
    refine result_then (replayPriorAttempt_follows id input.threadId) fun m found hm => ?_
    cases found with
    | some prior => exact .done trivial
    | none =>
      rw [hm rfl]
      exact sendOnce_follows input id
  exact Follows.mono hresult fun _ _ _ => trivial

end Sending

end Regenic.Reply
