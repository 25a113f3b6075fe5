import Regenic.Lib.History
import Regenic.Reply.Service

/-!
What one request of the reply service hands over to the channel, and when it can answer with a
view: only after the channel accepted a send under the request's id, now or, by what the stored
attempt says, before.
-/

namespace Regenic.Reply

open Lib

abbrev ReplyHistory : Type := History ReplyCall.Response

/-- A send under this id was accepted in front of the request. -/
def AcceptedNow (id : String) (h : ReplyHistory) : Prop :=
  ∃ (intent : SendIntent) (index : Nat) (receipt : DeliveryReceipt),
    ⟨.startSend intent, .ok index⟩ ∈ h ∧ intent.idempotencyKey = id ∧
      ⟨.awaitSend index, .ok receipt⟩ ∈ h ∧ receipt.accepted = true

/-- The stored attempt was read as one that the channel accepted. -/
def AcceptedBefore (id : String) (h : ReplyHistory) : Prop :=
  ∃ (orgId : String) (row : OutboundAttempt),
    ⟨.getOutboundAttempt orgId id, .ok (some row)⟩ ∈ h ∧
      (row.status = .accepted ∨ row.status = .sent)

def Delivered (id : String) (h : ReplyHistory) : Prop := AcceptedNow id h ∨ AcceptedBefore id h

/-- The calls of a request with this id and this text. -/
def mayCall (id text : String) (h : ReplyHistory) : ReplyCall → Prop
  | .startSend intent => intent.idempotencyKey = id ∧ intent.content.text = text
  | .awaitSend index => ∃ intent, ⟨.startSend intent, .ok index⟩ ∈ h
  | .upsertOutboundAttempt input _ =>
    input.status = .rejected ∨ input.clientRequestId = id ∧ Delivered id h
  | _ => True

theorem Delivered.mono {id : String} {h h' : ReplyHistory} (hdelivered : Delivered id h)
    (hsuffix : h <:+ h') : Delivered id h' := by
  rcases hdelivered with ⟨intent, index, receipt, hstart, hid, hawait, haccepted⟩ |
    ⟨orgId, row, hread, hstatus⟩
  · exact Or.inl ⟨intent, index, receipt, hsuffix.subset hstart, hid, hsuffix.subset hawait,
      haccepted⟩
  · exact Or.inr ⟨orgId, row, hsuffix.subset hread, hstatus⟩

/-! ## Programs without a send -/

/-- A call that sends nothing and puts no more than a refusal. -/
def unsent : ReplyCall → Prop
  | .startSend _ | .awaitSend _ => False
  | .upsertOutboundAttempt input _ => input.status = .rejected
  | _ => True

/-- A call after a delivery under this id. -/
def afterDelivery (id : String) : ReplyCall → Prop
  | .startSend _ | .awaitSend _ => False
  | .upsertOutboundAttempt input _ => input.clientRequestId = id
  | _ => True

section Calls

variable {α β : Type} {ok : ReplyCall → Prop} {id : String}

theorem ask_calls {c : ReplyCall} (h : ok c) : (ask c).Calls ok := by
  constructor
  · exact h
  · intro r
    cases r with
    | ok answer => trivial
    | error e => trivial

theorem liftThrown_calls (r : Except Thrown α) : (liftThrown r).Calls ok := by
  cases r with
  | ok a => trivial
  | error e => trivial

theorem wrapping_calls {fallback : String} {p : ReplyProg α} (hp : p.Calls ok) :
    (wrapping fallback p).Calls ok := Prog.calls_tryCatch hp fun _ => trivial

theorem map_calls {p : ReplyProg α} (f : α → β) (hp : p.Calls ok) : (f <$> p).Calls ok :=
  Prog.calls_bind hp fun _ => trivial

theorem putOutboundAttempt_calls {input : OutboundAttemptPut}
    (hread : ok (.getOutboundAttempt input.orgId input.clientRequestId))
    (hput : ∀ createdAt, ok (.upsertOutboundAttempt input createdAt)) :
    (putOutboundAttempt input).Calls ok :=
  Prog.calls_bind (ask_calls hread) fun _ => ask_calls (hput _)

theorem claimOutboundAttempt_calls (input : NewOutboundAttempt) :
    (Call.claimOutboundAttempt input).Calls unsent := ask_calls trivial

theorem bindChannelAliases_calls (houtside : ∀ call, ok (.outside call)) (eventId : String)
    (aliases : List IdentityAlias) : (bindChannelAliases eventId aliases).Calls ok :=
  Prog.calls_ite (fun _ => trivial) fun _ => ask_calls (houtside _)

theorem storeDeliveredReply_calls (orgId : String) (batch : ReplyBatch)
    (receipt : DeliveryReceipt) (threadId : String) :
    (storeDeliveredReply orgId batch receipt threadId id).Calls (afterDelivery id) := by
  apply Prog.calls_bind (liftThrown_calls _)
  intro thread
  apply Prog.calls_bind (ask_calls trivial)
  intro ingested
  apply Prog.calls_ite
  · intro _
    trivial
  · intro _
    cases present ingested.eventId with
    | none => trivial
    | some eventId =>
      apply Prog.calls_bind (bindChannelAliases_calls (fun _ => trivial) _ _)
      intro _
      apply Prog.calls_bind (ask_calls trivial)
      intro now
      apply Prog.calls_bind (putOutboundAttempt_calls trivial fun _ => rfl)
      intro _
      apply Prog.calls_bind (ask_calls trivial)
      intro item
      cases item with
      | none => trivial
      | some item => trivial

theorem replaySent_calls (prior : OutboundAttempt) :
    (replaySent id prior).Calls (afterDelivery id) := by
  unfold replaySent
  cases prior.eventId with
  | none => trivial
  | some eventId =>
    apply Prog.calls_bind (ask_calls trivial)
    intro item
    cases item with
    | none => trivial
    | some item => trivial

theorem replayInstallation_calls (orgId : String) (prior : OutboundAttempt)
    (batch : ReplyBatch) (receipt : DeliveryReceipt) :
    (replayInstallation orgId id prior batch receipt).Calls (afterDelivery id) := by
  apply Prog.calls_bind (ask_calls trivial)
  intro found
  apply Prog.calls_ite
  · intro _
    apply wrapping_calls
    apply Prog.calls_bind (ask_calls trivial)
    intro _
    exact storeDeliveredReply_calls _ _ _ _
  · intro _
    trivial

theorem replayAccepted_calls (orgId : String) (prior : OutboundAttempt) :
    (replayAccepted orgId id prior).Calls (afterDelivery id) := by
  unfold replayAccepted
  split
  · next hash receipt _ _ =>
    apply Prog.calls_bind (ask_calls trivial)
    intro batch
    apply Prog.calls_bind (ask_calls trivial)
    intro stops
    cases stops with
    | true => exact map_calls _ (replayInstallation_calls _ _ _ _)
    | false => exact map_calls _ (storeDeliveredReply_calls _ _ _ _)
  · trivial

theorem checkText_calls (text : String) (attachments : List PreparedAttachment) :
    (checkText text attachments).Calls ok := by
  apply Prog.calls_ite
  · intro _
    trivial
  · intro _
    exact Prog.calls_ite (fun _ => trivial) fun _ => trivial

theorem findSender_calls (houtside : ∀ call, ok (.outside call)) (thread : ConversationThread) :
    (findSender thread).Calls ok := by
  apply Prog.calls_bind (ask_calls (houtside _))
  intro found
  cases found with
  | none => trivial
  | some sender => exact Prog.calls_ite (fun _ => trivial) fun _ => trivial

theorem quotedItem_calls (houtside : ∀ call, ok (.outside call)) (eventId : Option String) :
    (quotedItem eventId).Calls ok := by
  cases eventId with
  | none => trivial
  | some eventId => exact ask_calls (houtside _)

/-- Whatever the error, the handler of the send throws again. -/
theorem sendFailed_fails (orgId clientRequestId threadId recoveryHash : String) (e : Thrown) :
    ∃ p : ReplyProg Unit, p.Calls unsent ∧ ∃ thrown,
      sendFailed orgId clientRequestId threadId recoveryHash e = p.bind fun _ => .fail thrown := by
  cases e with
  | sendNotAccepted code message reason =>
    refine ⟨_, ?_, _, rfl⟩
    apply Prog.calls_tryCatch
    · apply Prog.calls_bind (ask_calls trivial)
      intro now
      exact putOutboundAttempt_calls trivial fun _ => rfl
    · intro e
      trivial
  | connector error => exact ⟨.done (), trivial, _, rfl⟩
  | deadline message => exact ⟨.done (), trivial, _, rfl⟩
  | driver code message reason => exact ⟨.done (), trivial, _, rfl⟩
  | error message => exact ⟨.done (), trivial, _, rfl⟩

end Calls

/-! ## One request -/

section Requests

variable {α : Type} {id text orgId : String} {h : ReplyHistory}

theorem obeys_unsent {p : ReplyProg α} (hp : p.Calls unsent) :
    Obeys (mayCall id text) h p fun _ _ => True := by
  apply Obeys.of_calls hp
  intro h' c _ hc
  cases c with
  | upsertOutboundAttempt input createdAt => exact Or.inl hc
  | startSend intent => cases hc
  | awaitSend index => cases hc
  | getOutboundAttempt orgId clientRequestId => trivial
  | claimOutboundAttempt input => trivial
  | outside call => trivial

/-- Once a send was accepted the request may store what it likes about it. -/
theorem obeys_delivered (hdelivered : Delivered id h) {p : ReplyProg α}
    (hp : p.Calls (afterDelivery id)) :
    Obeys (mayCall id text) h p fun h' _ => Delivered id h' := by
  have hfree : Obeys (mayCall id text) h p fun _ _ => True := by
    apply Obeys.of_calls hp
    intro h' c hsuffix hc
    cases c with
    | upsertOutboundAttempt input createdAt => exact Or.inr ⟨hc, hdelivered.mono hsuffix⟩
    | startSend intent => cases hc
    | awaitSend index => cases hc
    | getOutboundAttempt orgId clientRequestId => trivial
    | claimOutboundAttempt input => trivial
    | outside call => trivial
  exact hfree.mono fun h' a hsuffix _ => hdelivered.mono hsuffix

theorem obeys_outside {call : OutsideCall} :
    Obeys (mayCall id text) h (Call.outside call) fun _ _ => True :=
  obeys_unsent (ask_calls trivial)

theorem obeys_wrapping {fallback : String} {p : ReplyProg α} {post : ReplyHistory → α → Prop}
    (hp : Obeys (mayCall id text) h p post) :
    Obeys (mayCall id text) h (wrapping fallback p) post :=
  hp.tryCatch (fun _ _ _ hpost => hpost) fun _ _ _ => Obeys.fail _

/-- A replay that comes to a view has read an accepted attempt. -/
def DeliveredIfSome (id : String) (h : ReplyHistory) (found : Option ReplyView) : Prop :=
  found.isSome → Delivered id h

theorem replayByStatus_obeys {readOrg : String} {prior : OutboundAttempt}
    (hread : ⟨.getOutboundAttempt readOrg id, .ok (some prior)⟩ ∈ h) :
    Obeys (mayCall id text) h (replayByStatus orgId id prior) (DeliveredIfSome id) := by
  unfold replayByStatus
  cases hstatus : prior.status with
  | rejected =>
    apply Obeys.ite
    · intro _
      exact Obeys.fail _
    · intro _
      exact Obeys.done fun hsome => nomatch hsome
  | failed => exact Obeys.fail _
  | pending => exact Obeys.fail _
  | accepted =>
    have hdelivered : Delivered id h := Or.inr ⟨readOrg, prior, hread, Or.inl hstatus⟩
    exact (obeys_delivered hdelivered (replayAccepted_calls _ _)).mono fun _ _ _ hd _ => hd
  | sent =>
    have hdelivered : Delivered id h := Or.inr ⟨readOrg, prior, hread, Or.inr hstatus⟩
    exact (obeys_delivered hdelivered (replaySent_calls _)).mono fun _ _ _ hd _ => hd

theorem replayFor_obeys {readOrg : String} {threadId : Option String} {prior : OutboundAttempt}
    (hread : ⟨.getOutboundAttempt readOrg id, .ok (some prior)⟩ ∈ h) :
    Obeys (mayCall id text) h (replayFor orgId id threadId prior) (DeliveredIfSome id) := by
  unfold replayFor
  cases present (threadId.map jsTrim) with
  | none => exact replayByStatus_obeys hread
  | some wanted =>
    apply Obeys.ite
    · intro _
      exact Obeys.fail _
    · intro _
      exact replayByStatus_obeys hread

theorem replayPriorAttempt_obeys (threadId : Option String) :
    Obeys (mayCall id text) h (replayPriorAttempt orgId id threadId) (DeliveredIfSome id) := by
  apply Obeys.call trivial
  intro r
  cases r with
  | error e => exact Obeys.fail _
  | ok found =>
    cases found with
    | none => exact Obeys.done fun hsome => nomatch hsome
    | some prior => exact replayFor_obeys List.mem_cons_self

theorem confirmedSend_obeys {intent : SendIntent} (hid : intent.idempotencyKey = id)
    (htext : intent.content.text = text) :
    Obeys (mayCall id text) h (confirmedSend intent) fun h' _ => Delivered id h' := by
  apply Obeys.call ⟨hid, htext⟩
  intro started
  cases started with
  | error e => exact Obeys.fail _
  | ok index =>
    apply Obeys.call ⟨intent, List.mem_cons_self⟩
    intro outcome
    cases outcome with
    | error e => exact Obeys.fail _
    | ok receipt =>
      apply Obeys.ite
      · intro haccepted
        exact Obeys.done (Or.inl ⟨intent, index, receipt,
          List.mem_cons_of_mem _ List.mem_cons_self, hid, List.mem_cons_self, haccepted⟩)
      · intro _
        exact Obeys.fail _

theorem recordDelivery_calls (orgId threadId : String) (thread : ConversationThread)
    (batch : ReplyBatch) (receipt : DeliveryReceipt) :
    (recordDelivery orgId id threadId thread batch receipt).Calls (afterDelivery id) := by
  apply Prog.calls_bind (ask_calls trivial)
  intro externalId
  apply Prog.calls_bind (ask_calls trivial)
  intro deliveredHash
  apply Prog.calls_bind (ask_calls trivial)
  intro now
  apply Prog.calls_bind (putOutboundAttempt_calls trivial fun _ => rfl)
  intro _
  exact storeDeliveredReply_calls _ _ _ _

theorem deliver_obeys {threadId recoveryHash : String} {thread : ConversationThread}
    {batch : ReplyBatch} (htext : batch.content.text = text) :
    Obeys (mayCall id text) h (deliver orgId id threadId recoveryHash thread batch)
      fun h' _ => Delivered id h' := by
  have hsend : Obeys (mayCall id text) h
      ((confirmedSend
        { installationId := batch.connectorId
          scopeId := thread.target
          content := batch.content
          idempotencyKey := id }).tryCatch (sendFailed orgId id threadId recoveryHash))
      fun h' _ => Delivered id h' := by
    have hconfirmed : Obeys (mayCall id text) h
        (confirmedSend
          { installationId := batch.connectorId
            scopeId := thread.target
            content := batch.content
            idempotencyKey := id })
        fun h' _ => Delivered id h' := confirmedSend_obeys rfl htext
    apply hconfirmed.tryCatch
    · intro h' receipt _ hdelivered
      exact hdelivered
    · intro h' e _
      obtain ⟨p, hp, thrown, heq⟩ := sendFailed_fails orgId id threadId recoveryHash e
      rw [heq]
      exact (obeys_unsent hp).bind fun _ _ _ _ => Obeys.fail thrown
  apply Obeys.bind hsend
  intro h' receipt _ hdelivered
  apply (obeys_delivered hdelivered (recordDelivery_calls _ _ _ _ _)).tryCatch
  · intro h'' view _ hagain
    exact hagain
  · intro h'' e _
    exact Obeys.fail _

theorem claimAndDeliver_obeys {threadId : String} {thread : ConversationThread}
    {batch : ReplyBatch} (htext : batch.content.text = text) :
    Obeys (mayCall id text) h (claimAndDeliver orgId id threadId thread batch)
      fun h' _ => Delivered id h' := by
  apply Obeys.bind obeys_outside
  intro h₁ recoveryHash _ _
  apply Obeys.bind (obeys_unsent (claimOutboundAttempt_calls _))
  intro h₂ claimed _ _
  cases claimed with
  | true => exact deliver_obeys htext
  | false =>
    apply Obeys.bind (replayPriorAttempt_obeys _)
    intro h₃ found _ hfound
    cases found with
    | none => exact Obeys.fail _
    | some view => exact Obeys.done (hfound rfl)

theorem sendThrough_obeys {threadId : String} {thread : ConversationThread} {sender : Sender}
    {input : ReplyInput} {attachments : List PreparedAttachment} :
    Obeys (mayCall id (jsTrim (input.text.getD ""))) h
      (sendThrough orgId id threadId thread sender input attachments)
      fun h' _ => Delivered id h' := by
  apply Obeys.bind obeys_outside
  intro h₁ _ _ _
  apply Obeys.bind (obeys_unsent (quotedItem_calls (fun _ => trivial) _))
  intro h₂ quoted _ _
  apply Obeys.bind (obeys_wrapping obeys_outside)
  intro h₃ _ _ _
  apply Obeys.bind obeys_outside
  intro h₄ now _ _
  apply Obeys.bind obeys_outside
  intro h₅ _ _ _
  exact claimAndDeliver_obeys rfl

theorem sendOnce_obeys {input : ReplyInput} :
    Obeys (mayCall id (jsTrim (input.text.getD ""))) h (sendOnce orgId input id)
      fun h' _ => Delivered id h' := by
  apply Obeys.bind (obeys_wrapping (obeys_unsent (liftThrown_calls _)))
  intro h₁ thread _ _
  apply Obeys.bind obeys_outside
  intro h₂ attachments _ _
  apply Obeys.bind (obeys_unsent (checkText_calls _ _))
  intro h₃ _ _ _
  apply Obeys.bind (obeys_unsent (findSender_calls (fun _ => trivial) _))
  intro h₄ sender _ _
  exact obeys_wrapping sendThrough_obeys

/-- A request that is given an id hands over its own text under it, and answers with a view only
when the channel has accepted a send under it. -/
theorem send_obeys {input : ReplyInput}
    (hid : present (input.clientRequestId.map jsTrim) = some id) :
    Obeys (mayCall id (jsTrim (input.text.getD ""))) h (send orgId input)
      fun h' _ => Delivered id h' := by
  unfold send requestId
  rw [hid]
  apply Obeys.bind (replayPriorAttempt_obeys _)
  intro h' found _ hfound
  cases found with
  | none => exact sendOnce_obeys
  | some view => exact Obeys.done (hfound rfl)

end Requests

end Regenic.Reply
