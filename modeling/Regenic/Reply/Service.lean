import Mathlib.Algebra.GroupWithZero.Nat
import Regenic.Lib.Pool
import Regenic.Reply.Attempts

/-!
The reply service as a program. Its calls are the reads and writes of the attempt table, the
channel's `send` and everything else it asks of the outside: drivers, blobs, the inbox and
ingestion, whose answers are arbitrary. The start of a send and its end are two calls, so a
crash, or another replica, can come between them.
-/

namespace Regenic.Reply

open Lib

structure ReplyAttachmentInput where
  filename : Option String := none
  mediaType : Option String := none
  dataBase64 : Option String := none
  deriving DecidableEq, Repr

structure ReplyInput where
  threadId : Option String := none
  text : Option String := none
  replyToEventId : Option String := none
  attachments : List ReplyAttachmentInput := []
  clientRequestId : Option String := none
  deriving DecidableEq, Repr

structure PreparedAttachment where
  filename : String
  mediaType : String
  deriving DecidableEq, Repr

structure InboxViewItem where
  channel : String
  externalId : String
  bodyText : Option String := none
  deriving DecidableEq, Repr

structure ReplyView where
  accepted : Bool
  source : String
  threadId : String
  rpcId : Option String
  clientRequestId : String
  item : InboxViewItem
  deriving DecidableEq, Repr

/-- The driver found for a conversation, on its installation. -/
structure Sender where
  installationId : String
  source : String
  canReply : Bool
  deriving DecidableEq, Repr

/-- What a message is composed of; the service does not look into it again. -/
structure ReplyContent where
  text : String
  quoted : Option InboxViewItem
  attachments : List PreparedAttachment
  deriving DecidableEq, Repr

structure SendIntent where
  installationId : String
  scopeId : String
  content : ReplyContent
  idempotencyKey : String
  deriving DecidableEq, Repr

/-- The ingest batch of one outbound record, kept as a blob for recovery. -/
structure ReplyBatch where
  connectorId : String
  orgId : String
  deliveryId : String
  source : String
  externalId : String
  scopeId : String
  parentExternalId : Option String
  content : ReplyContent
  receivedAt : String
  deriving DecidableEq, Repr

structure IngestedReply where
  valid : Bool
  eventId : Option String
  deriving DecidableEq, Repr

structure IdentityAlias where
  source : String
  externalId : String
  deriving DecidableEq, Repr

/-! ## Calls -/

/-- What the service asks of components that do not touch the attempt table. -/
inductive OutsideCall where
  | randomUUID
  | now
  | prepareAttachments (attachments : List ReplyAttachmentInput)
  | findForThread (thread : ConversationThread)
  | assertOpen (installationId : String)
  | getInboxItem (eventId : String)
  | bindEgress (installationId : String) (thread : ConversationThread)
  | conversationStamp (thread : ConversationThread)
  | saveReplyRecovery (batch : ReplyBatch)
  | loadReplyRecovery (hash : String)
  | stopsInstallations
  | findInstallation (connectorId : String)
  | outboundId (thread : ConversationThread) (receipt : DeliveryReceipt)
  | ingest (batch : ReplyBatch)
  | bindSourceIdentityAliases (eventId : String) (aliases : List IdentityAlias)
  deriving DecidableEq, Repr

def OutsideCall.Answer : OutsideCall → Type
  | .randomUUID | .now => String
  | .prepareAttachments _ => List PreparedAttachment
  | .findForThread _ => Option Sender
  | .assertOpen _ => Unit
  | .getInboxItem _ => Option InboxViewItem
  | .bindEgress _ _ | .conversationStamp _ => Unit
  | .saveReplyRecovery _ => String
  | .loadReplyRecovery _ => ReplyBatch
  | .stopsInstallations => Bool
  -- The organisation the installation belongs to.
  | .findInstallation _ => Option String
  | .outboundId _ _ => String
  | .ingest _ => IngestedReply
  | .bindSourceIdentityAliases _ _ => Unit

inductive ReplyCall where
  | getOutboundAttempt (orgId clientRequestId : String)
  | claimOutboundAttempt (input : NewOutboundAttempt)
  | upsertOutboundAttempt (input : OutboundAttemptPut) (createdAt : String)
  | startSend (intent : SendIntent)
  | awaitSend (index : Nat)
  | outside (call : OutsideCall)
  deriving DecidableEq, Repr

def ReplyCall.Answer : ReplyCall → Type
  | .getOutboundAttempt _ _ => Option OutboundAttempt
  | .claimOutboundAttempt _ => Bool
  | .upsertOutboundAttempt _ _ => Unit
  | .startSend _ => Nat
  | .awaitSend _ => DeliveryReceipt
  | .outside call => call.Answer

/-- Every call can throw. -/
abbrev ReplyCall.Response (c : ReplyCall) : Type := Except Thrown c.Answer

/-- One call of `egress.send`, and how it ended if it has. -/
structure SendCall where
  idempotencyKey : String
  outcome : Option (Except Thrown DeliveryReceipt) := none

/-- The call ended in `SendNotAcceptedError`. -/
def SendCall.NotAccepted (sent : SendCall) : Prop :=
  ∃ code message reason, sent.outcome = some (.error (.sendNotAccepted code message reason))

structure ReplyState where
  attempts : OutboundAttempts := ∅
  /-- Every call of `egress.send` so far, in order. -/
  sends : List SendCall := []

/-- A store call can fail before its effect, or after it when the answer is lost. -/
inductive StoreFault where
  | before (error : Thrown)
  | after (error : Thrown)

/-- What the outside decides about one call. -/
structure ReplyEnv where
  fault : Option StoreFault := none
  sendOutcome : Except Thrown DeliveryReceipt
  answer : (call : OutsideCall) → Except Thrown call.Answer

def withFault {α : Type} (fault : Option StoreFault) (s : ReplyState)
    (result : α × ReplyState) : Except Thrown α × ReplyState :=
  match fault with
  | none => (.ok result.1, result.2)
  | some (.before error) => (.error error, s)
  | some (.after error) => (.error error, result.2)

def ReplyState.settle (s : ReplyState) (index : Nat)
    (outcome : Except Thrown DeliveryReceipt) : ReplyState :=
  { s with sends := s.sends.modify index fun sent => { sent with outcome := some outcome } }

def ReplyCall.exec : (c : ReplyCall) → ReplyEnv → ReplyState → c.Response × ReplyState
  | .getOutboundAttempt orgId clientRequestId, env, s =>
    withFault env.fault s (s.attempts.getOutboundAttempt orgId clientRequestId, s)
  | .claimOutboundAttempt input, env, s =>
    let (claimed, attempts) := s.attempts.claimOutboundAttempt input
    withFault env.fault s (claimed, { s with attempts })
  | .upsertOutboundAttempt input createdAt, env, s =>
    withFault env.fault s
      ((), { s with attempts := s.attempts.upsertOutboundAttempt input createdAt })
  | .startSend intent, _, s =>
    (.ok s.sends.length,
      { s with sends := s.sends ++ [{ idempotencyKey := intent.idempotencyKey }] })
  | .awaitSend index, env, s => (env.sendOutcome, s.settle index env.sendOutcome)
  | .outside call, env, s => (env.answer call, s)

abbrev ReplyProg (α : Type) : Type := Prog ReplyCall.Response Thrown α

/-- Make a call and pass on what it throws. -/
def ask (c : ReplyCall) : ReplyProg c.Answer :=
  .call c fun
    | .ok answer => .done answer
    | .error error => .fail error

def throwConnector {α : Type} (code message : String) (httpStatus : Nat) : ReplyProg α :=
  .fail (.connector { code, message, httpStatus })

def liftThrown {α : Type} : Except Thrown α → ReplyProg α
  | .ok a => .done a
  | .error error => .fail error

/-- `catch (error) { throw wrapDriverError(error, fallback) }`. -/
def wrapping {α : Type} (fallback : String) (p : ReplyProg α) : ReplyProg α :=
  p.tryCatch fun error => .fail (.connector (wrapDriverError error fallback))

namespace Call

def getOutboundAttempt (orgId clientRequestId : String) : ReplyProg (Option OutboundAttempt) :=
  ask (.getOutboundAttempt orgId clientRequestId)

def claimOutboundAttempt (input : NewOutboundAttempt) : ReplyProg Bool :=
  ask (.claimOutboundAttempt input)

def outside (call : OutsideCall) : ReplyProg call.Answer := ask (.outside call)

def now : ReplyProg String := outside .now

def randomUUID : ReplyProg String := outside .randomUUID

def prepareAttachments (attachments : List ReplyAttachmentInput) :
    ReplyProg (List PreparedAttachment) := outside (.prepareAttachments attachments)

def findForThread (thread : ConversationThread) : ReplyProg (Option Sender) :=
  outside (.findForThread thread)

def assertOpen (installationId : String) : ReplyProg Unit := outside (.assertOpen installationId)

def getInboxItem (eventId : String) : ReplyProg (Option InboxViewItem) :=
  outside (.getInboxItem eventId)

def bindEgress (installationId : String) (thread : ConversationThread) : ReplyProg Unit :=
  outside (.bindEgress installationId thread)

def conversationStamp (thread : ConversationThread) : ReplyProg Unit :=
  outside (.conversationStamp thread)

def saveReplyRecovery (batch : ReplyBatch) : ReplyProg String := outside (.saveReplyRecovery batch)

def loadReplyRecovery (hash : String) : ReplyProg ReplyBatch := outside (.loadReplyRecovery hash)

def stopsInstallations : ReplyProg Bool := outside .stopsInstallations

def findInstallation (connectorId : String) : ReplyProg (Option String) :=
  outside (.findInstallation connectorId)

def outboundId (thread : ConversationThread) (receipt : DeliveryReceipt) : ReplyProg String :=
  outside (.outboundId thread receipt)

def ingest (batch : ReplyBatch) : ReplyProg IngestedReply := outside (.ingest batch)

def bindSourceIdentityAliases (eventId : String) (aliases : List IdentityAlias) :
    ReplyProg Unit := outside (.bindSourceIdentityAliases eventId aliases)

end Call

/-- `putOutboundAttempt`: a read for `created_at`, then the upsert. -/
def putOutboundAttempt (input : OutboundAttemptPut) : ReplyProg Unit := do
  let previous ← Call.getOutboundAttempt input.orgId input.clientRequestId
  ask (.upsertOutboundAttempt input ((previous.map (·.createdAt)).getD input.now))

/-- `egress.send`: the call, then the end of its promise. -/
def egressSend (intent : SendIntent) : ReplyProg DeliveryReceipt := do
  let index ← ask (.startSend intent)
  ask (.awaitSend index)

/-! ## After delivery -/

/-- The ids of the receipt in the conversation, without the record's own id. -/
def channelAliases (batch : ReplyBatch) (thread : ConversationThread)
    (receipt : DeliveryReceipt) : List IdentityAlias :=
  let natives := (channelMessageIds receipt).map fun messageId => thread.target ++ ":" ++ messageId
  (keepFirst id (natives.filter (· ≠ batch.externalId))).map fun externalId =>
    { source := batch.source, externalId }

def bindChannelAliases (eventId : String) (aliases : List IdentityAlias) : ReplyProg Unit :=
  if aliases = [] then pure () else Call.bindSourceIdentityAliases eventId aliases

def storeDeliveredReply (orgId : String) (batch : ReplyBatch) (receipt : DeliveryReceipt)
    (threadId clientRequestId : String) : ReplyProg ReplyView := do
  let thread ← liftThrown (parseConversationThread threadId)
  let ingested ← Call.ingest batch
  if ingested.valid = false then
    throwConnector "send_failed" "Reply was delivered but could not be stored" 502
  else
    match present ingested.eventId with
    | none => throwConnector "send_failed" "Reply was delivered but did not enter current work" 502
    | some eventId => do
      bindChannelAliases eventId (channelAliases batch thread receipt)
      let now ← Call.now
      putOutboundAttempt
        { orgId
          clientRequestId
          threadId
          eventId := some eventId
          status := .sent
          channelMessageIds := some (channelMessageIds receipt)
          now }
      match ← Call.getInboxItem eventId with
      | none => throwConnector "send_failed" "Reply was delivered but did not enter current work" 502
      | some item =>
        pure
          { accepted := true
            source := batch.source
            threadId
            rpcId := receipt.rpcId
            clientRequestId
            item }

/-! ## A request that was seen before -/

def replaySent (clientRequestId : String) (prior : OutboundAttempt) :
    ReplyProg (Option ReplyView) :=
  match prior.eventId with
  | none =>
    throwConnector "send_recovery_unavailable"
      "Reply attempt has no stored event. Check the conversation; do not resend." 409
  | some eventId => do
    match ← Call.getInboxItem eventId with
    | none =>
      throwConnector "send_failed" "Reply was already accepted; refresh the conversation" 502
    | some item =>
      pure (some
        { accepted := true
          source := item.channel
          threadId := prior.threadId
          rpcId := prior.receipt.bind (·.rpcId)
          clientRequestId
          item })

/-- `runInstallation` refuses when the installation has stopped. -/
def replayInstallation (orgId clientRequestId : String) (prior : OutboundAttempt)
    (batch : ReplyBatch) (receipt : DeliveryReceipt) : ReplyProg ReplyView := do
  if (← Call.findInstallation batch.connectorId) = some orgId then
    wrapping "send_failed" do
      Call.assertOpen batch.connectorId
      storeDeliveredReply orgId batch receipt prior.threadId clientRequestId
  else throwConnector "not_found" "Connector installation not found" 404

def replayAccepted (orgId clientRequestId : String) (prior : OutboundAttempt) :
    ReplyProg (Option ReplyView) :=
  match prior.recoveryHash, prior.receipt.filter (·.accepted) with
  | some hash, some receipt => do
    let batch ← Call.loadReplyRecovery hash
    if ← Call.stopsInstallations then
      some <$> replayInstallation orgId clientRequestId prior batch receipt
    else some <$> storeDeliveredReply orgId batch receipt prior.threadId clientRequestId
  | _, _ =>
    throwConnector "send_recovery_unavailable"
      ("Reply was delivered, but this older attempt has no recovery payload. Refresh the " ++
        "conversation; do not resend.") 409

def replayByStatus (orgId clientRequestId : String) (prior : OutboundAttempt) :
    ReplyProg (Option ReplyView) :=
  match prior.status with
  | .rejected =>
    if prior.eventId.isSome ∨ prior.receipt.isSome ∨ prior.channelMessageIds.isSome then
      throwConnector "send_recovery_unavailable"
        ("A rejected reply has conflicting delivery evidence. Check the conversation; do not " ++
          "resend.") 409
    else pure none
  | .failed | .pending =>
    throwConnector "send_uncertain"
      ("Delivery is in progress or its outcome is unknown. Check the conversation before " ++
        "sending again.") 409
  | .accepted => replayAccepted orgId clientRequestId prior
  | .sent => replaySent clientRequestId prior

def otherConversation : ReplyProg (Option ReplyView) :=
  throwConnector "invalid_reply" "client_request_id was already used for another conversation" 409

def replayFor (orgId clientRequestId : String) (threadId : Option String)
    (prior : OutboundAttempt) : ReplyProg (Option ReplyView) :=
  match present (threadId.map jsTrim) with
  | some wanted =>
    if prior.threadId ≠ wanted then otherConversation
    else replayByStatus orgId clientRequestId prior
  | none => replayByStatus orgId clientRequestId prior

def replayPriorAttempt (orgId clientRequestId : String) (threadId : Option String) :
    ReplyProg (Option ReplyView) := do
  match ← Call.getOutboundAttempt orgId clientRequestId with
  | none => pure none
  | some prior => replayFor orgId clientRequestId threadId prior

/-! ## Sending -/

def maxText : Nat := 32000

/-- `length` of a JavaScript string: UTF-16 code units. -/
def utf16Length (s : String) : Nat :=
  (s.toList.map fun c => if c.toNat < 0x10000 then 1 else 2).sum

def checkText (text : String) (attachments : List PreparedAttachment) : ReplyProg Unit :=
  if utf16Length text = 0 ∧ attachments = [] then
    throwConnector "invalid_reply" "Reply needs text or an attachment" 400
  else if maxText < utf16Length text then
    throwConnector "invalid_reply" "Reply text must be 32000 characters or fewer" 400
  else pure ()

def findSender (thread : ConversationThread) : ReplyProg Sender := do
  match ← Call.findForThread thread with
  | none => throwConnector "no_sender" "No enabled connector can reply in this conversation" 404
  | some sender =>
    if sender.canReply then pure sender
    else
      throwConnector "unsupported_channel"
        ("Sending back to " ++ thread.source ++ " is not available yet") 501

def quotedItem : Option String → ReplyProg (Option InboxViewItem)
  | none => pure none
  | some eventId => Call.getInboxItem eventId

def replyBatch (orgId clientRequestId now : String) (sender : Sender)
    (thread : ConversationThread) (content : ReplyContent) : ReplyBatch :=
  { connectorId := sender.installationId
    orgId
    deliveryId := "reply:" ++ clientRequestId
    source := sender.source
    externalId := "reply:" ++ clientRequestId
    scopeId := thread.target
    parentExternalId := content.quoted.map (·.externalId)
    content
    receivedAt := now }

/-- `egress.send` under its own `try`: an answer that is not an acceptance throws. -/
def confirmedSend (intent : SendIntent) : ReplyProg DeliveryReceipt := do
  let receipt ← egressSend intent
  if receipt.accepted then pure receipt
  else .fail (.error "Channel did not confirm acceptance")

/-- The handler of the send: only an explicit refusal frees the request id again. -/
def sendFailed (orgId clientRequestId threadId recoveryHash : String) (error : Thrown) :
    ReplyProg DeliveryReceipt :=
  match error with
  | .sendNotAccepted code message reason => do
    (do let now ← Call.now
        putOutboundAttempt
          { orgId
            clientRequestId
            threadId
            status := .rejected
            recoveryHash := some recoveryHash
            now } : ReplyProg Unit).tryCatch fun _ =>
      throwConnector "send_rejection_pending"
        ("The channel rejected the reply, but retry state could not be saved. Do not resend " ++
          "automatically.") 503
    .fail (.connector (wrapDriverError (.sendNotAccepted code message reason) "send_failed"))
  | _ =>
    throwConnector "send_uncertain"
      ("Delivery could not be confirmed. Check the conversation before sending again (request " ++
        clientRequestId ++ ").") 409

def recordDelivery (orgId clientRequestId threadId : String) (thread : ConversationThread)
    (batch : ReplyBatch) (receipt : DeliveryReceipt) : ReplyProg ReplyView := do
  let externalId ← Call.outboundId thread receipt
  let delivered := { batch with externalId }
  let deliveredHash ← Call.saveReplyRecovery delivered
  let now ← Call.now
  putOutboundAttempt
    { orgId
      clientRequestId
      threadId
      status := .accepted
      recoveryHash := some deliveredHash
      receipt := some receipt
      channelMessageIds := some (channelMessageIds receipt)
      now }
  storeDeliveredReply orgId delivered receipt threadId clientRequestId

def deliver (orgId clientRequestId threadId recoveryHash : String)
    (thread : ConversationThread) (batch : ReplyBatch) : ReplyProg ReplyView := do
  let receipt ← (confirmedSend
    { installationId := batch.connectorId
      scopeId := thread.target
      content := batch.content
      idempotencyKey := clientRequestId }).tryCatch
    (sendFailed orgId clientRequestId threadId recoveryHash)
  (recordDelivery orgId clientRequestId threadId thread batch receipt).tryCatch fun _ =>
    throwConnector "send_recovery_pending"
      ("Reply was delivered but local storage is incomplete. Retry the same request for " ++
        "recovery; do not send a new request (request " ++ clientRequestId ++ ").") 503

def claimAndDeliver (orgId clientRequestId threadId : String) (thread : ConversationThread)
    (batch : ReplyBatch) : ReplyProg ReplyView := do
  let recoveryHash ← Call.saveReplyRecovery batch
  let claimed ← Call.claimOutboundAttempt
    { orgId, clientRequestId, threadId, recoveryHash := some recoveryHash
      now := batch.receivedAt }
  if claimed then deliver orgId clientRequestId threadId recoveryHash thread batch
  else
    match ← replayPriorAttempt orgId clientRequestId (some threadId) with
    | some prior => pure prior
    | none => throwConnector "send_in_progress" "Reply is already claimed" 409

def sendThrough (orgId clientRequestId threadId : String) (thread : ConversationThread)
    (sender : Sender) (input : ReplyInput) (attachments : List PreparedAttachment) :
    ReplyProg ReplyView := do
  Call.assertOpen sender.installationId
  let quoted ← quotedItem (present input.replyToEventId)
  wrapping "send_failed" (Call.bindEgress sender.installationId thread)
  let now ← Call.now
  Call.conversationStamp thread
  claimAndDeliver orgId clientRequestId threadId thread
    (replyBatch orgId clientRequestId now sender thread
      { text := jsTrim (input.text.getD ""), quoted, attachments })

def sendOnce (orgId : String) (input : ReplyInput) (clientRequestId : String) :
    ReplyProg ReplyView := do
  let threadId := jsTrim (input.threadId.getD "")
  let thread ← wrapping "invalid_config" (liftThrown (parseConversationThread threadId))
  let attachments ← Call.prepareAttachments input.attachments
  checkText (jsTrim (input.text.getD "")) attachments
  let sender ← findSender thread
  wrapping "send_failed"
    (sendThrough orgId clientRequestId threadId thread sender input attachments)

def runIdempotentSend (orgId : String) (input : ReplyInput) (clientRequestId : String) :
    ReplyProg ReplyView := do
  match ← replayPriorAttempt orgId clientRequestId input.threadId with
  | some prior => pure prior
  | none => sendOnce orgId input clientRequestId

def requestId (input : ReplyInput) : ReplyProg String :=
  match present (input.clientRequestId.map jsTrim) with
  | some clientRequestId => pure clientRequestId
  | none => Call.randomUUID

/-- Requests that arrive at one replica while the same id is in flight there share its
answer and make no calls of their own, so a request here is one that runs. -/
def send (orgId : String) (input : ReplyInput) : ReplyProg ReplyView := do
  let clientRequestId ← requestId input
  runIdempotentSend orgId input clientRequestId

end Regenic.Reply
