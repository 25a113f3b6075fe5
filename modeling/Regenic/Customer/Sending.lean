import Regenic.Customer.Drafts

/-!
The sending of an approved draft: the business facts are asked for again before it, the reply
service delivers it under a request id made of the task and the version of the draft, and the
task is marked as sent or given back.
-/

namespace Regenic.Customer

open Lib Reply

variable (options : CustomerOptions)

/-! ## Revalidation -/

def revalidationFailed (thrown : CustomerThrown) : CustomerThrown :=
  .service .businessUnavailable (thrown.message?.getD "Business revalidation failed")

def maxRevalidationPages : Nat := 100

/-- The loop over the pages of a query round, with the turns that it has left. -/
def freshPages (task : CustomerServiceTask) :
    Nat → List String → Option String → List GatewayAnswer → CustomerProg (List GatewayAnswer)
  | 0, _, _, fresh => pure fresh
  | turns + 1, seenPages, page, fresh => do
    let query ← liftThrown (businessQuery task page)
    let evidence ← queryGateway options query revalidationFailed
    liftThrown (validateGatewayEvidence options task query evidence)
    match present evidence.nextPage with
    | none =>
      if evidence.complete then pure (fresh ++ [⟨query, evidence⟩])
      else
        throwService .businessUnavailable "Business revalidation returned an invalid page chain"
    | some next =>
      if next ∈ seenPages then
        throwService .businessUnavailable "Business revalidation returned an invalid page chain"
      else freshPages task turns (next :: seenPages) (some next) (fresh ++ [⟨query, evidence⟩])

structure ResultFingerprint where
  memberKey : String
  businessId : String
  status : BusinessResultStatus
  recordId : Option String
  recordVersion : Option String
  reasonCode : Option String
  fields : List BusinessFieldValue
  deriving DecidableEq, Repr

/-- What the canonical JSON is written of; two texts are the same when these are. -/
def businessResultFingerprint (evidence : List BusinessEvidence) : List ResultFingerprint :=
  ((evidence.flatMap (·.results)).map fun result =>
    { memberKey := result.memberKey
      businessId := result.businessId
      status := result.status
      recordId := result.recordId
      recordVersion := result.recordVersion
      reasonCode := result.reasonCode
      fields := result.fields.insertionSort fun left right => left.field ≤ right.field
      : ResultFingerprint }).insertionSort fun left right => left.memberKey ≤ right.memberKey

/-- The stored pages that a draft is made from. -/
def listedPages (task : CustomerServiceTask) (draft : CustomerReplyDraft) :
    List BusinessEvidence :=
  task.businessEvidence.filter fun item => item.queryId ∈ draft.businessQueryIds

def factsChanged (task : CustomerServiceTask) (draft : CustomerReplyDraft)
    (fresh : List BusinessEvidence) : Bool :=
  listedPages task draft = [] || !fresh.getLast?.any (·.last) ||
    businessResultFingerprint (listedPages task draft) ≠ businessResultFingerprint fresh

/-- The fresh pages are merged with those that are stored, and the review is dropped. -/
def withFreshPages (task : CustomerServiceTask) (draft : CustomerReplyDraft)
    (fresh : List BusinessEvidence) : CustomerServiceTask :=
  { task with
    status := .verifying
    businessEvidence := fresh.foldl mergeBusinessEvidence task.businessEvidence
    draft := some { draft with review := none } }

def CustomerReplyDraft.isApproved (draft : CustomerReplyDraft) : Bool :=
  draft.review.any fun review => review.result = .approved

def requireFresh (task : CustomerServiceTask) (draft : CustomerReplyDraft)
    (fresh : List GatewayAnswer) : CustomerProg CustomerServiceTask :=
  if factsChanged task draft (fresh.map (·.evidence)) then do
    let _ ← update task (pure (withFreshPages task draft (fresh.map (·.evidence))))
      (.again fresh)
    throwService .contextChanged "Business facts changed; regenerate and review the reply"
  else update task (pure { task with status := .sending }) .asBefore

def prepareSend (taskId : String) : CustomerProg CustomerServiceTask := do
  let task ← getTask taskId
  match task.draft.filter fun draft => task.status = .approved && draft.isApproved with
  | none =>
    throwService .reviewRequired "An approved current draft is required before sending"
  | some draft =>
    liftThrown (refuseIf (draft.briefVersion ≠ task.brief.version) .contextChanged
      "Approved draft is based on an outdated brief")
    let fresh ← freshPages options task maxRevalidationPages [] none []
    requireFresh task draft fresh

def releaseSend (taskId : String) : CustomerProg CustomerServiceTask := do
  let task ← getTask taskId
  if task.status ≠ .sending then pure task
  else update task (pure { task with status := .approved }) .asBefore

/-! ## Recording -/

structure RecordSentInput where
  clientRequestId : String
  eventId : String
  sentAt : Option String := none
  deriving DecidableEq, Repr

def sentTime (sentAt : Option String) : CustomerProg String :=
  match sentAt with
  | none => now
  | some value => liftThrown (timestamp options.dateParse value "sent_at")

def recordedAs (task : CustomerServiceTask) (clientRequestId : String) : Bool :=
  task.status = .sent &&
    (task.draft.bind (·.sent)).any fun sent => sent.clientRequestId = clientRequestId

def withSent (task : CustomerServiceTask) (draft : CustomerReplyDraft)
    (clientRequestId eventId sentAt : String) : CustomerServiceTask :=
  { task with
    status := .sent
    draft := some { draft with sent := some { clientRequestId, eventId, sentAt } } }

def recordSent (taskId : String) (input : RecordSentInput) :
    CustomerProg CustomerServiceTask := do
  let task ← getTask taskId
  if recordedAs task input.clientRequestId then pure task
  else
    match task.draft.filter fun draft => task.status = .sending && draft.isApproved with
    | none =>
      throwService .reviewRequired "An approved current draft is required before sending"
    | some draft =>
      update task (do
        let clientRequestId ← liftThrown (required input.clientRequestId "client_request_id")
        let eventId ← liftThrown (required input.eventId "event_id")
        let sentAt ← sentTime options input.sentAt
        pure (withSent task draft clientRequestId eventId sentAt)) .asBefore

/-! ## Sending -/

/-- What the reply service is given of a draft. -/
def replyInput (task : CustomerServiceTask) (draft : CustomerReplyDraft) : ReplyInput :=
  { threadId := some task.brief.source.threadId
    text := some draft.text
    replyToEventId := some task.brief.source.eventId
    clientRequestId := some (clientRequestId task draft) }

/-- A send that throws gives the task back, whether that succeeds or not. -/
def deliver (task : CustomerServiceTask) (draft : CustomerReplyDraft) :
    CustomerProg ReplyView :=
  (liftReply (Reply.send options.orgId (replyInput task draft))).tryCatch fun thrown => do
    let _ ← (releaseSend task.id).tryCatch fun (_ : CustomerThrown) =>
      (pure task : CustomerProg CustomerServiceTask)
    .fail thrown

/-- `PersonalCustomerService.send`. The promise of the record is returned outside the `try`. -/
def send (taskId : String) : CustomerProg CustomerServiceTask := do
  let task ← prepareSend options taskId
  match task.draft with
  | none => .fail (.error "TypeError")
  | some draft =>
    let view ← deliver options task draft
    let eventId : String ← ask (.sentEventId view)
    recordSent options task.id { clientRequestId := clientRequestId task draft, eventId }

/-! ## Requests -/

/-- A call of the coordinator, or of the service that sends. -/
inductive Request where
  | createTask (input : CreateTaskInput)
  | searchContext (taskId : String) (input : SearchContextInput)
  | readContext (taskId : String) (input : ReadContextInput)
  | updateBrief (taskId : String) (input : UpdateBriefInput)
  | queryBusiness (taskId : String) (page : Option String)
  | createDraft (taskId : String) (input : CreateDraftInput)
  | reviewDraft (taskId : String) (input : ReviewDraftInput)
  | prepareSend (taskId : String)
  | releaseSend (taskId : String)
  | recordSent (taskId : String) (input : RecordSentInput)
  | send (taskId : String)
  deriving DecidableEq

def forget {α : Type} (p : CustomerProg α) : CustomerProg Unit := p.bind fun _ => .done ()

def Request.prog : Request → CustomerProg Unit
  | .createTask input => forget (Customer.createTask options input)
  | .searchContext taskId input => forget (Customer.searchContext options taskId input)
  | .readContext taskId input => forget (Customer.readContext options taskId input)
  | .updateBrief taskId input => forget (Customer.updateBrief options taskId input)
  | .queryBusiness taskId page => forget (Customer.queryBusiness options taskId page)
  | .createDraft taskId input => forget (Customer.createDraft taskId input)
  | .reviewDraft taskId input => forget (Customer.reviewDraft taskId input)
  | .prepareSend taskId => forget (Customer.prepareSend options taskId)
  | .releaseSend taskId => forget (Customer.releaseSend taskId)
  | .recordSent taskId input => forget (Customer.recordSent options taskId input)
  | .send taskId => forget (Customer.send options taskId)

/-! ## Runs -/

abbrev CustomerPool : Type := Pool CustomerCall.Answer CustomerThrown Unit CustomerState

/-- The requests at their start, over an empty store. -/
def CustomerPool.start (requests : List Request) : CustomerPool :=
  { procs := requests.map (Request.prog options), state := {} }

/-- One call of one request. -/
def CustomerPool.step : CustomerPool → Nat × CustomerEnv → CustomerPool :=
  Pool.step (CustomerCall.exec options) fun _ _ => none

end Regenic.Customer
