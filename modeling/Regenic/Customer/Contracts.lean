import Mathlib.Data.Rat.Init
import Regenic.Lib.Table
import Regenic.Lib.Text

/-!
A customer service task: its brief, the context and business evidence collected for it, and the
reply draft with its review and its sending. What the types of the source already say of a value
is said by the types here; the validators check the rest.
-/

namespace Regenic.Customer

open Lib

inductive TaskStatus where
  | resolvingContext
  | readyForQuery
  | querying
  | verifying
  | awaitingReview
  | approved
  | sending
  | sent
  | needsClarification
  | needsHuman
  | failed
  deriving DecidableEq, Repr

inductive ResolutionStatus where
  | unresolved
  | candidate
  | verified
  | conflicting
  deriving DecidableEq, Repr

structure ResolvedCandidate where
  value : String
  evidence : List String
  deriving DecidableEq, Repr

structure CustomerResolvedValue where
  status : ResolutionStatus
  value : Option String := none
  evidence : List String
  candidates : Option (List ResolvedCandidate) := none
  deriving DecidableEq, Repr

structure CustomerTaskSource where
  eventId : String
  contentHash : String
  threadId : String
  source : String
  externalId : String
  receivedAt : String
  replyToEventId : Option String := none
  deriving DecidableEq, Repr

structure CustomerTaskMember where
  memberKey : String
  displayName : String
  businessId : Option String := none
  status : ResolutionStatus
  evidence : List String
  identityEvidence : Option String := none
  deriving DecidableEq, Repr

structure CustomerTaskBrief where
  version : Nat
  question : String
  source : CustomerTaskSource
  customer : CustomerResolvedValue
  project : CustomerResolvedValue
  batch : CustomerResolvedValue
  intent : CustomerResolvedValue
  queryAt : String
  expectedMemberCount : Option Int := none
  expectedCountEvidence : Option String := none
  membersClosed : Bool
  members : List CustomerTaskMember
  requestedFields : List String
  unresolved : List String
  contextSnapshotIds : List String
  deriving DecidableEq, Repr

inductive ContextSelectionReason where
  | source
  | hit
  | replyTarget
  | neighbor
  | continuation
  deriving DecidableEq, Repr

structure CustomerContextEvidence where
  citationId : String
  snapshotId : String
  eventId : String
  contentHash : String
  source : String
  threadId : String
  actorId : Option String := none
  nativeThreadId : Option String := none
  replyToEventId : Option String := none
  occurredAt : String
  text : String
  selectionReason : ContextSelectionReason
  deriving DecidableEq, Repr

inductive ContinuationDirection where
  | before
  | after
  deriving DecidableEq, Repr

structure CustomerContextContinuation where
  handle : String
  threadId : String
  direction : ContinuationDirection
  boundaryOccurredAt : String
  boundaryEventId : String
  readEpoch : String
  expiresAt : String
  deriving DecidableEq, Repr

inductive BusinessResultStatus where
  | found
  | notFound
  | ambiguous
  | permissionDenied
  | unavailable
  deriving DecidableEq, Repr

inductive BusinessValue where
  | string (value : String)
  | number (value : ℚ)
  | boolean (value : Bool)
  | null
  deriving DecidableEq, Repr

inductive FieldVisibility where
  | customer
  | internal
  | restricted
  deriving DecidableEq, Repr

structure BusinessFieldValue where
  field : String
  value : BusinessValue
  visibility : FieldVisibility
  authority : String
  updatedAt : String
  deriving DecidableEq, Repr

structure BusinessEntityResult where
  memberKey : String
  businessId : String
  status : BusinessResultStatus
  recordId : Option String := none
  recordVersion : Option String := none
  fields : List BusinessFieldValue
  reasonCode : Option String := none
  deriving DecidableEq, Repr

/-- One page of an answer of the business gateway. -/
structure BusinessEvidence where
  citationId : String
  queryId : String
  taskId : String
  briefVersion : Nat
  providerId : String
  customerId : String
  projectId : String
  batchId : String
  requestedFields : List String
  queriedAt : String
  complete : Bool
  nextPage : Option String := none
  results : List BusinessEntityResult
  deriving DecidableEq, Repr

structure CustomerReplyClaim where
  claimId : String
  text : String
  memberKeys : List String
  fields : List String
  evidence : List String
  deriving DecidableEq, Repr

inductive ActorType where
  | human
  | agent
  | system
  deriving DecidableEq, Repr

structure ActorRef where
  actorType : ActorType
  actorId : String
  deriving DecidableEq, Repr

inductive ReviewResult where
  | approved
  | rejected
  deriving DecidableEq, Repr

structure DraftReview where
  result : ReviewResult
  reviewer : ActorRef
  reviewedAt : String
  note : Option String := none
  deriving DecidableEq, Repr

structure DraftSent where
  clientRequestId : String
  eventId : String
  sentAt : String
  deriving DecidableEq, Repr

structure CustomerReplyDraft where
  version : Nat
  text : String
  claims : List CustomerReplyClaim
  coveredMemberKeys : List String
  unresolved : List String
  briefVersion : Nat
  businessQueryIds : List String
  createdAt : String
  review : Option DraftReview := none
  sent : Option DraftSent := none
  deriving DecidableEq, Repr

structure CustomerServiceTask where
  id : String
  orgId : String
  status : TaskStatus
  revision : Nat
  brief : CustomerTaskBrief
  contextEvidence : List CustomerContextEvidence
  continuations : List CustomerContextContinuation
  businessEvidence : List BusinessEvidence
  draft : Option CustomerReplyDraft := none
  createdAt : String
  updatedAt : String
  deriving DecidableEq, Repr

def CustomerServiceTask.key (task : CustomerServiceTask) : String × String :=
  (task.orgId, task.id)

/-! ## Validation -/

/-- `Date.parse`, with none for `NaN`. -/
abbrev DateParse : Type := String → Option Int

def nonBlank (value : String) : Bool := jsTrim value ≠ ""

/-- An optional text that is absent or says something. -/
def optionalText (value : Option String) : Bool := value.all nonBlank

def stringArray (values : List String) : Bool := values.all nonBlank

def duplicate (values : List String) : Bool := ¬ values.Nodup

/-- `/^[a-f0-9]{64}$/`; what it matches is ASCII, so it is told by the bytes. -/
def isContentHash (value : String) : Bool :=
  value.toUTF8.size = 64 &&
    value.toUTF8.data.toList.all fun byte =>
      (48 ≤ byte && byte ≤ 57) || (97 ≤ byte && byte ≤ 102)

section Validators

variable (dateParse : DateParse)

def validTimestamp (value : String) : Bool := nonBlank value && (dateParse value).isSome

def validSource (value : CustomerTaskSource) : Bool :=
  nonBlank value.eventId && isContentHash value.contentHash && nonBlank value.threadId &&
    nonBlank value.source && nonBlank value.externalId &&
    validTimestamp dateParse value.receivedAt && optionalText value.replyToEventId

def validResolved (value : CustomerResolvedValue) : Bool :=
  stringArray value.evidence && optionalText value.value &&
    (value.status ≠ .verified || (value.value.any nonBlank && value.evidence ≠ [])) &&
    value.candidates.all fun candidates =>
      candidates.all fun item => nonBlank item.value && stringArray item.evidence

def validMember (value : CustomerTaskMember) : Bool :=
  nonBlank value.memberKey && nonBlank value.displayName && optionalText value.businessId &&
    (value.status ≠ .verified ||
      (value.businessId.any nonBlank && value.evidence ≠ [] &&
        value.identityEvidence.any nonBlank)) &&
    stringArray value.evidence && optionalText value.identityEvidence

def validBrief (value : CustomerTaskBrief) : Bool :=
  1 ≤ value.version && nonBlank value.question && validSource dateParse value.source &&
    validResolved value.customer && validResolved value.project &&
    validResolved value.batch && validResolved value.intent &&
    validTimestamp dateParse value.queryAt &&
    (value.expectedMemberCount.all fun count => 0 ≤ count) &&
    value.members.all validMember && !duplicate (value.members.map (·.memberKey)) &&
    stringArray value.requestedFields && !duplicate value.requestedFields &&
    stringArray value.unresolved && stringArray value.contextSnapshotIds

def validContextEvidence (value : CustomerContextEvidence) : Bool :=
  nonBlank value.citationId && nonBlank value.snapshotId && nonBlank value.eventId &&
    isContentHash value.contentHash && nonBlank value.source && nonBlank value.threadId &&
    validTimestamp dateParse value.occurredAt && value.text ≠ "" &&
    optionalText value.nativeThreadId && optionalText value.replyToEventId

def validContinuation (value : CustomerContextContinuation) : Bool :=
  nonBlank value.handle && nonBlank value.threadId &&
    validTimestamp dateParse value.boundaryOccurredAt && nonBlank value.boundaryEventId &&
    nonBlank value.readEpoch && validTimestamp dateParse value.expiresAt

def validField (value : BusinessFieldValue) : Bool :=
  nonBlank value.field && nonBlank value.authority && validTimestamp dateParse value.updatedAt

def validResult (value : BusinessEntityResult) : Bool :=
  nonBlank value.memberKey && nonBlank value.businessId &&
    !duplicate (value.fields.map (·.field)) && value.fields.all (validField dateParse)

def validBusinessEvidence (value : BusinessEvidence) : Bool :=
  nonBlank value.citationId && nonBlank value.queryId && nonBlank value.taskId &&
    1 ≤ value.briefVersion && nonBlank value.providerId && nonBlank value.customerId &&
    nonBlank value.projectId && nonBlank value.batchId && stringArray value.requestedFields &&
    validTimestamp dateParse value.queriedAt && optionalText value.nextPage &&
    !duplicate (value.results.map (·.memberKey)) && value.results.all (validResult dateParse)

def validClaim (value : CustomerReplyClaim) : Bool :=
  nonBlank value.claimId && nonBlank value.text && stringArray value.memberKeys &&
    stringArray value.fields && stringArray value.evidence && value.evidence ≠ []

def validReview (value : DraftReview) : Bool :=
  nonBlank value.reviewer.actorId && validTimestamp dateParse value.reviewedAt

def validSent (value : DraftSent) : Bool :=
  nonBlank value.clientRequestId && nonBlank value.eventId &&
    validTimestamp dateParse value.sentAt

def validDraft (value : CustomerReplyDraft) : Bool :=
  1 ≤ value.version && nonBlank value.text && value.claims.all validClaim &&
    !duplicate (value.claims.map (·.claimId)) && stringArray value.coveredMemberKeys &&
    stringArray value.unresolved && 1 ≤ value.briefVersion &&
    stringArray value.businessQueryIds && validTimestamp dateParse value.createdAt &&
    value.review.all (validReview dateParse) && value.sent.all (validSent dateParse)

def validTask (task : CustomerServiceTask) : Bool :=
  nonBlank task.id && nonBlank task.orgId && 1 ≤ task.revision &&
    validTimestamp dateParse task.createdAt && validTimestamp dateParse task.updatedAt &&
    validBrief dateParse task.brief &&
    task.contextEvidence.all (validContextEvidence dateParse) &&
    !duplicate (task.contextEvidence.map (·.citationId)) &&
    task.continuations.all (validContinuation dateParse) &&
    !duplicate (task.continuations.map (·.handle)) &&
    task.businessEvidence.all (validBusinessEvidence dateParse) &&
    !duplicate (task.businessEvidence.map (·.queryId)) &&
    task.draft.all (validDraft dateParse)

/-- The message of the error that the task is refused with. -/
def validateCustomerServiceTask (task : CustomerServiceTask) :
    Except String CustomerServiceTask :=
  if !validTask dateParse task then .error "Invalid CustomerServiceTask"
  else if task.updatedAt < task.brief.source.receivedAt || task.updatedAt < task.createdAt then
    .error "Invalid CustomerServiceTask timestamps"
  else .ok task

def validateBusinessEvidence (evidence : BusinessEvidence) : Except String BusinessEvidence :=
  if validBusinessEvidence dateParse evidence then .ok evidence
  else .error "Invalid BusinessEvidence"

variable {dateParse}

theorem validateCustomerServiceTask_ok {task valid : CustomerServiceTask}
    (h : validateCustomerServiceTask dateParse task = .ok valid) : valid = task := by
  unfold validateCustomerServiceTask at h
  split at h
  · cases h
  · split at h
    · cases h
    · cases h
      rfl

theorem validateBusinessEvidence_ok {evidence valid : BusinessEvidence}
    (h : validateBusinessEvidence dateParse evidence = .ok valid) :
    valid = evidence ∧ validBusinessEvidence dateParse evidence = true := by
  unfold validateBusinessEvidence at h
  split at h
  · next hvalid =>
    cases h
    exact ⟨rfl, hvalid⟩
  · cases h

end Validators

end Regenic.Customer
