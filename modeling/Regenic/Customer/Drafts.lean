import Regenic.Customer.Context

/-!
The coordinator's operations from the brief to the reviewed draft: the brief that a query is made
from, the pages that answer it, the draft that cites them and its review.
-/

namespace Regenic.Customer

open Lib

variable (options : CustomerOptions)

/-! ## The brief -/

structure UpdateBriefInput where
  customer : CustomerResolvedValue
  project : CustomerResolvedValue
  batch : CustomerResolvedValue
  intent : CustomerResolvedValue
  expectedMemberCount : Option Int := none
  expectedCountEvidence : Option String := none
  membersClosed : Bool
  members : List CustomerTaskMember
  requestedFields : List String
  unresolved : Option (List String) := none
  queryAt : Option String := none
  deriving DecidableEq, Repr

def UpdateBriefInput.resolved (input : UpdateBriefInput) : List CustomerResolvedValue :=
  [input.customer, input.project, input.batch, input.intent]

def UpdateBriefInput.referenced (input : UpdateBriefInput) : List String :=
  input.resolved.flatMap (·.evidence) ++ (present input.expectedCountEvidence).toList ++
    input.members.flatMap fun member =>
      member.evidence ++ (present member.identityEvidence).toList

def validateBriefEvidence (input : UpdateBriefInput) (citations : List String) :
    Except CustomerThrown Unit := do
  refuseIf (input.resolved.any fun value => value.status = .verified && value.evidence = [])
    .invalidRequest "Verified brief values require context evidence"
  refuseIf (input.members.any fun member =>
      member.status = .verified &&
        (member.evidence = [] || (present member.identityEvidence).isNone))
    .invalidRequest "Verified members require identity evidence"
  refuseIf (input.expectedMemberCount.isSome && (present input.expectedCountEvidence).isNone)
    .invalidRequest "Expected member count requires context evidence"
  refuseIf (input.referenced.any fun citation => citation ∉ citations)
    .invalidRequest "Brief references evidence outside this task"

def briefMember (member : CustomerTaskMember) : Except CustomerThrown CustomerTaskMember := do
  let memberKey ← required member.memberKey "member_key"
  let displayName ← required member.displayName "display_name"
  pure { member with memberKey, displayName, evidence := unique member.evidence }

/-- The brief says all that a business query needs. -/
def UpdateBriefInput.ready (input : UpdateBriefInput) (members : List CustomerTaskMember)
    (requestedFields unresolvedFields : List String) : Bool :=
  input.resolved.all (fun value => value.verified?.isSome) && input.membersClosed &&
    members ≠ [] &&
    members.all (fun member =>
      member.status = .verified && (present member.businessId).isSome) &&
    requestedFields ≠ [] && unresolvedFields = []

def changedBrief (brief : CustomerTaskBrief) (input : UpdateBriefInput)
    (members : List CustomerTaskMember) (requestedFields unresolvedFields : List String) :
    Except CustomerThrown CustomerTaskBrief := do
  let expectedMemberCount ← optionally input.expectedMemberCount fun count =>
    boundedInteger count "expected_member_count" 0 1000
  let expectedCountEvidence ← optionally (present input.expectedCountEvidence) fun citation =>
    required citation "expected_count_evidence"
  let queryAt ← optionally input.queryAt fun value =>
    timestamp options.dateParse value "query_at"
  pure { brief with
    version := brief.version + 1
    customer := input.customer
    project := input.project
    batch := input.batch
    intent := input.intent
    expectedMemberCount := expectedMemberCount <|> brief.expectedMemberCount
    expectedCountEvidence := expectedCountEvidence <|> brief.expectedCountEvidence
    membersClosed := input.membersClosed
    members
    requestedFields
    unresolved := unresolvedFields
    queryAt := queryAt.getD brief.queryAt }

/-- The task with a new version of its brief, without the pages and the draft of the last. -/
def withBrief (task : CustomerServiceTask) (input : UpdateBriefInput) :
    Except CustomerThrown CustomerServiceTask := do
  validateBriefEvidence input (task.contextEvidence.map (·.citationId))
  let requestedFields ← input.requestedFields.mapM fun field => required field "requested_fields"
  let requestedFields := unique requestedFields
  let members ← input.members.mapM briefMember
  refuseIf (duplicate (members.map (·.memberKey))) .invalidRequest
    "member_key values must be unique"
  refuseIf (input.membersClosed && input.expectedMemberCount.any fun count =>
      (members.length : Int) ≠ count) .invalidRequest
    "Closed member set does not match expected_member_count"
  let unresolvedFields := unique (input.unresolved.getD [])
  let brief ← changedBrief options task.brief input members requestedFields unresolvedFields
  pure { task with
    status :=
      if input.ready members requestedFields unresolvedFields then .readyForQuery
      else .needsClarification
    brief
    businessEvidence := []
    draft := none }

def updateBrief (taskId : String) (input : UpdateBriefInput) :
    CustomerProg CustomerServiceTask := do
  let task ← getTask taskId
  liftThrown (requireMutable task)
  update task (liftThrown (withBrief options task input)) .forgotten

/-! ## Business queries -/

def verifiedMember (member : CustomerTaskMember) : Option QueryMember :=
  if member.status = .verified then
    (present member.businessId).map fun businessId => ⟨member.memberKey, businessId⟩
  else none

def briefQuery (task : CustomerServiceTask) : Option CustomerBusinessQuery := do
  let customerId ← task.brief.customer.verified?
  let projectId ← task.brief.project.verified?
  let batchId ← task.brief.batch.verified?
  let _ ← task.brief.intent.verified?
  let members ← task.brief.members.mapM verifiedMember
  if task.brief.membersClosed && members ≠ [] && task.brief.requestedFields ≠ [] &&
      task.brief.unresolved = [] then
    some
      { taskId := task.id
        briefVersion := task.brief.version
        customerId
        projectId
        batchId
        members
        fields := task.brief.requestedFields
        queryAt := task.brief.queryAt }
  else none

def businessQuery (task : CustomerServiceTask) (page : Option String) :
    Except CustomerThrown CustomerBusinessQuery :=
  match briefQuery task with
  | none => refuse .invalidState "Task brief still has unresolved query parameters"
  | some query => do
    let page ← optionally (present page) fun page => required page "page"
    pure { query with page }

def sameSet (left right : List String) : Bool :=
  left.length = right.length && left.all fun value => value ∈ right

/-- `new Map(members)`, where a later member takes the place of an earlier one. -/
def CustomerBusinessQuery.businessIdOf (query : CustomerBusinessQuery) (memberKey : String) :
    Option String :=
  (query.members.reverse.find? fun member => member.memberKey = memberKey).map (·.businessId)

def validateGatewayEvidence (task : CustomerServiceTask) (query : CustomerBusinessQuery)
    (evidence : BusinessEvidence) : Except CustomerThrown Unit := do
  refuseIf (evidence.taskId ≠ task.id || evidence.briefVersion ≠ task.brief.version ||
      evidence.providerId ≠ options.businessId || evidence.customerId ≠ query.customerId ||
      evidence.projectId ≠ query.projectId || evidence.batchId ≠ query.batchId ||
      !sameSet evidence.requestedFields query.fields) .businessUnavailable
    "Business provider returned evidence outside the verified query"
  refuseIf (evidence.results.any fun result =>
      query.businessIdOf result.memberKey ≠ some result.businessId) .businessUnavailable
    "Business provider returned an unrequested entity"
  refuseIf (evidence.results.any fun result =>
      result.fields.any fun field => field.field ∉ query.fields) .businessUnavailable
    "Business provider returned an unrequested field"

/-- The gateway's answer when it is a valid one. What is thrown is rethrown as `wrap` says. -/
def queryGateway (query : CustomerBusinessQuery) (wrap : CustomerThrown → CustomerThrown) :
    CustomerProg BusinessEvidence := do
  match ← Prog.perform (CustomerCall.queryBusiness query) with
  | .error thrown => .fail (wrap thrown)
  | .ok evidence =>
    match validateBusinessEvidence options.dateParse evidence with
    | .error message => .fail (wrap (.error message))
    | .ok evidence => pure evidence

def queryFailed : CustomerThrown → CustomerThrown
  | .service code message => .service code message
  | thrown => .service .businessUnavailable (thrown.message?.getD "Business query failed")

def mergeBusinessEvidence (current : List BusinessEvidence) (added : BusinessEvidence) :
    List BusinessEvidence :=
  current.filter (fun item => item.queryId ≠ added.queryId) ++ [added]

/-- The pages of the brief as it is. -/
def currentPages (task : CustomerServiceTask) : List BusinessEvidence :=
  task.businessEvidence.filter fun item => item.briefVersion = task.brief.version

/-- A continuation is asked for exactly when the last page names it. -/
def checkPage (task : CustomerServiceTask) (page : Option String) :
    Except CustomerThrown Unit := do
  let nextPage := (currentPages task).getLast?.bind (·.nextPage)
  refuseIf ((present page).isSome && nextPage ≠ page) .invalidRequest
    "Business query page is not the expected continuation"
  refuseIf ((present page).isNone && task.status = .querying && (present nextPage).isSome)
    .invalidRequest "Business query continuation page is required"

def ensureQuerying (task : CustomerServiceTask) : CustomerProg CustomerServiceTask :=
  if task.status = .querying then pure task
  else update task (pure { task with status := .querying }) .asBefore

/-- Nothing is left to ask for after this page. -/
def BusinessEvidence.last (evidence : BusinessEvidence) : Bool :=
  evidence.complete && (present evidence.nextPage).isNone

/-- The pages before the answer to a first query or to a continuation. -/
def pagesBefore (task : CustomerServiceTask) (page : Option String) : List BusinessEvidence :=
  if (present page).isSome then task.businessEvidence
  else task.businessEvidence.filter fun item => item.briefVersion ≠ task.brief.version

def withPage (task : CustomerServiceTask) (page : Option String) (result : BusinessEvidence) :
    CustomerServiceTask :=
  { task with
    status := if result.last then .verifying else .querying
    businessEvidence := mergeBusinessEvidence (pagesBefore task page) result
    draft := none }

def askedPage (page : Option String) (answer : GatewayAnswer) : Asked :=
  if (present page).isSome then .continued answer else .first answer

def queryBusiness (taskId : String) (page : Option String) :
    CustomerProg CustomerServiceTask := do
  let task ← getTask taskId
  liftThrown (refuseIf
    (task.status ≠ .readyForQuery && task.status ≠ .querying && task.status ≠ .verifying)
    .invalidState "Task is not ready for a business query")
  liftThrown (checkPage task page)
  let query ← liftThrown (businessQuery task page)
  let querying ← ensureQuerying task
  let result ← queryGateway options query queryFailed
  liftThrown (validateGatewayEvidence options querying query result)
  liftThrown (refuseIf (!result.complete && (present result.nextPage).isNone)
    .businessUnavailable "Business query returned an incomplete page without a continuation")
  update querying (pure (withPage querying page result)) (askedPage page ⟨query, result⟩)

/-! ## Drafts -/

structure CreateDraftInput where
  text : String
  claims : List CustomerReplyClaim
  coveredMemberKeys : List String
  unresolved : Option (List String) := none
  deriving DecidableEq, Repr

/-- A last page that completes the pages before it. -/
def wholeChain (pages : List BusinessEvidence) : Bool :=
  (pages.getLast?.any (·.last)) &&
    pages.dropLast.all fun item => !item.complete && (present item.nextPage).isSome

/-- The page that a citation names: the last one, when several have it. -/
def citedPage (pages : List BusinessEvidence) (citation : String) : Option BusinessEvidence :=
  pages.reverse.find? fun item => item.citationId = citation

def claimValues (pages : List BusinessEvidence) (claim : CustomerReplyClaim)
    (memberKey fieldName : String) : List BusinessFieldValue :=
  claim.evidence.flatMap fun citation =>
    ((citedPage pages citation).map fun page =>
      (page.results.filter fun result =>
        result.memberKey = memberKey && result.status = .found).flatMap fun result =>
          result.fields.filter fun field => field.field = fieldName).getD []

def visibleValues (pages : List BusinessEvidence) (claim : CustomerReplyClaim)
    (memberKey fieldName : String) : Except CustomerThrown Unit := do
  let values := claimValues pages claim memberKey fieldName
  refuseIf (values = []) .coverageIncomplete
    ("Claim lacks " ++ fieldName ++ " evidence for " ++ memberKey)
  refuseIf (values.any fun field => field.visibility ≠ .customer) .invalidRequest
    ("Claim exposes non-customer field " ++ fieldName)

def validateVisibleClaim (pages : List BusinessEvidence) (claim : CustomerReplyClaim) :
    Except CustomerThrown Unit :=
  claim.memberKeys.forM fun memberKey =>
    claim.fields.forM fun fieldName => visibleValues pages claim memberKey fieldName

def draftClaim (pages : List BusinessEvidence) (covered : List String)
    (claim : CustomerReplyClaim) : Except CustomerThrown CustomerReplyClaim := do
  let claimId ← required claim.claimId "claim_id"
  let text ← required claim.text "claim text"
  let next : CustomerReplyClaim :=
    { claimId
      text
      memberKeys := unique claim.memberKeys
      fields := unique claim.fields
      evidence := unique claim.evidence }
  refuseIf (next.evidence = [] ||
      next.evidence.any fun citation => citation ∉ pages.map (·.citationId)) .invalidRequest
    "Every claim must cite current business evidence"
  refuseIf (next.memberKeys.any fun member => member ∉ covered) .coverageIncomplete
    "Claim references an uncovered member"
  validateVisibleClaim pages next
  pure next

def foundMembers (pages : List BusinessEvidence) : List String :=
  pages.flatMap fun item =>
    (item.results.filter fun result => result.status = .found).map (·.memberKey)

def checkCovered (task : CustomerServiceTask) (covered : List String) :
    Except CustomerThrown Unit := do
  refuseIf (covered.any fun member => member ∉ task.brief.members.map (·.memberKey))
    .invalidRequest "Draft covers a member outside the verified set"
  refuseIf (covered.any fun member => member ∉ foundMembers (currentPages task))
    .coverageIncomplete "Draft marks a member covered without a found business result"

/-- Without anything unresolved the draft covers the whole closed member set. -/
def coversMembers (task : CustomerServiceTask) (covered : List String) : Bool :=
  task.brief.membersClosed && covered.length = task.brief.members.length &&
    task.brief.expectedMemberCount.all fun count => (covered.length : Int) = count

/-- The claims of a draft, when the pages support them. -/
def draftClaims (task : CustomerServiceTask) (input : CreateDraftInput) :
    Except CustomerThrown (List CustomerReplyClaim) := do
  refuseIf (!wholeChain (currentPages task)) .coverageIncomplete
    "Business query pages are incomplete"
  let covered := unique input.coveredMemberKeys
  checkCovered task covered
  let claims ← input.claims.mapM (draftClaim (currentPages task) covered)
  refuseIf (claims = []) .invalidRequest "Reply draft needs at least one supported claim"
  refuseIf (unique (input.unresolved.getD []) = [] && !coversMembers task covered)
    .coverageIncomplete "A complete reply must cover the closed member set"
  pure claims

/-- The version of the next draft; without a draft the versions begin again. -/
def nextVersion (task : CustomerServiceTask) : Nat := ((task.draft.map (·.version)).getD 0) + 1

def withDraft (task : CustomerServiceTask) (input : CreateDraftInput) (text createdAt : String)
    (claims : List CustomerReplyClaim) : CustomerServiceTask :=
  { task with
    status := .awaitingReview
    draft := some
      { version := nextVersion task
        text
        claims
        coveredMemberKeys := unique input.coveredMemberKeys
        unresolved := unique (input.unresolved.getD [])
        briefVersion := task.brief.version
        businessQueryIds := (currentPages task).map (·.queryId)
        createdAt } }

def createDraft (taskId : String) (input : CreateDraftInput) :
    CustomerProg CustomerServiceTask := do
  let task ← getTask taskId
  liftThrown (refuseIf (task.status ≠ .verifying) .invalidState
    "Task is not ready to create a reply draft")
  let claims ← liftThrown (draftClaims task input)
  update task (do
    let text ← liftThrown (required input.text "text")
    let createdAt ← now
    pure (withDraft task input text createdAt claims)) .asBefore

/-! ## Reviews -/

structure ReviewDraftInput where
  result : ReviewResult
  reviewer : ActorRef
  note : Option String := none
  deriving DecidableEq, Repr

def withReview (task : CustomerServiceTask) (draft : CustomerReplyDraft)
    (input : ReviewDraftInput) (reviewedAt : String) : CustomerServiceTask :=
  { task with
    status := match input.result with
      | .approved => .approved
      | .rejected => .resolvingContext
    draft := some
      { draft with
        review := some
          { result := input.result
            reviewer := input.reviewer
            reviewedAt
            note := present (input.note.map jsTrim) } } }

def reviewDraft (taskId : String) (input : ReviewDraftInput) :
    CustomerProg CustomerServiceTask := do
  let task ← getTask taskId
  match task.draft with
  | none => throwService .invalidState "Task has no draft awaiting review"
  | some draft =>
    liftThrown (refuseIf (task.status ≠ .awaitingReview) .invalidState
      "Task has no draft awaiting review")
    liftThrown (refuseIf (draft.briefVersion ≠ task.brief.version) .contextChanged
      "Draft is based on an outdated brief")
    liftThrown (refuseIf
      (input.reviewer.actorType ≠ .human || !nonBlank input.reviewer.actorId) .invalidRequest
      "A human reviewer is required")
    let reviewedAt ← now
    update task (pure (withReview task draft input reviewedAt)) .asBefore

end Regenic.Customer
