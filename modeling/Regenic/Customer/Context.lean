import Mathlib.Data.List.Sort
import Regenic.Customer.Calls

/-!
The coordinator's operations that open a task and collect its context. Every one of them reads
the task, and writes it back at the revision that it has read.
-/

namespace Regenic.Customer

open Lib

variable (options : CustomerOptions)

/-! ## Reading and updating a task -/

def getTask (taskId : String) : CustomerProg CustomerServiceTask := do
  let taskId ← liftThrown (required taskId "task_id")
  let found ← (Prog.perform (CustomerCall.getCustomerServiceTask taskId)).bind liftThrown
  match found with
  | some task => pure task
  | none => throwService .notFound "Customer service task was not found"

/-- `update`: the changed task is put at the revision of the task that was read. -/
def update (task : CustomerServiceTask) (apply : CustomerProg CustomerServiceTask)
    (asked : Asked) : CustomerProg CustomerServiceTask := do
  let changed ← apply
  let updatedAt ← now
  let next := { changed with revision := task.revision + 1, updatedAt }
  liftThrown (← Prog.perform
    (CustomerCall.putCustomerServiceTask next (some task.revision) asked))

def requireMutable (task : CustomerServiceTask) : Except CustomerThrown Unit :=
  refuseIf (task.status = .sent || task.status = .failed) .invalidState
    "Customer service task is terminal"

/-! ## Creating a task -/

def unresolved : CustomerResolvedValue := { status := .unresolved, evidence := [] }

structure CreateTaskInput where
  sourceEventId : String
  contentHash : String
  question : Option String := none
  queryAt : Option String := none
  deriving DecidableEq, Repr

def eventText (contentHash : String) : CustomerProg String := do
  let metadata ← ask (.findBlob contentHash)
  match metadata with
  | none => throwService .notFound "Triggering message body is unavailable"
  | some mediaType =>
    let body : BlobBody ← ask (.getBlob contentHash mediaType)
    liftThrown (refuseIf (body.sha256 ≠ contentHash) .contextChanged
      "Triggering message body failed integrity validation")
    match body.text.filter nonBlank with
    | none => throwService .notFound "Triggering message has no readable text"
    | some text => pure text

/-- The triggering message, when it is stored with this content in a conversation. -/
def triggeringEvent (eventId contentHash : String) : CustomerProg (SourceEvent × String) := do
  let event : Option SourceEvent ← ask (.getEvent eventId)
  match event.filter fun event => event.contentHash = some contentHash with
  | none =>
    throwService .notFound "The triggering message is no longer current and readable"
  | some event =>
    match present event.threadId with
    | none =>
      throwService .notFound "The triggering message is no longer current and readable"
    | some threadId => pure (event, threadId)

def requireCurrent (event : SourceEvent) : CustomerProg Unit := do
  let current : Option SourceEvent ← ask (.findBySourceIdentity event.source event.externalId)
  liftThrown (refuseIf
    (!current.any fun current => current.id = event.id && !current.tombstone) .notFound
    "The triggering message was revised or removed")

def taskQuestion (question : Option String) (text : String) : Except CustomerThrown String :=
  match question with
  | none => .ok (jsTrim text)
  | some question => required question "question"

/-- `includes`. -/
def includes (text part : String) : Bool := (indexOf? part.toList text.toList).isSome

def openedTask (id createdAt queryAt question : String) (event : SourceEvent)
    (threadId contentHash : String) : CustomerServiceTask :=
  { id
    orgId := options.orgId
    status := .resolvingContext
    revision := 1
    brief :=
      { version := 1
        question
        source :=
          { eventId := event.id
            contentHash
            threadId
            source := event.source
            externalId := event.externalId
            receivedAt := event.occurredAt }
        customer := unresolved
        project := unresolved
        batch := unresolved
        intent := unresolved
        queryAt
        membersClosed := false
        members := []
        requestedFields := []
        unresolved := ["customer", "project", "batch", "intent", "members", "requested_fields"]
        contextSnapshotIds := [] }
    contextEvidence := []
    continuations := []
    businessEvidence := []
    createdAt
    updatedAt := createdAt }

def createTask (input : CreateTaskInput) : CustomerProg CustomerServiceTask := do
  let eventId ← liftThrown (required input.sourceEventId "source_event_id")
  let contentHash ← liftThrown (requiredHash input.contentHash)
  let (event, threadId) ← triggeringEvent eventId contentHash
  requireCurrent event
  let text ← eventText contentHash
  let question ← liftThrown (taskQuestion input.question text)
  liftThrown (refuseIf (!includes text question) .invalidRequest
    "question must be present in the triggering message")
  let createdAt ← now
  let id : String ← ask .createId
  let queryAt ← liftThrown (optionally input.queryAt fun value =>
    timestamp options.dateParse value "query_at")
  liftThrown (← Prog.perform (CustomerCall.putCustomerServiceTask
    (openedTask options id createdAt (queryAt.getD createdAt) question event threadId contentHash)
    none .forgotten))

/-! ## Merging -/

/-- A map from the key to the item, with a later item in the place of an earlier one. -/
def mergeByKey {α : Type} (key : α → String) (current added : List α) : List α :=
  added.foldl (fun merged item =>
    if merged.any fun other => key other = key item then
      merged.map fun other => if key other = key item then item else other
    else merged ++ [item]) current

def contextOrder (left right : CustomerContextEvidence) : Bool :=
  left.occurredAt ++ "\x00" ++ left.eventId ≤ right.occurredAt ++ "\x00" ++ right.eventId

def mergeContextEvidence (current added : List CustomerContextEvidence) :
    List CustomerContextEvidence :=
  (mergeByKey (·.citationId) (mergeByKey (·.citationId) [] current) added).insertionSort
    fun left right => contextOrder left right = true

/-- `Date.parse(expires_at) > Date.parse(now)`. -/
def isLive (dateParse : DateParse) (expiresAt now : String) : Bool :=
  match dateParse expiresAt, dateParse now with
  | some expires, some now => now < expires
  | _, _ => false

def mergeContinuations (dateParse : DateParse)
    (current added : List CustomerContextContinuation) (now : String) :
    List CustomerContextContinuation :=
  mergeByKey (·.handle)
    (mergeByKey (·.handle) [] (current.filter fun item => isLive dateParse item.expiresAt now))
    added

/-! ## Searching -/

structure SearchContextInput where
  query : String
  objective : Option String := none
  maxItems : Option Int := none
  neighborCount : Option Int := none
  includeRelated : Bool := false
  deriving DecidableEq, Repr

def maxContextItems : Int := 100

def defaultContextItems : Int := 40

def defaultNeighborCount : Int := 4

/-- A value of the brief that is verified and not empty. -/
def CustomerResolvedValue.verified? (value : CustomerResolvedValue) : Option String :=
  if value.status = .verified then present value.value else none

def scopedQuery (task : CustomerServiceTask) (includeRelated : Bool) (query : String) :
    Except CustomerThrown String :=
  if includeRelated then
    match task.brief.customer.verified?, task.brief.project.verified? with
    | some customer, some project => .ok (customer ++ " " ++ project ++ " " ++ query)
    | _, _ =>
      refuse .invalidState
        "Related-conversation search requires verified customer and project scope"
  else .ok query

/-- The seeds of a conversation, in the order in which the conversations came up. -/
def addSeed (groups : List (String × List String)) (threadId eventId : String) :
    List (String × List String) :=
  if groups.any fun group => group.1 = threadId then
    groups.map fun group => if group.1 = threadId then (group.1, group.2 ++ [eventId]) else group
  else groups ++ [(threadId, [eventId])]

def seedThread (task : CustomerServiceTask) (eventId : String) :
    CustomerProg (Option String) :=
  if eventId = task.brief.source.eventId then pure (present (some task.brief.source.threadId))
  else do
    let event : Option SourceEvent ← ask (.getEvent eventId)
    pure (present (event.bind (·.threadId)))

def groupSeeds (task : CustomerServiceTask) :
    List (String × List String) → List String → CustomerProg (List (String × List String))
  | groups, [] => pure groups
  | groups, eventId :: rest => do
    let threadId ← seedThread task eventId
    match threadId with
    | none => groupSeeds task groups rest
    | some threadId => groupSeeds task (addSeed groups threadId eventId) rest

/-- The conversation of the task first, and at most three others. -/
def orderedThreads (task : CustomerServiceTask) (groups : List (String × List String)) :
    List String :=
  (task.brief.source.threadId ::
    (groups.map (·.1)).filter (· ≠ task.brief.source.threadId)).take 4

/-- The items that are left are shared out over the conversations that are left. -/
def expandThreads (task : CustomerServiceTask) (groups : List (String × List String))
    (snapshotId : String) (neighbors : Int) :
    List String → Int → ContextWindow → CustomerProg ContextWindow
  | [], _, expanded => pure expanded
  | threadId :: rest, remainingItems, expanded =>
    if remainingItems ≤ 0 then pure expanded
    else do
      let seedIds := ((groups.find? fun group => group.1 = threadId).map (·.2)).getD
        [task.brief.source.eventId]
      let window : ContextWindow ← ask (.expandThread threadId seedIds snapshotId
        (max 1 (remainingItems / (rest.length + 1 : Nat))) neighbors)
      expandThreads task groups snapshotId neighbors rest
        (remainingItems - window.evidence.length)
        { evidence := expanded.evidence ++ window.evidence
          continuations := expanded.continuations ++ window.continuations }

def selectionReason (task : CustomerServiceTask) (seedIds replyTargetIds : List String)
    (item : CustomerContextEvidence) : ContextSelectionReason :=
  if item.eventId = task.brief.source.eventId then .source
  else if item.eventId ∈ seedIds then .hit
  else if item.eventId ∈ replyTargetIds then .replyTarget
  else item.selectionReason

def withReasons (task : CustomerServiceTask) (seedIds : List String)
    (evidence : List CustomerContextEvidence) : List CustomerContextEvidence :=
  let replyTargetIds := evidence.filterMap fun item => present item.replyToEventId
  evidence.map fun item =>
    { item with selectionReason := selectionReason task seedIds replyTargetIds item }

structure SearchContextResult where
  task : CustomerServiceTask
  evidence : List CustomerContextEvidence
  continuations : List CustomerContextContinuation
  snapshotId : String
  maxItems : Int

def searchContext (taskId : String) (input : SearchContextInput) :
    CustomerProg SearchContextResult := do
  let task ← getTask taskId
  liftThrown (requireMutable task)
  let query ← liftThrown (required input.query "query")
  let maxItems ← liftThrown (boundedInteger (input.maxItems.getD defaultContextItems)
    "max_items" 1 maxContextItems)
  let neighbors ← liftThrown (boundedInteger (input.neighborCount.getD defaultNeighborCount)
    "neighbor_count" 0 12)
  let query ← liftThrown (scopedQuery task input.includeRelated query)
  let id : String ← ask .createId
  let objective ← liftThrown (optionally (present input.objective) fun value =>
    required value "objective")
  let assembled : AssembledContext ← ask (.assemble
    { id, objective, query, related := input.includeRelated
      maxItems := min maxItems 20 })
  let seeds := if task.brief.source.eventId ∈ assembled.eventIds then assembled.eventIds
    else task.brief.source.eventId :: assembled.eventIds
  let groups ← groupSeeds task [] seeds
  let expanded ← expandThreads task groups assembled.snapshotId neighbors
    (orderedThreads task groups) maxItems ⟨[], []⟩
  let evidence := withReasons task seeds expanded.evidence
  let saved ← update task (do
    let mergedAt ← now
    pure { task with
      status := .resolvingContext
      brief := { task.brief with
        contextSnapshotIds :=
          unique (task.brief.contextSnapshotIds ++ [assembled.snapshotId]) }
      contextEvidence := mergeContextEvidence task.contextEvidence evidence
      continuations := mergeContinuations options.dateParse task.continuations
        expanded.continuations mergedAt }) .asBefore
  pure
    { task := saved
      evidence
      continuations := expanded.continuations
      snapshotId := assembled.snapshotId
      maxItems }

/-! ## Reading on -/

structure ReadContextInput where
  continuationHandle : String
  maxItems : Option Int := none
  deriving DecidableEq, Repr

def continuationTtlMs : Int := 30 * 60 * 1000

/-- The indexes of a page, beginning next to the boundary. -/
def pageIndexes (direction : ContinuationDirection) (boundary count maxItems : Nat) : List Nat :=
  match direction with
  | .after => (List.range count).filter fun index => boundary < index && index ≤ boundary + maxItems
  | .before =>
    ((List.range count).filter fun index =>
      index < boundary && boundary ≤ index + maxItems).reverse

/-- `new Date(Date.parse(now) + ttl).toISOString()` throws on a time that is none. -/
def expiry (now : String) : Except CustomerThrown String :=
  match options.dateParse now with
  | none => .error (.error "Invalid time value")
  | some ms => .ok (options.toISOString (ms + continuationTtlMs))

/-- Nothing of the conversation is left in this direction. -/
def isLastPage (direction : ContinuationDirection) (thread : ContextThread)
    (boundaryIndex : Nat) : Bool :=
  match direction with
  | .after => thread.events.length - 1 ≤ boundaryIndex
  | .before => boundaryIndex = 0

def nextContinuation (current : CustomerContextContinuation) (thread : ContextThread)
    (indexes : List Nat) (now : String) : CustomerProg (Option CustomerContextContinuation) :=
  match indexes.getLast? with
  | none => pure none
  | some boundaryIndex =>
    match thread.events[boundaryIndex]? with
    | none => pure none
    | some boundary =>
      if isLastPage current.direction thread boundaryIndex then pure none
      else do
        let handle : String ← ask .createId
        let expiresAt ← liftThrown (expiry options now)
        pure (some
          { handle
            threadId := boundary.threadId
            direction := current.direction
            boundaryOccurredAt := boundary.occurredAt
            boundaryEventId := boundary.id
            readEpoch := thread.readEpoch
            expiresAt })

/-- `Date.parse(expires_at) <= Date.parse(now)`. -/
def isExpired (dateParse : DateParse) (expiresAt now : String) : Bool :=
  match dateParse expiresAt, dateParse now with
  | some expires, some now => expires ≤ now
  | _, _ => false

def liveContinuation (task : CustomerServiceTask) (handle : String) :
    CustomerProg CustomerContextContinuation :=
  match task.continuations.find? fun item => item.handle = handle with
  | none => throwService .notFound "Continuation handle is invalid"
  | some continuation => do
    let readAt ← now
    liftThrown (refuseIf (isExpired options.dateParse continuation.expiresAt readAt)
      .cursorExpired "Continuation handle expired")
    pure continuation

/-- The conversation as it was when the continuation was made, and where it goes on. -/
def continuedThread (continuation : CustomerContextContinuation) :
    CustomerProg (ContextThread × Nat) := do
  let thread : ContextThread ← ask (.currentThread continuation.threadId)
  liftThrown (refuseIf (thread.readEpoch ≠ continuation.readEpoch) .contextChanged
    "Context changed; search again")
  match thread.events.findIdx? fun item =>
      item.id = continuation.boundaryEventId &&
        item.occurredAt = continuation.boundaryOccurredAt with
  | none => throwService .contextChanged "Context changed; search again"
  | some boundary => pure (thread, boundary)

structure ReadContextResult where
  task : CustomerServiceTask
  evidence : List CustomerContextEvidence
  continuations : List CustomerContextContinuation

def readContext (taskId : String) (input : ReadContextInput) :
    CustomerProg ReadContextResult := do
  let task ← getTask taskId
  liftThrown (requireMutable task)
  let handle ← liftThrown (required input.continuationHandle "continuation_handle")
  let continuation ← liveContinuation options task handle
  let maxItems ← liftThrown (boundedInteger (input.maxItems.getD 20) "max_items" 1 40)
  let (thread, boundary) ← continuedThread continuation
  let indexes := pageIndexes continuation.direction boundary thread.events.length maxItems.toNat
  let selected := (indexes.insertionSort (· ≤ ·)).filterMap (thread.events[·]?)
  let evidence : List CustomerContextEvidence ← ask (.materializeEvidence selected
    (task.brief.contextSnapshotIds.getLast?.getD ("continuation:" ++ task.id)))
  let readAt ← now
  let next ← nextContinuation options continuation thread indexes readAt
  let saved ← update task (do
    let mergedAt ← now
    pure { task with
      contextEvidence := mergeContextEvidence task.contextEvidence evidence
      continuations := mergeContinuations options.dateParse
        (task.continuations.filter fun item => item.handle ≠ handle) next.toList mergedAt })
    .asBefore
  pure { task := saved, evidence, continuations := next.toList }

end Regenic.Customer
