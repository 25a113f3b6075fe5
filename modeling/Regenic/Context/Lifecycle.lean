import Regenic.Context.AuthorityRead

/-!
The lifecycles of a source read: how the engine checks them, orders each by its parents and takes
of it what the temporal mode of a request asks for.
-/

namespace Regenic.Context

open Lib Ingest
open Customer (DateParse nonBlank)

section Lifecycle

variable (dateParse : DateParse)

/-! ## Order -/

/-- `Date.parse(left) > Date.parse(right)` -/
def laterTime (left right : String) : Bool :=
  match dateParse left, dateParse right with
  | some left, some right => right < left
  | _, _ => false

/-- `compareSourceOrder(left, right) <= 0` -/
def sourceOrder (left right : ContextSourceEvent) : Prop :=
  match dateParse left.ingestedAt, dateParse right.ingestedAt with
  | some l, some r => l < r ∨ l = r ∧ codeUnits left.eventId ≤ codeUnits right.eventId
  | _, _ => codeUnits left.eventId ≤ codeUnits right.eventId

instance decidableSourceOrder (left right : ContextSourceEvent) :
    Decidable (sourceOrder dateParse left right) :=
  match h : dateParse left.ingestedAt, h' : dateParse right.ingestedAt with
  | some l, some r => decidable_of_iff
      (l < r ∨ l = r ∧ codeUnits left.eventId ≤ codeUnits right.eventId)
      (by simp only [sourceOrder, h, h'])
  | none, _ => decidable_of_iff (codeUnits left.eventId ≤ codeUnits right.eventId)
      (by simp only [sourceOrder, h])
  | some _, none => decidable_of_iff (codeUnits left.eventId ≤ codeUnits right.eventId)
      (by simp only [sourceOrder, h, h'])

section Kahn

variable (events : List ContextSourceEvent)

def hasEvent (eventId : String) : Bool := events.any fun event => event.eventId = eventId

def sourceChildren (eventId : String) : List ContextSourceEvent :=
  events.filter fun event => present event.parentEventId = some eventId

/-- How many events of the id name a parent among the events. -/
def startIndegree (eventId : String) : Int :=
  (events.filter fun event => event.eventId = eventId &&
    (present event.parentEventId).any (hasEvent events)).length

/-- The events that are ready and the counts of those that are not. -/
structure LifecycleQueue where
  ready : List ContextSourceEvent
  indegree : String → Int

def releaseChild (queue : LifecycleQueue) (child : ContextSourceEvent) : LifecycleQueue :=
  let next := queue.indegree child.eventId - 1
  { ready :=
      if next = 0 then (queue.ready ++ [child]).insertionSort (sourceOrder dateParse)
      else queue.ready
    indegree := fun eventId => if eventId = child.eventId then next else queue.indegree eventId }

/-- Each event is ready once, so as many rounds as there are events are enough. -/
def orderLoop : Nat → LifecycleQueue → List ContextSourceEvent → List ContextSourceEvent
  | 0, _, ordered => ordered
  | fuel + 1, queue, ordered =>
    match queue.ready with
    | [] => ordered
    | source :: ready =>
      orderLoop fuel
        ((sourceChildren events source.eventId).foldl (releaseChild dateParse)
          { queue with ready := ready })
        (ordered ++ [source])

def startQueue : LifecycleQueue where
  ready := (events.filter fun event => startIndegree events event.eventId = 0).insertionSort
    (sourceOrder dateParse)
  indegree := startIndegree events

def orderLifecycle : Except ContextFailure (List ContextSourceEvent) :=
  let ordered := orderLoop dateParse events events.length (startQueue dateParse events) []
  if ordered.length ≠ events.length then
    .error (.engine .sourceBoundary "Context event lifecycle contains a parent cycle")
  else if 1 < (ordered.filter fun source => sourceChildren events source.eventId = []).length then
    .error (.engine .sourceBoundary "Context event lifecycle contains multiple heads")
  else .ok ordered

end Kahn

/-! ## Checks -/

def uniqueSorted (values : List String) : List String :=
  (keepFirst id values).insertionSort fun left right => codeUnits left ≤ codeUnits right

def validSourceEvent (request : ContextRequest) (read : ContextSourceRead)
    (event : ContextSourceEvent) : Bool :=
  event.orgId = request.orgId && nonBlank event.eventId && nonBlank event.source &&
    nonBlank event.externalId && (dateParse event.occurredAt).isSome &&
    (dateParse event.ingestedAt).isSome &&
    !laterTime dateParse event.ingestedAt read.recordedAt &&
    event.contentHash.all isSha256Hex && event.parentEventId ≠ some event.eventId &&
    event.requiredScopeIds.all nonBlank &&
    (uniqueSorted event.requiredScopeIds).length = event.requiredScopeIds.length &&
    event.contentMediaType.all nonBlank

def sourceBoundary (message : String) : Except ContextFailure Unit :=
  .error (.engine .sourceBoundary message)

/-- The shape of an event, given its operation and its parent. -/
def validateShape (event : ContextSourceEvent) (parent : Option ContextSourceEvent) :
    Except ContextFailure Unit :=
  let content := present event.contentHash
  match event.operation, parent with
  | .create, _ =>
    if (present event.parentEventId).isSome ∨ content.isNone then
      sourceBoundary "Context create Event has an invalid lifecycle shape"
    else .ok ()
  | _, none => sourceBoundary "Context revision Event has a missing parent"
  | .revise, some _ =>
    if content.isNone then sourceBoundary "Context revision Event is missing content" else .ok ()
  | .tombstone, some _ =>
    if content.isSome then sourceBoundary "Context tombstone Event cannot carry content"
    else .ok ()

def keepsOrder (parent event : ContextSourceEvent) : Bool :=
  parent.source = event.source && parent.externalId = event.externalId &&
    !laterTime dateParse parent.ingestedAt event.ingestedAt &&
    !laterTime dateParse parent.occurredAt event.occurredAt &&
    parent.threadId = event.threadId &&
    uniqueSorted parent.requiredScopeIds = uniqueSorted event.requiredScopeIds

def parentIn (events : List ContextSourceEvent) (event : ContextSourceEvent) :
    Option ContextSourceEvent :=
  (present event.parentEventId).bind fun parentId =>
    events.find? fun parent => parent.eventId = parentId

def validateParent (events : List ContextSourceEvent) (event : ContextSourceEvent) :
    Except ContextFailure Unit := do
  let parent := parentIn events event
  validateShape event parent
  throwUnless (parent.all fun parent => keepsOrder dateParse parent event)
    (.engine .sourceBoundary "Context event parent crosses identity or time order")

def validateHead (heads : List LifecycleHead) (group : IdentityKey × List ContextSourceEvent) :
    Except ContextFailure Unit := do
  let ordered ← orderLifecycle dateParse group.2
  throwUnless (ordered.getLast?.map (·.eventId) = (headOf heads group.1).map (·.headEventId))
    (.engine .sourceBoundary "Context source lifecycle head does not match Event chain")

/-- The bound of an as-of request that the read does not cover. -/
def outsideRead (request : ContextRequest) (read : ContextSourceRead) : Bool :=
  match request.temporal with
  | .asOf _ recordedAt => laterTime dateParse recordedAt read.recordedAt
  | _ => false

def validateSourceRead (request : ContextRequest) (read : ContextSourceRead) :
    Except ContextFailure Unit := do
  throwUnless (dateParse read.recordedAt).isSome
    (.engine .sourceBoundary "Context source returned an invalid read boundary")
  throwUnless (!outsideRead dateParse request read)
    (.engine .sourceBoundary "Context source read does not cover the requested as-of time")
  throwUnless (read.events.all (validSourceEvent dateParse request read) &&
      decide (read.events.map (·.eventId)).Nodup)
    (.engine .sourceBoundary "Context source returned an invalid or duplicate event")
  throwUnless (read.lifecycleHeads.all validLifecycleHead &&
      decide (read.lifecycleHeads.map (·.identity)).Nodup)
    (.engine .sourceBoundary "Context source returned invalid lifecycle heads")
  read.events.forM (validateParent dateParse read.events)
  let groups := groupBy ContextSourceEvent.identity read.events
  throwUnless (read.lifecycleHeads.length = groups.length)
    (.engine .sourceBoundary "Context source lifecycle head set is incomplete")
  groups.forM (validateHead dateParse read.lifecycleHeads)

/-! ## Selection -/

/-- The times up to which events are seen: when they were recorded, and when they occurred. -/
def recordedCutoff (request : ContextRequest) (recordedAt : String) : String :=
  match request.temporal with
  | .asOf _ recordedAt => recordedAt
  | _ => recordedAt

def validAt (request : ContextRequest) : Option String :=
  match request.temporal with
  | .current => none
  | .history validAt => present validAt
  | .asOf validAt _ => present validAt

def seenEvent (request : ContextRequest) (recordedAt : String) (event : ContextSourceEvent) :
    Bool :=
  !laterTime dateParse event.ingestedAt (recordedCutoff request recordedAt) &&
    (validAt request).all fun validAt => !laterTime dateParse event.occurredAt validAt

def carriesContent (event : ContextSourceEvent) : Bool :=
  event.operation ≠ .tombstone && (present event.contentHash).isSome

/-- What a request sees of one lifecycle, in its order. -/
def selectLifecycle (request : ContextRequest) (ordered : List ContextSourceEvent) :
    List AuthorizedSourceEvent :=
  match request.temporal, ordered.getLast? with
  | _, none => []
  | .history _, some head =>
    let lastStatus := if head.operation = .tombstone then .retracted else .current
    match (ordered.filter carriesContent).reverse with
    | [] => []
    | last :: earlier =>
      (earlier.reverse.map fun source => ⟨source, .superseded⟩) ++ [⟨last, lastStatus⟩]
  | _, some head => if carriesContent head then [⟨head, .current⟩] else []

def eventOrder (left right : AuthorizedSourceEvent) : Prop :=
  codeUnits left.eventId ≤ codeUnits right.eventId

instance decidableEventOrder (left right : AuthorizedSourceEvent) :
    Decidable (eventOrder left right) :=
  inferInstanceAs (Decidable (codeUnits left.eventId ≤ codeUnits right.eventId))

/-- A seen event whose parent is not. -/
def missesParent (eligible : List ContextSourceEvent) (event : ContextSourceEvent) : Bool :=
  event.operation ≠ .create && !(present event.parentEventId).any (hasEvent eligible)

def resolveEventLifecycle (request : ContextRequest) (recordedAt : String)
    (events : List ContextSourceEvent) : Except ContextFailure (List AuthorizedSourceEvent) := do
  let eligible := events.filter (seenEvent dateParse request recordedAt)
  throwUnless (!eligible.any (missesParent eligible))
    (.engine .sourceBoundary "Context temporal selection produced an incomplete Event lifecycle")
  let selected ← (groupBy ContextSourceEvent.identity eligible).mapM fun group =>
    (orderLifecycle dateParse group.2).map (selectLifecycle request)
  pure (selected.flatten.insertionSort eventOrder)

end Lifecycle

/-! ## Policy -/

structure ContextPolicyEvaluator where
  metadataOnly : Bool
  /-- Whether the principal of the request sees an event of these scopes. -/
  visible : ContextRequest → String → List String → Bool

/-- A lifecycle is visible where each of its events is. -/
def visibleLifecycle (policy : ContextPolicyEvaluator) (request : ContextRequest)
    (events : List ContextSourceEvent) : List ContextSourceEvent :=
  if events.all fun event => policy.visible request event.eventId event.requiredScopeIds then
    events
  else []

def authorizedLifecycleEvents (policy : ContextPolicyEvaluator) (request : ContextRequest)
    (events : List ContextSourceEvent) : List ContextSourceEvent :=
  perGroup ContextSourceEvent.identity (visibleLifecycle policy request) events

end Regenic.Context
