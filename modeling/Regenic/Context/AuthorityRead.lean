import Regenic.Context.Contracts
import Regenic.Lib.Checked
import Regenic.Lib.Group

/-!
Reading the authority store for a context: the scope that a request's filters and anchors select
in SQL, the rows of the selected identities, and the source events that are made of those whose
lifecycle is closed. `Date.parse` and `julianday` read the same instant out of a timestamp.
-/

namespace Regenic.Context

open Lib Ingest
open Customer (DateParse nonBlank)

/-! ## Scope -/

/-- The bound values of the conditions on a row; times are whole seconds, in milliseconds. -/
structure ReadScope where
  orgId : String
  sources : Option (List String)
  threadIds : Option (List String)
  actorIds : Option (List String)
  after : Option Int
  before : Option Int
  anchors : List ContextAnchor
  deriving DecidableEq, Repr

/-- `new Date(Math.floor(ms / 1000) * 1000)`; throws where the bound is no time. -/
def wholeSecond (dateParse : DateParse) (bound : Option String) : Option (Option Int) :=
  match bound with
  | none => some none
  | some text => (dateParse text).map fun ms => some (ms / 1000 * 1000)

def contextReadScope (dateParse : DateParse) (orgId : String)
    (query : Option ContextAuthorityReadQuery) : Option ReadScope := do
  let filters := query.bind (·.filters)
  let after ← wholeSecond dateParse (filters.bind (·.occurredAfter))
  let before ← wholeSecond dateParse (filters.bind (·.occurredBefore))
  pure {
    orgId
    sources := filters.bind (·.sources)
    threadIds := filters.bind (·.threadIds)
    actorIds := filters.bind (·.actorIds)
    after
    before
    anchors := (query.map (·.anchors)).getD [] }

/-- `column IN (...)`; a column without a value is in no list. -/
def inValues (values : Option (List String)) (column : Option String) : Bool :=
  values.all fun values => column.any fun value => values.contains value

def anchorSelects (anchor : ContextAnchor) (row : EventRow) : Bool :=
  match anchor.kind with
  | .event => row.id = anchor.id
  | .conversation => row.threadId = some anchor.id
  | kind => attrText row.attrs (kind.name ++ "_id") = some anchor.id

/-- The conditions on one row. -/
def ReadScope.selects (dateParse : DateParse) (scope : ReadScope) (row : EventRow) : Bool :=
  row.orgId = scope.orgId &&
    inValues scope.sources (some row.source) &&
    inValues scope.threadIds row.threadId &&
    inValues scope.actorIds row.actorId &&
    (scope.after.all fun after => (dateParse row.occurredAt).any fun ms => after ≤ ms) &&
    (scope.before.all fun before =>
      (dateParse row.occurredAt).any fun ms => ms ≤ before + 1000) &&
    (scope.anchors = [] || scope.anchors.any fun anchor => anchorSelects anchor row)

/-- An identity is selected with any one of its rows. -/
def ReadScope.selected (dateParse : DateParse) (scope : ReadScope) (rows : List EventRow)
    (key : IdentityKey) : Bool :=
  rows.any fun row => scope.selects dateParse row && row.identity = key

/-! ## Read -/

def AuthorityEvent.ofRow (tables : ContextTables) (row : EventRow) : AuthorityEvent where
  toEventRow := row
  contentMediaType := present (row.contentHash.bind tables.mediaType)

def openContextRead (dateParse : DateParse) (tables : ContextTables) (orgId : String)
    (query : Option ContextAuthorityReadQuery) (recordedAt : String) :
    Except ContextFailure AuthorityRead :=
  match contextReadScope dateParse orgId query with
  | none => .error (.error "Invalid time value")
  | some scope => .ok {
      recordedAt
      events := (tables.events.filter fun row =>
        row.orgId = orgId && scope.selected dateParse tables.events row.identity).map
          (AuthorityEvent.ofRow tables)
      lifecycleHeads := (tables.sourceHeads.filter fun head =>
        head.identity.orgId = orgId && scope.selected dateParse tables.events
          (head.identity.source, head.identity.externalId)).map fun head =>
            { source := head.identity.source
              externalId := head.identity.externalId
              headEventId := head.currentEventId } }

/-! ### Checks -/

def validAuthorityEvent (dateParse : DateParse) (orgId : String) (event : AuthorityEvent) :
    Bool :=
  event.orgId = orgId && nonBlank event.id && nonBlank event.source &&
    nonBlank event.externalId && (dateParse event.occurredAt).isSome &&
    (dateParse event.ingestedAt).isSome

def validLifecycleHead (head : LifecycleHead) : Bool :=
  nonBlank head.source && nonBlank head.externalId && nonBlank head.headEventId

def validateAuthorityRead (dateParse : DateParse) (orgId : String) (read : AuthorityRead) :
    Except ContextFailure Unit :=
  if (dateParse read.recordedAt).isNone then
    .error (.error "Context authority returned an invalid read boundary")
  else if !read.events.all (validAuthorityEvent dateParse orgId) ∨
      ¬(read.events.map (·.id)).Nodup then
    .error (.error "Context authority returned an invalid Event")
  else if !read.lifecycleHeads.all validLifecycleHead then
    .error (.error "Context authority returned an invalid lifecycle head")
  else if ¬(read.lifecycleHeads.map (·.identity)).Nodup then
    .error (.error "Context authority returned duplicate lifecycle heads")
  else .ok ()

def hasContextMetadata (events : List AuthorityEvent) : Bool :=
  events.all fun event =>
    event.threadId.any nonBlank && event.actorId.any nonBlank &&
      (event.requiredScopeIds.any fun scopes => scopes ≠ [] && scopes.all nonBlank) &&
      (event.operation = .tombstone ||
        event.contentHash.isSome && event.contentMediaType.any nonBlank)

section Closed

variable (events : List AuthorityEvent)

def childrenOf (eventId : String) : List AuthorityEvent :=
  events.filter fun event => present event.parentEventId = some eventId

/-- The walk from the root, child by child, until an event has none or was visited. -/
def visitLifecycle : Nat → List AuthorityEvent → AuthorityEvent →
    List AuthorityEvent × AuthorityEvent
  | 0, visited, current => (visited, current)
  | fuel + 1, visited, current =>
    if visited.any fun event => event.id = current.id then (visited, current)
    else
      match (childrenOf events current.id).head? with
      | none => (visited ++ [current], current)
      | some child => visitLifecycle fuel (visited ++ [current]) child

/-- One root that is a create, one child at most for each event, all on one walk that ends at the
head. -/
def isClosedLifecycle (head : Option LifecycleHead) : Bool :=
  match head, events.filter fun event => (present event.parentEventId).isNone with
  | some head, [root] =>
    let (visited, current) := visitLifecycle events events.length [] root
    root.operation = .create &&
      (events.all fun event =>
        match present event.parentEventId with
        | none => event.operation = .create
        | some parentId =>
          event.operation ≠ .create && events.any fun parent => parent.id = parentId) &&
      (events.all fun event =>
        (present event.parentEventId).all fun parentId =>
          (childrenOf events parentId).length = 1) &&
      visited.length = events.length && current.id = head.headEventId
  | _, _ => false

end Closed

/-! ## Source -/

def AuthorityEvent.toSource (event : AuthorityEvent) : ContextSourceEvent where
  eventId := event.id
  orgId := event.orgId
  source := event.source
  externalId := event.externalId
  operation := event.operation
  occurredAt := event.occurredAt
  ingestedAt := event.ingestedAt
  contentHash := if event.operation = .tombstone then none else present event.contentHash
  parentEventId := present event.parentEventId
  threadId := event.threadId
  actorId := event.actorId
  requiredScopeIds := event.requiredScopeIds.getD []
  attrs := event.attrs
  contentMediaType := present event.contentMediaType

/-- `Map` of the heads by identity; the last one of an identity counts. -/
def headOf (heads : List LifecycleHead) (key : IdentityKey) : Option LifecycleHead :=
  heads.reverse.find? fun head => head.identity = key

def eligibleLifecycle (heads : List LifecycleHead) (events : List AuthorityEvent) : Bool :=
  hasContextMetadata events &&
    isClosedLifecycle events (events.head?.bind fun event => headOf heads event.identity)

/-- The source events of a group, none where its lifecycle is not usable. -/
def sourceLifecycle (heads : List LifecycleHead) (events : List AuthorityEvent) :
    List ContextSourceEvent :=
  if eligibleLifecycle heads events then events.map AuthorityEvent.toSource else []

def sourceRead (read : AuthorityRead) : ContextSourceRead where
  recordedAt := read.recordedAt
  lifecycleHeads := perGroup (fun event : AuthorityEvent => event.identity)
    (fun events =>
      if eligibleLifecycle read.lifecycleHeads events then
        ((events.head?.bind fun event => headOf read.lifecycleHeads event.identity).toList)
      else []) read.events
  events := perGroup (fun event : AuthorityEvent => event.identity)
    (sourceLifecycle read.lifecycleHeads) read.events

/-- `openRead` of the source over a read of the authority. -/
def openSourceRead (dateParse : DateParse) (orgId : String) (read : AuthorityRead) :
    Except ContextFailure ContextSourceRead := do
  validateAuthorityRead dateParse orgId read
  pure (sourceRead read)

end Regenic.Context
