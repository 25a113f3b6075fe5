import Regenic.Context.AuthorityRead
import Regenic.Customer.Context
import Regenic.Lib.Paging

/-!
What the coordinator reads of a conversation: its current messages in order, the evidence that is
made of some of them, and the window around the seeds of a search, cut to its share of the items.
-/

namespace Regenic.Customer

open Lib
open Ingest (Sha256 bodyTextFromStored)
open Context (AuthorityEvent AuthorityRead ContextFailure ContextTables LifecycleHead attrText
  openContextRead)

/-- The stores behind the coordinator. Ids are primary keys, rows were checked when they came in,
and a digest has the shape of one. -/
structure ThreadStore where
  options : CustomerOptions
  tables : ContextTables
  recordedAt : String
  /-- A body of `getMany`. -/
  blob : String → Option Bytes
  sha256 : Sha256
  /-- The hash of the canonical text of what was read. -/
  readDigest : List AuthorityEvent → List LifecycleHead → String
  ids_nodup : (tables.events.map (·.id)).Nodup
  rows_valid : ∀ row ∈ tables.events, nonBlank row.id = true ∧ nonBlank row.source = true ∧
    validTimestamp options.dateParse row.occurredAt = true
  digest_shape : ∀ bytes, isContentHash (sha256.hex bytes) = true

/-! ## The current messages -/

/-- `ContextAuthorityRead`: the epoch hashes the events and the heads, not the time. -/
structure EpochRead where
  readEpoch : String
  events : List AuthorityEvent
  lifecycleHeads : List LifecycleHead

def ofContextFailure : ContextFailure → CustomerThrown
  | .error message => .error message
  | .engine _ message => .error message

def openContextReadForThread (store : ThreadStore) (threadId : String) :
    Except CustomerThrown EpochRead :=
  if jsTrim threadId = "" then .error (.error "Context thread read requires a thread id")
  else
    match openContextRead store.options.dateParse store.tables store.options.orgId
        (some { filters := some { threadIds := some [jsTrim threadId] } }) store.recordedAt with
    | .error failure => .error (ofContextFailure failure)
    | .ok read => .ok
        { readEpoch := "authority:" ++ store.readDigest read.events read.lifecycleHeads
          events := read.events
          lifecycleHeads := read.lifecycleHeads }

/-- A head with content that is in the conversation under this very id. -/
def isCurrentMessage (threadId : String) (heads : List LifecycleHead) (event : AuthorityEvent) :
    Bool :=
  event.threadId = some threadId && event.operation ≠ .tombstone &&
    (heads.any fun head => head.headEventId = event.id) &&
    (present event.contentHash).isSome && (present event.contentMediaType).isSome

def compareEvent (left right : AuthorityEvent) : Prop :=
  codeUnits (left.occurredAt ++ "\x00" ++ left.id) ≤
    codeUnits (right.occurredAt ++ "\x00" ++ right.id)

instance decidableCompareEvent (left right : AuthorityEvent) :
    Decidable (compareEvent left right) :=
  inferInstanceAs (Decidable (codeUnits (left.occurredAt ++ "\x00" ++ left.id) ≤
    codeUnits (right.occurredAt ++ "\x00" ++ right.id)))

structure CurrentThread where
  readEpoch : String
  events : List AuthorityEvent

def currentThread (store : ThreadStore) (threadId : String) :
    Except CustomerThrown CurrentThread := do
  let read ← openContextReadForThread store threadId
  return {
    readEpoch := read.readEpoch
    events := (read.events.filter (isCurrentMessage threadId read.lifecycleHeads)).insertionSort
      compareEvent }

/-! ## Evidence -/

/-- `stringAttribute` -/
def stringAttribute (attrs : Option JsonValue) (key : String) : Option String :=
  present ((attrText attrs key).map jsTrim)

def contextCitation (store : ThreadStore) (eventId contentHash : String) : String :=
  "context:" ++ String.ofList
    ((store.sha256.hex (utf8Encode (eventId ++ "\x00" ++ contentHash))).toList.take 24)

/-- The body of a message, none where it is not there, not what the hash says, or no text. A
`null` among the stored parts is read a property of, which throws. -/
def messageText (store : ThreadStore) (event : AuthorityEvent) :
    Except CustomerThrown (Option String) :=
  match present event.contentHash, present event.contentMediaType with
  | some contentHash, some mediaType =>
    match (store.blob contentHash).filter fun bytes => store.sha256.hex bytes = contentHash with
    | none => .ok none
    | some bytes =>
      match bodyTextFromStored bytes mediaType with
      | .error _ => .error (.error "Cannot read properties of null (reading 'role')")
      | .ok text => .ok (present (text.map jsTrim))
  | _, _ => .ok none

/-- The message among those read that a message replies to. -/
def replyTarget (events : List AuthorityEvent) (event : AuthorityEvent) : Option AuthorityEvent :=
  (stringAttribute event.attrs "parent_external_id").bind fun parentExternalId =>
    events.find? fun candidate =>
      candidate.source = event.source && candidate.externalId = parentExternalId

def evidenceOf (store : ThreadStore) (events : List AuthorityEvent) (snapshotId : String)
    (reason : ContextSelectionReason) (event : AuthorityEvent) :
    Except CustomerThrown (Option CustomerContextEvidence) := do
  let text ← messageText store event
  return text.map fun text =>
    { citationId := contextCitation store event.id (event.contentHash.getD "")
      snapshotId
      eventId := event.id
      contentHash := event.contentHash.getD ""
      source := event.source
      threadId := event.threadId.getD ""
      actorId := present event.actorId
      nativeThreadId := stringAttribute event.attrs "native_thread_id"
      replyToEventId := (replyTarget events event).map (·.id)
      occurredAt := event.occurredAt
      text
      selectionReason := reason }

def materializeEvidence (store : ThreadStore) (events : List AuthorityEvent)
    (snapshotId : String) (reason : ContextSelectionReason) :
    Except CustomerThrown (List CustomerContextEvidence) := do
  let made ← events.mapM (evidenceOf store events snapshotId reason)
  return made.filterMap id

/-! ## Windows -/

section Windows

variable (events : List AuthorityEvent)

/-- The position of the message that the message at a position replies to. -/
def parentIndex (index : Nat) : Option Nat := do
  let event ← events[index]?
  let parentExternalId ← stringAttribute event.attrs "parent_external_id"
  events.findIdx? fun item => item.source = event.source && item.externalId = parentExternalId

/-- `Set.add` -/
def addIndex (selected : List Nat) (index : Nat) : List Nat :=
  if selected.contains index then selected else selected ++ [index]

/-- What is replied to, and what that replies to, until one is selected already. -/
def addReplyChain : Nat → List Nat → Nat → List Nat
  | 0, selected, _ => selected
  | depth + 1, selected, replyIndex =>
    match parentIndex events replyIndex with
    | none => selected
    | some parent =>
      if selected.contains parent then selected
      else addReplyChain depth (selected ++ [parent]) parent

def neighborIndexes (neighbors index : Nat) : List Nat :=
  (List.range events.length).filter fun cursor =>
    index ≤ cursor + neighbors && cursor ≤ index + neighbors

def addSeedWindow (neighbors : Nat) (selected : List Nat) (seed : String) : List Nat :=
  match events.findIdx? fun item => item.id = seed with
  | none => selected
  | some index =>
    (neighborIndexes events neighbors index).foldl addIndex
      (addReplyChain events 8 selected index)

/-- The positions of the windows around the seeds, and of what these reply to. -/
def windowIndexes (seedIds : List String) (neighbors : Nat) : List Nat :=
  seedIds.foldl (addSeedWindow events neighbors) []

/-- The earliest of them, as many as there is room for. -/
def selectedIndexes (seedIds : List String) (maxItems neighbors : Nat) : List Nat :=
  ((windowIndexes events seedIds neighbors).insertionSort (· ≤ ·)).take maxItems

/-- Where there is more of the conversation before or after what was selected. -/
def continuationEnds (indexes : List Nat) : List (ContinuationDirection × Nat) :=
  let before := (indexes.head?.filter fun first => 0 < first).map fun first =>
    (ContinuationDirection.before, first)
  let after := (indexes.getLast?.filter fun last => last < events.length - 1).map fun last =>
    (ContinuationDirection.after, last)
  before.toList ++ after.toList

end Windows

section Expand

variable (store : ThreadStore)

def createContinuation (thread : CurrentThread) (boundary : AuthorityEvent)
    (direction : ContinuationDirection) (now handle : String) :
    Except CustomerThrown CustomerContextContinuation := do
  let expiresAt ← expiry store.options now
  return {
    handle
    threadId := boundary.threadId.getD ""
    direction
    boundaryOccurredAt := boundary.occurredAt
    boundaryEventId := boundary.id
    readEpoch := thread.readEpoch
    expiresAt }

/-- One continuation for each end, each with a time and an id of its own. -/
def createContinuations (thread : CurrentThread) (stamps : Nat → String × String) :
    Nat → List (ContinuationDirection × Nat) →
      Except CustomerThrown (List CustomerContextContinuation)
  | _, [] => .ok []
  | used, (direction, index) :: ends =>
    match thread.events[index]? with
    | none => createContinuations thread stamps used ends
    | some boundary => do
      let first ← createContinuation store thread boundary direction (stamps used).1
        (stamps used).2
      let rest ← createContinuations thread stamps (used + 1) ends
      return first :: rest

def expandThread (stamps : Nat → String × String) (threadId : String)
    (seedIds : List String) (snapshotId : String) (maxItems neighbors : Nat) :
    Except CustomerThrown ContextWindow := do
  let thread ← currentThread store threadId
  let ordered := selectedIndexes thread.events seedIds maxItems neighbors
  let evidence ← materializeEvidence store (ordered.filterMap (thread.events[·]?)) snapshotId
    .neighbor
  let continuations ← createContinuations store thread stamps 0
    (continuationEnds thread.events ordered)
  return { evidence, continuations }

end Expand

end Regenic.Customer
