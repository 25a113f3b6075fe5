import Mathlib.Data.List.Lex
import Regenic.Customer.Contracts
import Regenic.Ingest.Content
import Regenic.Ingest.Events
import Regenic.Lib.Json
import Regenic.Lib.Utf16

/-!
What a context read passes around: the rows of the authority store, the events that are made of
them, and the requests that ask for them. A request has no query.
-/

namespace Regenic.Context

open Lib Ingest
open Customer (DateParse nonBlank)

/-! ## Rows -/

structure EventRow extends EventRecord where
  threadId : Option String := none
  actorId : Option String := none
  requiredScopeIds : Option (List String) := none
  attrs : Option JsonValue := none
  occurredAt : String
  ingestedAt : String

structure LifecycleHead where
  source : String
  externalId : String
  headEventId : String
  deriving DecidableEq, Repr

/-- The tables that a read looks at: the events in the order of their sequence, the media types of
the blobs, and the heads. -/
structure ContextTables where
  events : List EventRow
  mediaType : String → Option String
  sourceHeads : List SourceHead

/-- A text field of the attributes. -/
def attrText (attrs : Option JsonValue) (name : String) : Option String :=
  (attrs.bind fun attrs => attrs.field? name).bind JsonValue.string?

/-- A source and an external id, within an organization. -/
abbrev IdentityKey : Type := String × String

def EventRow.identity (row : EventRow) : IdentityKey := (row.source, row.externalId)

def LifecycleHead.identity (head : LifecycleHead) : IdentityKey := (head.source, head.externalId)

structure AuthorityEvent extends EventRow where
  contentMediaType : Option String := none

structure AuthorityRead where
  recordedAt : String
  events : List AuthorityEvent
  lifecycleHeads : List LifecycleHead

/-! ## Requests -/

inductive ContextAnchorKind where
  | event
  | conversation
  | workItem
  | decision
  | entity
  deriving DecidableEq, Repr

def ContextAnchorKind.name : ContextAnchorKind → String
  | .event => "event"
  | .conversation => "conversation"
  | .workItem => "work_item"
  | .decision => "decision"
  | .entity => "entity"

structure ContextAnchor where
  kind : ContextAnchorKind
  id : String
  deriving DecidableEq, Repr

structure ContextRequestFilters where
  sources : Option (List String) := none
  threadIds : Option (List String) := none
  actorIds : Option (List String) := none
  occurredAfter : Option String := none
  occurredBefore : Option String := none
  deriving DecidableEq, Repr

structure ContextAuthorityReadQuery where
  filters : Option ContextRequestFilters := none
  anchors : List ContextAnchor := []
  deriving DecidableEq, Repr

inductive ContextTemporalSelection where
  | current
  | history (validAt : Option String)
  | asOf (validAt : Option String) (recordedAt : String)
  deriving DecidableEq, Repr

inductive ContextSearchKind where
  | all
  | messages
  | files
  deriving DecidableEq, Repr

inductive ContextCandidateKind where
  | event
  | digest
  | claim
  | entity
  | edge
  | artifact
  deriving DecidableEq, Repr

structure ContextRequest where
  orgId : String
  searchKind : Option ContextSearchKind := none
  anchors : List ContextAnchor := []
  filters : Option ContextRequestFilters := none
  temporal : ContextTemporalSelection
  maxAgeDays : Option Nat := none
  requestedKinds : Option (List ContextCandidateKind) := none
  deriving DecidableEq, Repr

/-! ## Source events -/

structure ContextSourceEvent where
  eventId : String
  orgId : String
  source : String
  externalId : String
  operation : IngestOperation
  occurredAt : String
  ingestedAt : String
  contentHash : Option String := none
  parentEventId : Option String := none
  threadId : Option String := none
  actorId : Option String := none
  requiredScopeIds : List String
  attrs : Option JsonValue := none
  contentMediaType : Option String := none

def ContextSourceEvent.identity (event : ContextSourceEvent) : IdentityKey :=
  (event.source, event.externalId)

structure ContextSourceRead where
  recordedAt : String
  lifecycleHeads : List LifecycleHead
  events : List ContextSourceEvent

inductive EventStatus where
  | current
  | superseded
  | retracted
  deriving DecidableEq, Repr

structure AuthorizedSourceEvent extends ContextSourceEvent where
  status : EventStatus

inductive ContextErrorCode where
  | sourceBoundary
  | invalidCandidate
  deriving DecidableEq, Repr

inductive ContextFailure where
  /-- An `Error` of the authority or of the material that a read gives. -/
  | error (message : String)
  /-- `ContextEngineError`. -/
  | engine (code : ContextErrorCode) (message : String)
  deriving DecidableEq, Repr

end Regenic.Context
