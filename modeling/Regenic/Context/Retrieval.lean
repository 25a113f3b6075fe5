import Mathlib.Data.Rat.Floor
import Regenic.Context.Lifecycle

/-!
The event candidates of a request: the engine's way from a source read to what the deterministic
event retriever returns. A request has no query, so texts score nothing and match nothing.
-/

namespace Regenic.Context

open Lib Ingest
open Customer (DateParse nonBlank)

/-! ## Eligible events -/

section Eligible

variable (dateParse : DateParse) (request : ContextRequest) (event : ContextSourceEvent)

/-- `Date.parse(left) < Date.parse(bound)` for a bound that is there. -/
def occurredBeforeBound (bound : Option String) : Bool :=
  (present bound).any fun bound => laterTime dateParse bound event.occurredAt

def occurredAfterBound (bound : Option String) : Bool :=
  (present bound).any fun bound => laterTime dateParse event.occurredAt bound

def listed (values : Option (List String)) (value : Option String) : Bool :=
  values.all fun values => (present value).any fun value => values.contains value

def matchesFilters : Bool :=
  request.filters.all fun filters =>
    (filters.sources.all fun sources => sources.contains event.source) &&
      listed filters.threadIds event.threadId && listed filters.actorIds event.actorId &&
      !occurredBeforeBound dateParse event filters.occurredAfter &&
      !occurredAfterBound dateParse event filters.occurredBefore

def anchorMatches (anchor : ContextAnchor) : Bool :=
  match anchor.kind with
  | .event => event.eventId = anchor.id
  | .conversation => event.threadId = some anchor.id
  | kind => attrText event.attrs (kind.name ++ "_id") = some anchor.id

def matchesAnchors : Bool :=
  request.anchors = [] || request.anchors.any (anchorMatches event)

/-- `Date.parse(recordedAt) - Date.parse(occurredAt)`, none where one of them is `NaN`. -/
def ageMs (recordedAt : String) : Option Int :=
  match dateParse recordedAt, dateParse event.occurredAt with
  | some recorded, some occurred => some (recorded - occurred)
  | _, _ => none

def withinMaxAge (recordedAt : String) : Bool :=
  match request.maxAgeDays with
  | none => true
  | some 0 => true
  | some days =>
    (ageMs dateParse event recordedAt).any fun age => decide (age ≤ (days : Int) * 86400000)

/-- The time that ages are taken at. -/
def retrievalTimeFor (recordedAt : String) : String := recordedCutoff request recordedAt

def eligibleEvent (recordedAt : String) : Bool :=
  matchesFilters dateParse request event && matchesAnchors request event &&
    withinMaxAge dateParse request event (retrievalTimeFor request recordedAt)

end Eligible

/-! ## Candidates -/

/-- What the blobs of an event give: its text, and the body that a search shows. -/
structure EventMaterial where
  text : Option String := none
  searchBody : Option String := none
  deriving DecidableEq, Repr

structure EvidenceReference where
  eventId : String
  source : String
  externalId : String
  operation : IngestOperation
  occurredAt : String
  contentHash : String
  deriving DecidableEq, Repr

structure CandidateScores where
  anchor : ℚ
  exactMatch : ℚ
  lexical : ℚ
  recency : Option ℚ
  deriving DecidableEq

/-- A candidate together with its item. -/
structure EventCandidate where
  candidateId : String
  resourceId : String
  evidence : EvidenceReference
  requiredScopeIds : List String
  recordedAt : String
  status : EventStatus
  contentHash : String
  scores : CandidateScores
  estimatedTokens : Nat
  text : Option String
  /-- The matches of a search: none without a query. -/
  searchMatches : Option (List String)
  deriving DecidableEq

def estimateTokens (text : Option String) : Nat :=
  match present text with
  | none => 0
  | some text => max 1 ((utf16Length text + 3) / 4)

def recencyScore (dateParse : DateParse) (event : ContextSourceEvent) (recordedAt : String) :
    Option ℚ :=
  (ageMs dateParse event recordedAt).map fun age => 1 / (1 + (max 0 age : Int) / 86400000)

/-- The text that a candidate shows: of a search, the first 480 characters of the body. -/
def candidateText (request : ContextRequest) (material : EventMaterial) : Option String :=
  if request.searchKind.isSome then
    some (String.ofList (((material.searchBody <|> material.text).getD "").toList.take 480))
  else material.text

def eventCandidateFor (dateParse : DateParse) (request : ContextRequest) (recordedAt : String)
    (event : AuthorizedSourceEvent) (material : EventMaterial) : Option EventCandidate :=
  (present event.contentHash).map fun contentHash =>
    { candidateId := "event:" ++ event.eventId
      resourceId := event.eventId
      evidence := {
        eventId := event.eventId
        source := event.source
        externalId := event.externalId
        operation := event.operation
        occurredAt := event.occurredAt
        contentHash }
      requiredScopeIds := event.requiredScopeIds
      recordedAt := event.ingestedAt
      status := event.status
      contentHash
      scores := {
        anchor :=
          if request.anchors = [] then 0
          else if matchesAnchors request event.toContextSourceEvent then 1 else 0
        exactMatch := 0
        lexical := 0
        recency := recencyScore dateParse event.toContextSourceEvent recordedAt }
      estimatedTokens := estimateTokens (candidateText request material)
      text := candidateText request material
      searchMatches := if request.searchKind.isSome then some [] else none }

def candidateOrder (left right : EventCandidate) : Prop :=
  codeUnits left.candidateId ≤ codeUnits right.candidateId

instance decidableCandidateOrder (left right : EventCandidate) :
    Decidable (candidateOrder left right) :=
  inferInstanceAs (Decidable (codeUnits left.candidateId ≤ codeUnits right.candidateId))

section Retrieve

variable (dateParse : DateParse) (policy : ContextPolicyEvaluator)
  (material : AuthorizedSourceEvent → Except ContextFailure EventMaterial)
  (request : ContextRequest)

/-- `DeterministicEventRetriever.retrieve`, over the events of a plan. -/
def retrieveEvents (recordedAt : String) (events : List AuthorizedSourceEvent) :
    Except ContextFailure (List EventCandidate) :=
  if request.requestedKinds.all fun kinds => kinds.contains .event then do
    let eligible := events.filter fun event =>
      eligibleEvent dateParse request event.toContextSourceEvent recordedAt
    let sources ← eligible.mapM fun event => (material event).map fun found => (event, found)
    let candidates := sources.filterMap fun (event, found) =>
      eventCandidateFor dateParse request (retrievalTimeFor request recordedAt) event found
    pure (candidates.insertionSort candidateOrder)
  else pure []

/-- A policy that decides on material has it loaded first. -/
def loadForPolicy (events : List AuthorizedSourceEvent) :
    Except ContextFailure (List EventMaterial) :=
  if policy.metadataOnly then pure [] else events.mapM material

/-- The engine from a source read on, up to what the retriever returns. -/
def eventCandidates (read : ContextSourceRead) :
    Except ContextFailure (List EventCandidate) := do
  validateSourceRead dateParse request read
  let visible := authorizedLifecycleEvents policy request read.events
  let events ← resolveEventLifecycle dateParse request read.recordedAt visible
  let _loaded ← loadForPolicy policy material events
  retrieveEvents dateParse material request read.recordedAt events

end Retrieve

end Regenic.Context
