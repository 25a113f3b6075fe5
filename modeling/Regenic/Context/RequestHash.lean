import Regenic.Context.CanonicalValue
import Regenic.Context.Replay
import Regenic.Context.Timestamps

/-!
A context request, what its schema asks of it, and its hash. The strings of a request are
sequences of code units, its numbers doubles.
-/

namespace Regenic.Context

def ContextCandidateKind.name : ContextCandidateKind → String
  | .event => "event"
  | .digest => "digest"
  | .claim => "claim"
  | .entity => "entity"
  | .edge => "edge"
  | .artifact => "artifact"

def ContextSearchKind.name : ContextSearchKind → String
  | .all => "all"
  | .messages => "messages"
  | .files => "files"

end Regenic.Context

namespace Regenic.Context.Canonical

open Lib Ingest
open Assembly (ContextAllowedUse)
open Customer (ActorType)
open JsValue (record)

/-! ## Requests -/

def actorTypeName : ActorType → String
  | .human => "human"
  | .agent => "agent"
  | .system => "system"

structure ActorRef where
  actorType : ActorType
  actorId : CodeUnits
  deriving DecidableEq

structure ContextAnchor where
  kind : ContextAnchorKind
  id : CodeUnits
  deriving DecidableEq

structure ContextRequestFilters where
  sources : Option (List CodeUnits) := none
  threadIds : Option (List CodeUnits) := none
  actorIds : Option (List CodeUnits) := none
  occurredAfter : Option CodeUnits := none
  occurredBefore : Option CodeUnits := none

inductive ContextTemporalSelection where
  | current
  | history (validAt : Option CodeUnits)
  | asOf (validAt : Option CodeUnits) (recordedAt : CodeUnits)

/-- The tokens of each section that has a limit. -/
structure SectionTokens where
  policy : Option JsNumber := none
  memory : Option JsNumber := none
  working : Option JsNumber := none
  facts : Option JsNumber := none
  summaries : Option JsNumber := none
  evidence : Option JsNumber := none

structure ContextBudget where
  profile : CodeUnits
  maxTokens : JsNumber
  maxItems : JsNumber
  maxRawEvidence : JsNumber
  maxAgeDays : Option JsNumber := none
  sectionTokens : Option SectionTokens := none

structure ContextRequest where
  id : CodeUnits
  orgId : CodeUnits
  principal : ActorRef
  consumerId : CodeUnits
  purpose : CodeUnits
  allowedUses : List ContextAllowedUse
  query : Option CodeUnits := none
  searchKind : Option ContextSearchKind := none
  anchors : Option (List ContextAnchor) := none
  filters : Option ContextRequestFilters := none
  temporal : ContextTemporalSelection
  budget : ContextBudget
  requestedKinds : Option (List ContextCandidateKind) := none

def SectionTokens.values (tokens : SectionTokens) : List (Option JsNumber) :=
  [tokens.policy, tokens.memory, tokens.working, tokens.facts, tokens.summaries, tokens.evidence]

def anchorKey (anchor : ContextAnchor) : CodeUnits := utf16 anchor.kind.name ++ 0 :: anchor.id

/-! ## The schema -/

def nonEmptyString (value : CodeUnits) : Bool := 1 ≤ value.length && !isBlank value

def timestampSchema (value : CodeUnits) : Bool := (readTimestamp value).isSome

/-- `z.number().int()`, which takes safe integers only. -/
def integerSchema (x : JsNumber) : Bool :=
  x.rational?.any fun q => q.den = 1 && |q| ≤ 9007199254740991

def nonNegativeInteger (x : JsNumber) : Bool := integerSchema x && x.rational?.any (0 ≤ ·)

def positiveInteger (x : JsNumber) : Bool := integerSchema x && x.rational?.any (0 < ·)

def atMost (bound : ℚ) (x : JsNumber) : Bool := x.rational?.any (· ≤ bound)

def querySchema (value : CodeUnits) : Bool := value.length ≤ 8000 && !isBlank value

def uniqueNonEmptyStrings (values : List CodeUnits) : Bool :=
  values.all nonEmptyString && 1 ≤ values.length && values.length ≤ 1000 && decide values.Nodup

/-- The sum of the section limits; a sum beyond `max_tokens` is beyond it however it is
rounded. -/
def partitioned (tokens : SectionTokens) : ℚ :=
  tokens.values.foldl (fun sum value => sum + (value.bind JsNumber.rational?).getD 0) 0

def contextBudgetSchema (budget : ContextBudget) : Bool :=
  nonEmptyString budget.profile &&
    (positiveInteger budget.maxTokens && atMost 1000000 budget.maxTokens) &&
    (positiveInteger budget.maxItems && atMost 10000 budget.maxItems) &&
    (nonNegativeInteger budget.maxRawEvidence && atMost 10000 budget.maxRawEvidence) &&
    budget.maxAgeDays.all (fun days => positiveInteger days && atMost 36500 days) &&
    budget.sectionTokens.all fun tokens =>
      tokens.values.all (fun value => value.all nonNegativeInteger) &&
        budget.maxTokens.rational?.all fun limit => partitioned tokens ≤ limit

def contextFiltersSchema (filters : ContextRequestFilters) : Bool :=
  filters.sources.all uniqueNonEmptyStrings &&
    filters.threadIds.all uniqueNonEmptyStrings &&
    filters.actorIds.all uniqueNonEmptyStrings &&
    filters.occurredAfter.all timestampSchema &&
    filters.occurredBefore.all timestampSchema &&
    (filters.sources.isSome || filters.threadIds.isSome || filters.actorIds.isSome ||
      filters.occurredAfter.isSome || filters.occurredBefore.isSome) &&
    (filters.occurredAfter.bind dateParse).all fun after =>
      (filters.occurredBefore.bind dateParse).all fun before => after ≤ before

def temporalSchema : ContextTemporalSelection → Bool
  | .current => true
  | .history validAt => validAt.all timestampSchema
  | .asOf validAt recordedAt => validAt.all timestampSchema && timestampSchema recordedAt

/-- `ContextRequestSchema`. -/
def contextRequestSchema (request : ContextRequest) : Bool :=
  nonEmptyString request.id && nonEmptyString request.orgId &&
    nonEmptyString request.principal.actorId && nonEmptyString request.consumerId &&
    nonEmptyString request.purpose &&
    (1 ≤ request.allowedUses.length && request.allowedUses.length ≤ 4 &&
      decide request.allowedUses.Nodup) &&
    request.query.all querySchema &&
    request.anchors.all (fun anchors =>
      anchors.all (fun anchor => nonEmptyString anchor.id) && anchors.length ≤ 100 &&
        decide (anchors.map anchorKey).Nodup) &&
    request.filters.all contextFiltersSchema &&
    temporalSchema request.temporal &&
    contextBudgetSchema request.budget &&
    request.requestedKinds.all fun kinds =>
      1 ≤ kinds.length && kinds.length ≤ 6 && decide kinds.Nodup

/-! ## The hash -/

/-- `value ? normalizeTimestamp(value) : value`. -/
def normalizePresent : Option CodeUnits → Except CanonicalError (Option CodeUnits)
  | some value => if value = [] then .ok (some value) else some <$> normalizeTimestamp value
  | none => .ok none

def normalizeTemporal :
    ContextTemporalSelection → Except CanonicalError ContextTemporalSelection
  | .current => .ok .current
  | .history validAt => .history <$> normalizePresent validAt
  | .asOf validAt recordedAt => do
    let recordedAt ← normalizeTimestamp recordedAt
    let validAt ← normalizePresent (validAt.filter fun value => value ≠ [])
    return .asOf validAt recordedAt

def sortedStrings (values : List CodeUnits) : List CodeUnits := sortNamed id values

def normalizeFilters (filters : ContextRequestFilters) :
    Except CanonicalError ContextRequestFilters := do
  let occurredAfter ← normalizePresent filters.occurredAfter
  let occurredBefore ← normalizePresent filters.occurredBefore
  return {
    sources := filters.sources.map sortedStrings
    threadIds := filters.threadIds.map sortedStrings
    actorIds := filters.actorIds.map sortedStrings
    occurredAfter, occurredBefore }

def textValue (text : String) : JsValue := .string (utf16 text)

def stringsValue (values : List CodeUnits) : JsValue := .array (values.map .string)

def actorValue (actor : ActorRef) : JsValue :=
  record [
    (utf16 "actor_type", some (textValue (actorTypeName actor.actorType))),
    (utf16 "actor_id", some (.string actor.actorId))]

def anchorValue (anchor : ContextAnchor) : JsValue :=
  record [
    (utf16 "kind", some (textValue anchor.kind.name)),
    (utf16 "id", some (.string anchor.id))]

def temporalValue : ContextTemporalSelection → JsValue
  | .current => record [(utf16 "mode", some (textValue "current"))]
  | .history validAt =>
    record [
      (utf16 "mode", some (textValue "history")),
      (utf16 "valid_at", validAt.map .string)]
  | .asOf validAt recordedAt =>
    record [
      (utf16 "mode", some (textValue "as_of")),
      (utf16 "recorded_at", some (.string recordedAt)),
      (utf16 "valid_at", validAt.map .string)]

def sectionTokensValue (tokens : SectionTokens) : JsValue :=
  record [
    (utf16 "policy", tokens.policy.map .number),
    (utf16 "memory", tokens.memory.map .number),
    (utf16 "working", tokens.working.map .number),
    (utf16 "facts", tokens.facts.map .number),
    (utf16 "summaries", tokens.summaries.map .number),
    (utf16 "evidence", tokens.evidence.map .number)]

def budgetValue (budget : ContextBudget) : JsValue :=
  record [
    (utf16 "profile", some (.string budget.profile)),
    (utf16 "max_tokens", some (.number budget.maxTokens)),
    (utf16 "max_items", some (.number budget.maxItems)),
    (utf16 "max_raw_evidence", some (.number budget.maxRawEvidence)),
    (utf16 "max_age_days", budget.maxAgeDays.map .number),
    (utf16 "section_tokens", budget.sectionTokens.map sectionTokensValue)]

def filtersValue (filters : ContextRequestFilters) : JsValue :=
  record [
    (utf16 "sources", filters.sources.map stringsValue),
    (utf16 "thread_ids", filters.threadIds.map stringsValue),
    (utf16 "actor_ids", filters.actorIds.map stringsValue),
    (utf16 "occurred_after", filters.occurredAfter.map .string),
    (utf16 "occurred_before", filters.occurredBefore.map .string)]

/-- The object that is hashed: the request without its id, its lists in order. -/
def semanticValue (request : ContextRequest) (temporal : ContextTemporalSelection)
    (filters : Option ContextRequestFilters) : JsValue :=
  record [
    (utf16 "schema_version", some (textValue "1.0")),
    (utf16 "org_id", some (.string request.orgId)),
    (utf16 "principal", some (actorValue request.principal)),
    (utf16 "consumer_id", some (.string request.consumerId)),
    (utf16 "purpose", some (.string request.purpose)),
    (utf16 "query", request.query.map .string),
    (utf16 "search_kind", request.searchKind.map fun kind => textValue kind.name),
    (utf16 "temporal", some (temporalValue temporal)),
    (utf16 "budget", some (budgetValue request.budget)),
    (utf16 "allowed_uses", some (stringsValue
      (sortedStrings (request.allowedUses.map fun allowed => utf16 allowed.name)))),
    (utf16 "anchors", request.anchors.map fun anchors =>
      .array ((sortNamed anchorKey anchors).map anchorValue)),
    (utf16 "requested_kinds", request.requestedKinds.map fun kinds =>
      stringsValue (sortedStrings (kinds.map fun kind => utf16 kind.name))),
    (utf16 "filters", filters.map filtersValue)]

/-- What `hashContextRequest` hands to `hashCanonicalContext`. -/
def hashedRequest (request : ContextRequest) : Except CanonicalError JsValue := do
  let temporal ← normalizeTemporal request.temporal
  let filters ← match request.filters with
    | some filters => some <$> normalizeFilters filters
    | none => .ok none
  return semanticValue request temporal filters

def hashContextRequest (sha256 : Sha256) (request : ContextRequest) :
    Except CanonicalError String := do
  let value ← hashedRequest request
  hashCanonicalContext sha256 value

end Regenic.Context.Canonical
