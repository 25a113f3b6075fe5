import Regenic.Context.BundleDiff
import Regenic.Lib.Joined

/-!
Context artifacts as they are stored. An artifact that holds its own body is packed: its
references, scopes and attributes are taken apart into segments under the hash of their canonical
text, a list into leaves of 32 items and nodes over 32 of these, and the stored row keeps the hash
of each. The decoder puts them together again.
-/

namespace Regenic.Context.Artifacts

open Lib Ingest Assembly
open Customer (nonBlank)

inductive ArtifactFailure where
  /-- An `Error`. -/
  | error (message : String)
  /-- The `SyntaxError` of `JSON.parse`. -/
  | syntaxError
  /-- `Invalid context artifact`, with the issues of the schema. -/
  | invalidArtifact
  /-- The recursion is deeper, or the loop longer, than what was allowed for it. -/
  | depth
  deriving DecidableEq, Repr

/-! ## The schema of an artifact -/

inductive ContextArtifactKind where
  | threadSummary
  | dailyDigest
  | claimExtraction
  | identityLink
  | topicAssignment
  | queryInterpretation
  deriving DecidableEq, Repr

def ContextArtifactKind.name : ContextArtifactKind → String
  | .threadSummary => "thread_summary"
  | .dailyDigest => "daily_digest"
  | .claimExtraction => "claim_extraction"
  | .identityLink => "identity_link"
  | .topicAssignment => "topic_assignment"
  | .queryInterpretation => "query_interpretation"

def contextArtifactKinds : List ContextArtifactKind :=
  [.threadSummary, .dailyDigest, .claimExtraction, .identityLink, .topicAssignment,
    .queryInterpretation]

inductive ContextArtifactStatus where
  | proposed
  | accepted
  | rejected
  | needsClarify
  | superseded
  deriving DecidableEq, Repr

def ContextArtifactStatus.name : ContextArtifactStatus → String
  | .proposed => "proposed"
  | .accepted => "accepted"
  | .rejected => "rejected"
  | .needsClarify => "needs_clarify"
  | .superseded => "superseded"

def contextArtifactStatuses : List ContextArtifactStatus :=
  [.proposed, .accepted, .rejected, .needsClarify, .superseded]

structure ContextArtifact where
  id : String
  orgId : String
  kind : ContextArtifactKind
  schemaVersion : String
  algorithmVersion : String
  generation : String
  inputRefs : List Assembly.EvidenceReference
  inputHash : String
  bodyHash : Option String := none
  /-- `body_storage` is `"artifact"`. -/
  bodyStorage : Bool := false
  status : ContextArtifactStatus
  requiredScopeIds : List String
  recordedAt : String
  supersedesId : Option String := none
  attrs : Option JsonValue := none

def ContextArtifact.fields (artifact : ContextArtifact) : List (String × Option JsonValue) :=
  [("id", some (.string artifact.id)),
   ("org_id", some (.string artifact.orgId)),
   ("kind", some (.string artifact.kind.name)),
   ("schema_version", some (.string artifact.schemaVersion)),
   ("algorithm_version", some (.string artifact.algorithmVersion)),
   ("generation", some (.string artifact.generation)),
   ("input_refs", some (.array (artifact.inputRefs.map evidenceJson))),
   ("input_hash", some (.string artifact.inputHash)),
   ("body_hash", artifact.bodyHash.map .string),
   ("body_storage", if artifact.bodyStorage then some (.string "artifact") else none),
   ("status", some (.string artifact.status.name)),
   ("required_scope_ids", some (.array (artifact.requiredScopeIds.map .string))),
   ("recorded_at", some (.string artifact.recordedAt)),
   ("supersedes_id", artifact.supersedesId.map .string),
   ("attrs", artifact.attrs)]

/-- `z.number().finite()`, of a number that keeps its text. -/
def isNumberText (text : String) : Bool :=
  match Json.number text.toList with
  | some (.number found, []) => found = text
  | _ => false

mutual

/-- `JsonValueSchema` -/
def isJsonValue : JsonValue → Bool
  | .number text => isNumberText text
  | .array items => areJsonValues items
  | .object fields => haveJsonValues fields
  | _ => true

def areJsonValues : List JsonValue → Bool
  | [] => true
  | item :: rest => isJsonValue item && areJsonValues rest

def haveJsonValues : List (String × JsonValue) → Bool
  | [] => true
  | (_, item) :: rest => isJsonValue item && haveJsonValues rest

end

section Schema

variable (sha256 : Sha256) (isTimestamp : String → Bool)

def hashCanonicalContext (value : JsonValue) : String :=
  sha256.hex (utf8Encode (Json.canonical value))

/-- `sortedEvidence` -/
def sortedEvidence (references : List Assembly.EvidenceReference) : List Assembly.EvidenceReference :=
  references.insertionSort fun left right =>
    stringLe (Json.canonical (evidenceJson left)) (Json.canonical (evidenceJson right)) = true

def hashContextArtifactInputs (references : List Assembly.EvidenceReference) : String :=
  hashCanonicalContext sha256 (.array ((sortedEvidence references).map evidenceJson))

/-- What the schema checks of the values of an artifact. -/
def validArtifact (artifact : ContextArtifact) : Bool :=
  nonBlank artifact.id && nonBlank artifact.orgId && nonBlank artifact.schemaVersion &&
    nonBlank artifact.algorithmVersion && nonBlank artifact.generation &&
    artifact.inputRefs.length ≤ 10000 &&
    artifact.inputRefs.all (validBundleEvidence isTimestamp) &&
    isSha256Hex artifact.inputHash && artifact.bodyHash.all isSha256Hex &&
    artifact.requiredScopeIds.length ≤ 1000 && artifact.requiredScopeIds.all nonBlank &&
    isTimestamp artifact.recordedAt && artifact.supersedesId.all nonBlank &&
    artifact.attrs.all isJsonValue &&
    !(artifact.bodyStorage && (artifact.attrs.isNone ||
      artifact.bodyHash ≠ artifact.attrs.map (hashCanonicalContext sha256))) &&
    !(artifact.status = .accepted && artifact.inputRefs = []) &&
    artifact.inputHash = hashContextArtifactInputs sha256 artifact.inputRefs &&
    artifact.requiredScopeIds.Nodup

/-! ## Reading an artifact -/

/-- A property of a parsed object. -/
def property (row : List (String × JsonValue)) (name : String) : Option JsonValue :=
  (JsonValue.object row).field? name

def requiredString (row : List (String × JsonValue)) (name : String) : Option String :=
  (property row name).bind JsonValue.string?

/-- A property that may be missing; none where it is there and of another type. -/
def optionalString (row : List (String × JsonValue)) (name : String) : Option (Option String) :=
  match property row name with
  | none => some none
  | some (.string value) => some (some value)
  | some _ => none

def arrayOf? : JsonValue → Option (List JsonValue)
  | .array items => some items
  | _ => none

/-- `strict()` -/
def hasOnly (names : List String) (row : List (String × JsonValue)) : Bool :=
  row.all fun field => field.1 ∈ names

def ingestOperations : List IngestOperation := [.create, .revise, .tombstone]

def readEvidence : JsonValue → Option Assembly.EvidenceReference
  | .object row =>
    if !hasOnly ["event_id", "source", "external_id", "operation", "occurred_at", "content_hash"] row
    then none
    else do
      let eventId ← requiredString row "event_id"
      let source ← requiredString row "source"
      let externalId ← requiredString row "external_id"
      let operation ← requiredString row "operation"
      let operation ← ingestOperations.find? fun known => operationName known = operation
      let occurredAt ← requiredString row "occurred_at"
      let contentHash ← optionalString row "content_hash"
      return { eventId, source, externalId, operation, occurredAt, contentHash }
  | _ => none

/-- `body_storage`, where only one value is known. -/
def readBodyStorage (row : List (String × JsonValue)) : Option Bool :=
  match property row "body_storage" with
  | none => some false
  | some (.string "artifact") => some true
  | some _ => none

def readArtifact (row : List (String × JsonValue)) : Option ContextArtifact :=
  if !hasOnly ["id", "org_id", "kind", "schema_version", "algorithm_version", "generation",
      "input_refs", "input_hash", "body_hash", "body_storage", "status", "required_scope_ids",
      "recorded_at", "supersedes_id", "attrs"] row
  then none
  else do
    let id ← requiredString row "id"
    let orgId ← requiredString row "org_id"
    let kind ← requiredString row "kind"
    let kind ← contextArtifactKinds.find? fun known => known.name = kind
    let schemaVersion ← requiredString row "schema_version"
    let algorithmVersion ← requiredString row "algorithm_version"
    let generation ← requiredString row "generation"
    let inputRefs ← (property row "input_refs").bind arrayOf?
    let inputRefs ← inputRefs.mapM readEvidence
    let inputHash ← requiredString row "input_hash"
    let bodyHash ← optionalString row "body_hash"
    let bodyStorage ← readBodyStorage row
    let status ← requiredString row "status"
    let status ← contextArtifactStatuses.find? fun known => known.name = status
    let requiredScopeIds ← (property row "required_scope_ids").bind arrayOf?
    let requiredScopeIds ← requiredScopeIds.mapM JsonValue.string?
    let recordedAt ← requiredString row "recorded_at"
    let supersedesId ← optionalString row "supersedes_id"
    return {
      id, orgId, kind, schemaVersion, algorithmVersion, generation, inputRefs, inputHash, bodyHash,
      bodyStorage, status, requiredScopeIds, recordedAt, supersedesId
      attrs := property row "attrs" }

/-- `validateContextArtifact`: none for a failure. -/
def validateContextArtifact (row : List (String × JsonValue)) : Option ContextArtifact :=
  (readArtifact row).filter (validArtifact sha256 isTimestamp)

end Schema

/-! ## Segments -/

inductive Scalar where
  | null
  | bool (value : Bool)
  | number (text : String)
  | string (value : String)
  deriving DecidableEq, Repr

def Scalar.json : Scalar → JsonValue
  | .null => .null
  | .bool value => .bool value
  | .number text => .number text
  | .string value => .string value

inductive Reference where
  | scalar (value : Scalar)
  | stored (hash : String)
  deriving DecidableEq, Repr

def Reference.json : Reference → JsonValue
  | .scalar value => .array [.number "0", value.json]
  | .stored hash => .array [.number "1", .string hash]

inductive Segment where
  | object (entries : List (String × Reference))
  | array (items : List Reference)
  | concat (children : List String)
  deriving DecidableEq, Repr

def entryJson (entry : String × Reference) : JsonValue := .array [.string entry.1, entry.2.json]

def Segment.fields : Segment → List (String × Option JsonValue)
  | .object entries => [("kind", some (.string "object")),
      ("entries", some (.array (entries.map entryJson)))]
  | .array items => [("kind", some (.string "array")),
      ("items", some (.array (items.map Reference.json)))]
  | .concat children => [("kind", some (.string "concat")),
      ("children", some (.array (children.map .string)))]

def Segment.json (segment : Segment) : JsonValue := Json.record segment.fields

/-- The text that a segment is stored as. -/
def Segment.text (segment : Segment) : String := Json.canonical segment.json

/-- `references` -/
def references (values : List Reference) : List String :=
  values.filterMap fun value =>
    match value with
    | .scalar _ => none
    | .stored hash => some hash

/-- The segments that a segment is made of. -/
def Segment.links : Segment → List String
  | .object entries => references (entries.map Prod.snd)
  | .array items => references items
  | .concat children => children

/-! ## Packing -/

/-- `WIDTH` -/
def segmentWidth : Nat := 32

section Pack

variable (sha256 : Sha256)

def Segment.hash (segment : Segment) : String := hashCanonicalContext sha256 segment.json

/-- The leaves of a list, one of them for an empty one. -/
def leaves (items : List Reference) : List Segment :=
  (chunks segmentWidth (turns segmentWidth (max 1 items.length)) items).map .array

def parents (level : List String) : List Segment :=
  (chunks segmentWidth (turns segmentWidth level.length) level).map .concat

/-- The levels over the leaves, down to one: the nodes stored, and the last level. -/
def raise : Nat → List String → List Segment × List String
  | 0, level => ([], level)
  | fuel + 1, level =>
    if level.length > 1 then
      let above := raise fuel ((parents level).map (Segment.hash sha256))
      (parents level ++ above.1, above.2)
    else ([], level)

/-- A list packed: its hash and the segments that were stored for it. -/
def packItems (items : List Reference) : String × List Segment :=
  let level := (leaves items).map (Segment.hash sha256)
  let above := raise sha256 level.length level
  (above.2.headD "", leaves items ++ above.1)

def entryLe (left right : String × Reference × List Segment) : Prop :=
  stringLe left.1 right.1 = true

instance : DecidableRel entryLe :=
  fun left right => inferInstanceAs (Decidable (stringLe left.1 right.1 = true))

mutual

/-- `reference`, with the segments in the order in which they are stored. The keys of an object
are distinct. -/
def reference : JsonValue → Reference × List Segment
  | .null => (.scalar .null, [])
  | .bool value => (.scalar (.bool value), [])
  | .number text => (.scalar (.number text), [])
  | .string value => (.scalar (.string value), [])
  | .object fields =>
    let entries := (referenceFields fields).insertionSort entryLe
    let segment := Segment.object (entries.map fun entry => (entry.1, entry.2.1))
    (.stored (segment.hash sha256), entries.flatMap (fun entry => entry.2.2) ++ [segment])
  | .array items =>
    let found := referenceItems items
    let packed := packItems sha256 (found.map Prod.fst)
    (.stored packed.1, found.flatMap Prod.snd ++ packed.2)

def referenceItems : List JsonValue → List (Reference × List Segment)
  | [] => []
  | item :: rest => reference item :: referenceItems rest

def referenceFields : List (String × JsonValue) → List (String × Reference × List Segment)
  | [] => []
  | (name, item) :: rest => (name, reference item) :: referenceFields rest

end

/-- What is destructured off an artifact. -/
def sharedNames : List String := ["input_refs", "required_scope_ids", "attrs"]

def ContextArtifact.manifest (artifact : ContextArtifact) : List (String × Option JsonValue) :=
  artifact.fields.filter fun field => field.1 ∉ sharedNames

def ContextArtifact.refsJson (artifact : ContextArtifact) : JsonValue :=
  .array (artifact.inputRefs.map evidenceJson)

def ContextArtifact.scopesJson (artifact : ContextArtifact) : JsonValue :=
  .array (artifact.requiredScopeIds.map .string)

/-- `shared` -/
def ContextArtifact.shared (artifact : ContextArtifact) : List (String × Option JsonValue) :=
  [("version", some (.number "1")),
   ("input_refs", some (reference sha256 artifact.refsJson).1.json),
   ("required_scope_ids", some (reference sha256 artifact.scopesJson).1.json),
   ("attrs", artifact.attrs.map fun attrs => (reference sha256 attrs).1.json)]

/-- The segments of an artifact, in the order in which they are stored. -/
def ContextArtifact.stored (artifact : ContextArtifact) : List Segment :=
  if artifact.bodyStorage then
    (reference sha256 artifact.refsJson).2 ++ (reference sha256 artifact.scopesJson).2 ++
      (artifact.attrs.map fun attrs => (reference sha256 attrs).2).getD []
  else []

/-- A `Map` from hashes to texts. -/
abbrev SegmentMap : Type := Table (Prod.fst : String × String → String)

/-- `store`, of each segment. -/
def storeAll (segments : List Segment) : SegmentMap :=
  segments.foldl (fun stored segment => stored.put (segment.hash sha256, segment.text)) ∅

structure PackedArtifact where
  payload : String
  segments : SegmentMap

def packContextArtifact (artifact : ContextArtifact) : PackedArtifact where
  payload :=
    if artifact.bodyStorage then
      Json.canonical (Json.record (artifact.manifest ++
        [("_shared", some (Json.record (artifact.shared sha256)))]))
    else Json.canonical (Json.record artifact.fields)
  segments := storeAll sha256 (artifact.stored sha256)

end Pack

end Regenic.Context.Artifacts
