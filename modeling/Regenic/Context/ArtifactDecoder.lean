import Regenic.Context.ArtifactSegments
import Regenic.Lib.Grounded

/-!
Stored artifacts put together again. One decoder asks for the segments as it meets them; the other
loads them in rounds, each the links of those before, and decodes from what was loaded. Segments
and rows are only added.
-/

namespace Regenic.Context.Artifacts

open Lib Ingest Assembly

/-! ## Reading segments -/

/-- `parsedRecord`: the text of an object, or an object. -/
def parsedRecord (value : JsonValue) : Except ArtifactFailure (List (String × JsonValue)) :=
  let parsed := match value with
    | .string text => Json.parse text
    | value => some value
  match parsed with
  | none => .error .syntaxError
  | some (.object fields) => .ok fields
  | some _ => .error (.error "Invalid Context artifact storage record")

def isHash (value : JsonValue) : Bool := value.string?.any isSha256Hex

def scalarOf? : JsonValue → Option Scalar
  | .null => some .null
  | .bool value => some (.bool value)
  | .number text => some (.number text)
  | .string value => some (.string value)
  | _ => none

def parseReference (value : JsonValue) : Except ArtifactFailure Reference :=
  match value with
  | .array [.number tag, item] =>
    if tag = "1" ∧ isHash item then .ok (.stored (item.string?.getD ""))
    else
      match (scalarOf? item).filter fun _ => tag = "0" with
      | some scalar => .ok (.scalar scalar)
      | none => .error (.error "Invalid Context artifact segment reference")
  | _ => .error (.error "Invalid Context artifact segment reference")

def parseEntry (entry : JsonValue) : Except ArtifactFailure (String × Reference) :=
  match entry with
  | .array [.string name, value] => do
    let reference ← parseReference value
    return (name, reference)
  | _ => .error (.error "Invalid Context artifact object segment")

/-- The items of an array of at most the width. -/
def shortArray (row : List (String × JsonValue)) (name : String) : Option (List JsonValue) :=
  ((property row name).bind arrayOf?).filter fun items => items.length ≤ segmentWidth

def kindOf (row : List (String × JsonValue)) : Option String :=
  (property row "kind").bind JsonValue.string?

def readSegment (row : List (String × JsonValue)) : Except ArtifactFailure Segment :=
  match ((property row "entries").bind arrayOf?).filter fun _ => kindOf row = some "object" with
  | some entries => do
    let entries ← entries.mapM parseEntry
    return .object entries
  | none =>
    match (shortArray row "items").filter fun _ => kindOf row = some "array" with
    | some items => do
      let items ← items.mapM parseReference
      return .array items
    | none =>
      match (shortArray row "children").filter fun children =>
          kindOf row = some "concat" && children.all isHash with
      | some children => .ok (.concat (children.filterMap JsonValue.string?))
      | none => .error (.error "Invalid Context artifact segment")

section Decode

variable (sha256 : Sha256)

def checkedSegment (hash : String) (raw : Option String) : Except ArtifactFailure Segment :=
  match raw with
  | none => .error (.error "Missing Context artifact segment")
  | some text => do
    let row ← parsedRecord (.string text)
    throwUnless (hashCanonicalContext sha256 (.object row) = hash)
      (.error "Context artifact segment hash mismatch")
    readSegment row

/-! ## Restoring -/

/-- The items of what a child of a node was restored to. -/
def itemsOf (restored : Except ArtifactFailure JsonValue) : Except ArtifactFailure (List JsonValue) :=
  match restored with
  | .ok (.array items) => .ok items
  | .ok _ => .error (.error "Context artifact segment is not an array")
  | .error thrown => .error thrown

variable (load : String → Option String)

/-- `restore`, no deeper than `fuel`. `Object.fromEntries` of the distinct keys of a segment is the
list of its entries. -/
def restore : Nat → List String → Reference → Except ArtifactFailure JsonValue
  | _, _, .scalar value => .ok value.json
  | 0, _, .stored _ => .error .depth
  | fuel + 1, visiting, .stored hash => do
    throwUnless (hash ∉ visiting) (.error "Context artifact segment cycle")
    let node ← checkedSegment sha256 hash (load hash)
    match node with
    | .object entries => do
      let fields ← entries.mapM fun entry =>
        (restore fuel (hash :: visiting) entry.2).map fun value => (entry.1, value)
      return .object fields
    | .array items => do
      let values ← items.mapM (restore fuel (hash :: visiting))
      return .array values
    | .concat children => do
      let values ← children.mapM fun child => itemsOf (restore fuel (hash :: visiting) (.stored child))
      return .array values.flatten

structure SharedReferences where
  inputRefs : Reference
  requiredScopeIds : Reference
  attrs : Option Reference

/-- A property that is there is a reference. -/
def referenceProperty (row : List (String × JsonValue)) (name : String) :
    Except ArtifactFailure Reference :=
  match property row name with
  | some value => parseReference value
  | none => .error (.error "Invalid Context artifact segment reference")

def optionalReference (row : List (String × JsonValue)) (name : String) :
    Except ArtifactFailure (Option Reference) :=
  match property row name with
  | some value => (parseReference value).map some
  | none => .ok none

def isVersionOne : Option JsonValue → Bool
  | some (.number text) => text = "1"
  | _ => false

def sharedReferences (row : List (String × JsonValue)) (packed : JsonValue) :
    Except ArtifactFailure SharedReferences := do
  let shared ← parsedRecord packed
  throwUnless (requiredString row "body_storage" = some "artifact" &&
    isVersionOne (property shared "version")) (.error "Unsupported shared Context artifact format")
  let inputRefs ← referenceProperty shared "input_refs"
  let requiredScopeIds ← referenceProperty shared "required_scope_ids"
  let attrs ← optionalReference shared "attrs"
  return { inputRefs, requiredScopeIds, attrs }

/-- `{ ...fields, [name]: value }` -/
def spread (fields : List (String × JsonValue)) (name : String) (value : JsonValue) :
    List (String × JsonValue) :=
  if fields.any fun field => field.1 = name then
    fields.map fun field => if field.1 = name then (name, value) else field
  else fields ++ [(name, value)]

def validated (isTimestamp : String → Bool) (row : List (String × JsonValue)) (message : String) :
    Except ArtifactFailure ContextArtifact :=
  match validateContextArtifact sha256 isTimestamp row with
  | some artifact => .ok artifact
  | none => .error (.error message)

def restoreOptional (fuel : Nat) : Option Reference → Except ArtifactFailure (Option JsonValue)
  | some value => (restore sha256 load fuel [] value).map some
  | none => .ok none

/-- The row of an organisation, as parsed. -/
def ownRow (orgId payload : String) : Except ArtifactFailure (List (String × JsonValue)) := do
  let row ← parsedRecord (.string payload)
  throwUnless (requiredString row "org_id" = some orgId)
    (.error "Context artifact belongs to another organization")
  return row

/-- The decoder that `contextArtifactDecoder` returns. -/
def contextArtifactDecoder (isTimestamp : String → Bool) (fuel : Nat) (orgId payload : String) :
    Except ArtifactFailure ContextArtifact := do
  let row ← ownRow orgId payload
  match property row "_shared" with
  | none => validated sha256 isTimestamp row "Invalid Context artifact manifest"
  | some packed => do
    let shared ← sharedReferences row packed
    let manifest := row.filter fun field => field.1 ≠ "_shared"
    let inputRefs ← restore sha256 load fuel [] shared.inputRefs
    let requiredScopeIds ← restore sha256 load fuel [] shared.requiredScopeIds
    let attrs ← restoreOptional sha256 load fuel shared.attrs
    let restored := spread (spread manifest "input_refs" inputRefs) "required_scope_ids"
      requiredScopeIds
    let restored := match attrs with
      | some attrs => spread restored "attrs" attrs
      | none => restored
    validated sha256 isTimestamp restored "Invalid shared Context artifact manifest"

/-! ## Loading in rounds -/

/-- The hashes that a row refers to. -/
def rootsOf (orgId payload : String) : Except ArtifactFailure (List String) := do
  let row ← ownRow orgId payload
  match property row "_shared" with
  | none => return []
  | some packed => do
    let shared ← sharedReferences row packed
    return references ([shared.inputRefs, shared.requiredScopeIds] ++ shared.attrs.toList)

/-- `Set.add` -/
def addNew (pending : List String) (hash : String) : List String :=
  if hash ∈ pending then pending else pending ++ [hash]

/-- One round over the hashes that were pending. -/
def loadRound : List String → SegmentMap → List String →
    Except ArtifactFailure (SegmentMap × List String)
  | [], loaded, pending => .ok (loaded, pending)
  | hash :: rest, loaded, pending => do
    let node ← checkedSegment sha256 hash (load hash)
    let loaded := loaded.put (hash, (load hash).getD "")
    let children := node.links.filter fun child => (loaded.get? child).isNone
    loadRound rest loaded (children.foldl addNew pending)

/-- The `while` loop, for no more rounds than `fuel`. -/
def loadAll : Nat → SegmentMap → List String → Except ArtifactFailure SegmentMap
  | _, loaded, [] => .ok loaded
  | 0, _, _ :: _ => .error .depth
  | fuel + 1, loaded, hash :: rest => do
    let round ← loadRound sha256 load (hash :: rest) loaded []
    loadAll fuel round.1 (round.2.filter fun child => (round.1.get? child).isNone)

def decodeContextArtifacts (isTimestamp : String → Bool) (fuel : Nat) (orgId : String)
    (payloads : List String) : Except ArtifactFailure (List ContextArtifact) := do
  let roots ← payloads.mapM (rootsOf orgId)
  let loaded ← loadAll sha256 load fuel ∅ (keepFirst id roots.flatten)
  payloads.mapM (contextArtifactDecoder sha256 (fun hash => (loaded.get? hash).map Prod.snd)
    isTimestamp fuel orgId)

end Decode

/-! ## Tables -/

structure SegmentRow where
  orgId : String
  contentHash : String
  payloadJson : String
  deriving DecidableEq, Repr

def SegmentRow.key (row : SegmentRow) : String × String := (row.orgId, row.contentHash)

structure ArtifactRow where
  orgId : String
  id : String
  payloadJson : String
  deriving DecidableEq, Repr

def ArtifactRow.key (row : ArtifactRow) : String × String := (row.orgId, row.id)

structure ArtifactTables where
  artifacts : Table ArtifactRow.key := ∅
  segments : Table SegmentRow.key := ∅

/-- `INSERT … ON CONFLICT (org_id, content_hash) DO NOTHING` -/
def insertSegment (orgId : String) (segments : Table SegmentRow.key) (entry : String × String) :
    Table SegmentRow.key :=
  if (segments.get? (orgId, entry.1)).isSome then segments else segments.put ⟨orgId, entry.1, entry.2⟩

/-- `putImmutableContextJson` -/
def putImmutable (artifacts : Table ArtifactRow.key) (row : ArtifactRow) :
    Except ArtifactFailure (Table ArtifactRow.key) :=
  match artifacts.get? row.key with
  | none => .ok (artifacts.put row)
  | some current => do
    throwUnless (current.payloadJson = row.payloadJson)
      (.error "Cannot replace immutable context artifact")
    return artifacts

section Store

variable (sha256 : Sha256) (isTimestamp : String → Bool)

/-- `putArtifact`; what throws is rolled back. -/
def putArtifact (tables : ArtifactTables) (artifact : ContextArtifact) :
    Except ArtifactFailure ArtifactTables := do
  throwUnless (validArtifact sha256 isTimestamp artifact) .invalidArtifact
  let packed := packContextArtifact sha256 artifact
  let artifacts ← putImmutable tables.artifacts
    { orgId := artifact.orgId, id := artifact.id, payloadJson := packed.payload }
  return {
    artifacts := artifacts
    segments := packed.segments.rows.foldl (insertSegment artifact.orgId) tables.segments }

/-- A call of a history; one that throws leaves everything as it was. -/
def putStep (tables : ArtifactTables) (artifact : ContextArtifact) : ArtifactTables :=
  (putArtifact sha256 isTimestamp tables artifact).toOption.getD tables

def putAll (tables : ArtifactTables) (history : List ContextArtifact) : ArtifactTables :=
  history.foldl (putStep sha256 isTimestamp) tables

/-- The lookup of `artifactDecoder`. -/
def loadSegment (tables : ArtifactTables) (orgId hash : String) : Option String :=
  (tables.segments.get? (orgId, hash)).map (·.payloadJson)

end Store

end Regenic.Context.Artifacts
