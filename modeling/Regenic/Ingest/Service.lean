import Regenic.Ingest.Content
import Regenic.Lib.Prog

/-!
The ingestion service as a program over its two stores. Every store call is a call of the
program, so the service can be run alone or among other clients of the same stores.
-/

namespace Regenic.Ingest

open Lib

structure IngestRecord where
  operation : IngestOperation
  source : String
  externalId : String
  content : Option (List ContentPart) := none
  directionTags : Option (List String) := none
  deriving DecidableEq, Repr

/-- The fields of `NewEvent`, `EventRevision` that the head depends on. -/
structure NewEvent extends SourceIdentity where
  contentHash : Option String := none
  contentMediaType : Option String := none
  contentByteSize : Option Nat := none
  extraBlobs : List BlobMetaInput := []
  parentEventId : Option String := none
  expectedHeadId : Option String
  deriving DecidableEq, Repr

def NewEvent.withId (event : NewEvent) (id : String) (operation : IngestOperation) :
    InsertEventInput :=
  { toSourceIdentity := event.toSourceIdentity
    id
    operation
    contentHash := event.contentHash
    contentMediaType := event.contentMediaType
    contentByteSize := event.contentByteSize
    extraBlobs := event.extraBlobs
    parentEventId := event.parentEventId
    expectedHeadId := event.expectedHeadId }

/-! ## The stores -/

/-- `randomUUID`: no id is issued twice. -/
structure UuidSupply where
  uuid : Nat → String
  injective : Function.Injective uuid

/-- Ids of one more letter each. -/
def UuidSupply.counted : UuidSupply where
  uuid n := String.ofList (List.replicate (n + 1) 'i')
  injective m n h := by
    have hletters := String.ofList_injective h
    simpa using congrArg List.length hletters

structure Stores where
  authority : AuthorityTables := {}
  blobs : Table BlobObject.hash := ∅
  /-- How many ids have been issued. -/
  issued : Nat := 0

inductive StoreCall where
  | randomUUID
  | findBySourceIdentity (identity : SourceIdentity)
  | findBlob (contentHash : String)
  | getBlob (hash : String)
  | listEvents (orgId : String)
  | putBlobs (items : List BlobObject)
  | append (event : NewEvent)
  | appendRevision (event : NewEvent)
  | markTombstone (identity : SourceIdentity) (expectedHeadId : Option String)
  | commitIngest (appends : List InsertEventInput)
  deriving DecidableEq, Repr

/-- A blob that cannot be read answers none. -/
def StoreCall.Response : StoreCall → Type
  | .randomUUID => String
  | .findBySourceIdentity _ => Option EventRecord
  | .findBlob _ => Option BlobRecord
  | .getBlob _ => Option Bytes
  | .listEvents _ => List EventRecord
  | .putBlobs _ => Unit
  | .append _ => Except AuthorityError EventRecord
  | .appendRevision _ => Except AuthorityError EventRecord
  | .markTombstone _ _ => Except AuthorityError EventRecord
  | .commitIngest _ => Except AuthorityError Unit

namespace Stores

variable (s : Stores)

/-- A blob store writes a hash once. -/
def putBlob (s : Stores) (item : BlobObject) : Stores :=
  if free : s.blobs.get? item.hash = none then
    { s with blobs := s.blobs.insert item free }
  else s

def putBlobs (items : List BlobObject) : Stores :=
  (keepFirst (·.hash) items).foldl putBlob s

/-- A write that throws rolls back; the id it drew is spent. -/
def write (result : Except AuthorityError (AuthorityTables × EventRecord)) :
    Except AuthorityError EventRecord × Stores :=
  match result with
  | .ok (authority, event) => (.ok event, { s with authority, issued := s.issued + 1 })
  | .error error => (.error error, { s with issued := s.issued + 1 })

end Stores

def StoreCall.exec (ids : UuidSupply) : (c : StoreCall) → Stores → c.Response × Stores
  | .randomUUID, s => (ids.uuid s.issued, { s with issued := s.issued + 1 })
  | .findBySourceIdentity identity, s => (s.authority.findBySourceIdentity identity, s)
  | .findBlob contentHash, s => (s.authority.findBlob contentHash, s)
  | .getBlob hash, s => ((s.blobs.get? hash).map (·.bytes), s)
  | .listEvents orgId, s => (s.authority.events.rows.filter (·.orgId = orgId), s)
  | .putBlobs items, s => ((), s.putBlobs items)
  | .append event, s =>
    s.write (s.authority.append (event.withId (ids.uuid s.issued) .create))
  | .appendRevision event, s =>
    s.write (s.authority.appendRevision (event.withId (ids.uuid s.issued) .revise))
  | .markTombstone identity expectedHeadId, s =>
    s.write (s.authority.markTombstone
      { toSourceIdentity := identity, id := ids.uuid s.issued, expectedHeadId })
  | .commitIngest appends, s =>
    match s.authority.commitIngestUnlocked { appends } with
    | .ok authority => (.ok (), { s with authority })
    | .error error => (.error error, s)

abbrev IngestProg (α : Type) : Type := Prog StoreCall.Response IngestFailure α

/-! ## The calls -/

namespace Call

def randomUUID : IngestProg String := Prog.perform StoreCall.randomUUID

def findBySourceIdentity (identity : SourceIdentity) : IngestProg (Option EventRecord) :=
  Prog.perform (StoreCall.findBySourceIdentity identity)

def findBlob (contentHash : String) : IngestProg (Option BlobRecord) :=
  Prog.perform (StoreCall.findBlob contentHash)

def getBlob (hash : String) : IngestProg (Option Bytes) := Prog.perform (StoreCall.getBlob hash)

def listEvents (orgId : String) : IngestProg (List EventRecord) :=
  Prog.perform (StoreCall.listEvents orgId)

def putBlobs (items : List BlobObject) : IngestProg Unit := Prog.perform (StoreCall.putBlobs items)

def append (event : NewEvent) : IngestProg (Except AuthorityError EventRecord) :=
  Prog.perform (StoreCall.append event)

def appendRevision (event : NewEvent) : IngestProg (Except AuthorityError EventRecord) :=
  Prog.perform (StoreCall.appendRevision event)

def markTombstone (identity : SourceIdentity) (expectedHeadId : Option String) :
    IngestProg (Except AuthorityError EventRecord) :=
  Prog.perform (StoreCall.markTombstone identity expectedHeadId)

def commitIngest (appends : List InsertEventInput) : IngestProg (Except AuthorityError Unit) :=
  Prog.perform (StoreCall.commitIngest appends)

end Call

def liftResult {α : Type} : Except IngestFailure α → IngestProg α
  | .ok a => .done a
  | .error e => .fail e

/-! ## Messages -/

def isLocalOutboundId (externalId : String) : Bool :=
  (indexOf? ":out:".toList externalId.toList).isSome

def normalizeUtterance (text : Option String) : String :=
  jsTrim (String.ofList (collapseSpaces false (text.getD "").toList))

def orElseBlank (text fallback : String) : String := if text = "" then fallback else text

def conversationId (source externalId fallbackId : String) : String :=
  match indexOf? ":out:".toList externalId.toList with
  | some cut =>
    let target := jsTrim (String.ofList (externalId.toList.take cut))
    source ++ ":" ++ orElseBlank target fallbackId
  | none =>
    match lastIndexOf? ':' externalId.toList with
    | some colon =>
      if 0 < colon then source ++ ":" ++ String.ofList (externalId.toList.take colon)
      else source ++ ":" ++ orElseBlank externalId fallbackId
    | none => source ++ ":" ++ orElseBlank externalId fallbackId

inductive MessageKind where
  | user
  | assistant
  | system
  deriving DecidableEq, Repr

def MessageKind.parse (value : String) : Option MessageKind :=
  if value = "user" then some .user
  else if value = "assistant" then some .assistant
  else if value = "system" then some .system
  else none

/-- The kind of a valid surface; the other fields do not decide ingestion. -/
def parseSurface (raw : String) : Option MessageKind := do
  let value ← Json.parse raw
  let channel ← (value.field? "channel").bind (·.string?)
  let kind ← (value.field? "kind").bind (·.string?)
  let direction ← (value.field? "direction").bind (·.string?)
  if jsTrim channel = "" ∨ (direction ≠ "inbound" ∧ direction ≠ "outbound") then none
  else MessageKind.parse kind

def surfaceFromParts (parts : List ContentPart) : Option MessageKind :=
  parts.findSome? fun part =>
    if part.role = .metadata ∧ part.mediaType = surfaceMediaType then
      parseSurface (part.text?.getD "")
    else none

def IngestRecord.parts (record : IngestRecord) : List ContentPart := record.content.getD []

def recordBodyText (record : IngestRecord) : Option String :=
  record.parts.findSome? fun part => if part.role = .body then part.text? else none

/-! ## Reading stored events -/

variable (sha256 : Sha256)

def readEventBytes (event : EventRecord) : IngestProg (Option (Bytes × String)) :=
  match present event.contentHash with
  | none => pure none
  | some hash => do
    match ← Call.findBlob hash with
    | none => pure none
    | some blob =>
      let bytes ← Call.getBlob hash
      pure (bytes.map fun bytes => (bytes, blob.mediaType))

def readEventText (event : EventRecord) : IngestProg (Option String) := do
  match ← readEventBytes event with
  | none => pure none
  | some (bytes, mediaType) => pure (bodyTextFromStored bytes mediaType).toOption.join

def readEventAttachments (event : EventRecord) : IngestProg (List String) := do
  match ← readEventBytes event with
  | none => pure []
  | some (bytes, mediaType) =>
    pure ((attachmentDigestsFromStored sha256 bytes mediaType).toOption.getD [])

def collectAvailableBlobs : List String → IngestProg (List (String × Bytes))
  | [] => pure []
  | hash :: rest => do
    let bytes ← Call.getBlob hash
    let found ← collectAvailableBlobs rest
    pure (match bytes with
      | some bytes => (hash, bytes) :: found
      | none => found)

def availableBlob (found : List (String × Bytes)) (hash : String) : Option Bytes :=
  (found.find? fun entry => entry.1 = hash).map Prod.snd

def existingResolution (event : EventRecord) : IngestProg AttachmentResolution := do
  match ← readEventBytes event with
  | none => pure {}
  | some (bytes, mediaType) =>
    if mediaType ≠ contentPartsMediaType then
      liftResult (resolutionFromStored sha256 bytes mediaType none)
    else
      match parseStoredContentParts bytes with
      | none => liftResult (resolutionFromStored sha256 bytes mediaType none)
      | some parts => do
        let parts ← liftResult (readParts parts)
        let sidecars ← collectAvailableBlobs (attachmentHashesFromStoredParts parts)
        liftResult (resolutionFromStored sha256 bytes mediaType (some (availableBlob sidecars)))

def sameBodySurfaceCorrection (current : EventRecord) (incoming : IngestRecord) :
    IngestProg Bool := do
  let incomingText := normalizeUtterance (recordBodyText incoming)
  if incomingText = "" then pure false
  else
    let existing ← readEventText current
    pure (incomingText = normalizeUtterance existing)

/-! ## Prior attachments -/

/-- `byLocator`: the last resolved attachment under a locator. -/
def priorPart (parts : List StoredContentPart) (locator : String) : Option StoredContentPart :=
  parts.reverse.find? fun part =>
    part.role = some "attachment" && part.externalLocator = some locator &&
      (storedPartContentHash part).isSome

def mergePart (existing : List StoredContentPart) (part : ContentPart) :
    IngestProg ContentPart :=
  let usable := part.bytes?.any fun bytes =>
    isUsableAttachmentBytes bytes part.mediaType part.sourceFilename
  match part.externalLocator? with
  | none => pure part
  | some locator =>
    if part.role ≠ .attachment ∨ usable then pure part
    else
      match priorPart existing locator with
      | none => pure part
      | some prior => do
        let bytes ← Call.getBlob ((storedPartContentHash prior).getD "")
        let filename := prior.sourceFilename <|> part.sourceFilename
        match bytes with
        | none => pure part
        | some bytes =>
          if isUsableAttachmentBytes bytes (prior.mediaType.getD part.mediaType) filename then
            pure
              { role := .attachment
                mediaType := prior.mediaType.getD part.mediaType
                sourceFilename := part.sourceFilename <|> prior.sourceFilename
                content := .bytes bytes (some locator) }
          else pure part

def mergeParts (existing : List StoredContentPart) : List ContentPart → IngestProg (List ContentPart)
  | [] => pure []
  | part :: rest => do
    let merged ← mergePart existing part
    let more ← mergeParts existing rest
    pure (merged :: more)

def preserveResolvedAttachments (incoming : List ContentPart) (stored : Option (Bytes × String)) :
    IngestProg (List ContentPart) :=
  match stored with
  | none => pure incoming
  | some (bytes, mediaType) => do
    if mediaType = contentPartsMediaType then
      let parts ← liftResult (readParts ((parseStoredContentParts bytes).getD []))
      mergeParts parts incoming
    else pure incoming

def mergeRecordContent (record : IngestRecord) (current : Option EventRecord) :
    IngestProg IngestRecord :=
  match current, record.content with
  | some event, some content => do
    let stored ← readEventBytes event
    let content ← preserveResolvedAttachments content stored
    pure { record with content := some content }
  | _, _ => pure record

/-! ## Echoes of local outbounds -/

structure EchoNeedle where
  conversation : String
  text : String
  attachments : List String
  deriving DecidableEq, Repr

def echoNeedle (record : IngestRecord) : Option EchoNeedle :=
  let text := normalizeUtterance (recordBodyText record)
  let attachments := attachmentDigestsFromParts sha256 record.parts
  if isLocalOutboundId record.externalId then none
  else if surfaceFromParts record.parts ≠ some .user then none
  else if text = "" ∧ attachments = [] then none
  else if text = "" ∧ record.directionTags.any (fun tags => !tags.contains "outbound") then none
  else some
    { conversation := conversationId record.source record.externalId record.externalId
      text
      attachments }

def echoAttachmentsAgree (incoming existing : List String) : Bool :=
  incoming.isEmpty || attachmentsCoveredBy incoming existing

/-- Whether a local outbound with this text and these attachments is what the needle
repeats. -/
def EchoNeedle.matches (needle : EchoNeedle) (text : String) (attachments : List String) : Bool :=
  if needle.text ≠ "" then
    text = needle.text && echoAttachmentsAgree needle.attachments attachments
  else attachmentsCoveredBy needle.attachments attachments

def EchoNeedle.matchesEvent (needle : EchoNeedle) (event : EventRecord) : IngestProg Bool := do
  if needle.text ≠ "" then
    let existing ← readEventText event
    if normalizeUtterance existing ≠ needle.text then pure false
    else
      let attachments ← readEventAttachments sha256 event
      pure (echoAttachmentsAgree needle.attachments attachments)
  else
    let attachments ← readEventAttachments sha256 event
    pure (attachmentsCoveredBy needle.attachments attachments)

def firstEcho (needle : EchoNeedle) : List EventRecord → IngestProg (Option EventRecord)
  | [] => pure none
  | event :: rest => do
    if ← needle.matchesEvent sha256 event then pure (some event) else firstEcho needle rest

/-- An outbound of the conversation, text echoes oldest first, the others newest first. -/
def echoOrder {α : Type} (needle : EchoNeedle) (candidates : List α) : List α :=
  if needle.text ≠ "" then candidates else candidates.reverse

def isEchoCandidate (needle : EchoNeedle) (source : String) (event : EventRecord) : Bool :=
  event.source = source && isLocalOutboundId event.externalId &&
    conversationId event.source event.externalId event.id = needle.conversation

def findEchoedOutbound (orgId : String) (record : IngestRecord) :
    IngestProg (Option EventRecord) :=
  match echoNeedle sha256 record with
  | none => pure none
  | some needle => do
    let events ← Call.listEvents orgId
    firstEcho sha256 needle
      (echoOrder needle (events.filter (isEchoCandidate needle record.source)))

/-! ## Pending creates of a batch -/

structure PendingCreate where
  event : EventRecord
  record : IngestRecord
  deriving DecidableEq, Repr

abbrev PendingIngestOverlay := List PendingCreate

namespace PendingIngestOverlay

variable (overlay : PendingIngestOverlay)

def current (identity : SourceIdentity) : Option EventRecord :=
  (overlay.reverse.find? fun item => item.event.toSourceIdentity = identity).map (·.event)

def findEcho (record : IngestRecord) : Option EventRecord :=
  (echoNeedle sha256 record).bind fun needle =>
    let candidates := overlay.filter fun item => isEchoCandidate needle record.source item.event
    ((echoOrder needle candidates).find? fun item =>
      needle.matches (normalizeUtterance (recordBodyText item.record))
        (attachmentDigestsFromParts sha256 item.record.parts)).map (·.event)

end PendingIngestOverlay

/-! ## Inspection -/

inductive InspectedRecord where
  | result (result : IngestRecordResult)
  | create (identity : SourceIdentity) (record : IngestRecord) (canonical : CanonicalContent)
  | revise (identity : SourceIdentity) (record : IngestRecord) (canonical : CanonicalContent)
      (current : EventRecord)
  | tombstone (identity : SourceIdentity) (record : IngestRecord) (current : Option EventRecord)
  | createAfterTombstone (identity : SourceIdentity) (record : IngestRecord)
      (canonical : CanonicalContent) (current : EventRecord)
  deriving DecidableEq, Repr

def duplicateResult (record : IngestRecord) (event : EventRecord) : IngestRecordResult :=
  { externalId := record.externalId, status := .duplicate, eventId := some event.id }

def quarantined (record : IngestRecord) (errorCode : IngestErrorCode) : IngestRecordResult :=
  { externalId := record.externalId, status := .quarantined, errorCode := some errorCode }

def IngestRecord.identity (record : IngestRecord) (orgId : String) : SourceIdentity :=
  { orgId, source := record.source, externalId := record.externalId }

/-- The decision on new content for a head. -/
def inspectExisting (identity : SourceIdentity) (operation : IngestOperation)
    (merged : IngestRecord) (canonical : CanonicalContent) (current : EventRecord) :
    IngestProg InspectedRecord := do
  let existing ← existingResolution sha256 current
  let incoming ← liftResult (resolutionFromCanonical sha256 canonical)
  if incomingWorsensAttachments existing incoming then
    pure (.result (duplicateResult merged current))
  else if operation = .revise then
    pure (.revise identity merged canonical current)
  else if current.operation ≠ .tombstone ∨ current.parentEventId ≠ none then
    if incomingImprovesAttachments existing incoming then
      pure (.revise identity merged canonical current)
    else if 0 < existing.unresolvedCount ∨ 0 < incoming.unresolvedCount then
      pure (.result (duplicateResult merged current))
    else if ← sameBodySurfaceCorrection current merged then
      pure (.revise identity { merged with operation := .revise } canonical current)
    else pure (.result (quarantined merged .sourceIdentityConflict))
  else pure (.createAfterTombstone identity merged canonical current)

/-- The decision on a create or revise. -/
def inspectContent (orgId : String) (record : IngestRecord) (overlay : PendingIngestOverlay)
    (current : Option EventRecord) : IngestProg InspectedRecord := do
  let identity := record.identity orgId
  let merged ← mergeRecordContent record current
  match canonicalizeContent sha256 merged.parts with
  | none => pure (.result (quarantined record .contentUnavailable))
  | some canonical =>
    match current.filter fun event => event.contentHash = some canonical.hash with
    | some event => pure (.result (duplicateResult record event))
    | none =>
      match overlay.findEcho sha256 record with
      | some event => pure (.result (duplicateResult record event))
      | none =>
        match ← findEchoedOutbound sha256 orgId record with
        | some event => pure (.result (duplicateResult record event))
        | none =>
          match current with
          | some event => inspectExisting sha256 identity record.operation merged canonical event
          | none =>
            if record.operation = .revise then
              pure (.result (quarantined record .sourceIdentityConflict))
            else pure (.create identity merged canonical)

/-- The pending create of the identity, else its stored head. -/
def findCurrent (overlay : PendingIngestOverlay) (identity : SourceIdentity) :
    IngestProg (Option EventRecord) :=
  match overlay.current identity with
  | some event => pure (some event)
  | none => Call.findBySourceIdentity identity

def inspectRecord (orgId : String) (record : IngestRecord) (overlay : PendingIngestOverlay) :
    IngestProg InspectedRecord := do
  let identity := record.identity orgId
  let current ← findCurrent overlay identity
  if record.operation = .tombstone then
    match current.filter fun event => event.operation = .tombstone with
    | some event => pure (.result (duplicateResult record event))
    | none => pure (.tombstone identity record current)
  else
    match current.filter fun event => event.externalId ≠ record.externalId with
    | some event => pure (.result (duplicateResult record event))
    | none => inspectContent sha256 orgId record overlay current

/-! ## Writing -/

def accepted (record : IngestRecord) (eventId : String) : IngestRecordResult :=
  { externalId := record.externalId, status := .accepted, eventId := some eventId }

def concurrentUpdate (record : IngestRecord) : IngestRecordResult :=
  { externalId := record.externalId, status := .retryableFailure
    errorCode := some .concurrentSourceUpdate }

/-- A lost compare-and-swap is reported for a later retry, any other error is thrown. -/
def conflictResult (record : IngestRecord) : AuthorityError → IngestProg IngestRecordResult
  | .conflict => pure (concurrentUpdate record)
  | .failed message => .fail (.authority message)

def newEvent (identity : SourceIdentity) (canonical : CanonicalContent)
    (expectedHeadId parentEventId : Option String) : NewEvent :=
  { toSourceIdentity := identity
    contentHash := some canonical.hash
    contentMediaType := some canonical.mediaType
    contentByteSize := some canonical.bytes.length
    extraBlobs := extraBlobsForCanonical canonical
    parentEventId
    expectedHeadId }

def markTombstoned (record : IngestRecord) (identity : SourceIdentity)
    (expectedHeadId : Option String) : IngestProg IngestRecordResult := do
  match ← Call.markTombstone identity expectedHeadId with
  | .ok event => pure (accepted record event.id)
  | .error error => conflictResult record error

def ingestTombstone (identity : SourceIdentity) (record : IngestRecord)
    (current : Option EventRecord) : IngestProg IngestRecordResult :=
  match current.filter fun event => event.operation = .tombstone with
  | some event => pure (duplicateResult record event)
  | none => markTombstoned record identity (current.map (·.id))

def persistInspected : InspectedRecord → IngestProg IngestRecordResult
  | .result result => pure result
  | .tombstone identity record current => ingestTombstone identity record current
  | .revise identity record canonical current => do
    Call.putBlobs (blobsForCanonical canonical)
    let event := newEvent identity canonical (some current.id) (some current.id)
    match ← Call.appendRevision event with
    | .ok event => pure (accepted record event.id)
    | .error error => conflictResult record error
  | .create identity record canonical => do
    Call.putBlobs (blobsForCanonical canonical)
    match ← Call.append (newEvent identity canonical none none) with
    | .ok event => pure (accepted record event.id)
    | .error error => conflictResult record error
  | .createAfterTombstone identity record canonical current => do
    Call.putBlobs (blobsForCanonical canonical)
    match ← Call.append (newEvent identity canonical (some current.id) none) with
    | .ok event => markTombstoned record identity (some event.id)
    | .error error => conflictResult record error

def ingestRecord (orgId : String) (record : IngestRecord) : IngestProg IngestRecordResult := do
  let inspected ← inspectRecord sha256 orgId record []
  persistInspected inspected

/-! ## Batches -/

structure PlannedCreate where
  index : Nat
  eventId : String
  identity : SourceIdentity
  record : IngestRecord
  canonical : CanonicalContent
  deriving DecidableEq, Repr

def previewCreate (eventId : String) (identity : SourceIdentity) (canonical : CanonicalContent) :
    EventRecord :=
  { toSourceIdentity := identity, id := eventId, operation := .create
    contentHash := some canonical.hash }

def PlannedCreate.append (item : PlannedCreate) : InsertEventInput :=
  (newEvent item.identity item.canonical none none).withId item.eventId .create

/-- Results by record index, the last one written first. -/
abbrev IndexedResults := List (Nat × IngestRecordResult)

def ingestPlanned (orgId : String) : List PlannedCreate → IndexedResults →
    IngestProg IndexedResults
  | [], results => pure results
  | item :: rest, results => do
    let result ← ingestRecord sha256 orgId item.record
    ingestPlanned orgId rest ((item.index, result) :: results)

def commitCreates (orgId : String) (creates : List PlannedCreate) (results : IndexedResults) :
    IngestProg IndexedResults := do
  Call.putBlobs (creates.flatMap fun item => blobsForCanonical item.canonical)
  match ← Call.commitIngest (creates.map (·.append)) with
  | .ok _ =>
    pure ((creates.map fun item => (item.index, accepted item.record item.eventId)) ++ results)
  | .error .conflict => ingestPlanned sha256 orgId creates results
  | .error (.failed message) => .fail (.authority message)

def flushCreates (orgId : String) (creates : List PlannedCreate) (results : IndexedResults) :
    IngestProg IndexedResults :=
  if creates = [] then pure results else commitCreates sha256 orgId creates results

/-- The loop over the records of a batch that is not a page of a stream. -/
def ingestRecords (orgId : String) : List IngestRecord → Nat → PendingIngestOverlay →
    List PlannedCreate → IndexedResults → IngestProg IndexedResults
  | [], _, _, pending, results => flushCreates sha256 orgId pending results
  | record :: rest, index, overlay, pending, results => do
    match ← inspectRecord sha256 orgId record overlay with
    | .result result =>
      ingestRecords orgId rest (index + 1) overlay pending ((index, result) :: results)
    | .create identity merged canonical => do
      let eventId ← Call.randomUUID
      let event := previewCreate eventId identity canonical
      ingestRecords orgId rest (index + 1) (overlay ++ [{ event, record := merged }])
        (pending ++ [{ index, eventId, identity, record := merged, canonical }]) results
    | _ => do
      let results ← flushCreates sha256 orgId pending results
      let result ← ingestRecord sha256 orgId record
      ingestRecords orgId rest (index + 1) overlay [] ((index, result) :: results)

/-- `IngestionService.ingest` of a valid batch without a page. -/
def ingest (orgId : String) (records : List IngestRecord) :
    IngestProg (List (Option IngestRecordResult)) := do
  let results ← ingestRecords sha256 orgId records 0 [] [] []
  pure ((List.range records.length).map fun index =>
    (results.find? fun entry => entry.1 = index).map Prod.snd)

end Regenic.Ingest
