import Regenic.Context.Candidates
import Regenic.Ingest.Compaction
import Regenic.Lib.Joined

/-!
The text of stored events. The body of an envelope is joined with the texts of its attachments;
the attachments are listed besides, each with its own text and with where that stands in the
joined one, as a count of code units.
-/

namespace Regenic.Context.Material

open Lib Ingest Assembly

inductive MaterialFailure where
  /-- An `Error`. -/
  | error (message : String)
  /-- `ContextTextMaterialError` -/
  | textMaterial (message : String)
  | ingest (failure : IngestFailure)
  deriving DecidableEq, Repr

def liftIngest {α : Type} : Except IngestFailure α → Except MaterialFailure α
  | .ok a => .ok a
  | .error failure => .error (.ingest failure)

/-! ## Bytes -/

def binarySignatures : List Bytes :=
  [[0x89, 0x50, 0x4e, 0x47, 0x0d, 0x0a, 0x1a, 0x0a], [0xff, 0xd8, 0xff],
    [0x25, 0x50, 0x44, 0x46, 0x2d], [0x50, 0x4b, 0x03, 0x04], [0x50, 0x4b, 0x05, 0x06],
    [0x50, 0x4b, 0x07, 0x08], [0x47, 0x49, 0x46, 0x38, 0x37, 0x61],
    [0x47, 0x49, 0x46, 0x38, 0x39, 0x61]]

/-- `toString("ascii")`, which takes no notice of the highest bit. -/
def asciiString (bytes : Bytes) : String :=
  String.ofList (bytes.map fun byte => Char.ofNat (byte &&& 0x7f).toNat)

def hasBinarySignature (bytes : Bytes) : Bool :=
  (binarySignatures.any fun signature => signature.isPrefixOf (bytes.take 12)) ||
    asciiString (((bytes.take 12).drop 4).take 4) = "ftyp" ||
    (asciiString ((bytes.take 12).take 4) = "RIFF" &&
      asciiString (((bytes.take 12).drop 8).take 4) = "WEBP")

/-- `TextDecoder` takes a byte order mark off. -/
def dropByteOrderMark (text : String) : String :=
  match text.toList with
  | c :: rest => if c.toNat = 0xfeff then String.ofList rest else text
  | [] => text

/-- `new TextDecoder("utf-8", { fatal: true }).decode`: none where it throws. -/
def decodeFatal (bytes : Bytes) : Option String :=
  if utf8Encode (utf8Decode bytes) = bytes then some (dropByteOrderMark (utf8Decode bytes))
  else none

/-- `getMany` -/
def getMany (blobs : String → Option Bytes) (hashes : List String) : String → Option Bytes :=
  fun hash => if hash ∈ hashes then blobs hash else none

/-! ## Attachments -/

def isTextAttachment (part : StoredContentPart) : Bool :=
  part.role = some "attachment" &&
    ((present part.mediaType).any isTextMediaType || isTextFilename part.sourceFilename)

/-- The bytes of an attachment that is not stored elsewhere. -/
def embeddedBytes (part : StoredContentPart) : Option Bytes :=
  storedPartBytes part <|> part.text.map utf8Encode

section Source

variable (sha256 : Sha256) (strictText : Bool)

def attachmentTextFor (blobs : String → Option Bytes) (attachment : StoredContentPart) :
    Except MaterialFailure (Option String) :=
  let hash := storedPartContentHash attachment
  let found := match hash with
    | some hash => blobs hash
    | none => embeddedBytes attachment
  match found with
  | none => .ok none
  | some bytes =>
    if strictText && hash.any fun hash => sha256.hex bytes ≠ hash then
      .error (.textMaterial "Stored text attachment hash mismatch")
    else if hasBinarySignature bytes then .ok none
    else
      match decodeFatal bytes with
      | some text => .ok (some text)
      | none => .error (.textMaterial "Invalid UTF-8 text attachment")

/-- The texts of those attachments that have one. -/
def attachmentTexts (blobs : String → Option Bytes) :
    List StoredContentPart → Except MaterialFailure (List String)
  | [] => .ok []
  | attachment :: rest => do
    let text ← attachmentTextFor sha256 strictText blobs attachment
    let texts ← attachmentTexts blobs rest
    return text.toList ++ texts

/-- `join("\n\n")` -/
def joinTexts (texts : List String) : String :=
  String.ofList (joined ['\n', '\n'] (texts.map String.toList))

def materializedText (bytes : Bytes) (mediaType : String) (attachments : List StoredContentPart)
    (attachmentBlobs : String → Option Bytes) : Except MaterialFailure (Option String) :=
  if hasBinarySignature bytes then .ok none
  else do
    let body ← liftIngest (bodyTextFromStored bytes mediaType)
    let others ← attachmentTexts sha256 strictText attachmentBlobs attachments
    let texts := body.toList ++ others
    return if texts ≠ [] then some (joinTexts texts) else none

/-- Every embedded part that is text is well formed. -/
def validEmbedded (parts : List StoredContentPart) : Bool :=
  let body := (parts.find? fun part => part.role = some "body") <|> parts.head?
  let plain := fun part : StoredContentPart => (storedPartBytes part).all fun embedded =>
    hasBinarySignature embedded || (decodeFatal embedded).isSome
  (body.all fun body => !(present body.mediaType).any isTextMediaType || plain body) &&
    (parts.filter isTextAttachment).all plain

def validateTextEncoding (bytes : Bytes) (mediaType : String) : Except MaterialFailure Unit :=
  if hasBinarySignature bytes then .ok ()
  else if !isTextMediaType mediaType && mediaType ≠ contentPartsMediaType then .ok ()
  else do
    throwUnless (decodeFatal bytes).isSome (.textMaterial "Invalid UTF-8 text")
    if mediaType = contentPartsMediaType then
      match parseStoredContentParts bytes with
      | none => throw (.textMaterial "Invalid stored text envelope")
      | some parts =>
        -- a `TypeError` of a `null` is taken for one of the decoder
        throwUnless (parts.all (·.isSome) && validEmbedded (parts.filterMap id))
          (.textMaterial "Invalid UTF-8 text")

/-! ## Events -/

/-- A search part with where its text stands in that of the event. -/
structure LocatedSearchPart extends ContextSearchPart where
  projectionStart : Option Nat := none
  deriving DecidableEq, Repr

structure MaterializedEvent where
  source : AuthorizedSourceEvent
  text : Option String
  searchParts : List LocatedSearchPart := []
  searchBody : Option String := none

/-- The text attachments of the events of one content. -/
structure TextAttachments where
  contentHash : String
  attachments : List StoredContentPart

def searchPart (partIndex : Nat) (part : StoredContentPart) : ContextSearchPart where
  partIndex := partIndex
  mediaType := part.mediaType.getD "application/octet-stream"
  filename := present part.sourceFilename
  contentHash := storedPartContentHash part <|> (embeddedBytes part).map sha256.hex

/-- `text.length` -/
def unitLength (text : String) : Nat := (utf16 text).length

/-- `attachmentText` -/
def textOfPart (blobs : String → Option Bytes) (part : StoredContentPart) :
    Except MaterialFailure (Option String) :=
  if isTextAttachment part then attachmentTextFor sha256 strictText blobs part else .ok none

/-- The attachments of an envelope from one on, each text after what was joined before it. -/
def searchPartsFrom (blobs : String → Option Bytes) :
    Nat → Nat → Bool → List (Option StoredContentPart) →
      Except MaterialFailure (List LocatedSearchPart)
  | _, _, _, [] => .ok []
  | _, _, _, none :: _ => .error (.ingest .nullPart)
  | partIndex, cursor, hasText, some part :: rest =>
    if part.role ≠ some "attachment" then searchPartsFrom blobs (partIndex + 1) cursor hasText rest
    else do
      let attachmentText ← textOfPart sha256 strictText blobs part
      match attachmentText with
      | none => do
        let others ← searchPartsFrom blobs (partIndex + 1) cursor hasText rest
        return { searchPart sha256 partIndex part with } :: others
      | some text => do
        let projectionStart := cursor + if hasText then 2 else 0
        let others ← searchPartsFrom blobs (partIndex + 1) (projectionStart + unitLength text) true
          rest
        return { searchPart sha256 partIndex part with
          text := some text
          projectionStart := some projectionStart } :: others

/-- `search_parts` of stored bytes. -/
def searchPartsOf (bytes : Bytes) (mediaType : String) (contentHash : String)
    (attachmentBlobs : String → Option Bytes) : Except MaterialFailure (List LocatedSearchPart) :=
  if mediaType = contentPartsMediaType then do
    let parts := (parseStoredContentParts bytes).getD []
    let body ← liftIngest (bodyTextFromStored bytes mediaType)
    searchPartsFrom sha256 strictText attachmentBlobs 0 ((body.map unitLength).getD 0) body.isSome
      parts
  else if !isTextMediaType mediaType || hasBinarySignature bytes then
    return [{ partIndex := -1, mediaType := mediaType, contentHash := some contentHash }]
  else return []

/-- `search_body` -/
def searchBodyOf (bytes : Bytes) (mediaType : String) : Except MaterialFailure String :=
  if hasBinarySignature bytes then .ok ""
  else if mediaType = contentPartsMediaType then do
    let body ← liftIngest (findBody ((parseStoredContentParts bytes).getD []))
    return (body.bind storedPartText).getD ""
  else do
    let body ← liftIngest (bodyTextFromStored bytes mediaType)
    return body.getD ""

variable (blobs : String → Option Bytes)

/-- The text attachments of an envelope, by its hash. -/
def collectAttachments (includeAttachments : Bool) (bodies : String → Option Bytes)
    (collected : Table TextAttachments.contentHash) (source : AuthorizedSourceEvent) :
    Except MaterialFailure (Table TextAttachments.contentHash) :=
  match (present source.contentHash).bind fun hash => (bodies hash).map fun bytes => (hash, bytes) with
  | none => .ok collected
  | some (contentHash, bytes) =>
    if source.contentMediaType ≠ some contentPartsMediaType then .ok collected
    else
      match parseStoredContentParts bytes with
      | none => .ok collected
      | some parts =>
        if includeAttachments then do
          let parts ← liftIngest (readParts parts)
          let attachments := parts.filter isTextAttachment
          return if attachments ≠ [] then collected.put ⟨contentHash, attachments⟩ else collected
        else .ok collected

def attachmentsOf (collected : Table TextAttachments.contentHash) (contentHash : String) :
    List StoredContentPart :=
  ((collected.get? contentHash).map (·.attachments)).getD []

/-- What is checked of the stored bytes of an event where texts are strict. -/
def checkStored (bytes : Bytes) (contentHash : String) (mediaType : Option String) :
    Except MaterialFailure Unit :=
  if strictText then do
    throwUnless (sha256.hex bytes = contentHash) (.textMaterial "Stored text hash mismatch")
    match mediaType with
    | some mediaType => validateTextEncoding bytes mediaType
    | none => return ()
  else .ok ()

def materializeEvent (includeAttachments : Bool) (bodies attachmentBlobs : String → Option Bytes)
    (textAttachments : Table TextAttachments.contentHash) (source : AuthorizedSourceEvent) :
    Except MaterialFailure MaterializedEvent :=
  match (present source.contentHash).bind fun hash => (bodies hash).map fun bytes => (hash, bytes) with
  | none => return {
      source := source
      text := none
      searchBody := if includeAttachments then some "" else none }
  | some (contentHash, bytes) => do
    checkStored sha256 strictText bytes contentHash (present source.contentMediaType)
    match present source.contentMediaType with
    | none => return {
        source := source
        text := none
        searchBody := if includeAttachments then some "" else none }
    | some mediaType => do
      let text ← materializedText sha256 strictText bytes mediaType
        (attachmentsOf textAttachments contentHash) attachmentBlobs
      if includeAttachments then do
        let searchParts ← searchPartsOf sha256 strictText bytes mediaType contentHash attachmentBlobs
        let searchBody ← searchBodyOf bytes mediaType
        return {
          source := source
          text := text
          searchParts := searchParts
          searchBody := some searchBody }
      else return {
        source := source
        text := text }

def materializeStored (events : List AuthorizedSourceEvent) (includeAttachments : Bool) :
    Except MaterialFailure (List MaterializedEvent) := do
  let hashes := keepFirst id (events.filterMap fun source => present source.contentHash)
  let bodies := getMany blobs hashes
  throwUnless (hashes.all fun hash => (bodies hash).isSome)
    (.error "Context authority Event references a missing Blob")
  let textAttachments ← events.foldlM (collectAttachments includeAttachments bodies) ∅
  let attachmentHashes := keepFirst id
    (textAttachments.rows.flatMap fun entry => entry.attachments.filterMap storedPartContentHash)
  let attachmentBlobs := getMany blobs attachmentHashes
  throwUnless (attachmentHashes.all fun hash => (attachmentBlobs hash).isSome)
    (.error "Context authority Event references a missing text Attachment Blob")
  events.mapM (materializeEvent sha256 strictText includeAttachments bodies attachmentBlobs
    textAttachments)

def materialize (events : List AuthorizedSourceEvent) :
    Except MaterialFailure (List MaterializedEvent) :=
  materializeStored sha256 strictText blobs events true

end Source

end Regenic.Context.Material
