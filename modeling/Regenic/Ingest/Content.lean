import Regenic.Ingest.Events
import Regenic.Lib.Json
import Regenic.Lib.Text
import Regenic.Lib.Utf8

/-!
The content of a record, the canonical bytes it is stored as, and what is read back from
stored bytes: the parts of an envelope, the body text, the attachments and how far they
are resolved.
-/

namespace Regenic.Ingest

open Lib

def contentPartsMediaType : String := "application/vnd.regenic.content-parts+json"

def surfaceMediaType : String := "application/vnd.regenic.surface+json"

inductive ContentPartRole where
  | body
  | attachment
  | transcript
  | metadata
  deriving DecidableEq, Repr

def ContentPartRole.name : ContentPartRole → String
  | .body => "body"
  | .attachment => "attachment"
  | .transcript => "transcript"
  | .metadata => "metadata"

/-- The three shapes of a content part. -/
inductive PartContent where
  | bytes (bytes : Bytes) (externalLocator : Option String := none)
  | text (text : String)
  | pointer (externalLocator : String)
  deriving DecidableEq, Repr

structure ContentPart where
  role : ContentPartRole
  mediaType : String
  sourceFilename : Option String := none
  content : PartContent
  deriving DecidableEq, Repr

namespace ContentPart

variable (part : ContentPart)

def bytes? : Option Bytes :=
  match part.content with
  | .bytes bytes _ => some bytes
  | _ => none

def text? : Option String :=
  match part.content with
  | .text text => some text
  | _ => none

/-- The locator, when it is there and not empty. -/
def externalLocator? : Option String :=
  match part.content with
  | .bytes _ locator => present locator
  | .text _ => none
  | .pointer locator => present (some locator)

end ContentPart

/-- The hexadecimal SHA-256 digest, known by its shape only. -/
def isSha256Hex (s : String) : Bool :=
  s.toList.length = 64 &&
    s.toList.all fun c => ('0' ≤ c && c ≤ '9') || ('a' ≤ c && c ≤ 'f')

structure Sha256 where
  hex : Bytes → String
  shape : ∀ bytes, isSha256Hex (hex bytes) = true

/-- A digest that is given where it matters; any other content has a digest of zeros. -/
def Sha256.ofDigests (digests : List (Bytes × String)) : Sha256 where
  hex bytes :=
    (((digests.find? fun entry => entry.1 = bytes).map Prod.snd).filter isSha256Hex).getD
      (String.ofList (List.replicate 64 '0'))
  shape bytes := by
    generalize (digests.find? fun entry => entry.1 = bytes).map Prod.snd = found
    have hzeros : isSha256Hex (String.ofList (List.replicate 64 '0')) = true := by decide +kernel
    cases found with
    | none => exact hzeros
    | some hash =>
      by_cases hhash : isSha256Hex hash = true
      · rw [Option.filter_some, if_pos hhash]
        exact hhash
      · rw [Option.filter_some, if_neg hhash]
        exact hzeros

/-- What makes an ingest request fail as a whole: a `null` where an envelope part is
expected, or a store that throws anything but a conflict. -/
inductive IngestFailure where
  | nullPart
  | authority (message : String)
  deriving DecidableEq, Repr

/-! ## Media types and file names -/

def isTextMediaType (mediaType : String) : Bool :=
  hasPrefix "text/" mediaType || mediaType = "application/json" || mediaType = surfaceMediaType

def textExtensions : List String :=
  ["txt", "md", "markdown", "csv", "tsv", "log", "json", "xml", "yaml", "yml", "htm", "html",
    "rst", "ics", "js", "mjs", "cjs", "jsx", "ts", "mts", "cts", "tsx", "py", "rb", "go",
    "java", "c", "h", "cpp", "hpp", "rs", "sh", "bash", "zsh", "sql", "toml", "ini", "conf",
    "properties", "css", "scss", "less", "svg"]

def isTextFilename (filename : Option String) : Bool :=
  filename.any fun name =>
    let lower := String.ofList (name.toList.map Char.toLower)
    textExtensions.any fun extension => hasSuffix ("." ++ extension) lower

def jsonMediaType (mediaType : String) : Bool :=
  mediaType = "application/json" || hasSuffix "+json" mediaType || hasPrefix "text/" mediaType

def isLikelyJsonDocument (bytes : Bytes) : Bool :=
  match bytes.dropWhile fun b => b = 0x09 || b = 0x0a || b = 0x0d || b = 0x20 with
  | [] => false
  | b :: _ => (b = 0x7b || b = 0x5b) && (Json.parse (utf8Decode bytes)).isSome

def isUsableAttachmentBytes (bytes : Bytes) (mediaType : String)
    (sourceFilename : Option String) : Bool :=
  if bytes = [] then false
  else if jsonMediaType mediaType || isTextFilename sourceFilename then true
  else !isLikelyJsonDocument bytes

/-! ## Canonical bytes -/

structure BlobObject where
  hash : String
  bytes : Bytes
  mediaType : String
  deriving DecidableEq, Repr

structure CanonicalContent where
  bytes : Bytes
  hash : String
  mediaType : String
  blobs : List BlobObject
  deriving DecidableEq, Repr

/-- None is the `ContentUnavailableError`. -/
def canonicalizePart (part : ContentPart) : Option Bytes :=
  match part.content with
  | .bytes bytes _ => some bytes
  | .text text => some (utf8Encode (normalizeNewlines text))
  | .pointer _ => none

def shouldInlinePart (part : ContentPart) : Bool :=
  part.role ≠ .attachment && isTextMediaType part.mediaType

def isEmptyAttachment (part : ContentPart) : Bool :=
  part.role = .attachment && part.bytes? = some []

def isPointerPart (part : ContentPart) : Bool :=
  part.externalLocator?.isSome || isEmptyAttachment part

def needsAttachmentEnvelope (part : ContentPart) : Bool :=
  part.role = .attachment && !isTextMediaType part.mediaType && isTextFilename part.sourceFilename

def optionalField (name : String) (value : Option String) : List (String × String) :=
  match present value with
  | some value => [(name, value)]
  | none => []

def envelopeHead (part : ContentPart) : List (String × String) :=
  [("role", part.role.name), ("media_type", part.mediaType)] ++
    optionalField "source_filename" part.sourceFilename ++
    optionalField "external_locator" part.externalLocator?

/-- An attachment whose bytes are missing or not usable is stored as a pointer. -/
def isUnresolved (part : ContentPart) : Bool :=
  part.role = .attachment &&
    part.bytes?.all fun bytes =>
      !isUsableAttachmentBytes bytes part.mediaType part.sourceFilename

variable (sha256 : Sha256)

def encodeEnvelopePart (part : ContentPart) : Option (List (String × String) × List BlobObject) :=
  if isUnresolved part then some (envelopeHead part, [])
  else
    (canonicalizePart part).map fun bytes =>
      if shouldInlinePart part then
        (envelopeHead part ++ [("text", utf8Decode bytes)], [])
      else
        let hash := sha256.hex bytes
        (envelopeHead part ++ [("content_hash", hash)],
          [{ hash, bytes, mediaType := part.mediaType }])

def uniqueBlobs (items : List BlobObject) : List BlobObject := keepFirst (·.hash) items

def encodeEnvelope : List ContentPart → Option (List (List (String × String)) × List BlobObject)
  | [] => some ([], [])
  | part :: rest => do
    let (fields, blobs) ← encodeEnvelopePart sha256 part
    let (records, more) ← encodeEnvelope rest
    some (fields :: records, blobs ++ more)

/-- A lone part is stored raw, unless it points elsewhere or needs its file name. -/
def storedRaw (part : ContentPart) : Bool :=
  !needsAttachmentEnvelope part && !isPointerPart part

def canonicalizeEnvelope (parts : List ContentPart) : Option CanonicalContent :=
  (encodeEnvelope sha256 parts).map fun (records, blobs) =>
    let bytes := utf8Encode (Json.stringifyRecords records)
    { bytes
      hash := sha256.hex bytes
      mediaType := contentPartsMediaType
      blobs := uniqueBlobs blobs }

def canonicalizeContent (parts : List ContentPart) : Option CanonicalContent :=
  match parts with
  | [] => none
  | [part] =>
    if storedRaw part then
      (canonicalizePart part).map fun bytes =>
        { bytes, hash := sha256.hex bytes, mediaType := part.mediaType, blobs := [] }
    else canonicalizeEnvelope sha256 [part]
  | parts => canonicalizeEnvelope sha256 parts

def blobsForCanonical (canonical : CanonicalContent) : List BlobObject :=
  { hash := canonical.hash, bytes := canonical.bytes, mediaType := canonical.mediaType } ::
    canonical.blobs

def extraBlobsForCanonical (canonical : CanonicalContent) : List BlobMetaInput :=
  canonical.blobs.map fun blob =>
    { contentHash := blob.hash, mediaType := blob.mediaType, byteSize := blob.bytes.length }

/-! ## Stored parts -/

/-- The properties of an envelope part that are strings. -/
structure StoredContentPart where
  role : Option String := none
  mediaType : Option String := none
  sourceFilename : Option String := none
  text : Option String := none
  contentHash : Option String := none
  bytesBase64 : Option String := none
  externalLocator : Option String := none
  deriving DecidableEq, Repr

def StoredContentPart.ofJson (value : JsonValue) : StoredContentPart :=
  let property name := (value.field? name).bind (·.string?)
  { role := property "role"
    mediaType := property "media_type"
    sourceFilename := property "source_filename"
    text := property "text"
    contentHash := property "content_hash"
    bytesBase64 := property "bytes_base64"
    externalLocator := property "external_locator" }

/-- A stored element; `null` has no properties to read. -/
def storedElement : JsonValue → Option StoredContentPart
  | .null => none
  | value => some (.ofJson value)

def parseStoredContentParts (bytes : Bytes) : Option (List (Option StoredContentPart)) :=
  match Json.parse (utf8Decode bytes) with
  | some (.array (item :: items)) => some ((item :: items).map storedElement)
  | _ => none

/-- Reading a property of every element throws at a `null`. -/
def readParts (parts : List (Option StoredContentPart)) :
    Except IngestFailure (List StoredContentPart) :=
  if parts.all (·.isSome) then .ok (parts.filterMap id) else .error .nullPart

def base64Value? (c : Char) : Option Nat :=
  if 'A' ≤ c ∧ c ≤ 'Z' then some (c.toNat - 0x41)
  else if 'a' ≤ c ∧ c ≤ 'z' then some (c.toNat - 0x61 + 26)
  else if '0' ≤ c ∧ c ≤ '9' then some (c.toNat - 0x30 + 52)
  else if c = '+' ∨ c = '-' then some 62
  else if c = '/' ∨ c = '_' then some 63
  else none

def base64Groups : List Nat → Bytes
  | a :: b :: c :: d :: rest =>
    UInt8.ofNat (a * 4 + b / 16) :: UInt8.ofNat (b % 16 * 16 + c / 4) ::
      UInt8.ofNat (c % 4 * 64 + d) :: base64Groups rest
  | [a, b, c] => [UInt8.ofNat (a * 4 + b / 16), UInt8.ofNat (b % 16 * 16 + c / 4)]
  | [a, b] => [UInt8.ofNat (a * 4 + b / 16)]
  | _ => []

/-- `Buffer.from(text, "base64")`: foreign characters are skipped, padding ends the text. -/
def base64Decode (text : String) : Bytes :=
  base64Groups ((text.toList.takeWhile (· ≠ '=')).filterMap base64Value?)

def storedPartText (part : StoredContentPart) : Option String :=
  match part.text with
  | some text => some text
  | none =>
    match present part.bytesBase64, present part.mediaType with
    | some encoded, some mediaType =>
      if isTextMediaType mediaType then some (utf8Decode (base64Decode encoded)) else none
    | _, _ => none

def storedPartContentHash (part : StoredContentPart) : Option String :=
  (present part.contentHash).filter fun hash => isSha256Hex hash

def attachmentHashesFromStoredParts (parts : List StoredContentPart) : List String :=
  keepFirst id ((parts.filter fun part => part.role = some "attachment").filterMap
    storedPartContentHash)

/-- `parts.find((part) => part.role === "body")`, which throws at a `null` before it. -/
def findBody : List (Option StoredContentPart) → Except IngestFailure (Option StoredContentPart)
  | [] => .ok none
  | none :: _ => .error .nullPart
  | some part :: rest => if part.role = some "body" then .ok (some part) else findBody rest

def bodyTextFromStored (bytes : Bytes) (mediaType : String) :
    Except IngestFailure (Option String) := do
  if mediaType = contentPartsMediaType then
    match parseStoredContentParts bytes with
    | none => return none
    | some parts =>
      let body ← findBody parts
      match body <|> parts.head?.join with
      | none => return none
      | some part =>
        if part.role = some "metadata" then return none else return storedPartText part
  else if hasPrefix "text/" mediaType || mediaType = "application/json" then
    return some (utf8Decode bytes)
  else return none

/-! ## Attachments -/

structure AttachmentResolution where
  resolvedHashes : List String := []
  unresolvedCount : Nat := 0
  deriving DecidableEq, Repr

/-- The hash of an attachment part that counts as resolved. With `blobs` its bytes must be
there and usable. -/
def resolvedHash (blobs : Option (String → Option Bytes)) (part : StoredContentPart) :
    Option String :=
  (storedPartContentHash part).filter fun hash =>
    blobs.all fun get =>
      (get hash).any fun stored =>
        isUsableAttachmentBytes stored (part.mediaType.getD "") part.sourceFilename

def resolutionFromStoredParts (blobs : Option (String → Option Bytes))
    (parts : List StoredContentPart) : AttachmentResolution :=
  let attachments := parts.filter fun part => part.role = some "attachment"
  { resolvedHashes := keepFirst id (attachments.filterMap (resolvedHash blobs))
    unresolvedCount := attachments.countP fun part => (resolvedHash blobs part).isNone }

def resolutionFromStored (bytes : Bytes) (mediaType : String)
    (blobs : Option (String → Option Bytes)) : Except IngestFailure AttachmentResolution := do
  if mediaType = contentPartsMediaType then
    match parseStoredContentParts bytes with
    | none => return {}
    | some parts => return resolutionFromStoredParts blobs (← readParts parts)
  else if isTextMediaType mediaType then return {}
  else if ¬ isUsableAttachmentBytes bytes mediaType none then return { unresolvedCount := 1 }
  else return { resolvedHashes := [sha256.hex bytes] }

def resolutionFromCanonical (canonical : CanonicalContent) :
    Except IngestFailure AttachmentResolution :=
  resolutionFromStored sha256 canonical.bytes canonical.mediaType none

def incomingWorsensAttachments (existing incoming : AttachmentResolution) : Bool :=
  existing.resolvedHashes.any fun hash => !incoming.resolvedHashes.contains hash

def incomingImprovesAttachments (existing incoming : AttachmentResolution) : Bool :=
  (incoming.resolvedHashes.any fun hash => !existing.resolvedHashes.contains hash) &&
    !incomingWorsensAttachments existing incoming

def attachmentDigestsFromParts (parts : List ContentPart) : List String :=
  keepFirst id ((parts.filter fun part => part.role = .attachment).filterMap fun part =>
    part.bytes?.map sha256.hex)

def attachmentDigestsFromStored (bytes : Bytes) (mediaType : String) :
    Except IngestFailure (List String) := do
  if mediaType ≠ contentPartsMediaType then return []
  else
    match parseStoredContentParts bytes with
    | none => return []
    | some parts =>
      let parts ← readParts parts
      return keepFirst id
        ((parts.filter fun part => part.role = some "attachment").filterMap fun part =>
          storedPartContentHash part <|>
            (present part.bytesBase64).map fun encoded => sha256.hex (base64Decode encoded))

def attachmentsCoveredBy (incoming existing : List String) : Bool :=
  !incoming.isEmpty && !existing.isEmpty && incoming.all existing.contains

end Regenic.Ingest
