import Regenic.Embedding.VectorIndex
import Regenic.Lib.Binary64
import Regenic.Lib.CanonicalJson
import Regenic.Lib.Ranked

/-!
A search over the documents that a reader is authorized for. Each document is read chunk by chunk,
and the best chunk stands for it. The text of a file is put together again where its chunks follow
each other, since a word may cross the end of a chunk.
-/

namespace Regenic.Embedding

open Lib

/-! ## Questions and answers -/

inductive ContextSearchKind where
  | all
  | messages
  | files
  deriving DecidableEq, Repr

structure AuthorizedKey extends VectorIndex.ContextLexicalKey where
  bodyLength : Option Nat := none
  deriving DecidableEq, Repr

structure VectorQuery where
  orgId : String
  generation : String
  authorized : List AuthorizedKey
  queryVector : List ℚ
  limit : Nat
  query : Option CodeUnits := none
  searchKind : Option ContextSearchKind := none
  deriving DecidableEq, Repr

structure SearchMatch where
  origin : ContextChunkOrigin
  score : ℚ
  lexical : Bool
  deriving DecidableEq, Repr

structure ChunkHit where
  score : ℚ
  chunkOrdinal : Nat
  start : Nat
  stop : Nat
  deriving DecidableEq, Repr

structure ContextVectorMatch extends VectorIndex.ContextLexicalKey, ChunkHit where
  materialLength : Option Nat := none
  searchMatches : List SearchMatch := []
  deriving DecidableEq, Repr

structure VectorAnswer where
  generation : String
  covered : List VectorIndex.ContextLexicalKey
  matched : List ContextVectorMatch
  skipped : List VectorIndex.ContextLexicalKey := []
  reconciledEpoch : Option String := none
  deriving DecidableEq, Repr

def AuthorizedKey.key (authorized : AuthorizedKey) : VectorIndex.ContextLexicalKey :=
  authorized.toContextLexicalKey

def ContextVectorMatch.key (hit : ContextVectorMatch) : VectorIndex.ContextLexicalKey :=
  hit.toContextLexicalKey

/-- What files are searched for; a search of messages does not look into files. -/
def VectorQuery.fileQuery (input : VectorQuery) : Option CodeUnits :=
  if input.searchKind = some .messages then none else input.query.filter (· ≠ [])

/-! ## Scores -/

/-- `Number(value.toFixed(9))`. -/
def toFixed9 (value : ℚ) : ℚ :=
  let places : ℤ := ⌊|value| * 10 ^ 9 + 1 / 2⌋
  binary64.nearest ((if value < 0 then -places else places) / 10 ^ 9)

def clampCosine (cosine : ℚ) : ℚ := max (-1) (min 1 cosine)

/-! ## Reading one document -/

/-- The text of a file as far as its chunks have followed each other. -/
structure TextRun where
  origin : ContextChunkOrigin
  texts : List CodeUnits
  stop : Nat
  score : ℚ
  deriving DecidableEq, Repr

abbrev SearchParts := Table fun part : SearchMatch => part.origin.partIndex

structure DocumentScan where
  best : Option ChunkHit := none
  parts : SearchParts := ∅
  textRun : Option TextRun := none
  materialLength : Nat := 0
  chunks : Nat := 0

def admitPart (parts : SearchParts) (origin : ContextChunkOrigin) (score : ℚ) (lexical : Bool) :
    SearchParts :=
  let admits := match parts.get? origin.partIndex with
    | none => true
    | some previous => (lexical && !previous.lexical) ||
        (lexical = previous.lexical && previous.score < score)
  if admits then parts.put ⟨origin, score, lexical⟩ else parts

namespace TextRun

def joined (textRun : TextRun) : ContextChunkOrigin :=
  { textRun.origin with text := some textRun.texts.flatten }

/-- The next chunk of the file goes on where the run ends. -/
def continues (textRun : TextRun) (origin : ContextChunkOrigin) : Bool :=
  textRun.origin.partIndex = origin.partIndex && textRun.origin.contentHash = origin.contentHash &&
    textRun.stop = origin.start

def push (textRun : TextRun) (origin : ContextChunkOrigin) (score : ℚ) : TextRun :=
  let text := origin.text.getD []
  { textRun with
    texts := textRun.texts ++ [text], stop := origin.start + text.length
    score := max textRun.score score }

def begin (origin : ContextChunkOrigin) (score : ℚ) : TextRun :=
  ⟨origin, [], origin.start, score⟩

end TextRun

/-- Which chunks may stand for their document. -/
def eligibleChunk (searchKind : Option ContextSearchKind) (bodyLength : Nat)
    (chunk : ContextVectorChunk) : Bool :=
  match searchKind with
  | some .files => chunk.origin.isSome
  | some .messages => chunk.origin.isNone && chunk.stop ≤ bodyLength
  | _ => true

def hitOf (chunk : ContextVectorChunk) (score : ℚ) : ChunkHit :=
  ⟨score, chunk.ordinal, chunk.start, chunk.stop⟩

section Platform

variable (platform : EmbeddingPlatform)

def chunkScore (query vector : List ℚ) : ℚ := toFixed9 (clampCosine (platform.cosine vector query))

def cosineScore (query : List ℚ) (dimensions : Nat) (vector : List ℚ) : Except EmbedThrown ℚ := do
  throwUnless (vector.length = dimensions) .corrupt
  throwUnless (platform.isUnit vector) .corrupt
  .ok (chunkScore platform query vector)

def flushTextRun (query : CodeUnits) (parts : SearchParts) : Option TextRun → SearchParts
  | none => parts
  | some textRun =>
    if platform.lexicalHit textRun.texts.flatten query then
      admitPart parts textRun.joined textRun.score true
    else parts

/-- The parts and the run after one more chunk; token boundaries belong to continuous file text,
not embedding chunks. -/
def admitChunk (query : CodeUnits) (parts : SearchParts) (textRun : Option TextRun)
    (origin : Option ContextChunkOrigin) (score : ℚ) : SearchParts × Option TextRun :=
  match origin with
  | none => (flushTextRun platform query parts textRun, none)
  | some origin =>
    match origin.mode with
    | .visual => (admitPart (flushTextRun platform query parts textRun) origin score false, none)
    | .text =>
      let admitted := admitPart parts origin score false
      match textRun with
      | none => (admitted, some ((TextRun.begin origin score).push origin score))
      | some current =>
        if current.continues origin then (admitted, some (current.push origin score))
        else (flushTextRun platform query admitted (some current),
          some ((TextRun.begin origin score).push origin score))

def DocumentScan.read (input : VectorQuery) (bodyLength : Nat) (scan : DocumentScan)
    (chunk : ContextVectorChunk) (score : ℚ) : DocumentScan :=
  let searched := match input.fileQuery with
    | none => (scan.parts, scan.textRun)
    | some query => admitChunk platform query scan.parts scan.textRun chunk.origin score
  { best :=
      if eligibleChunk input.searchKind bodyLength chunk then
        keepGreatest ChunkHit.score scan.best (hitOf chunk score)
      else scan.best
    parts := searched.1
    textRun := searched.2
    materialLength := chunk.stop
    chunks := scan.chunks + 1 }

def scanChunk (input : VectorQuery) (dimensions bodyLength : Nat) (scan : DocumentScan)
    (chunk : ContextVectorChunk) : Except EmbedThrown DocumentScan := do
  throwUnless (chunk.ordinal = scan.chunks && chunk.start = scan.materialLength &&
    scan.materialLength < chunk.stop) .corrupt
  let score ← cosineScore platform input.queryVector dimensions chunk.vector
  parseOrigin platform chunk
  .ok (scan.read platform input bodyLength chunk score)

/-- The parts when the last run is at its end. -/
def DocumentScan.searchMatches (input : VectorQuery) (scan : DocumentScan) : SearchParts :=
  match input.fileQuery with
  | none => scan.parts
  | some query => flushTextRun platform query scan.parts scan.textRun

/-- The match of a document, none when no chunk of it may stand for it. -/
def matchDocument (input : VectorQuery) (generation : EmbeddingGeneration)
    (authorized : AuthorizedKey) (chunkCount : Nat) (chunks : List ContextVectorChunk) :
    Except EmbedThrown (Option ContextVectorMatch) := do
  let scan ← chunks.foldlM
    (scanChunk platform input generation.model.dimensions (authorized.bodyLength.getD 0)) {}
  throwUnless (scan.chunks = chunkCount && scan.chunks ≠ 0) .corrupt
  .ok (scan.best.map fun best => {
    toContextLexicalKey := authorized.key
    toChunkHit := best
    searchMatches := (scan.searchMatches platform input).rows
    materialLength :=
      if generation.extractorVersion = .storedBodyAndAttachmentsV2 then some scan.materialLength
      else none })

end Platform

/-! ## Ranks -/

def ContextVectorMatch.lexical (hit : ContextVectorMatch) : Bool :=
  hit.searchMatches.any fun part => part.lexical

/-- Matches of the words come first, then the nearest; the order of the event ids decides. -/
def rankedBefore (first second : ContextVectorMatch) : Bool :=
  if first.lexical ≠ second.lexical then first.lexical
  else if first.score ≠ second.score then second.score < first.score
  else stringLe first.eventId second.eventId

namespace VectorIndex

/-! ## Searches -/

/-- The checks on the authorized events, in order. -/
def checkAuthorized : List String → List AuthorizedKey → Except EmbedThrown Unit
  | _, [] => .ok ()
  | seen, key :: rest => do
    required key.eventId
    throwUnless (validHash key.contentHash && !seen.contains key.eventId)
      (.error "Invalid vector authorization key")
    (match key.bodyLength with
      | none => .ok ()
      | some bodyLength => bounded bodyLength 0 (2 ^ 53 - 1))
    checkAuthorized (key.eventId :: seen) rest

/-- `ORDER BY event_id`. -/
def byEventId (authorized : List AuthorizedKey) : List AuthorizedKey :=
  authorized.mergeSort fun first second => first.eventId ≤ second.eventId

/-- The live document of an authorized event under its content hash. -/
def authorizedDocument (index : VectorIndex) (orgId generation : String) (key : AuthorizedKey) :
    Option (AuthorizedKey × CoverageRow) :=
  match index.coverage.get? ⟨orgId, generation, key.eventId⟩ with
  | none => none
  | some row =>
    if row.contentHash = key.contentHash && index.isHeadOf row then some (key, row) else none

def authorizedDocuments (index : VectorIndex) (input : VectorQuery) :
    List (AuthorizedKey × CoverageRow) :=
  (byEventId input.authorized).filterMap (index.authorizedDocument input.orgId input.generation)

/-- The authorized events whose job found no content. -/
def skippedKeys (index : VectorIndex) (input : VectorQuery) : List ContextLexicalKey :=
  (byEventId input.authorized).flatMap fun key =>
    (index.jobs.rows.filter fun row =>
      row.orgId = input.orgId && row.generation = input.generation && row.eventId = key.eventId &&
        row.contentHash = some key.contentHash && row.status = .skipped &&
        index.isHeadOfJob row).map fun _ => key.key

section Platform

variable (platform : EmbeddingPlatform)

def matchAuthorized (index : VectorIndex) (input : VectorQuery) :
    Except EmbedThrown VectorAnswer := do
  let generation ← index.manifest platform input.orgId input.generation
  validateEmbeddingVector platform input.queryVector generation.model.dimensions
  bounded input.limit 1 1000
  checkAuthorized [] input.authorized
  let documents := index.authorizedDocuments input
  let hits ← documents.mapM fun (key, row) =>
    matchDocument platform input generation key row.chunkCount (index.chunksOf row.toDocumentKey)
  let matched := (hits.filterMap id).foldl
    (keepBest (fun first second => rankedBefore first second = true) input.limit) []
  .ok {
    generation := input.generation
    covered := (documents.map fun document => document.1.key).insertionSort
      fun first second => stringLe first.eventId second.eventId = true
    matched := (matched.insertionSort
      fun first second => rankedBefore first second = true).take input.limit
    skipped := index.skippedKeys input
    reconciledEpoch := ((index.generations.get? (input.orgId, input.generation)).bind
      (·.reconciledEpoch)).filter (· ≠ "") }

/-- A unit vector of that many dimensions. -/
def axis (dimensions : Nat) : List ℚ :=
  (List.range dimensions).map fun place => if place = 0 then 1 else 0

def withoutScore (part : SearchMatch) : SearchMatch := { part with score := -1 }

/-- The matches of the words alone, without inference. -/
def matchAuthorizedText (index : VectorIndex) (input : VectorQuery) :
    Except EmbedThrown VectorAnswer := do
  let generation ← index.manifest platform input.orgId input.generation
  let answer ← index.matchAuthorized platform
    { input with queryVector := axis generation.model.dimensions, searchKind := none }
  .ok { answer with
    matched := (answer.matched.filter (·.lexical)).map fun hit =>
      { hit with
        score := -1
        searchMatches := (hit.searchMatches.filter (·.lexical)).map withoutScore } }

end Platform

end VectorIndex

end Regenic.Embedding
