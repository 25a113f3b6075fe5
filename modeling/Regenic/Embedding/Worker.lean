import Regenic.Context.Contracts
import Regenic.Embedding.Chunking
import Regenic.Embedding.VectorIndex
import Regenic.Lib.Pool

/-!
The worker that embeds the events of the jobs. A run takes up the checkpoint of a job where it
stands and stages the chunks that come next, no more than a batch of them; the run that finds
nothing left to stage publishes all chunks. The plan of a job is what one run without a limit would
stage.
-/

namespace Regenic.Embedding

open Lib

/-! ## Heads -/

structure EmbeddingRead extends Context.ContextSourceRead where
  readEpoch : String
  lifecycleComplete : Bool

def eventById (read : Context.ContextSourceRead) (id : String) :
    Option Context.ContextSourceEvent :=
  read.events.reverse.find? fun event => event.eventId = id

def headOperation : Ingest.IngestOperation → HeadOperation
  | .create => .create
  | .revise => .revise
  | .tombstone => .tombstone

def cyclicLifecycle : EmbedThrown := .error "Embedding lifecycle is cyclic"

/-- The events from `current` up to its first one, before those of `lineage`. An event that comes
a second time ends the walk, so no walk is longer than the read. -/
def lineageFrom (read : Context.ContextSourceRead) :
    Nat → List String → Option Context.ContextSourceEvent → Except EmbedThrown (List String)
  | _, lineage, none => .ok lineage
  | 0, _, some _ => .error cyclicLifecycle
  | steps + 1, lineage, some current =>
    if lineage.contains current.eventId then .error cyclicLifecycle
    else lineageFrom read steps (current.eventId :: lineage)
      ((present current.parentEventId).bind (eventById read))

def headFor (read : Context.ContextSourceRead) (head : Context.LifecycleHead) :
    Except EmbedThrown EmbeddingSourceHead :=
  match eventById read head.headEventId with
  | none => .error (.error "Embedding lifecycle head is missing")
  | some event => do
    let lineage ← lineageFrom read (read.events.length + 1) [] (some event)
    .ok {
      source := event.source, externalId := event.externalId, eventId := event.eventId
      operation := headOperation event.operation, lineage
      contentHash := present event.contentHash }

def headsFor (read : Context.ContextSourceRead) : Except EmbedThrown (List EmbeddingSourceHead) :=
  read.lifecycleHeads.mapM (headFor read)

def isHead (read : Context.ContextSourceRead) (job : EmbeddingJob) : Bool :=
  read.lifecycleHeads.any fun head =>
    head.source = job.source && head.externalId = job.externalId &&
      head.headEventId = job.eventId

/-! ## Calls -/

/-- What a worker asks outside the index. -/
inductive Outside where
  | now
  /-- `Math.floor(Math.random() * 1000)`. -/
  | jitter
  | aborted
  | openRead
  /-- Whether the source or the provider answers; what they answer stays the same. -/
  | reach
  /-- Whether the lease was lost while the heart beat. -/
  | heartbeat

def Outside.Answer : Outside → Type
  | .now => Stamp
  | .jitter => Fin 1000
  | .aborted => Bool
  | .openRead => Except EmbedThrown EmbeddingRead
  | .reach => Except EmbedThrown Unit
  | .heartbeat => Except EmbedThrown Bool

def IndexCall.Answer : IndexCall → Type
  | .claim .. => List EmbeddingJob
  | .renew .. | .stageChunk .. | .yieldJob .. | .complete .. | .fail .. => Bool
  | .retryQuarantined .. => Bool
  | .retryFailed .. => Nat
  | .setVisualEnabled .. | .registerGeneration .. | .activateGeneration .. => Unit
  | .removeGeneration .. | .clearOrganization .. | .reconcile .. => Unit

inductive WorkerCall where
  | onIndex (call : IndexCall)
  | loadStagedChunks (job : EmbeddingJob) (owner : String) (now : Stamp)
  | outside (question : Outside)

def WorkerCall.Answer : WorkerCall → Type
  | .onIndex call => Except EmbedThrown call.Answer
  | .loadStagedChunks .. => Except EmbedThrown (List ContextVectorChunk)
  | .outside question => question.Answer

abbrev OutsideAnswers : Type := (question : Outside) → question.Answer

section Exec

variable (platform : EmbeddingPlatform)

def IndexCall.answer (index : VectorIndex) : (call : IndexCall) → Except EmbedThrown call.Answer
  | .claim orgId generation owner now leaseMs limit =>
    Prod.snd <$> index.claim orgId generation owner now leaseMs limit
  | .renew job owner now leaseMs => Prod.snd <$> index.renew job owner now leaseMs
  | .stageChunk job owner now chunk => Prod.snd <$> index.stageChunk platform job owner now chunk
  | .yieldJob job owner now => Prod.snd <$> index.yieldJob job owner now
  | .complete job owner now chunks noContent =>
    Prod.snd <$> index.complete platform job owner now chunks noContent
  | .fail job owner now retryAt errorCode retryable =>
    Prod.snd <$> index.fail job owner now retryAt errorCode retryable
  | .retryQuarantined orgId generation eventId =>
    Prod.snd <$> index.retryQuarantined orgId generation eventId
  | .retryFailed orgId generation limit => Prod.snd <$> index.retryFailed orgId generation limit
  | .setVisualEnabled orgId enabled => (fun _ => ()) <$> index.setVisualEnabled orgId enabled
  | .registerGeneration orgId generation =>
    (fun _ => ()) <$> index.registerGeneration platform orgId generation
  | .activateGeneration orgId generation readEpoch requiredKeys =>
    (fun _ => ()) <$> index.activateGeneration platform orgId generation readEpoch requiredKeys
  | .removeGeneration orgId generation now =>
    (fun _ => ()) <$> index.removeGeneration platform orgId generation now
  | .clearOrganization orgId => (fun _ => ()) <$> index.clearOrganization orgId
  | .reconcile orgId generation readEpoch heads =>
    (fun _ => ()) <$> index.reconcile platform orgId generation readEpoch heads

/-- Every call is one transaction. -/
def WorkerCall.exec :
    (call : WorkerCall) → OutsideAnswers → VectorIndex → call.Answer × VectorIndex
  | .onIndex call, _, index => (call.answer platform index, index.step platform call)
  | .loadStagedChunks job owner now, _, index =>
    (index.loadStagedChunks platform job owner now, index)
  | .outside question, answers, index => (answers question, index)

end Exec

abbrev WorkerProg (α : Type) : Type := Prog WorkerCall.Answer EmbedThrown α

def ask (question : Outside) : WorkerProg question.Answer :=
  Prog.perform (WorkerCall.outside question)

def liftThrown {α : Type} : Except EmbedThrown α → WorkerProg α
  | .ok a => pure a
  | .error thrown => .fail thrown

def throwIf (bad : Bool) (thrown : EmbedThrown) : WorkerProg Unit :=
  if bad then .fail thrown else pure ()

/-- Waits for an answer of the source or the provider. -/
def reach : WorkerProg Unit := do
  let reached ← ask .reach
  liftThrown reached

def cancelled : EmbedThrown := .embedding .cancelled true

def throwIfAborted : WorkerProg Unit := do
  let aborted ← ask .aborted
  throwIf aborted cancelled

def callIndex (call : IndexCall) : WorkerProg call.Answer := do
  let answer ← Prog.perform (WorkerCall.onIndex call)
  liftThrown answer

/-! ## Checkpoints -/

def checkpointBatchChunks : Nat := 8

/-- A job that is leased to a worker, and what its chunks are made by. -/
structure Lease where
  job : EmbeddingJob
  owner : String
  generation : EmbeddingGeneration

/-- The chunks of the material so far, and how many of them this run has staged. -/
structure Progress where
  chunks : List ContextVectorChunk := []
  freshChunks : Nat := 0

def saveChunk (lease : Lease) (freshChunks : Nat) (chunk : ContextVectorChunk) :
    WorkerProg Nat := do
  throwIf (lease.generation.maxChunksPerEvent ≤ chunk.ordinal) tooLarge
  let now ← ask .now
  let staged : Bool ← callIndex (.stageChunk lease.job lease.owner now chunk)
  throwIf (!staged) (.error "Embedding checkpoint lease lost")
  throwIf (checkpointBatchChunks ≤ freshChunks + 1) .batchYield
  pure (freshChunks + 1)

def lastStop (chunks : List ContextVectorChunk) : Nat := chunks.getLast?.elim 0 (·.stop)

/-- `text.slice(start, stop)`. -/
def sliceUnits (text : CodeUnits) (start stop : Nat) : CodeUnits :=
  (text.drop start).take (stop - start)

section Texts

variable (platform : EmbeddingPlatform) (provider : EmbeddingProvider) (chunkTokens : Nat)

/-- Where the text goes on after the chunks of a checkpoint, from the chunk at `ordinal` on. -/
def resumeAt (text : CodeUnits) :
    Nat → Nat → List ContextVectorChunk → Except EmbedThrown Nat
  | _, start, [] => .ok start
  | ordinal, start, chunk :: rest => do
    throwUnless (chunk.ordinal = ordinal && chunk.start = start && start < chunk.stop &&
      chunk.stop ≤ text.length &&
      chunk.textHash = platform.sha256 (sliceUnits text chunk.start chunk.stop)) contentMismatch
    resumeAt text (ordinal + 1) chunk.stop rest

structure PendingSlice where
  slice : CodeUnits
  start : Nat

/-- The chunk of a slice, which the `ordinal`th of its text is. -/
def sliceChunk (ordinal : Nat) (item : PendingSlice) : ContextVectorChunk where
  ordinal
  start := item.start
  stop := item.start + item.slice.length
  textHash := platform.sha256 item.slice
  vector := provider.embed item.slice

variable (save : Nat → ContextVectorChunk → WorkerProg Nat)

def saveSlice (state : Progress) (item : PendingSlice) : WorkerProg Progress := do
  let chunk := sliceChunk platform provider state.chunks.length item
  let freshChunks ← save state.freshChunks chunk
  pure { chunks := state.chunks ++ [chunk], freshChunks }

def flush (state : Progress) (pending : List PendingSlice) : WorkerProg Progress :=
  if pending.isEmpty then pure state
  else do
    throwIfAborted
    reach
    pending.foldlM (saveSlice platform provider save) state

/-- As many slices as there is room for in the batch. -/
def batchSize (freshChunks : Nat) : Nat :=
  max 1 (min checkpointBatchChunks (checkpointBatchChunks - freshChunks))

def queue (state : Progress) (pending : List PendingSlice) (item : PendingSlice) :
    WorkerProg (Progress × List PendingSlice) :=
  if batchSize state.freshChunks ≤ pending.length + 1 then do
    let flushed ← flush platform provider save state (pending ++ [item])
    pure (flushed, [])
  else pure (state, pending ++ [item])

/-- The slices of what is left of a text from `start` on, at most `budget` of them. -/
def chunkRest : Nat → CodeUnits → Nat → Progress → List PendingSlice → WorkerProg Progress
  | budget, rest, start, state, pending =>
    if rest.isEmpty then flush platform provider save state pending
    else do
      throwIfAborted
      match budget with
      | 0 => .fail tooLarge
      | budget + 1 => do
        reach
        let cut ← liftThrown (nextSlice provider chunkTokens rest)
        let queued ← queue platform provider save state pending ⟨cut.slice, start⟩
        chunkRest budget cut.rest (start + cut.slice.length) queued.1 queued.2

/-- The chunks of a text of which `chunks` are there already; a text has no more than `budget`. -/
def chunkEmbeddingText (budget : Nat) (text : CodeUnits) (chunks : List ContextVectorChunk)
    (freshChunks : Nat) : WorkerProg Progress := do
  let start ← liftThrown (resumeAt platform text 0 0 chunks)
  throwIf (budget < chunks.length) tooLarge
  if start = text.length then pure { chunks, freshChunks }
  else if chunks.isEmpty then do
    reach
    let wholeTokens := provider.countTokens text
    throwIf (wholeTokens < 1) invalidResponse
    if wholeTokens ≤ chunkTokens then do
      throwIf (budget < 1) tooLarge
      let queued ← queue platform provider save { freshChunks } [] ⟨text, 0⟩
      flush platform provider save queued.1 queued.2
    else chunkRest platform provider chunkTokens save budget text 0 { freshChunks } []
  else
    chunkRest platform provider chunkTokens save (budget - chunks.length) (text.drop start) start
      { chunks, freshChunks } []

end Texts

/-! ## Material -/

/-- What the source reads of an event. -/
structure EmbeddingSource where
  /-- The material, under the id of the event it is of; a source may have no such reading. -/
  materializeForEmbedding :
    Option (String → ExtractorVersion → Option (String × ContextEmbeddingMaterial)) := none
  /-- The text of an event alone. -/
  materialize : String → Option CodeUnits := fun _ => none

def EmbeddingSource.material (source : EmbeddingSource) (extractorVersion : ExtractorVersion)
    (eventId : String) : Except EmbedThrown ContextEmbeddingMaterial :=
  match source.materializeForEmbedding with
  | none => .ok { text := source.materialize eventId }
  | some materializeForEmbedding =>
    match materializeForEmbedding eventId extractorVersion with
    | none => .error invalidResponse
    | some (id, material) => do
      throwUnless (id = eventId) invalidResponse
      .ok material

/-- The part of an event that a chunk is bound to. -/
structure PartBinding where
  partIndex : Int
  contentHash : String
  /-- Where the text of the part starts in the text of the event. -/
  projectionStart : Nat := 0

/-- The part that the chunk lies in. -/
def bindingIn (parts : List ContextSearchPart) (chunk : ContextVectorChunk) :
    Option PartBinding :=
  (parts.findSome? fun part => do
    let contentHash ← present part.contentHash
    let projectionStart ← part.projectionStart
    let text ← part.text
    if projectionStart ≤ chunk.start && chunk.stop ≤ projectionStart + text.length then
      some { partIndex := part.partIndex, contentHash, projectionStart }
    else none)

/-- A text on its way into the chunks: after `ordinal` chunks, which end at `start`. -/
structure PlacedText where
  value : CodeUnits
  ordinal : Nat
  start : Nat
  /-- The part that the text as a whole is from. -/
  origin : Option PartBinding
  parts : List ContextSearchPart

/-- The chunk of the text as a chunk of the material. -/
def PlacedText.bind (text : PlacedText) (chunk : ContextVectorChunk) : ContextVectorChunk :=
  { chunk with
    ordinal := text.ordinal + chunk.ordinal
    start := text.start + chunk.start
    stop := text.start + chunk.stop
    origin := match text.origin <|> bindingIn text.parts chunk with
      | none => chunk.origin
      | some binding => some {
          partIndex := binding.partIndex, contentHash := binding.contentHash, mode := .text
          start := chunk.start - binding.projectionStart
          text := sliceUnits text.value chunk.start chunk.stop } }

/-- The chunk of the material lies in the text. -/
def PlacedText.holds (text : PlacedText) (chunk : ContextVectorChunk) : Bool :=
  text.start ≤ chunk.start && chunk.stop ≤ text.start + text.value.length

/-- The chunks of the text in a checkpoint, as chunks of the text. -/
def PlacedText.staged (text : PlacedText) (staged : List ContextVectorChunk) :
    List ContextVectorChunk :=
  ((staged.drop text.ordinal).filter text.holds).mapIdx fun index chunk =>
    { chunk with
      ordinal := index, start := chunk.start - text.start, stop := chunk.stop - text.start }

/-- The chunk of a picture. -/
def visualChunk (platform : EmbeddingPlatform) (attachment : ContextEmbeddingAttachment)
    (chunks : List ContextVectorChunk) (index : Nat) (vector : List ℚ) : ContextVectorChunk where
  ordinal := chunks.length
  start := lastStop chunks
  stop := lastStop chunks + 1
  textHash := platform.sha256 (utf16 (attachment.contentHash ++ ":" ++ toString index))
  vector
  origin := attachment.partIndex.map fun partIndex =>
    { partIndex, contentHash := attachment.contentHash, mode := .visual, start := index }

def maxTextBytes : Nat := 262144

section Materials

variable (platform : EmbeddingPlatform) (provider : EmbeddingProvider) (lease : Lease)
  (parts : List ContextSearchPart) (staged : List ContextVectorChunk)

def placedText (chunks : List ContextVectorChunk) (value : CodeUnits)
    (origin : Option PartBinding) : PlacedText where
  value
  ordinal := chunks.length
  start := lastStop chunks
  origin
  parts

def appendText (state : Progress) (value : CodeUnits) (origin : Option PartBinding) :
    WorkerProg Progress := do
  let text := placedText parts state.chunks value origin
  let extracted ← chunkEmbeddingText platform provider lease.generation.chunkTokens
    (fun freshChunks chunk => saveChunk lease freshChunks (text.bind chunk))
    (lease.generation.maxChunksPerEvent - text.ordinal) value (text.staged staged)
    state.freshChunks
  pure {
    chunks := state.chunks ++ extracted.chunks.map text.bind
    freshChunks := extracted.freshChunks }

def appendVisual (attachment : ContextEmbeddingAttachment) (state : Progress)
    (entry : List ℚ × Nat) : WorkerProg Progress :=
  let chunk := visualChunk platform attachment state.chunks entry.2 entry.1
  match staged[chunk.ordinal]? with
  | some saved => do
    throwIf (saved.textHash ≠ chunk.textHash || saved.start ≠ chunk.start ||
      saved.stop ≠ chunk.stop) contentMismatch
    let kept := { saved with origin := chunk.origin <|> saved.origin }
    pure { state with chunks := state.chunks ++ [kept] }
  | none => do
    let freshChunks ← saveChunk lease state.freshChunks chunk
    pure { chunks := state.chunks ++ [chunk], freshChunks }

/-- A text with something to read in it. -/
def readable (text : Option CodeUnits) : Option CodeUnits := text.filter fun value => !isBlank value

def attachmentInput (attachment : ContextEmbeddingAttachment) : EmbeddingAttachmentInput where
  mediaType := attachment.mediaType
  sourceFilename := present attachment.sourceFilename
  bytes := attachment.bytes

def attachmentBinding (attachment : ContextEmbeddingAttachment) : Option PartBinding :=
  attachment.partIndex.map fun partIndex => { partIndex, contentHash := attachment.contentHash }

/-- The provider has made something of the attachment, or has left its pictures out as it should. -/
def ProcessedEmbeddingAttachment.usable (processed : ProcessedEmbeddingAttachment) : Bool :=
  (readable processed.text).isSome || !processed.vectors.isEmpty ||
    processed.skippedVisual && provider.visualEnabled = some false

def appendAttachmentText (state : Progress) (text : Option CodeUnits)
    (origin : Option PartBinding) : WorkerProg Progress :=
  match readable text with
  | none => pure state
  | some value => do
    throwIf (maxTextBytes < utf8Length value) tooLarge
    appendText platform provider lease parts staged state value origin

def appendAttachment (process : EmbeddingAttachmentInput → ProcessedEmbeddingAttachment)
    (state : Progress) (attachment : ContextEmbeddingAttachment) : WorkerProg Progress := do
  reach
  let processed := process (attachmentInput attachment)
  throwIf (!processed.usable provider) invalidResponse
  let texted ← appendAttachmentText platform provider lease parts staged state processed.text
    (attachmentBinding attachment)
  throwIf (provider.visualEnabled = some false && !processed.vectors.isEmpty)
    (.embedding .invalidResponse false)
  let seen ← processed.vectors.zipIdx.foldlM (appendVisual platform lease staged attachment) texted
  throwIf (lease.generation.maxChunksPerEvent < seen.chunks.length) tooLarge
  pure seen

def appendAttachments (attachments : List ContextEmbeddingAttachment) (state : Progress) :
    WorkerProg Progress :=
  if attachments.isEmpty then pure state
  else match provider.processAttachment with
    | none => .fail (.embedding .unavailable true)
    | some process =>
      attachments.foldlM (appendAttachment platform provider lease parts staged process) state

def appendBody (text : Option CodeUnits) : WorkerProg Progress :=
  match readable text with
  | none => pure {}
  | some value => appendText platform provider lease parts staged {} value none

def appendMaterial (material : ContextEmbeddingMaterial) : WorkerProg Progress := do
  let texted ← appendBody platform provider lease material.searchParts staged material.text
  appendAttachments platform provider lease material.searchParts staged material.attachments texted

end Materials

/-! ## Jobs -/

inductive JobOutcome where
  | processed
  | failed
  | superseded
  | yielded
  deriving DecidableEq, Repr

def EmbeddingErrorCode.name : EmbeddingErrorCode → String
  | .invalidInput => "invalid_input"
  | .unavailable => "unavailable"
  | .timeout => "timeout"
  | .cancelled => "cancelled"
  | .invalidResponse => "invalid_response"
  | .modelMismatch => "model_mismatch"
  | .inputTooLarge => "input_too_large"
  | .unsupportedAttachment => "unsupported_attachment"

/-- What a job fails with. -/
def EmbedThrown.code : EmbedThrown → String
  | .embedding code _ => code.name
  | .textMaterial => "invalid_input"
  | _ => "indexing_failed"

def EmbedThrown.retryable : EmbedThrown → Bool
  | .embedding _ retryable => retryable
  | .textMaterial => false
  | _ => true

section Jobs

variable (platform : EmbeddingPlatform) (provider : EmbeddingProvider) (source : EmbeddingSource)

/-- Nothing to embed, where that is no error. -/
def noContent (generation : EmbeddingGeneration) (material : ContextEmbeddingMaterial)
    (chunks : List ContextVectorChunk) : Bool :=
  chunks.isEmpty && (material.attachments.isEmpty || provider.visualEnabled = some false) &&
    generation.extractorVersion = .storedBodyAndAttachmentsV2

/-- Reads the authority, and tells the index what its heads are. -/
def readAuthority (orgId : String) (generation : EmbeddingGeneration) :
    WorkerProg EmbeddingRead := do
  let opened ← ask .openRead
  let read ← liftThrown opened
  throwIf (!read.lifecycleComplete)
    (.error "Embedding requires a complete authority lifecycle view")
  let heads ← liftThrown (headsFor read.toContextSourceRead)
  let () ← callIndex (.reconcile orgId generation.id read.readEpoch heads)
  pure read

/-- The chunks of the job's event, as far as the run comes. -/
def embedEvent (lease : Lease) : WorkerProg (List ContextVectorChunk × Bool) := do
  reach
  let material ← liftThrown
    (source.material lease.generation.extractorVersion lease.job.eventId)
  throwIf (material.text.any fun text => maxTextBytes < utf8Length text) tooLarge
  let now ← ask .now
  let loaded ← Prog.perform (WorkerCall.loadStagedChunks lease.job lease.owner now)
  let staged ← liftThrown loaded
  let state ← appendMaterial platform provider lease staged material
  let empty := noContent provider lease.generation material state.chunks
  throwIf (state.chunks.length < staged.length) contentMismatch
  throwIf (state.chunks.isEmpty && !empty) (.embedding .invalidInput false)
  pure (state.chunks, empty)

/-- The chunks are published under a head that still stands. -/
def completeJob (orgId : String) (lease : Lease) (chunks : List ContextVectorChunk)
    (empty : Bool) : WorkerProg JobOutcome := do
  let read ← readAuthority orgId lease.generation
  let beat ← ask .heartbeat
  let lost ← liftThrown beat
  if lost || !isHead read.toContextSourceRead lease.job then pure .superseded
  else do
    let now ← ask .now
    let completed : Bool ← callIndex (.complete lease.job lease.owner now chunks empty)
    pure (if completed then .processed else .superseded)

/-- `Math.min(300000, 1000 * 2 ** Math.min(job.attempts, 8))`. -/
def retryDelay (attempts : Nat) : Nat := min 300000 (1000 * 2 ^ min attempts 8)

/-- What becomes of a job whose run has thrown. -/
def settleJob (lease : Lease) : EmbedThrown → WorkerProg JobOutcome
  | .batchYield => do
    let now ← ask .now
    let yielded : Bool ← callIndex (.yieldJob lease.job lease.owner now)
    pure (if yielded then .yielded else .superseded)
  | thrown => do
    let now ← ask .now
    let jitter ← ask .jitter
    let retryAt ← liftThrown (now.add (retryDelay lease.job.attempts + jitter.val))
    let _ ← callIndex
      (.fail lease.job lease.owner now retryAt thrown.code thrown.retryable)
    pure .failed

def workJob (orgId : String) (read : EmbeddingRead) (lease : Lease) : WorkerProg JobOutcome :=
  let worked : WorkerProg JobOutcome :=
    if read.events.any (fun event => event.eventId = lease.job.eventId) &&
        isHead read.toContextSourceRead lease.job then do
      let embedded ← embedEvent platform provider source lease
      completeJob orgId lease embedded.1 embedded.2
    else pure .superseded
  worked.tryCatch (settleJob lease)

/-- The jobs of a claim, until the worker is stopped. -/
def workJobs (orgId owner : String) (generation : EmbeddingGeneration) (read : EmbeddingRead) :
    List EmbeddingJob → WorkerProg (List JobOutcome)
  | [] => pure []
  | job :: rest => do
    let aborted : Bool ← ask .aborted
    if aborted then pure []
    else do
      let outcome ← workJob platform provider source orgId read ⟨job, owner, generation⟩
      let outcomes ← workJobs orgId owner generation read rest
      pure (outcome :: outcomes)

/-- One claim of a generation, under a read that is made anew where there was none before. -/
def runGeneration (orgId owner : String) (generation : EmbeddingGeneration)
    (previous : Option EmbeddingRead) : WorkerProg (List JobOutcome) := do
  let read ← match previous with
    | some read => pure read
    | none => readAuthority orgId generation
  let now ← ask .now
  let claimed : List EmbeddingJob ← callIndex (.claim orgId generation.id owner now 90000 1)
  workJobs platform provider source orgId owner generation read claimed

end Jobs

end Regenic.Embedding
