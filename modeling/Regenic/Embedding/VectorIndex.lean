import Mathlib.Logic.Relation
import Regenic.Context.Timestamps
import Regenic.Embedding.Contracts
import Regenic.Lib.Run
import Regenic.Lib.Table

/-!
The vector index: the generations of an organization, the heads of its sources, the jobs that
embed the events of the heads, the checkpoints of a job, and the published documents, which are
coverage rows with their chunks. A call either ends and leaves new tables, or throws and leaves
them as they were.
-/

namespace Regenic.Embedding

open Lib
open Context.Canonical (isoText maxTime)

/-! ## Times -/

/-- A text that `timestamp` accepts: the ISO text of an instant that a `Date` can hold. -/
structure Stamp where
  ms : ℤ
  valid : |ms| ≤ maxTime
  deriving DecidableEq

/-- SQLite compares the texts. -/
def Stamp.before (first second : Stamp) : Bool := isoText first.ms < isoText second.ms

/-- `new Date(Date.parse(now) + leaseMs).toISOString()`. -/
def Stamp.add (now : Stamp) (leaseMs : Nat) : Except EmbedThrown Stamp :=
  if valid : |now.ms + leaseMs| ≤ maxTime then .ok ⟨now.ms + leaseMs, valid⟩
  else .error (.error "Invalid time value")

/-! ## Rows -/

inductive HeadOperation where
  | create
  | revise
  | tombstone
  deriving DecidableEq, Repr

structure EmbeddingSourceHead where
  source : String
  externalId : String
  eventId : String
  contentHash : Option String := none
  operation : HeadOperation
  lineage : List String
  deriving DecidableEq, Repr

inductive JobStatus where
  | pending
  | running
  | succeeded
  | skipped
  | failed
  | quarantined
  | superseded
  deriving DecidableEq, Repr

structure EmbeddingJob where
  id : Nat
  orgId : String
  generation : String
  source : String
  externalId : String
  eventId : String
  contentHash : Option String := none
  operation : HeadOperation
  lineage : List String
  fence : Nat
  attempts : Nat
  status : JobStatus
  errorCode : Option String := none
  deriving DecidableEq, Repr

structure JobRow extends EmbeddingJob where
  owner : Option String := none
  leaseUntil : Option Stamp := none
  retryAt : Option Stamp := none
  deriving DecidableEq

structure GenerationRow where
  orgId : String
  manifest : EmbeddingGeneration
  reconciledEpoch : Option String := none
  deriving DecidableEq, Repr

def GenerationRow.key (row : GenerationRow) : String × String := (row.orgId, row.manifest.id)

structure HeadRow where
  orgId : String
  source : String
  externalId : String
  eventId : String
  fence : Nat
  deriving DecidableEq, Repr

def HeadRow.key (row : HeadRow) : String × String × String :=
  (row.orgId, row.source, row.externalId)

structure StagedRow where
  jobId : Nat
  chunk : ContextVectorChunk
  deriving DecidableEq, Repr

/-- The organization, the generation and the event of a published document. -/
structure DocumentKey where
  orgId : String
  generation : String
  eventId : String
  deriving DecidableEq, Repr

structure CoverageRow extends DocumentKey where
  contentHash : String
  source : String
  externalId : String
  chunkCount : Nat
  deriving DecidableEq, Repr

structure ChunkRow extends DocumentKey where
  chunk : ContextVectorChunk
  deriving DecidableEq, Repr

structure VectorIndex where
  generations : Table GenerationRow.key := ∅
  sourceHeads : Table HeadRow.key := ∅
  /-- In the order of their ids. -/
  jobs : Table (fun row : JobRow => row.id) := ∅
  nextJobId : Nat := 1
  stagedChunks : List StagedRow := []
  coverage : Table CoverageRow.toDocumentKey := ∅
  chunks : List ChunkRow := []
  /-- The active generation of each organization. -/
  activeGenerations : Table (Prod.fst (α := String) (β := String)) := ∅
  generationActivations : List (String × String) := []
  retiredGenerations : List (String × String) := []
  visualPolicies : Table (Prod.fst (α := String) (β := Bool)) := ∅

/-! ## Checks -/

def required (value : String) : Except EmbedThrown Unit :=
  throwUnless (!blank value) (.error "Vector namespace is required")

def bounded (value low high : Nat) : Except EmbedThrown Unit :=
  throwUnless (low ≤ value && value ≤ high) (.error "Invalid vector limit")

namespace VectorIndex

/-! ## Reading -/

def stagedOf (index : VectorIndex) (jobId : Nat) : List ContextVectorChunk :=
  byOrdinal ((index.stagedChunks.filter fun row => row.jobId = jobId).map (·.chunk))

def chunksOf (index : VectorIndex) (key : DocumentKey) : List ContextVectorChunk :=
  byOrdinal ((index.chunks.filter fun row => row.toDocumentKey = key).map (·.chunk))

/-- The head of the row's source is the event of the row. -/
def isHeadOf (index : VectorIndex) (row : CoverageRow) : Bool :=
  (index.sourceHeads.get? (row.orgId, row.source, row.externalId)).any fun head =>
    head.eventId = row.eventId

/-- The head of the job's source is its event, as fenced when the job was made. -/
def isHeadOfJob (index : VectorIndex) (row : JobRow) : Bool :=
  (index.sourceHeads.get? (row.orgId, row.source, row.externalId)).any fun head =>
    head.eventId = row.eventId && head.fence = row.fence

section Platform

variable (platform : EmbeddingPlatform)

def manifest (index : VectorIndex) (orgId id : String) :
    Except EmbedThrown EmbeddingGeneration := do
  required orgId
  required id
  match index.generations.get? (orgId, id) with
  | none => .error .unbuilt
  | some row =>
    throwUnless (isManifest platform row.manifest) .corrupt
    .ok row.manifest

end Platform

/-- The row is the one of this job, and it is leased to this owner. -/
def leasedTo (job : EmbeddingJob) (owner : String) (now : Stamp) (row : JobRow) : Bool :=
  row.id = job.id && row.orgId = job.orgId && row.generation = job.generation &&
    row.status = .running && row.owner = some owner &&
    row.leaseUntil.any (fun bound => now.before bound) && row.fence = job.fence

def ownsJob (index : VectorIndex) (job : EmbeddingJob) (owner : String) (now : Stamp) :
    Except EmbedThrown Bool := do
  required owner
  match job.contentHash with
  | none => .error (.error "SQLite3 can only bind numbers, strings, bigints, buffers, and null")
  | some hash =>
    .ok (index.jobs.rows.any fun row =>
      leasedTo job owner now row && row.eventId = job.eventId && row.contentHash = some hash &&
        row.source = job.source && row.externalId = job.externalId && index.isHeadOfJob row)

def assertVisualPermission (index : VectorIndex) (orgId : String)
    (chunks : List ContextVectorChunk) : Except EmbedThrown Unit :=
  throwUnless (!((index.visualPolicies.get? orgId).any (fun policy => !policy.2) &&
    chunks.any fun chunk => chunk.origin.any fun origin => origin.mode = .visual))
    (.error "Visual indexing permission is disabled")

/-! ## Writing rows -/

/-- `UPDATE jobs`. -/
def updateJobs (index : VectorIndex) (p : JobRow → Bool) (f : JobRow → JobRow)
    (hid : ∀ row, (f row).id = row.id) : VectorIndex :=
  { index with jobs := index.jobs.updateWhere p f hid }

/-- `DELETE FROM coverage`; the chunks of a document go with it. -/
def deleteCoverage (index : VectorIndex) (p : CoverageRow → Bool) : VectorIndex :=
  { index with
    coverage := index.coverage.filter fun row => !p row
    chunks := index.chunks.filter fun row =>
      !(index.coverage.get? row.toDocumentKey).any p }

/-- `DELETE FROM generations`, with all that belongs to them. -/
def deleteGenerations (index : VectorIndex) (p : String → String → Bool) : VectorIndex :=
  let jobs := index.jobs.filter fun row => !p row.orgId row.generation
  { index with
    generations := index.generations.filter fun row => !p row.orgId row.manifest.id
    jobs
    stagedChunks := index.stagedChunks.filter fun row => (jobs.get? row.jobId).isSome
    coverage := index.coverage.filter fun row => !p row.orgId row.generation
    chunks := index.chunks.filter fun row => !p row.orgId row.generation
    activeGenerations := index.activeGenerations.filter fun row => !p row.1 row.2
    generationActivations := index.generationActivations.filter fun row => !p row.1 row.2 }

/-- `INSERT OR IGNORE INTO generation_activations`. -/
def recordActivation (index : VectorIndex) (row : String × String) : VectorIndex :=
  { index with
    generationActivations :=
      if row ∈ index.generationActivations then index.generationActivations
      else index.generationActivations ++ [row] }

/-! ## What becomes of a job -/

def superseded (row : JobRow) : JobRow :=
  { row with status := .superseded, owner := none, leaseUntil := none }

def claimedBy (owner : String) (leaseEnd : Stamp) (row : JobRow) : JobRow :=
  { row with
    status := .running, owner := some owner, leaseUntil := some leaseEnd
    attempts := row.attempts + 1, errorCode := none }

def renewedUntil (leaseEnd : Stamp) (row : JobRow) : JobRow :=
  { row with leaseUntil := some leaseEnd }

def yielded (row : JobRow) : JobRow :=
  { row with
    status := .pending, owner := none, leaseUntil := none, retryAt := none
    attempts := row.attempts - 1 }

def ended (noContent : Bool) (row : JobRow) : JobRow :=
  { row with
    status := if noContent then .skipped else .succeeded
    owner := none, leaseUntil := none, retryAt := none, errorCode := none }

def failedWith (retryAt : Stamp) (errorCode : String) (retryable : Bool) (row : JobRow) : JobRow :=
  { row with
    status := if retryable then .failed else .quarantined
    retryAt := some retryAt, errorCode := some errorCode, owner := none, leaseUntil := none }

def retried (row : JobRow) : JobRow :=
  { row with status := .pending, retryAt := none, errorCode := none }

def emptied (row : JobRow) : JobRow := { row with status := .skipped }

def requeued (row : JobRow) : JobRow :=
  { row with
    status := .pending, owner := none, leaseUntil := none, retryAt := none
    errorCode := none, attempts := 0 }

/-! ## Generations -/

section Generations

variable (platform : EmbeddingPlatform)

def registerGeneration (index : VectorIndex) (orgId : String) (generation : EmbeddingGeneration) :
    Except EmbedThrown VectorIndex := do
  required orgId
  let expected ← embeddingGeneration platform generation.model generation.chunkTokens
    generation.maxChunksPerEvent generation.extractorVersion
  throwUnless (generation = expected) (.error "Invalid vector generation manifest")
  throwUnless (!index.retiredGenerations.contains (orgId, generation.id)) (.error
    "Generation was collected; use a new recipe or explicitly clear the projection")
  let registered :=
    if (index.generations.get? (orgId, generation.id)).isSome then index
    else { index with generations := index.generations.put { orgId, manifest := generation } }
  let _ ← registered.manifest platform orgId generation.id
  let active := (registered.activeGenerations.get? orgId).getD (orgId, generation.id)
  .ok ({ registered with
    activeGenerations := registered.activeGenerations.put active }.recordActivation active)

def activeGeneration (index : VectorIndex) (orgId : String) :
    Except EmbedThrown (Option EmbeddingGeneration) := do
  required orgId
  match index.activeGenerations.get? orgId with
  | none => .ok none
  | some row => some <$> index.manifest platform orgId row.2

/-- The chunks follow each other from `start` on, and hold what vectors of the model hold. -/
def checkChunks (dimensions : Nat) : Nat → Nat → List ContextVectorChunk → Except EmbedThrown Unit
  | _, _, [] => .ok ()
  | ordinal, start, chunk :: rest => do
    throwUnless (chunk.ordinal = ordinal && chunk.start = start && start < chunk.stop &&
      chunk.vector.length = dimensions) .corrupt
    validateEmbeddingVector platform chunk.vector dimensions
    checkChunks dimensions (ordinal + 1) chunk.stop rest

structure ContextLexicalKey where
  eventId : String
  contentHash : String
  deriving DecidableEq, Repr

/-- One document of the proof that a generation covers what it has to. -/
def checkCovered (index : VectorIndex) (orgId generation : String) (dimensions : Nat)
    (key : ContextLexicalKey) : Except EmbedThrown Unit :=
  match index.coverage.get? ⟨orgId, generation, key.eventId⟩ with
  | none => .error (.notReady .backfillIncomplete)
  | some row => do
    throwUnless (row.contentHash = key.contentHash && index.isHeadOf row)
      (.notReady .backfillIncomplete)
    let chunks := index.chunksOf row.toDocumentKey
    throwUnless (chunks.length = row.chunkCount && 1 ≤ chunks.length) .corrupt
    checkChunks platform dimensions 0 0 chunks

/-- The checks on the documents of the proof, in order. -/
def checkProof : List String → List ContextLexicalKey → Except EmbedThrown Unit
  | _, [] => .ok ()
  | seen, key :: rest => do
    required key.eventId
    throwUnless (validHash key.contentHash && !seen.contains key.eventId)
      (.error "Invalid generation coverage proof")
    checkProof (key.eventId :: seen) rest

def activateGeneration (index : VectorIndex) (orgId generation readEpoch : String)
    (requiredKeys : List ContextLexicalKey) : Except EmbedThrown VectorIndex := do
  required orgId
  required generation
  required readEpoch
  checkProof [] requiredKeys
  let manifest ← index.manifest platform orgId generation
  throwUnless ((index.generations.get? (orgId, generation)).any fun row =>
    row.reconciledEpoch = some readEpoch) (.notReady .authorityChanged)
  requiredKeys.forM (index.checkCovered platform orgId generation manifest.model.dimensions)
  .ok ({ index with
    activeGenerations := index.activeGenerations.put (orgId, generation) }.recordActivation
      (orgId, generation))

def removeGeneration (index : VectorIndex) (orgId generation : String) (now : Stamp) :
    Except EmbedThrown VectorIndex := do
  required orgId
  required generation
  let _ ← index.manifest platform orgId generation
  throwUnless (index.activeGenerations.get? orgId ≠ some (orgId, generation))
    (.error "Cannot garbage-collect the active generation")
  throwUnless (!index.jobs.rows.any fun row =>
    row.orgId = orgId && row.generation = generation && row.status = .running &&
      row.leaseUntil.any fun bound => now.before bound)
    (.error "Generation still has a live indexing lease")
  throwUnless (!index.retiredGenerations.contains (orgId, generation))
    (.error "UNIQUE constraint failed: retired_generations.org_id, retired_generations.generation")
  .ok ({ index with
    retiredGenerations := index.retiredGenerations ++ [(orgId, generation)] }.deleteGenerations
      fun org id => org = orgId && id = generation)

end Generations

def clearOrganization (index : VectorIndex) (orgId : String) : Except EmbedThrown VectorIndex := do
  required orgId
  let cleared := index.deleteGenerations fun org _ => org = orgId
  .ok { cleared with
    sourceHeads := cleared.sourceHeads.filter fun row => row.orgId ≠ orgId
    retiredGenerations := cleared.retiredGenerations.filter fun row => row.1 ≠ orgId }

/-! ## Heads -/

/-- The jobs of the source for another event, as a new head leaves them. -/
def supersede (index : VectorIndex) (orgId : String) (head : EmbeddingSourceHead) : VectorIndex :=
  let ofSource (row : JobRow) : Bool :=
    row.orgId = orgId && row.source = head.source && row.externalId = head.externalId
  let uncovered := index.deleteCoverage fun row =>
    row.orgId = orgId && row.source = head.source && row.externalId = head.externalId
  let settled := uncovered.updateJobs (fun row => ofSource row && row.eventId ≠ head.eventId)
    superseded fun _ => rfl
  { settled with
    stagedChunks := settled.stagedChunks.filter fun staged =>
      !(settled.jobs.get? staged.jobId).any fun row =>
        ofSource row && row.status = .superseded }

/-- `INSERT OR IGNORE INTO jobs`; an event has one job in a generation. -/
def insertJob (index : VectorIndex) (orgId generation : String) (head : EmbeddingSourceHead)
    (fence : Nat) : VectorIndex :=
  if index.jobs.rows.any fun row =>
      row.orgId = orgId && row.generation = generation && row.eventId = head.eventId then index
  else { index with
    jobs := index.jobs.put {
      id := index.nextJobId, orgId, generation, source := head.source
      externalId := head.externalId, eventId := head.eventId, contentHash := head.contentHash
      operation := head.operation, lineage := head.lineage, fence, attempts := 0
      status := if head.operation = .tombstone then .succeeded else .pending }
    nextJobId := index.nextJobId + 1 }

def reconcileHead (orgId generation : String) (index : VectorIndex) (head : EmbeddingSourceHead) :
    Except EmbedThrown VectorIndex := do
  let previous := index.sourceHeads.get? (orgId, head.source, head.externalId)
  throwUnless (previous.all fun row => head.lineage.contains row.eventId)
    (.error "Stale embedding lifecycle view")
  let fence := match previous with
    | none => 1
    | some row => if row.eventId = head.eventId then row.fence else row.fence + 1
  let moved := { index with
    sourceHeads := index.sourceHeads.put
      ⟨orgId, head.source, head.externalId, head.eventId, fence⟩ }
  let settled :=
    if previous.any fun row => row.eventId = head.eventId then moved
    else moved.supersede orgId head
  .ok (settled.insertJob orgId generation head fence)

/-- The checks on the heads of a reconciliation, in order. -/
def checkHeads : List (String × String) → List EmbeddingSourceHead → Except EmbedThrown Unit
  | _, [] => .ok ()
  | seen, head :: rest => do
    required head.source
    required head.externalId
    required head.eventId
    throwUnless (!seen.contains (head.source, head.externalId) && head.lineage ≠ [] &&
      head.lineage.Nodup && head.lineage.getLast? = some head.eventId &&
      (head.operation = .tombstone || head.contentHash.any validHash))
      (.error "Invalid embedding lifecycle")
    head.lineage.forM required
    checkHeads ((head.source, head.externalId) :: seen) rest

section Jobs

variable (platform : EmbeddingPlatform)

def reconcile (index : VectorIndex) (orgId generation readEpoch : String)
    (heads : List EmbeddingSourceHead) : Except EmbedThrown VectorIndex := do
  required orgId
  required readEpoch
  let _ ← index.manifest platform orgId generation
  checkHeads [] heads
  let reconciled ← heads.foldlM (reconcileHead orgId generation) index
  .ok { reconciled with
    generations := reconciled.generations.update (orgId, generation)
      (fun row => { row with reconciledEpoch := some readEpoch }) fun _ => rfl }

/-! ## Leases -/

/-- What `claim` takes: what waits, what may be tried again, and what lost its lease. -/
def claimable (orgId generation : String) (now : Stamp) (row : JobRow) : Bool :=
  row.orgId = orgId && row.generation = generation &&
    (match row.status with
      | .pending => true
      | .failed => row.retryAt.any fun retryAt => !now.before retryAt
      | .running => row.leaseUntil.any fun bound => !now.before bound
      | _ => false)

def claim (index : VectorIndex) (orgId generation owner : String) (now : Stamp)
    (leaseMs limit : Nat) : Except EmbedThrown (VectorIndex × List EmbeddingJob) := do
  required orgId
  required generation
  required owner
  bounded leaseMs 1 300000
  bounded limit 1 100
  let rows := (index.jobs.rows.filter (claimable orgId generation now)).take limit
  let leaseEnd ← now.add leaseMs
  .ok (index.updateJobs (fun row => (rows.map (·.id)).contains row.id)
      (claimedBy owner leaseEnd) fun _ => rfl,
    rows.map fun row => (claimedBy owner leaseEnd row).toEmbeddingJob)

def renew (index : VectorIndex) (job : EmbeddingJob) (owner : String) (now : Stamp)
    (leaseMs : Nat) : Except EmbedThrown (VectorIndex × Bool) := do
  required owner
  bounded leaseMs 1 300000
  let leaseEnd ← now.add leaseMs
  .ok (index.updateJobs (leasedTo job owner now) (renewedUntil leaseEnd) fun _ => rfl,
    index.jobs.rows.any (leasedTo job owner now))

/-! ## Checkpoints -/

def checkStaged (dimensions : Nat) : Nat → Nat → List ContextVectorChunk → Except EmbedThrown Unit
  | _, _, [] => .ok ()
  | ordinal, start, chunk :: rest => do
    throwUnless (chunk.ordinal = ordinal && chunk.start = start && start < chunk.stop &&
      validHash chunk.textHash && chunk.vector.length = dimensions) .corrupt
    validateEmbeddingVector platform chunk.vector dimensions
    parseOrigin platform chunk
    checkStaged dimensions (ordinal + 1) chunk.stop rest

def loadStagedChunks (index : VectorIndex) (job : EmbeddingJob) (owner : String) (now : Stamp) :
    Except EmbedThrown (List ContextVectorChunk) := do
  let owns ← index.ownsJob job owner now
  throwUnless owns (.error "Embedding checkpoint lease lost")
  let generation ← index.manifest platform job.orgId job.generation
  let rows := index.stagedOf job.id
  throwUnless (rows.length ≤ generation.maxChunksPerEvent) .corrupt
  checkStaged platform generation.model.dimensions 0 0 rows
  .ok rows

def stageChunk (index : VectorIndex) (job : EmbeddingJob) (owner : String) (now : Stamp)
    (chunk : ContextVectorChunk) : Except EmbedThrown (VectorIndex × Bool) := do
  let generation ← index.manifest platform job.orgId job.generation
  throwUnless (chunk.ordinal < generation.maxChunksPerEvent && chunk.start < chunk.stop &&
    validHash chunk.textHash) (.error "Invalid staged embedding chunk")
  validateEmbeddingVector platform chunk.vector generation.model.dimensions
  parseOrigin platform chunk
  let owns ← index.ownsJob job owner now
  if owns then
    index.assertVisualPermission job.orgId [chunk]
    let previous := (index.stagedOf job.id).getLast?
    throwUnless (chunk.ordinal = previous.elim 0 (·.ordinal + 1) &&
      chunk.start = previous.elim 0 (·.stop)) (.error "Non-contiguous embedding checkpoint")
    .ok ({ index with stagedChunks := index.stagedChunks ++ [⟨job.id, chunk.stored⟩] }, true)
  else .ok (index, false)

def yieldJob (index : VectorIndex) (job : EmbeddingJob) (owner : String) (now : Stamp) :
    Except EmbedThrown (VectorIndex × Bool) := do
  let owns ← index.ownsJob job owner now
  if owns then
    .ok (index.updateJobs (fun row => row.id = job.id) yielded fun _ => rfl, true)
  else .ok (index, false)

/-! ## Ends -/

def checkPublished (dimensions : Nat) :
    Nat → Nat → List ContextVectorChunk → Except EmbedThrown Unit
  | _, _, [] => .ok ()
  | ordinal, start, chunk :: rest => do
    throwUnless (chunk.ordinal = ordinal && chunk.start = start && start < chunk.stop &&
      validHash chunk.textHash) (.error "Invalid embedding chunk")
    validateEmbeddingVector platform chunk.vector dimensions
    parseOrigin platform chunk
    checkPublished dimensions (ordinal + 1) chunk.stop rest

/-- The tables after a job of this content was done with these chunks. -/
def publish (index : VectorIndex) (job : EmbeddingJob) (hash : String)
    (chunks : List ContextVectorChunk) (noContent : Bool) : VectorIndex :=
  let key : DocumentKey := ⟨job.orgId, job.generation, job.eventId⟩
  let uncovered := index.deleteCoverage fun row => row.toDocumentKey = key
  let covered : VectorIndex := { uncovered with
    coverage :=
      if noContent then uncovered.coverage
      else uncovered.coverage.put
        ⟨key, hash, job.source, job.externalId, chunks.length⟩
    chunks := uncovered.chunks ++
      chunks.map fun chunk => { toDocumentKey := key, chunk := chunk.stored } }
  let settled := covered.updateJobs (fun row => row.id = job.id) (ended noContent) fun _ => rfl
  { settled with
    stagedChunks := settled.stagedChunks.filter fun staged => staged.jobId ≠ job.id }

def complete (index : VectorIndex) (job : EmbeddingJob) (owner : String) (now : Stamp)
    (chunks : List ContextVectorChunk) (noContent : Bool) :
    Except EmbedThrown (VectorIndex × Bool) := do
  required owner
  let generation ← index.manifest platform job.orgId job.generation
  throwUnless (!noContent ||
    generation.extractorVersion = .storedBodyAndAttachmentsV2 && chunks.isEmpty)
    (.error "Invalid empty embedding publication")
  throwUnless (job.contentHash.any validHash && (noContent || !chunks.isEmpty) &&
    chunks.length ≤ generation.maxChunksPerEvent) (.error "Invalid embedding publication")
  checkPublished platform generation.model.dimensions 0 0 chunks
  let owns ← index.ownsJob job owner now
  if owns then
    index.assertVisualPermission job.orgId chunks
    .ok (index.publish job (job.contentHash.getD "") chunks noContent, true)
  else .ok (index, false)

/-- `/^[a-z_]{1,64}$/`. -/
def validErrorCode (code : String) : Bool :=
  1 ≤ code.length && code.length ≤ 64 &&
    code.toList.all fun c => ('a' ≤ c && c ≤ 'z') || c = '_'

def fail (index : VectorIndex) (job : EmbeddingJob) (owner : String) (now retryAt : Stamp)
    (errorCode : String) (retryable : Bool) : Except EmbedThrown (VectorIndex × Bool) := do
  required owner
  throwUnless (validErrorCode errorCode) (.error "Invalid embedding error code")
  .ok (index.updateJobs (leasedTo job owner now) (failedWith retryAt errorCode retryable)
      fun _ => rfl,
    index.jobs.rows.any (leasedTo job owner now))

end Jobs

/-! ## Retries -/

def retryQuarantined (index : VectorIndex) (orgId generation eventId : String) :
    Except EmbedThrown (VectorIndex × Bool) := do
  required orgId
  required generation
  required eventId
  let retries (row : JobRow) : Bool :=
    row.orgId = orgId && row.generation = generation && row.eventId = eventId &&
      row.status = .quarantined && index.isHeadOfJob row
  .ok (index.updateJobs retries retried fun _ => rfl, index.jobs.rows.any retries)

def retryFailed (index : VectorIndex) (orgId generation : String) (limit : Nat) :
    Except EmbedThrown (VectorIndex × Nat) := do
  required orgId
  required generation
  bounded limit 1 20
  let ids := ((index.jobs.rows.filter fun row =>
    row.orgId = orgId && row.generation = generation &&
      (row.status = .failed || row.status = .quarantined) && row.operation ≠ .tombstone &&
      index.isHeadOfJob row).take limit).map (·.id)
  .ok (index.updateJobs (fun row => ids.contains row.id) retried fun _ => rfl, ids.length)

/-! ## Visual permission -/

def isVisual (chunk : ContextVectorChunk) : Bool :=
  chunk.origin.any fun origin => origin.mode = .visual

/-- One row of a document that loses its visual chunks: the rows of the table, and the ordinal
and the start that the next text chunk gets. -/
def dropVisualChunk (key : DocumentKey) (state : List ChunkRow × Nat × Nat)
    (chunk : ContextVectorChunk) : List ChunkRow × Nat × Nat :=
  let ofChunk (row : ChunkRow) : Bool :=
    row.toDocumentKey = key && row.chunk.ordinal = chunk.ordinal
  if isVisual chunk then (state.1.filter fun row => !ofChunk row, state.2)
  else
    let stop := state.2.2 + (chunk.stop - chunk.start)
    (state.1.map fun row => if ofChunk row then
        { row with chunk := { row.chunk with ordinal := state.2.1, start := state.2.2, stop } }
      else row,
    state.2.1 + 1, stop)

def dropVisual (index : VectorIndex) (key : DocumentKey) : VectorIndex :=
  let left := (index.chunksOf key).foldl (dropVisualChunk key) (index.chunks, 0, 0)
  let dropped := { index with chunks := left.1 }
  if left.2.1 = 0 then
    (dropped.deleteCoverage fun row => row.toDocumentKey = key).updateJobs
      (fun row => row.orgId = key.orgId && row.generation = key.generation &&
        row.eventId = key.eventId && row.status = .succeeded) emptied fun _ => rfl
  else { dropped with
    coverage := dropped.coverage.update key
      (fun row => { row with chunkCount := left.2.1 }) fun _ => rfl }

/-- The documents of the organization with a visual chunk. -/
def visualDocuments (index : VectorIndex) (orgId : String) : List DocumentKey :=
  keepFirst id ((index.chunks.filter fun row => row.orgId = orgId && isVisual row.chunk).map
    (·.toDocumentKey))

/-- The checkpoints of the organization's jobs go. -/
def dropCheckpoints (index : VectorIndex) (orgId : String) : VectorIndex :=
  { index with
    stagedChunks := index.stagedChunks.filter fun staged =>
      !(index.jobs.get? staged.jobId).any fun row => row.orgId = orgId }

/-- The jobs that a change of the permission opens again. -/
def reopened (orgId : String) (allowed : Bool) (row : JobRow) : Bool :=
  row.orgId = orgId && row.operation ≠ .tombstone && row.status ≠ .superseded &&
    (allowed || row.status = .running)

def setVisualEnabled (index : VectorIndex) (orgId : String) (enabled : Bool) :
    Except EmbedThrown VectorIndex := do
  required orgId
  let previous := (index.visualPolicies.get? orgId).map (·.2)
  if previous = some enabled then .ok index
  else
    let kept :=
      if enabled then index else (index.visualDocuments orgId).foldl dropVisual index
    let settled := (kept.dropCheckpoints orgId).updateJobs
      (reopened orgId (enabled && previous = some false)) requeued fun _ => rfl
    .ok { settled with visualPolicies := settled.visualPolicies.put (orgId, enabled) }

end VectorIndex

/-! ## Runs -/

inductive IndexCall where
  | setVisualEnabled (orgId : String) (enabled : Bool)
  | registerGeneration (orgId : String) (generation : EmbeddingGeneration)
  | activateGeneration (orgId generation readEpoch : String)
      (requiredKeys : List VectorIndex.ContextLexicalKey)
  | removeGeneration (orgId generation : String) (now : Stamp)
  | clearOrganization (orgId : String)
  | reconcile (orgId generation readEpoch : String) (heads : List EmbeddingSourceHead)
  | claim (orgId generation owner : String) (now : Stamp) (leaseMs limit : Nat)
  | renew (job : EmbeddingJob) (owner : String) (now : Stamp) (leaseMs : Nat)
  | stageChunk (job : EmbeddingJob) (owner : String) (now : Stamp) (chunk : ContextVectorChunk)
  | yieldJob (job : EmbeddingJob) (owner : String) (now : Stamp)
  | complete (job : EmbeddingJob) (owner : String) (now : Stamp)
      (chunks : List ContextVectorChunk) (noContent : Bool)
  | fail (job : EmbeddingJob) (owner : String) (now retryAt : Stamp) (errorCode : String)
      (retryable : Bool)
  | retryQuarantined (orgId generation eventId : String)
  | retryFailed (orgId generation : String) (limit : Nat)

/-- The calls that may take its checkpoint from any job. -/
def IndexCall.takes : IndexCall → Prop
  | .setVisualEnabled .. => True
  | .removeGeneration .. => True
  | .clearOrganization .. => True
  | .reconcile .. => True
  | _ => False

namespace VectorIndex

variable (platform : EmbeddingPlatform)

/-- The tables that a call leaves when it ends. -/
def after (index : VectorIndex) : IndexCall → Except EmbedThrown VectorIndex
  | .setVisualEnabled orgId enabled => index.setVisualEnabled orgId enabled
  | .registerGeneration orgId generation => index.registerGeneration platform orgId generation
  | .activateGeneration orgId generation readEpoch requiredKeys =>
    index.activateGeneration platform orgId generation readEpoch requiredKeys
  | .removeGeneration orgId generation now =>
    index.removeGeneration platform orgId generation now
  | .clearOrganization orgId => index.clearOrganization orgId
  | .reconcile orgId generation readEpoch heads =>
    index.reconcile platform orgId generation readEpoch heads
  | .claim orgId generation owner now leaseMs limit =>
    Prod.fst <$> index.claim orgId generation owner now leaseMs limit
  | .renew job owner now leaseMs => Prod.fst <$> index.renew job owner now leaseMs
  | .stageChunk job owner now chunk => Prod.fst <$> index.stageChunk platform job owner now chunk
  | .yieldJob job owner now => Prod.fst <$> index.yieldJob job owner now
  | .complete job owner now chunks noContent =>
    Prod.fst <$> index.complete platform job owner now chunks noContent
  | .fail job owner now retryAt errorCode retryable =>
    Prod.fst <$> index.fail job owner now retryAt errorCode retryable
  | .retryQuarantined orgId generation eventId =>
    Prod.fst <$> index.retryQuarantined orgId generation eventId
  | .retryFailed orgId generation limit =>
    Prod.fst <$> index.retryFailed orgId generation limit

/-- A call that throws changes nothing. -/
def step (index : VectorIndex) (call : IndexCall) : VectorIndex :=
  match index.after platform call with
  | .ok next => next
  | .error _ => index

/-! ## What a call that ended has done -/

variable {platform}
variable {index next : VectorIndex} {call : IndexCall} {job : EmbeddingJob}
  {owner orgId generation readEpoch : String} {now : Stamp} {result : VectorIndex × Bool}
  {chunks : List ContextVectorChunk} {heads : List EmbeddingSourceHead} {head : EmbeddingSourceHead}
  {noContent : Bool}

theorem leasedTo_iff {row : JobRow} :
    leasedTo job owner now row = true ↔ row.id = job.id ∧ row.orgId = job.orgId ∧
      row.generation = job.generation ∧ row.status = .running ∧ row.owner = some owner ∧
      row.leaseUntil.any (fun bound => now.before bound) = true ∧ row.fence = job.fence := by
  unfold leasedTo
  simp only [Bool.and_eq_true, decide_eq_true_eq, and_assoc]

theorem manifest_ok {id : String} {generation : EmbeddingGeneration}
    (h : index.manifest platform orgId id = .ok generation) :
    ∃ row, index.generations.get? (orgId, id) = some row ∧ row.manifest = generation := by
  unfold VectorIndex.manifest at h
  obtain ⟨_, _, h⟩ := sequence_ok h
  obtain ⟨_, _, h⟩ := sequence_ok h
  cases hget : index.generations.get? (orgId, id) with
  | none =>
    rw [hget] at h
    cases h
  | some row =>
    rw [hget] at h
    obtain ⟨_, h⟩ := checked_ok h
    exact ⟨row, rfl, Except.ok.inj h⟩

theorem required_ok {value : String} (h : required value = .ok ()) : blank value = false := by
  simpa using throwUnless_ok h

theorem manifest_named {id : String} {generation : EmbeddingGeneration}
    (h : index.manifest platform orgId id = .ok generation) : blank id = false := by
  unfold VectorIndex.manifest at h
  obtain ⟨_, _, h⟩ := sequence_ok h
  obtain ⟨⟨⟩, hid, h⟩ := sequence_ok h
  exact required_ok hid

/-- Who owns a job: the row that is leased to him, and the head it was made for. -/
theorem ownsJob_ok (h : index.ownsJob job owner now = .ok true) :
    ∃ row ∈ index.jobs.rows, leasedTo job owner now row = true ∧ row.eventId = job.eventId ∧
      row.contentHash = job.contentHash ∧ row.source = job.source ∧
      row.externalId = job.externalId ∧ index.isHeadOfJob row = true := by
  unfold ownsJob at h
  obtain ⟨_, _, h⟩ := sequence_ok h
  cases hhash : job.contentHash with
  | none =>
    rw [hhash] at h
    cases h
  | some hash =>
    rw [hhash] at h
    obtain ⟨row, hrow, howns⟩ := List.any_eq_true.mp (Except.ok.inj h)
    simp only [Bool.and_eq_true, decide_eq_true_eq] at howns
    exact ⟨row, hrow, howns.1.1.1.1.1, howns.1.1.1.1.2, howns.1.1.1.2, howns.1.1.2, howns.1.2,
      howns.2⟩

theorem registerGeneration_ok {generation : EmbeddingGeneration}
    (h : index.registerGeneration platform orgId generation = .ok next) :
    isManifest platform generation = true ∧ blank generation.id = false ∧
      (orgId, generation.id) ∉ index.retiredGenerations ∧
      let registered : VectorIndex :=
        if (index.generations.get? (orgId, generation.id)).isSome then index
        else { index with generations := index.generations.put { orgId, manifest := generation } }
      let active := (registered.activeGenerations.get? orgId).getD (orgId, generation.id)
      next = { registered with
        activeGenerations := registered.activeGenerations.put active }.recordActivation active := by
  unfold VectorIndex.registerGeneration at h
  obtain ⟨_, _, h⟩ := sequence_ok h
  obtain ⟨expected, hexpected, h⟩ := sequence_ok h
  obtain ⟨hsame, h⟩ := checked_ok h
  obtain ⟨hretired, h⟩ := checked_ok h
  obtain ⟨_, hmanifest, h⟩ := sequence_ok h
  refine ⟨?_, manifest_named hmanifest, by simpa using hretired, (Except.ok.inj h).symm⟩
  unfold isManifest
  rw [hexpected, of_decide_eq_true hsame]
  exact decide_eq_true rfl

theorem activateGeneration_ok {requiredKeys : List ContextLexicalKey}
    (h : index.activateGeneration platform orgId generation readEpoch requiredKeys = .ok next) :
    (blank orgId = false ∧ blank generation = false ∧ blank readEpoch = false ∧
      checkProof [] requiredKeys = .ok ()) ∧
    (∃ manifest, index.manifest platform orgId generation = .ok manifest ∧
      ((index.generations.get? (orgId, generation)).any fun row =>
        row.reconciledEpoch = some readEpoch) = true ∧
      ∀ key ∈ requiredKeys,
        index.checkCovered platform orgId generation manifest.model.dimensions key = .ok ()) ∧
      next = { index with
        activeGenerations := index.activeGenerations.put (orgId, generation) }.recordActivation
          (orgId, generation) := by
  unfold VectorIndex.activateGeneration at h
  obtain ⟨⟨⟩, horg, h⟩ := sequence_ok h
  obtain ⟨⟨⟩, hgeneration, h⟩ := sequence_ok h
  obtain ⟨⟨⟩, hepoch, h⟩ := sequence_ok h
  obtain ⟨⟨⟩, hproof, h⟩ := sequence_ok h
  obtain ⟨manifest, hmanifest, h⟩ := sequence_ok h
  obtain ⟨hreconciled, h⟩ := checked_ok h
  obtain ⟨⟨⟩, hcovered, h⟩ := sequence_ok h
  exact ⟨⟨required_ok horg, required_ok hgeneration, required_ok hepoch, hproof⟩,
    ⟨manifest, hmanifest, hreconciled, forM_ok hcovered⟩, (Except.ok.inj h).symm⟩

theorem removeGeneration_ok (h : index.removeGeneration platform orgId generation now = .ok next) :
    index.activeGenerations.get? orgId ≠ some (orgId, generation) ∧
      (∀ row ∈ index.jobs.rows, (row.orgId = orgId && row.generation = generation &&
        row.status = .running && row.leaseUntil.any fun bound => now.before bound) = false) ∧
      next = { index with
        retiredGenerations := index.retiredGenerations ++ [(orgId, generation)] }.deleteGenerations
          fun org id => org = orgId && id = generation := by
  unfold VectorIndex.removeGeneration at h
  obtain ⟨_, _, h⟩ := sequence_ok h
  obtain ⟨_, _, h⟩ := sequence_ok h
  obtain ⟨_, _, h⟩ := sequence_ok h
  obtain ⟨hactive, h⟩ := checked_ok h
  obtain ⟨hlive, h⟩ := checked_ok h
  obtain ⟨_, h⟩ := checked_ok h
  refine ⟨of_decide_eq_true hactive, fun row hrow => ?_, (Except.ok.inj h).symm⟩
  rw [Bool.not_eq_true'] at hlive
  exact Bool.eq_false_iff.mpr (List.any_eq_false.mp hlive row hrow)

theorem clearOrganization_ok (h : index.clearOrganization orgId = .ok next) :
    let cleared := index.deleteGenerations fun org _ => org = orgId
    next = { cleared with
      sourceHeads := cleared.sourceHeads.filter fun row => row.orgId ≠ orgId
      retiredGenerations := cleared.retiredGenerations.filter fun row => row.1 ≠ orgId } := by
  unfold VectorIndex.clearOrganization at h
  obtain ⟨_, _, h⟩ := sequence_ok h
  exact (Except.ok.inj h).symm

theorem reconcile_ok (h : index.reconcile platform orgId generation readEpoch heads = .ok next) :
    (∃ manifest, index.manifest platform orgId generation = .ok manifest) ∧
    ∃ reconciled, heads.foldlM (reconcileHead orgId generation) index = .ok reconciled ∧
      next = { reconciled with
        generations := reconciled.generations.update (orgId, generation)
          (fun row => { row with reconciledEpoch := some readEpoch }) fun _ => rfl } := by
  unfold VectorIndex.reconcile at h
  obtain ⟨_, _, h⟩ := sequence_ok h
  obtain ⟨_, _, h⟩ := sequence_ok h
  obtain ⟨manifest, hmanifest, h⟩ := sequence_ok h
  obtain ⟨_, _, h⟩ := sequence_ok h
  obtain ⟨reconciled, hreconciled, h⟩ := sequence_ok h
  exact ⟨⟨manifest, hmanifest⟩, reconciled, hreconciled, (Except.ok.inj h).symm⟩

theorem reconcileHead_ok (h : reconcileHead orgId generation index head = .ok next) :
    ∃ fence, let previous := index.sourceHeads.get? (orgId, head.source, head.externalId)
      let moved : VectorIndex := { index with
        sourceHeads := index.sourceHeads.put
          ⟨orgId, head.source, head.externalId, head.eventId, fence⟩ }
      next = (if previous.any fun row => row.eventId = head.eventId then moved
        else moved.supersede orgId head).insertJob orgId generation head fence := by
  unfold VectorIndex.reconcileHead at h
  obtain ⟨_, h⟩ := checked_ok h
  exact ⟨_, (Except.ok.inj h).symm⟩

theorem claim_ok {leaseMs limit : Nat} {result : VectorIndex × List EmbeddingJob}
    (h : index.claim orgId generation owner now leaseMs limit = .ok result) :
    ∃ leaseEnd, now.add leaseMs = .ok leaseEnd ∧
      let rows := (index.jobs.rows.filter (claimable orgId generation now)).take limit
      result = (index.updateJobs (fun row => (rows.map (·.id)).contains row.id)
          (claimedBy owner leaseEnd) fun _ => rfl,
        rows.map fun row => (claimedBy owner leaseEnd row).toEmbeddingJob) := by
  unfold VectorIndex.claim at h
  obtain ⟨_, _, h⟩ := sequence_ok h
  obtain ⟨_, _, h⟩ := sequence_ok h
  obtain ⟨_, _, h⟩ := sequence_ok h
  obtain ⟨_, _, h⟩ := sequence_ok h
  obtain ⟨_, _, h⟩ := sequence_ok h
  obtain ⟨leaseEnd, hend, h⟩ := sequence_ok h
  exact ⟨leaseEnd, hend, (Except.ok.inj h).symm⟩

theorem renew_ok {leaseMs : Nat} (h : index.renew job owner now leaseMs = .ok result) :
    ∃ leaseEnd, now.add leaseMs = .ok leaseEnd ∧
      result = (index.updateJobs (leasedTo job owner now) (renewedUntil leaseEnd) fun _ => rfl,
        index.jobs.rows.any (leasedTo job owner now)) := by
  unfold VectorIndex.renew at h
  obtain ⟨_, _, h⟩ := sequence_ok h
  obtain ⟨_, _, h⟩ := sequence_ok h
  obtain ⟨leaseEnd, hend, h⟩ := sequence_ok h
  exact ⟨leaseEnd, hend, (Except.ok.inj h).symm⟩

/-- The owner of a job stages a chunk that passes the checks of a published one, and follows the
last one. -/
structure Stages (platform : EmbeddingPlatform) (index : VectorIndex) (job : EmbeddingJob)
    (owner : String) (now : Stamp) (chunk : ContextVectorChunk) : Prop where
  owns : index.ownsJob job owner now = .ok true
  registered : ∃ generation, index.manifest platform job.orgId job.generation = .ok generation ∧
    chunk.ordinal < generation.maxChunksPerEvent ∧ Admits platform generation chunk
  unit : platform.isUnit chunk.vector = true
  permitted : index.assertVisualPermission job.orgId [chunk] = .ok ()
  ordinal : chunk.ordinal = (index.stagedOf job.id).getLast?.elim 0 (·.ordinal + 1)
  start : chunk.start = (index.stagedOf job.id).getLast?.elim 0 (·.stop)
  nonempty : chunk.start < chunk.stop

theorem stageChunk_ok {chunk : ContextVectorChunk}
    (h : index.stageChunk platform job owner now chunk = .ok result) :
    result = (index, false) ∨ index.Stages platform job owner now chunk ∧
      result = ({ index with stagedChunks := index.stagedChunks ++ [⟨job.id, chunk.stored⟩] },
        true) := by
  unfold VectorIndex.stageChunk at h
  obtain ⟨generation, hmanifest, h⟩ := sequence_ok h
  obtain ⟨hshape, h⟩ := checked_ok h
  obtain ⟨⟨⟩, hvector, h⟩ := sequence_ok h
  obtain ⟨⟨⟩, horigin, h⟩ := sequence_ok h
  obtain ⟨owns, howns, h⟩ := sequence_ok h
  cases owns with
  | false => exact Or.inl (Except.ok.inj h).symm
  | true =>
    obtain ⟨⟨⟩, hvisual, h⟩ := sequence_ok h
    obtain ⟨hplace, h⟩ := checked_ok h
    have hvector := throwUnless_ok hvector
    simp only [Bool.and_eq_true, decide_eq_true_eq] at hshape hvector hplace
    exact Or.inr ⟨⟨howns, ⟨generation, hmanifest, hshape.1.1, hshape.2, hvector.1, horigin⟩,
      hvector.2, hvisual, hplace.1, hplace.2, hshape.1.2⟩, (Except.ok.inj h).symm⟩

/-- A call on a job by who does not own it changes nothing. -/
theorem yieldJob_ok (h : index.yieldJob job owner now = .ok result) :
    result = (index, false) ∨ index.ownsJob job owner now = .ok true ∧
      result = (index.updateJobs (fun row => row.id = job.id) yielded fun _ => rfl, true) := by
  unfold VectorIndex.yieldJob at h
  obtain ⟨owns, howns, h⟩ := sequence_ok h
  cases owns with
  | false => exact Or.inl (Except.ok.inj h).symm
  | true => exact Or.inr ⟨howns, (Except.ok.inj h).symm⟩

/-- The owner of a job publishes what passes the checks. -/
structure Publishes (platform : EmbeddingPlatform) (index : VectorIndex) (job : EmbeddingJob)
    (owner : String) (now : Stamp) (chunks : List ContextVectorChunk) (noContent : Bool) :
    Prop where
  owns : index.ownsJob job owner now = .ok true
  registered : ∃ generation, index.manifest platform job.orgId job.generation = .ok generation ∧
    chunks.length ≤ generation.maxChunksPerEvent ∧
    checkPublished platform generation.model.dimensions 0 0 chunks = .ok ()
  empty : chunks = [] ↔ noContent = true
  permitted : index.assertVisualPermission job.orgId chunks = .ok ()

theorem complete_ok (h : index.complete platform job owner now chunks noContent = .ok result) :
    result = (index, false) ∨ index.Publishes platform job owner now chunks noContent ∧
      result = (index.publish job (job.contentHash.getD "") chunks noContent, true) := by
  unfold VectorIndex.complete at h
  obtain ⟨_, _, h⟩ := sequence_ok h
  obtain ⟨generation, hmanifest, h⟩ := sequence_ok h
  obtain ⟨hempty, h⟩ := checked_ok h
  obtain ⟨hshape, h⟩ := checked_ok h
  obtain ⟨⟨⟩, hchecked, h⟩ := sequence_ok h
  obtain ⟨owns, howns, h⟩ := sequence_ok h
  cases owns with
  | false => exact Or.inl (Except.ok.inj h).symm
  | true =>
    obtain ⟨⟨⟩, hvisual, h⟩ := sequence_ok h
    simp only [Bool.and_eq_true, decide_eq_true_eq] at hshape
    refine Or.inr ⟨⟨howns, ⟨generation, hmanifest, hshape.2, hchecked⟩, ?_, hvisual⟩,
      (Except.ok.inj h).symm⟩
    cases noContent with
    | true => simpa using (by simpa using hempty : _ ∧ chunks = []).2
    | false => simpa using hshape.1.2

theorem fail_ok {errorCode : String} {retryAt : Stamp} {retryable : Bool}
    (h : index.fail job owner now retryAt errorCode retryable = .ok result) :
    result = (index.updateJobs (leasedTo job owner now) (failedWith retryAt errorCode retryable)
        fun _ => rfl,
      index.jobs.rows.any (leasedTo job owner now)) := by
  unfold VectorIndex.fail at h
  obtain ⟨_, _, h⟩ := sequence_ok h
  obtain ⟨_, h⟩ := checked_ok h
  exact (Except.ok.inj h).symm

theorem retryQuarantined_ok {eventId : String}
    (h : index.retryQuarantined orgId generation eventId = .ok result) :
    result.1 = index.updateJobs (fun row => row.orgId = orgId && row.generation = generation &&
      row.eventId = eventId && row.status = .quarantined && index.isHeadOfJob row) retried
      fun _ => rfl := by
  unfold VectorIndex.retryQuarantined at h
  obtain ⟨_, _, h⟩ := sequence_ok h
  obtain ⟨_, _, h⟩ := sequence_ok h
  obtain ⟨_, _, h⟩ := sequence_ok h
  obtain rfl := Except.ok.inj h
  rfl

theorem retryFailed_ok {limit : Nat} {result : VectorIndex × Nat}
    (h : index.retryFailed orgId generation limit = .ok result) :
    result.1 = index.updateJobs (fun row => (((index.jobs.rows.filter fun row =>
      row.orgId = orgId && row.generation = generation &&
        (row.status = .failed || row.status = .quarantined) && row.operation ≠ .tombstone &&
        index.isHeadOfJob row).take limit).map (·.id)).contains row.id) retried fun _ => rfl := by
  unfold VectorIndex.retryFailed at h
  obtain ⟨_, _, h⟩ := sequence_ok h
  obtain ⟨_, _, h⟩ := sequence_ok h
  obtain ⟨_, _, h⟩ := sequence_ok h
  obtain rfl := Except.ok.inj h
  rfl

theorem setVisualEnabled_ok {enabled : Bool} (h : index.setVisualEnabled orgId enabled = .ok next) :
    next = index ∨ ∃ allowed,
      let kept := if enabled then index
        else (index.visualDocuments orgId).foldl VectorIndex.dropVisual index
      let settled := (kept.dropCheckpoints orgId).updateJobs (reopened orgId allowed) requeued
        fun _ => rfl
      next = { settled with visualPolicies := settled.visualPolicies.put (orgId, enabled) } := by
  unfold VectorIndex.setVisualEnabled at h
  obtain ⟨_, _, h⟩ := sequence_ok h
  by_cases hsame : (index.visualPolicies.get? orgId).map (·.2) = some enabled
  · rw [if_pos hsame] at h
    exact Or.inl (Except.ok.inj h).symm
  · rw [if_neg hsame] at h
    exact Or.inr ⟨_, (Except.ok.inj h).symm⟩

theorem fst_map_ok {α : Type} {x : Except EmbedThrown (VectorIndex × α)}
    (h : Prod.fst <$> x = .ok next) : ∃ result, x = .ok result ∧ result.1 = next := by
  cases x with
  | error thrown => cases h
  | ok result => exact ⟨result, rfl, Except.ok.inj h⟩

/-! ## Changes -/

/-- The job is neither done nor superseded. -/
def isOpen (row : JobRow) : Bool :=
  row.status = .pending || row.status = .running || row.status = .failed ||
    row.status = .quarantined

def documentOf (row : JobRow) : DocumentKey := ⟨row.orgId, row.generation, row.eventId⟩

/-- An update that leaves a job what it is about, and neither closes nor skips it. -/
structure KeepsJob (f : JobRow → JobRow) : Prop where
  id : ∀ row, (f row).id = row.id
  document : ∀ row, documentOf (f row) = documentOf row
  opened : ∀ row, isOpen row = true → isOpen (f row) = true
  skipped : ∀ row, (f row).status = .skipped → row.status = .skipped

/-- What calls are made of, up to the chunks that the owner of a job stages or publishes. -/
inductive Change (platform : EmbeddingPlatform) (call : IndexCall) :
    VectorIndex → VectorIndex → Prop where
  | updatesJobs {index : VectorIndex} {p : JobRow → Bool} {f : JobRow → JobRow}
      (h : KeepsJob f) : Change platform call index (index.updateJobs p f h.id)
  | registers {index next : VectorIndex} {orgId : String} {generation : EmbeddingGeneration}
      (h : index.registerGeneration platform orgId generation = .ok next) :
      Change platform call index next
  | activates {index next : VectorIndex} {orgId generation readEpoch : String}
      {requiredKeys : List ContextLexicalKey}
      (h : index.activateGeneration platform orgId generation readEpoch requiredKeys =
        .ok next) : Change platform call index next
  | removes {index next : VectorIndex} {orgId generation : String} {now : Stamp}
      (htakes : call.takes) (h : index.removeGeneration platform orgId generation now = .ok next) :
      Change platform call index next
  | clears {index next : VectorIndex} {orgId : String} (htakes : call.takes)
      (h : index.clearOrganization orgId = .ok next) : Change platform call index next
  | moves {index next : VectorIndex} {orgId generation : String} {head : EmbeddingSourceHead}
      (htakes : call.takes)
      (hregistered : (index.generations.get? (orgId, generation)).isSome = true)
      (h : reconcileHead orgId generation index head = .ok next) :
      Change platform call index next
  | reconciles (index : VectorIndex) (key : String × String) (readEpoch : String) :
      Change platform call index { index with
        generations := index.generations.update key
          (fun row => { row with reconciledEpoch := some readEpoch }) fun _ => rfl }
  | dropsVisual (index : VectorIndex) (key : DocumentKey) :
      Change platform call index (index.dropVisual key)
  | reopens (index : VectorIndex) (orgId : String) (allowed enabled : Bool)
      (htakes : call.takes) : Change platform call index
        { (index.dropCheckpoints orgId).updateJobs (reopened orgId allowed) requeued
            fun _ => rfl with
          visualPolicies := index.visualPolicies.put (orgId, enabled) }

theorem insertJob_generations (index : VectorIndex) (orgId generation : String)
    (head : EmbeddingSourceHead) (fence : Nat) :
    (index.insertJob orgId generation head fence).generations = index.generations := by
  unfold VectorIndex.insertJob
  split <;> rfl

theorem reconcileHead_generations
    (h : VectorIndex.reconcileHead orgId generation index head = .ok next) :
    next.generations = index.generations := by
  obtain ⟨fence, rfl⟩ := reconcileHead_ok h
  rw [insertJob_generations]
  split <;> rfl

theorem claimedBy_keepsJob (owner : String) (leaseEnd : Stamp) :
    KeepsJob (claimedBy owner leaseEnd) :=
  ⟨fun _ => rfl, fun _ => rfl, fun _ _ => rfl, fun _ hskipped => by cases hskipped⟩

theorem renewedUntil_keepsJob (leaseEnd : Stamp) : KeepsJob (renewedUntil leaseEnd) :=
  ⟨fun _ => rfl, fun _ => rfl, fun _ hopen => hopen, fun _ hskipped => hskipped⟩

theorem yielded_keepsJob : KeepsJob yielded :=
  ⟨fun _ => rfl, fun _ => rfl, fun _ _ => rfl, fun _ hskipped => by cases hskipped⟩

theorem failedWith_keepsJob (retryAt : Stamp) (errorCode : String) (retryable : Bool) :
    KeepsJob (failedWith retryAt errorCode retryable) := by
  refine ⟨fun _ => rfl, fun _ => rfl, fun _ _ => ?_, fun _ hskipped => ?_⟩
  · cases retryable <;> rfl
  · cases retryable <;> cases hskipped

theorem retried_keepsJob : KeepsJob retried :=
  ⟨fun _ => rfl, fun _ => rfl, fun _ _ => rfl, fun _ hskipped => by cases hskipped⟩

open Relation (ReflTransGen)

theorem changes_reconcile (htakes : call.takes)
    (h : index.reconcile platform orgId generation readEpoch heads = .ok next) :
    ReflTransGen (Change platform call) index next := by
  obtain ⟨⟨_, hmanifest⟩, reconciled, hreconciled, rfl⟩ := reconcile_ok h
  obtain ⟨registered, hget, -⟩ := manifest_ok hmanifest
  have hheads : ReflTransGen (Change platform call) index reconciled ∧
      reconciled.generations = index.generations := by
    refine foldlM_invariant (fun s => ReflTransGen (Change platform call) index s ∧
      s.generations = index.generations) (fun s _ s' hs hstep => ?_) heads index reconciled
      ⟨.refl, rfl⟩ hreconciled
    have hregistered : (s.generations.get? (orgId, generation)).isSome = true := by
      rw [hs.2, hget]
      rfl
    exact ⟨hs.1.tail (.moves htakes hregistered hstep),
      (reconcileHead_generations hstep).trans hs.2⟩
  exact hheads.1.tail (.reconciles reconciled _ readEpoch)

theorem changes_setVisualEnabled {enabled : Bool} (htakes : call.takes)
    (h : index.setVisualEnabled orgId enabled = .ok next) :
    ReflTransGen (Change platform call) index next := by
  rcases setVisualEnabled_ok h with rfl | ⟨allowed, rfl⟩
  · exact .refl
  · refine ReflTransGen.tail ?_ (.reopens _ orgId allowed enabled htakes)
    split
    · exact .refl
    · exact run_invariant dropVisual (ReflTransGen (Change platform call) index)
        (fun s key hs => hs.tail (.dropsVisual s key)) index .refl _

/-- Every call that ends is made of changes, or is one that the owner of a job makes. -/
theorem after_cases (h : index.after platform call = .ok next) :
    ReflTransGen (Change platform call) index next ∨
      (∃ job owner now chunk, call = .stageChunk job owner now chunk ∧
        index.Stages platform job owner now chunk ∧
        next = { index with stagedChunks := index.stagedChunks ++ [⟨job.id, chunk.stored⟩] }) ∨
      ∃ job owner now chunks noContent, call = .complete job owner now chunks noContent ∧
        index.Publishes platform job owner now chunks noContent ∧
        next = index.publish job (job.contentHash.getD "") chunks noContent := by
  cases call with
  | setVisualEnabled orgId enabled => exact .inl (changes_setVisualEnabled trivial h)
  | registerGeneration orgId generation => exact .inl (.single (.registers h))
  | activateGeneration orgId generation readEpoch requiredKeys =>
    exact .inl (.single (.activates h))
  | removeGeneration orgId generation now => exact .inl (.single (.removes trivial h))
  | clearOrganization orgId => exact .inl (.single (.clears trivial h))
  | reconcile orgId generation readEpoch heads => exact .inl (changes_reconcile trivial h)
  | claim orgId generation owner now leaseMs limit =>
    obtain ⟨result, hresult, rfl⟩ := fst_map_ok h
    obtain ⟨leaseEnd, _, rfl⟩ := claim_ok hresult
    exact .inl (.single (.updatesJobs (claimedBy_keepsJob owner leaseEnd)))
  | renew job owner now leaseMs =>
    obtain ⟨result, hresult, rfl⟩ := fst_map_ok h
    obtain ⟨leaseEnd, _, rfl⟩ := renew_ok hresult
    exact .inl (.single (.updatesJobs (renewedUntil_keepsJob leaseEnd)))
  | stageChunk job owner now chunk =>
    obtain ⟨result, hresult, rfl⟩ := fst_map_ok h
    rcases stageChunk_ok hresult with rfl | ⟨hstages, rfl⟩
    · exact .inl .refl
    · exact .inr (.inl ⟨job, owner, now, chunk, rfl, hstages, rfl⟩)
  | yieldJob job owner now =>
    obtain ⟨result, hresult, rfl⟩ := fst_map_ok h
    rcases yieldJob_ok hresult with rfl | ⟨_, rfl⟩
    · exact .inl .refl
    · exact .inl (.single (.updatesJobs yielded_keepsJob))
  | complete job owner now chunks noContent =>
    obtain ⟨result, hresult, rfl⟩ := fst_map_ok h
    rcases complete_ok hresult with rfl | ⟨hpublishes, rfl⟩
    · exact .inl .refl
    · exact .inr (.inr ⟨job, owner, now, chunks, noContent, rfl, hpublishes, rfl⟩)
  | fail job owner now retryAt errorCode retryable =>
    obtain ⟨result, hresult, rfl⟩ := fst_map_ok h
    obtain rfl := fail_ok hresult
    exact .inl (.single (.updatesJobs (failedWith_keepsJob retryAt errorCode retryable)))
  | retryQuarantined orgId generation eventId =>
    obtain ⟨result, hresult, rfl⟩ := fst_map_ok h
    rw [retryQuarantined_ok hresult]
    exact .inl (.single (.updatesJobs retried_keepsJob))
  | retryFailed orgId generation limit =>
    obtain ⟨result, hresult, rfl⟩ := fst_map_ok h
    rw [retryFailed_ok hresult]
    exact .inl (.single (.updatesJobs retried_keepsJob))

/-- What every change keeps, all of them keep. -/
theorem changes_invariant (inv : VectorIndex → Prop)
    (hinv : ∀ {s s'}, inv s → Change platform call s s' → inv s') (h : inv index)
    (hchanges : ReflTransGen (Change platform call) index next) : inv next := by
  induction hchanges with
  | refl => exact h
  | tail _ hchange ih => exact hinv ih hchange

/-- What every call that ends keeps holds after any calls. -/
theorem run_of_after {inv : VectorIndex → Prop}
    (hinv : ∀ {index next call}, inv index → index.after platform call = .ok next → inv next)
    (hempty : inv {}) (calls : List IndexCall) : inv (run (step platform) {} calls) := by
  refine run_invariant (step platform) inv (fun index call h => ?_) {} hempty calls
  unfold step
  split
  · next hdone => exact hinv h hdone
  · exact h

end VectorIndex

end Regenic.Embedding
