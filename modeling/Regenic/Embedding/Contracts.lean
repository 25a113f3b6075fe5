import Regenic.Lib.Checked
import Regenic.Lib.Rounding
import Regenic.Lib.Text
import Regenic.Lib.Utf16

/-!
What is embedded: the text and the attachments of an event, the chunks made of them with their
vectors, and the checks that a chunk passes on its way into the index. Texts are strings of UTF-16
code units, and numbers are rationals.
-/

namespace Regenic.Embedding

open Lib

inductive ExtractorVersion where
  | storedBodyTextV1
  | storedBodyAndAttachmentsV2
  deriving DecidableEq, Repr

structure EmbeddingModelDescriptor where
  modelId : String
  modelRevision : String
  tokenizerRevision : String
  dimensions : Nat
  maxInputTokens : Nat
  queryTemplate : String
  documentTemplate : String
  deriving DecidableEq, Repr

/-- The recipe that vectors are made by, under the hash of it. -/
structure EmbeddingGeneration where
  id : String
  model : EmbeddingModelDescriptor
  extractorVersion : ExtractorVersion
  chunkTokens : Nat
  maxChunksPerEvent : Nat
  deriving DecidableEq, Repr

inductive ChunkMode where
  | text
  | visual
  deriving DecidableEq, Repr

/-- The part of an event that a chunk comes from, and where in it. -/
structure ContextChunkOrigin where
  partIndex : Int
  contentHash : String
  mode : ChunkMode
  start : Nat
  text : Option CodeUnits := none
  deriving DecidableEq, Repr

/-- A chunk from `start` up to `stop`, the `end` of the source. -/
structure ContextVectorChunk where
  ordinal : Nat
  start : Nat
  stop : Nat
  textHash : String
  vector : List ℚ
  origin : Option ContextChunkOrigin := none
  deriving DecidableEq, Repr

structure ContextSearchPart where
  partIndex : Int
  contentHash : Option String := none
  text : Option CodeUnits := none
  projectionStart : Option Nat := none
  deriving DecidableEq, Repr

structure ContextEmbeddingAttachment where
  partIndex : Option Int := none
  contentHash : String
  mediaType : String
  sourceFilename : Option String := none
  bytes : List UInt8
  deriving DecidableEq, Repr

structure ContextEmbeddingMaterial where
  text : Option CodeUnits := none
  searchParts : List ContextSearchPart := []
  attachments : List ContextEmbeddingAttachment := []
  deriving DecidableEq, Repr

structure EmbeddingAttachmentInput where
  mediaType : String
  sourceFilename : Option String
  bytes : List UInt8
  deriving DecidableEq, Repr

structure ProcessedEmbeddingAttachment where
  text : Option CodeUnits := none
  vectors : List (List ℚ)
  skippedVisual : Bool := false
  deriving DecidableEq, Repr

/-- A provider that answers the same question the same way. -/
structure EmbeddingProvider where
  visualEnabled : Option Bool := none
  countTokens : CodeUnits → Nat
  embed : CodeUnits → List ℚ
  processAttachment : Option (EmbeddingAttachmentInput → ProcessedEmbeddingAttachment) := none

/-- What the platform computes: digests of a text and of the recipe of a generation, whether the
norm of a vector, which is taken in floating point, is one, the cosine of two vectors, and whether
a text has words of a query, by the Unicode tables of the runtime. -/
structure EmbeddingPlatform where
  sha256 : CodeUnits → String
  recipeId : EmbeddingModelDescriptor → ExtractorVersion → Nat → Nat → String
  isUnit : List ℚ → Bool
  cosine : List ℚ → List ℚ → ℚ
  lexicalHit : CodeUnits → CodeUnits → Bool

/-! ## Errors -/

inductive EmbeddingErrorCode where
  | invalidInput
  | unavailable
  | timeout
  | cancelled
  | invalidResponse
  | modelMismatch
  | inputTooLarge
  | unsupportedAttachment
  deriving DecidableEq, Repr

inductive NotReadyReason where
  | authorityChanged
  | backfillIncomplete
  deriving DecidableEq, Repr

inductive EmbedThrown where
  | embedding (code : EmbeddingErrorCode) (retryable : Bool)
  /-- `ContextTextMaterialError`. -/
  | textMaterial
  /-- `ContextVectorUnavailableError` for a generation that is not registered. -/
  | unbuilt
  /-- `ContextVectorUnavailableError` for rows that are corrupt. -/
  | corrupt
  /-- `EmbeddingGenerationNotReadyError`. -/
  | notReady (reason : NotReadyReason)
  /-- `EmbeddingBatchYield`. -/
  | batchYield
  | error (message : String)
  deriving DecidableEq, Repr

def tooLarge : EmbedThrown := .embedding .inputTooLarge false

def invalidResponse : EmbedThrown := .embedding .invalidResponse true

def contentMismatch : EmbedThrown := .error "Embedding checkpoint content mismatch"

/-! ## Checks -/

def isHexDigit (c : Char) : Bool := c.isDigit || ('a' ≤ c && c ≤ 'f')

/-- `/^[a-f0-9]{64}$/`. -/
def validHash (value : String) : Bool := value.length = 64 && value.toList.all isHexDigit

/-- `/^[a-f0-9]{40,64}$/`. -/
def validRevision (value : String) : Bool :=
  40 ≤ value.length && value.length ≤ 64 && value.toList.all isHexDigit

def blank (value : String) : Bool := jsTrim value = ""

def EmbeddingModelDescriptor.valid (model : EmbeddingModelDescriptor) : Bool :=
  !blank model.modelId && validRevision model.modelRevision &&
    validRevision model.tokenizerRevision && 1 ≤ model.dimensions && model.dimensions ≤ 4096 &&
    32 ≤ model.maxInputTokens && model.maxInputTokens ≤ 131072 &&
    !blank model.queryTemplate && !blank model.documentTemplate

section Checks

variable (platform : EmbeddingPlatform)

def embeddingGeneration (model : EmbeddingModelDescriptor) (chunkTokens maxChunksPerEvent : Nat)
    (extractorVersion : ExtractorVersion) : Except EmbedThrown EmbeddingGeneration := do
  throwUnless model.valid (.error "Invalid embedding model descriptor")
  throwUnless (32 ≤ chunkTokens && chunkTokens ≤ model.maxInputTokens &&
    1 ≤ maxChunksPerEvent && maxChunksPerEvent ≤ 1024) (.error "Invalid embedding chunk budget")
  .ok {
    id := platform.recipeId model extractorVersion chunkTokens maxChunksPerEvent
    model, extractorVersion, chunkTokens, maxChunksPerEvent }

/-- The generation is the one that its recipe makes. -/
def isManifest (generation : EmbeddingGeneration) : Bool :=
  embeddingGeneration platform generation.model generation.chunkTokens
    generation.maxChunksPerEvent generation.extractorVersion = .ok generation

def validateEmbeddingVector (vector : List ℚ) (dimensions : Nat) : Except EmbedThrown Unit :=
  throwUnless (vector.length = dimensions && platform.isUnit vector) invalidResponse

/-- What the hash of a chunk with this origin is taken of. -/
def ContextChunkOrigin.digested (origin : ContextChunkOrigin) : CodeUnits :=
  match origin.mode with
  | .text => origin.text.getD []
  | .visual => utf16 (origin.contentHash ++ ":" ++ toString origin.start)

def validOrigin (origin : ContextChunkOrigin) (hash : String) (length : Nat) : Bool :=
  -1 ≤ origin.partIndex && validHash origin.contentHash &&
    (match origin.mode with
      | .text => origin.text.any fun text => text.length = length
      | .visual => origin.text = none && length = 1) &&
    platform.sha256 origin.digested = hash

/-- The origin is written as JSON and is read back as it was, when it is a valid one. -/
def parseOrigin (chunk : ContextVectorChunk) : Except EmbedThrown Unit :=
  match chunk.origin with
  | none => .ok ()
  | some origin =>
    throwUnless (validOrigin platform origin chunk.textHash (chunk.stop - chunk.start)) .corrupt

end Checks

/-! ## Stored chunks -/

/-- The chunk as a row holds it: the numbers of its vector are written as `Float32`. -/
def ContextVectorChunk.stored (chunk : ContextVectorChunk) : ContextVectorChunk :=
  { chunk with vector := chunk.vector.map fround }

@[simp] theorem stored_ordinal (chunk : ContextVectorChunk) :
    chunk.stored.ordinal = chunk.ordinal := rfl

@[simp] theorem stored_start (chunk : ContextVectorChunk) : chunk.stored.start = chunk.start := rfl

@[simp] theorem stored_stop (chunk : ContextVectorChunk) : chunk.stored.stop = chunk.stop := rfl

@[simp] theorem stored_textHash (chunk : ContextVectorChunk) :
    chunk.stored.textHash = chunk.textHash := rfl

@[simp] theorem stored_origin (chunk : ContextVectorChunk) :
    chunk.stored.origin = chunk.origin := rfl

/-- A row that is read and written again stays as it is. -/
@[simp] theorem stored_stored (chunk : ContextVectorChunk) :
    chunk.stored.stored = chunk.stored := by
  have hvector : (chunk.vector.map fround).map fround = chunk.vector.map fround := by
    rw [List.map_map]
    apply List.map_congr_left
    intro number _
    exact fround_fround number
  unfold ContextVectorChunk.stored
  rw [hvector]

/-! ## Chunks in order -/

/-- `ORDER BY ordinal`. -/
def byOrdinal (chunks : List ContextVectorChunk) : List ContextVectorChunk :=
  chunks.mergeSort fun first second => first.ordinal ≤ second.ordinal

/-- The chunks carry the ordinals from `ordinal` on, and each starts where the last one ends. -/
def Tiles : Nat → Nat → List ContextVectorChunk → Prop
  | _, _, [] => True
  | ordinal, start, chunk :: rest =>
    chunk.ordinal = ordinal ∧ chunk.start = start ∧ start < chunk.stop ∧
      Tiles (ordinal + 1) chunk.stop rest

theorem Tiles.le_ordinal {ordinal start : Nat} {chunks : List ContextVectorChunk}
    (h : Tiles ordinal start chunks) : ∀ chunk ∈ chunks, ordinal ≤ chunk.ordinal := by
  induction chunks generalizing ordinal start with
  | nil => simp
  | cons first rest ih =>
    obtain ⟨hordinal, _, _, hrest⟩ := h
    intro chunk hmem
    rcases List.mem_cons.mp hmem with rfl | hmem
    · omega
    · have := ih hrest chunk hmem
      omega

theorem Tiles.start_lt_stop {ordinal start : Nat} {chunks : List ContextVectorChunk}
    (h : Tiles ordinal start chunks) : ∀ chunk ∈ chunks, chunk.start < chunk.stop := by
  induction chunks generalizing ordinal start with
  | nil => simp
  | cons first rest ih =>
    obtain ⟨_, hstart, hlt, hrest⟩ := h
    intro chunk hmem
    rcases List.mem_cons.mp hmem with rfl | hmem
    · omega
    · exact ih hrest chunk hmem

/-- The ordinals ascend. -/
theorem Tiles.ascending {ordinal start : Nat} {chunks : List ContextVectorChunk}
    (h : Tiles ordinal start chunks) :
    chunks.Pairwise fun first second => first.ordinal < second.ordinal := by
  induction chunks generalizing ordinal start with
  | nil => exact List.Pairwise.nil
  | cons first rest ih =>
    obtain ⟨hordinal, _, _, hrest⟩ := h
    refine List.Pairwise.cons (fun chunk hmem => ?_) (ih hrest)
    have := hrest.le_ordinal chunk hmem
    omega

theorem Tiles.stored {ordinal start : Nat} {chunks : List ContextVectorChunk}
    (h : Tiles ordinal start chunks) :
    Tiles ordinal start (chunks.map ContextVectorChunk.stored) := by
  induction chunks generalizing ordinal start with
  | nil => exact trivial
  | cons first rest ih =>
    obtain ⟨hordinal, hstart, hlt, hrest⟩ := h
    exact ⟨hordinal, hstart, hlt, ih hrest⟩

/-- Rows come out of the table in the order of their ordinals, however they stand in it. -/
theorem byOrdinal_of_perm {ordinal start : Nat} {rows chunks : List ContextVectorChunk}
    (hperm : rows.Perm chunks) (h : Tiles ordinal start chunks) : byOrdinal rows = chunks := by
  have hperm' : (byOrdinal rows).Perm chunks := (List.mergeSort_perm _ _).trans hperm
  have hsorted : (byOrdinal rows).Pairwise fun first second =>
      (decide (first.ordinal ≤ second.ordinal)) = true :=
    List.pairwise_mergeSort (fun a b c hab hbc => by simp at *; omega)
      (fun a b => by simp; omega) rows
  have hascending := h.ascending
  refine List.Perm.eq_of_pairwise (fun first second hfirst hsecond hle hge => ?_) hsorted
    (hascending.imp fun hlt => by simp; omega) hperm'
  have hfirst' := hperm'.mem_iff.mp hfirst
  have heq : first.ordinal = second.ordinal := by
    simp only [decide_eq_true_eq] at hle hge
    omega
  by_contra hne
  rcases List.pairwise_iff_getElem.mp hascending with hlt
  obtain ⟨i, hi, rfl⟩ := List.getElem_of_mem hfirst'
  obtain ⟨j, hj, rfl⟩ := List.getElem_of_mem hsecond
  rcases Nat.lt_trichotomy i j with hij | rfl | hij
  · have := hlt i j hi hj hij
    omega
  · exact hne rfl
  · have := hlt j i hj hi hij
    omega

/-- The ordinal and the start of the chunk that comes after `chunks`. -/
theorem tiles_append {ordinal start : Nat} {chunks : List ContextVectorChunk}
    {chunk : ContextVectorChunk} :
    Tiles ordinal start (chunks ++ [chunk]) ↔ Tiles ordinal start chunks ∧
      chunk.ordinal = chunks.getLast?.elim ordinal (·.ordinal + 1) ∧
      chunk.start = chunks.getLast?.elim start (·.stop) ∧ chunk.start < chunk.stop := by
  induction chunks generalizing ordinal start with
  | nil =>
    simp only [List.nil_append, Tiles, List.getLast?_nil, Option.elim_none]
    constructor
    · rintro ⟨hordinal, hstart, hlt, -⟩
      exact ⟨trivial, hordinal, hstart, by omega⟩
    · rintro ⟨-, hordinal, hstart, hlt⟩
      exact ⟨hordinal, hstart, by omega, trivial⟩
  | cons first rest ih =>
    have hlast : ∀ {α : Type} (none : α) (some : ContextVectorChunk → α),
        (first :: rest).getLast?.elim none some = rest.getLast?.elim (some first) some := by
      intro α none some
      cases rest with
      | nil => rfl
      | cons second rest =>
        rw [List.getLast?_cons_cons, List.getLast?_eq_some_getLast (by simp)]
        rfl
    rw [hlast, hlast]
    simp only [List.cons_append, Tiles, ih]
    constructor
    · rintro ⟨hordinal, hstart, hlt, hrest, hplace⟩
      exact ⟨⟨hordinal, hstart, hlt, hrest⟩, hordinal ▸ hplace⟩
    · rintro ⟨⟨hordinal, hstart, hlt, hrest⟩, hplace⟩
      exact ⟨hordinal, hstart, hlt, hrest, hordinal ▸ hplace⟩

theorem Tiles.next_ordinal {ordinal start : Nat} {chunks : List ContextVectorChunk}
    (h : Tiles ordinal start chunks) :
    chunks.getLast?.elim ordinal (·.ordinal + 1) = ordinal + chunks.length := by
  induction chunks generalizing ordinal start with
  | nil => rfl
  | cons first rest ih =>
    obtain ⟨hordinal, _, _, hrest⟩ := h
    cases rest with
    | nil => simp [hordinal]
    | cons second rest =>
      have hnext := ih hrest
      rw [List.getLast?_cons_cons, List.length_cons]
      rw [List.getLast?_eq_some_getLast (by simp)] at hnext ⊢
      simp only [Option.elim_some] at hnext ⊢
      omega

section Admitted

variable (platform : EmbeddingPlatform)

/-- The chunk is one that the generation admits. -/
structure Admits (generation : EmbeddingGeneration) (chunk : ContextVectorChunk) : Prop where
  hash : validHash chunk.textHash = true
  dimensions : chunk.vector.length = generation.model.dimensions
  origin : parseOrigin platform chunk = .ok ()

variable {platform}

theorem Admits.stored {generation : EmbeddingGeneration} {chunk : ContextVectorChunk}
    (h : Admits platform generation chunk) : Admits platform generation chunk.stored where
  hash := h.hash
  dimensions := (List.length_map _).trans h.dimensions
  origin := h.origin

end Admitted

end Regenic.Embedding
