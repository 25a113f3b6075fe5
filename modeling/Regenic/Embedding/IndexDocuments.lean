import Mathlib.Data.List.Sort
import Regenic.Embedding.VectorIndex
import Regenic.Lib.Run

/-!
The documents that the index exposes. In every state that any calls reach, each coverage row is
about the head of its source, its generation is registered, and its chunks are the ones it counts,
one after the other from the start of the material.
-/

namespace Regenic.Embedding

open Lib

/-! ## Chunks without the visual ones -/

namespace VectorIndex

/-- The text chunks of a document, numbered and placed anew. -/
def renumbered : Nat → Nat → List ContextVectorChunk → List ContextVectorChunk
  | _, _, [] => []
  | ordinal, start, chunk :: rest =>
    if isVisual chunk then renumbered ordinal start rest
    else
      let stop := start + (chunk.stop - chunk.start)
      { chunk with ordinal, start, stop } :: renumbered (ordinal + 1) stop rest

theorem tiles_renumbered {chunks : List ContextVectorChunk} (ordinal start : Nat)
    (h : ∀ chunk ∈ chunks, chunk.start < chunk.stop) :
    Tiles ordinal start (renumbered ordinal start chunks) := by
  induction chunks generalizing ordinal start with
  | nil => exact trivial
  | cons first rest ih =>
    have hrest := fun ordinal start => ih ordinal start fun chunk hmem =>
      h chunk (List.mem_cons_of_mem _ hmem)
    have hfirst := h first List.mem_cons_self
    unfold renumbered
    split
    · exact hrest ordinal start
    · refine ⟨rfl, rfl, ?_, hrest _ _⟩
      simp only
      omega

/-- What is kept of a chunk but its place. -/
theorem mem_renumbered {chunks : List ContextVectorChunk} {ordinal start : Nat}
    {chunk : ContextVectorChunk} (h : chunk ∈ renumbered ordinal start chunks) :
    ∃ old ∈ chunks, chunk.vector = old.vector ∧ chunk.textHash = old.textHash ∧
      chunk.origin = old.origin ∧ chunk.stop - chunk.start = old.stop - old.start := by
  induction chunks generalizing ordinal start with
  | nil => cases h
  | cons first rest ih =>
    unfold renumbered at h
    split at h
    · obtain ⟨old, hold, hsame⟩ := ih h
      exact ⟨old, List.mem_cons_of_mem _ hold, hsame⟩
    · rcases List.mem_cons.mp h with rfl | h
      · refine ⟨first, List.mem_cons_self, rfl, rfl, rfl, ?_⟩
        simp only
        omega
      · obtain ⟨old, hold, hsame⟩ := ih h
        exact ⟨old, List.mem_cons_of_mem _ hold, hsame⟩

theorem length_renumbered_le (ordinal start : Nat) (chunks : List ContextVectorChunk) :
    (renumbered ordinal start chunks).length ≤ chunks.length := by
  induction chunks generalizing ordinal start with
  | nil => exact Nat.le_refl 0
  | cons first rest ih =>
    unfold renumbered
    split
    · exact (ih ordinal start).trans (Nat.le_succ _)
    · exact Nat.succ_le_succ (ih _ _)

/-- The chunks of one document in a table. -/
def rowsOf (key : DocumentKey) (table : List ChunkRow) : List ContextVectorChunk :=
  (table.filter fun row => row.toDocumentKey = key).map (·.chunk)

theorem chunksOf_eq (index : VectorIndex) (key : DocumentKey) :
    index.chunksOf key = byOrdinal (rowsOf key index.chunks) := rfl

theorem rowsOf_filter_ordinal (key : DocumentKey) (ordinal : Nat) (table : List ChunkRow) :
    rowsOf key (table.filter fun row =>
        !(decide (row.toDocumentKey = key) && decide (row.chunk.ordinal = ordinal))) =
      (rowsOf key table).filter fun chunk => chunk.ordinal ≠ ordinal := by
  unfold rowsOf
  rw [List.filter_map, List.filter_filter, List.filter_filter]
  congr 1
  refine List.filter_congr fun row _ => ?_
  by_cases hkey : row.toDocumentKey = key <;> simp [hkey]

theorem rowsOf_map_ordinal (key : DocumentKey) (ordinal : Nat)
    (place : ContextVectorChunk → ContextVectorChunk) (table : List ChunkRow) :
    rowsOf key (table.map fun row =>
        if decide (row.toDocumentKey = key) && decide (row.chunk.ordinal = ordinal) then
          { row with chunk := place row.chunk } else row) =
      (rowsOf key table).map fun chunk =>
        if chunk.ordinal = ordinal then place chunk else chunk := by
  induction table with
  | nil => rfl
  | cons row rest ih =>
    unfold rowsOf at ih ⊢
    by_cases hkey : row.toDocumentKey = key
    · by_cases hordinal : row.chunk.ordinal = ordinal
      · simp only [List.map_cons, hkey, hordinal, decide_true, Bool.and_self, if_true,
          List.filter_cons_of_pos, ih]
      · simp only [List.map_cons, hkey, hordinal, decide_true, decide_false, Bool.and_false,
          Bool.false_eq_true, if_false, List.filter_cons_of_pos, ih]
    · simp only [List.map_cons, hkey, decide_false, Bool.false_and, Bool.false_eq_true, if_false,
        not_false_eq_true, List.filter_cons_of_neg, ih]

theorem rowsOf_map_other {other : DocumentKey} {f : ChunkRow → ChunkRow} {table : List ChunkRow}
    (hkey : ∀ row, (f row).toDocumentKey = row.toDocumentKey)
    (hother : ∀ row, row.toDocumentKey = other → f row = row) :
    rowsOf other (table.map f) = rowsOf other table := by
  unfold rowsOf
  induction table with
  | nil => rfl
  | cons row rest ih =>
    by_cases hrow : row.toDocumentKey = other
    · simp only [List.map_cons, hrow, hother row hrow, decide_true, List.filter_cons_of_pos, ih]
    · simp only [List.map_cons, hkey, hrow, decide_false, Bool.false_eq_true, not_false_eq_true,
        List.filter_cons_of_neg, ih]

theorem rowsOf_filter_other {other : DocumentKey} {p : ChunkRow → Bool} {table : List ChunkRow}
    (hother : ∀ row ∈ table, row.toDocumentKey = other → p row = true) :
    rowsOf other (table.filter p) = rowsOf other table := by
  unfold rowsOf
  rw [List.filter_filter]
  congr 1
  refine List.filter_congr fun row hrow => ?_
  by_cases hkey : row.toDocumentKey = other
  · simp [hkey, hother row hrow hkey]
  · simp [hkey]

/-- A document keeps its rows while another one loses its visual chunks. -/
theorem rowsOf_dropVisualChunk_other {key other : DocumentKey} (hne : other ≠ key)
    (state : List ChunkRow × Nat × Nat) (chunk : ContextVectorChunk) :
    rowsOf other (dropVisualChunk key state chunk).1 = rowsOf other state.1 := by
  unfold dropVisualChunk
  split
  · exact rowsOf_filter_other fun row _ hrow => by simp [hrow, hne]
  · refine rowsOf_map_other (fun row => ?_) fun row hrow => by simp [hrow, hne]
    simp only
    split <;> rfl

theorem rowsOf_foldl_dropVisualChunk_other {key other : DocumentKey} (hne : other ≠ key)
    (chunks : List ContextVectorChunk) (state : List ChunkRow × Nat × Nat) :
    rowsOf other (chunks.foldl (dropVisualChunk key) state).1 = rowsOf other state.1 := by
  induction chunks generalizing state with
  | nil => rfl
  | cons first rest ih => exact (ih _).trans (rowsOf_dropVisualChunk_other hne state first)

/-- What is left of a document is its text chunks, numbered and placed anew: `kept` stands for
the chunks that are done, `rest` for those whose turn has not come. -/
theorem foldl_dropVisualChunk {key : DocumentKey} {table : List ChunkRow}
    {kept rest : List ContextVectorChunk} {ordinal next from_ : Nat} (start : Nat)
    (hperm : (rowsOf key table).Perm (kept ++ rest))
    (hkept : ∀ chunk ∈ kept, chunk.ordinal < ordinal) (hle : ordinal ≤ next)
    (hrest : Tiles next from_ rest) :
    let left := rest.foldl (dropVisualChunk key) (table, ordinal, start)
    (rowsOf key left.1).Perm (kept ++ renumbered ordinal start rest) ∧
      left.2.1 = ordinal + (renumbered ordinal start rest).length := by
  induction rest generalizing table kept ordinal start next from_ with
  | nil => exact ⟨hperm, rfl⟩
  | cons first rest ih =>
    obtain ⟨hfirst, _, _, htail⟩ := hrest
    have hlater : ∀ chunk ∈ rest, chunk.ordinal ≠ first.ordinal := by
      intro chunk hmem heq
      have := htail.le_ordinal chunk hmem
      omega
    have hearlier : ∀ chunk ∈ kept, chunk.ordinal ≠ first.ordinal := by
      intro chunk hmem heq
      have := hkept chunk hmem
      omega
    simp only [List.foldl_cons]
    cases hvisual : isVisual first with
    | true =>
      have hstep : dropVisualChunk key (table, ordinal, start) first =
          (table.filter fun row => !(decide (row.toDocumentKey = key) &&
            decide (row.chunk.ordinal = first.ordinal)), ordinal, start) := by
        unfold dropVisualChunk
        simp only [hvisual, if_true]
      have hrows : (rowsOf key (dropVisualChunk key (table, ordinal, start) first).1).Perm
          (kept ++ rest) := by
        rw [hstep, rowsOf_filter_ordinal]
        refine (hperm.filter _).trans ?_
        rw [List.filter_append, List.filter_cons_of_neg (by simp),
          List.filter_eq_self.mpr (by simpa using hearlier),
          List.filter_eq_self.mpr (by simpa using hlater)]
      have hafter := ih start hrows hkept (Nat.le_succ_of_le hle) htail
      rw [hstep] at hafter ⊢
      simpa only [renumbered, hvisual, if_true] using hafter
    | false =>
      let stop := start + (first.stop - first.start)
      let place (chunk : ContextVectorChunk) : ContextVectorChunk :=
        { chunk with ordinal, start, stop }
      have hstep : dropVisualChunk key (table, ordinal, start) first =
          (table.map fun row => if decide (row.toDocumentKey = key) &&
            decide (row.chunk.ordinal = first.ordinal) then
              { row with chunk := place row.chunk } else row, ordinal + 1, stop) := by
        unfold dropVisualChunk
        simp only [hvisual, Bool.false_eq_true, if_false]
        rfl
      have hrows : (rowsOf key (dropVisualChunk key (table, ordinal, start) first).1).Perm
          ((kept ++ [place first]) ++ rest) := by
        rw [hstep, rowsOf_map_ordinal]
        refine (hperm.map _).trans ?_
        rw [List.map_append, List.map_cons, if_pos rfl, List.append_assoc,
          List.map_congr_left fun chunk hmem => if_neg (hearlier chunk hmem),
          List.map_congr_left fun chunk hmem => if_neg (hlater chunk hmem), List.map_id',
          List.map_id']
        rfl
      have hkept' : ∀ chunk ∈ kept ++ [place first], chunk.ordinal < ordinal + 1 := by
        intro chunk hmem
        rcases List.mem_append.mp hmem with hmem | hmem
        · have := hkept chunk hmem
          omega
        · obtain rfl := List.mem_singleton.mp hmem
          exact Nat.lt_succ_self _
      have hafter := ih stop hrows hkept' (Nat.succ_le_succ hle) htail
      rw [hstep] at hafter ⊢
      simp only [renumbered, hvisual, Bool.false_eq_true, if_false]
      simp only [List.append_assoc] at hafter
      exact ⟨hafter.1, hafter.2.trans ((Nat.add_right_comm _ _ _).trans (Nat.add_assoc _ _ _))⟩

/-! ## Sound documents -/

variable (platform : EmbeddingPlatform)

/-- The document of a coverage row is live and whole. -/
structure SoundDocument (index : VectorIndex) (row : CoverageRow) : Prop where
  live : index.isHeadOf row = true
  registered : ∃ generation, index.generations.get? (row.orgId, row.generation) = some generation ∧
    row.chunkCount ≤ generation.manifest.maxChunksPerEvent ∧
    ∀ chunk ∈ index.chunksOf row.toDocumentKey, Admits platform generation.manifest chunk
  counted : (index.chunksOf row.toDocumentKey).length = row.chunkCount
  nonempty : 1 ≤ row.chunkCount
  tiled : Tiles 0 0 (index.chunksOf row.toDocumentKey)

/-- Every document is sound, every chunk belongs to one, and every manifest is the one that its
recipe makes. -/
structure Documented (index : VectorIndex) : Prop where
  sound : ∀ row ∈ index.coverage.rows, SoundDocument platform index row
  owned : ∀ row ∈ index.chunks, (index.coverage.get? row.toDocumentKey).isSome = true
  manifests : ∀ row ∈ index.generations.rows, isManifest platform row.manifest = true

/-- The documents that `next` still has are those of `index`, and what they rest on stands. -/
structure KeepsDocuments (index next : VectorIndex) : Prop where
  covered : ∀ row ∈ next.coverage.rows, row ∈ index.coverage.rows
  chunks : ∀ row ∈ next.coverage.rows,
    rowsOf row.toDocumentKey next.chunks = rowsOf row.toDocumentKey index.chunks
  owned : ∀ row ∈ next.chunks, row ∈ index.chunks ∧
    ((index.coverage.get? row.toDocumentKey).isSome = true →
      (next.coverage.get? row.toDocumentKey).isSome = true)
  heads : ∀ row ∈ next.coverage.rows, index.isHeadOf row = true → next.isHeadOf row = true
  generations : ∀ row ∈ next.coverage.rows, ∀ generation,
    index.generations.get? (row.orgId, row.generation) = some generation →
      ∃ generation', next.generations.get? (row.orgId, row.generation) = some generation' ∧
        generation'.manifest = generation.manifest
  manifests : ∀ row ∈ next.generations.rows, isManifest platform row.manifest = true ∨
    ∃ old ∈ index.generations.rows, old.manifest = row.manifest

variable {platform}
variable {index next : VectorIndex} {call : IndexCall} {row : CoverageRow} {key other : DocumentKey}
  {chunks : List ContextVectorChunk} {ordinal start : Nat} {orgId generation : String}

theorem Documented.keeps (h : Documented platform index)
    (hkeeps : KeepsDocuments platform index next) : Documented platform next where
  sound := by
    intro row hrow
    have hsound := h.sound row (hkeeps.covered row hrow)
    have hchunks : next.chunksOf row.toDocumentKey = index.chunksOf row.toDocumentKey := by
      rw [chunksOf_eq, chunksOf_eq, hkeeps.chunks row hrow]
    obtain ⟨generation, hget, hmax, hadmits⟩ := hsound.registered
    obtain ⟨generation', hget', hmanifest⟩ := hkeeps.generations row hrow generation hget
    refine ⟨hkeeps.heads row hrow hsound.live, ⟨generation', hget', ?_, ?_⟩, ?_,
      hsound.nonempty, ?_⟩
    · exact hmanifest ▸ hmax
    · rw [hchunks, hmanifest]
      exact hadmits
    · rw [hchunks]
      exact hsound.counted
    · rw [hchunks]
      exact hsound.tiled
  owned := fun row hrow =>
    (hkeeps.owned row hrow).2 (h.owned row (hkeeps.owned row hrow).1)
  manifests := by
    intro row hrow
    rcases hkeeps.manifests row hrow with hmanifest | ⟨old, hold, heq⟩
    · exact hmanifest
    · exact heq ▸ h.manifests old hold

/-- Calls that leave the documents and what they rest on alone. -/
structure SameDocuments (index next : VectorIndex) : Prop where
  coverage : next.coverage = index.coverage
  chunks : next.chunks = index.chunks
  sourceHeads : next.sourceHeads = index.sourceHeads
  generations : next.generations = index.generations

theorem isHeadOf_iff :
    index.isHeadOf row = true ↔ ∃ head,
      index.sourceHeads.get? (row.orgId, row.source, row.externalId) = some head ∧
        head.eventId = row.eventId := by
  unfold isHeadOf
  rw [Option.any_eq_true]
  simp

theorem isHeadOf_congr (h : next.sourceHeads = index.sourceHeads) (row : CoverageRow) :
    next.isHeadOf row = index.isHeadOf row := by
  unfold isHeadOf
  rw [h]

theorem Documented.same (h : Documented platform index) (hsame : SameDocuments index next) :
    Documented platform next := by
  refine h.keeps ⟨?_, ?_, ?_, ?_, ?_, ?_⟩
  · rw [hsame.coverage]
    exact fun row hrow => hrow
  · rw [hsame.chunks]
    exact fun row _ => rfl
  · rw [hsame.chunks, hsame.coverage]
    exact fun row hrow => ⟨hrow, id⟩
  · exact fun row _ hlive => (isHeadOf_congr hsame.sourceHeads row).trans hlive
  · rw [hsame.generations]
    exact fun row _ generation hget => ⟨generation, hget, rfl⟩
  · rw [hsame.generations]
    exact fun row hrow => Or.inr ⟨row, hrow, rfl⟩

theorem Documented.updateJobs (h : Documented platform index) (p : JobRow → Bool)
    (f : JobRow → JobRow) (hid : ∀ row, (f row).id = row.id) :
    Documented platform (index.updateJobs p f hid) :=
  h.same ⟨rfl, rfl, rfl, rfl⟩

/-- A document is sound as long as its chunks, the heads and the generations stay. -/
theorem SoundDocument.congr (h : SoundDocument platform index row)
    (hchunks : rowsOf row.toDocumentKey next.chunks = rowsOf row.toDocumentKey index.chunks)
    (hheads : next.sourceHeads = index.sourceHeads)
    (hgenerations : next.generations = index.generations) : SoundDocument platform next row := by
  have hsame : next.chunksOf row.toDocumentKey = index.chunksOf row.toDocumentKey := by
    rw [chunksOf_eq, chunksOf_eq, hchunks]
  obtain ⟨generation, hget, hmax, hadmits⟩ := h.registered
  exact ⟨(isHeadOf_congr hheads row).trans h.live,
    ⟨generation, hgenerations ▸ hget, hmax, hsame ▸ hadmits⟩, hsame ▸ h.counted, h.nonempty,
    hsame ▸ h.tiled⟩

/-- Deleting documents, whole, with whatever head or generation only they rested on. -/
theorem keeps_of_deleted {p : CoverageRow → Bool} {q : ChunkRow → Bool}
    (hcoverage : next.coverage = index.coverage.filter fun row => !p row)
    (hchunks : next.chunks = index.chunks.filter q) (hq : ∀ row ∈ index.chunks, ∀ covering,
      index.coverage.get? row.toDocumentKey = some covering → q row = !p covering)
    (hheads : ∀ row ∈ index.coverage.rows, p row = false → index.isHeadOf row = true →
      next.isHeadOf row = true)
    (hgenerations : ∀ row ∈ index.coverage.rows, p row = false → ∀ generation,
      index.generations.get? (row.orgId, row.generation) = some generation →
        ∃ generation', next.generations.get? (row.orgId, row.generation) = some generation' ∧
          generation'.manifest = generation.manifest)
    (hmanifests : ∀ row ∈ next.generations.rows, isManifest platform row.manifest = true ∨
      ∃ old ∈ index.generations.rows, old.manifest = row.manifest) :
    KeepsDocuments platform index next := by
  have hmem : ∀ row ∈ next.coverage.rows, row ∈ index.coverage.rows ∧ p row = false := by
    intro row hrow
    rw [hcoverage] at hrow
    simpa using List.mem_filter.mp hrow
  refine ⟨fun row hrow => (hmem row hrow).1, ?_, ?_,
    fun row hrow => hheads row (hmem row hrow).1 (hmem row hrow).2,
    fun row hrow => hgenerations row (hmem row hrow).1 (hmem row hrow).2, hmanifests⟩
  · intro row hrow
    obtain ⟨hold, hp⟩ := hmem row hrow
    rw [hchunks]
    refine rowsOf_filter_other fun chunk hchunk hkey => ?_
    rw [hq chunk hchunk row (by rw [hkey, Table.get?_key hold]), hp]
    rfl
  · intro row hrow
    rw [hchunks] at hrow
    obtain ⟨hold, hkept⟩ := List.mem_filter.mp hrow
    refine ⟨hold, fun hsome => ?_⟩
    obtain ⟨covering, hget⟩ := Option.isSome_iff_exists.mp hsome
    rw [hq row hold covering hget] at hkept
    rw [hcoverage, Table.get?_filter, hget, Option.filter_some, if_pos hkept]
    rfl

theorem Documented.deleteCoverage (h : Documented platform index) (p : CoverageRow → Bool) :
    Documented platform (index.deleteCoverage p) :=
  h.keeps (keeps_of_deleted rfl rfl
    (fun row _ covering hget => by rw [hget, Option.any_some])
    (fun _ _ _ => id) (fun _ _ _ generation hget => ⟨generation, hget, rfl⟩)
    fun row hrow => Or.inr ⟨row, hrow, rfl⟩)

theorem get?_coverage_key (h : index.coverage.get? key = some row) : row.toDocumentKey = key :=
  (Table.get?_eq_some.mp h).2

theorem Documented.deleteGenerations (h : Documented platform index) (p : String → String → Bool) :
    Documented platform (index.deleteGenerations p) := by
  refine h.keeps (keeps_of_deleted rfl rfl ?_ (fun _ _ _ => id) ?_ ?_)
  · intro row _ covering hget
    rw [get?_coverage_key hget]
  · intro row _ hp generation hget
    have hkey : (generation.orgId, generation.manifest.id) = (row.orgId, row.generation) :=
      (Table.get?_eq_some.mp hget).2
    obtain ⟨horg, hid⟩ := Prod.mk.injEq .. ▸ hkey
    refine ⟨generation, ?_, rfl⟩
    rw [VectorIndex.deleteGenerations, Table.get?_filter, hget, Option.filter_some, horg, hid,
      if_pos (by simp [hp])]
  · exact fun row hrow => Or.inr ⟨row, (List.mem_filter.mp hrow).1, rfl⟩

/-! ## Every call keeps the documents sound -/

theorem Documented.registerGeneration (h : Documented platform index)
    {generation : EmbeddingGeneration}
    (hdone : index.registerGeneration platform orgId generation = .ok next) :
    Documented platform next := by
  obtain ⟨hmanifest, _, _, rfl⟩ := registerGeneration_ok hdone
  split
  · exact h.same ⟨rfl, rfl, rfl, rfl⟩
  · next hfree =>
    refine h.keeps ⟨fun row hrow => hrow, fun row _ => rfl, fun row hrow => ⟨hrow, id⟩,
      fun row _ hlive => hlive, ?_, ?_⟩
    · intro row _ old hget
      refine ⟨old, ?_, rfl⟩
      simp only [recordActivation, Table.get?_put]
      rw [if_neg, hget]
      intro hkey
      apply hfree
      rw [show (orgId, generation.id) = (row.orgId, row.generation) from hkey, hget]
      rfl
    · intro row hrow
      rcases Table.mem_put.mp hrow with rfl | ⟨hold, _⟩
      · exact Or.inl hmanifest
      · exact Or.inr ⟨row, hold, rfl⟩

theorem Documented.clearOrganization (h : Documented platform index)
    (hdone : index.clearOrganization orgId = .ok next) : Documented platform next := by
  obtain rfl := clearOrganization_ok hdone
  have hcleared := h.deleteGenerations fun org _ => org = orgId
  refine hcleared.keeps ⟨fun row hrow => hrow, fun row _ => rfl, fun row hrow => ⟨hrow, id⟩, ?_,
    fun row _ generation hget => ⟨generation, hget, rfl⟩, fun row hrow => Or.inr ⟨row, hrow, rfl⟩⟩
  intro row hrow hlive
  have horg : row.orgId ≠ orgId := by
    have hkept := (List.mem_filter.mp hrow).2
    simpa using hkept
  obtain ⟨head, hget, hevent⟩ := isHeadOf_iff.mp hlive
  have hkey : (head.orgId, head.source, head.externalId) =
      (row.orgId, row.source, row.externalId) := (Table.get?_eq_some.mp hget).2
  refine isHeadOf_iff.mpr ⟨head, ?_, hevent⟩
  simp only
  rw [Table.get?_filter, hget, Option.filter_some, if_pos]
  rw [(Prod.mk.inj hkey).1]
  exact decide_eq_true horg

theorem isHeadOf_put {head : HeadRow}
    (h : HeadRow.key head ≠ (row.orgId, row.source, row.externalId) ∨
      head.eventId = row.eventId) (hlive : index.isHeadOf row = true) :
    VectorIndex.isHeadOf { index with sourceHeads := index.sourceHeads.put head } row = true := by
  obtain ⟨old, hget, hevent⟩ := isHeadOf_iff.mp hlive
  refine isHeadOf_iff.mpr ?_
  simp only [Table.get?_put]
  rcases h with hkey | hsame
  · exact ⟨old, by rw [if_neg hkey, hget], hevent⟩
  · split
    · exact ⟨head, rfl, hsame⟩
    · exact ⟨old, hget, hevent⟩

/-- A new head takes the documents of its source away, and the same head leaves them. -/
theorem Documented.reconcileHead (h : Documented platform index) {head : EmbeddingSourceHead}
    (hdone : VectorIndex.reconcileHead orgId generation index head = .ok next) :
    Documented platform next := by
  obtain ⟨fence, rfl⟩ := reconcileHead_ok hdone
  have hinsert : ∀ {settled : VectorIndex} (fence : Nat), Documented platform settled →
      Documented platform (settled.insertJob orgId generation head fence) := by
    intro settled fence hsettled
    unfold insertJob
    split
    · exact hsettled
    · exact hsettled.same ⟨rfl, rfl, rfl, rfl⟩
  refine hinsert _ ?_
  split
  · next hsame =>
    obtain ⟨old, hold, hevent⟩ := (Option.any_eq_true ..).mp hsame
    refine h.keeps ⟨fun row hrow => hrow, fun row _ => rfl, fun row hrow => ⟨hrow, id⟩, ?_,
      fun row _ g hget => ⟨g, hget, rfl⟩, fun row hrow => Or.inr ⟨row, hrow, rfl⟩⟩
    intro row _ hlive
    refine isHeadOf_put ?_ hlive
    by_cases hkey : (orgId, head.source, head.externalId) = (row.orgId, row.source, row.externalId)
    · right
      obtain ⟨current, hget, hcurrent⟩ := isHeadOf_iff.mp hlive
      rw [← hkey, hold] at hget
      obtain rfl := Option.some.inj hget
      exact (of_decide_eq_true hevent).symm.trans hcurrent
    · exact Or.inl hkey
  · unfold supersede
    refine h.keeps (keeps_of_deleted rfl rfl
      (fun row _ covering hget => by rw [hget, Option.any_some]) ?_
      (fun _ _ _ g hget => ⟨g, hget, rfl⟩) fun row hrow => Or.inr ⟨row, hrow, rfl⟩)
    intro row _ hother hlive
    refine isHeadOf_put (Or.inl fun hkey => ?_) hlive
    obtain ⟨horg, hrest⟩ := Prod.mk.inj hkey
    obtain ⟨hsource, hexternal⟩ := Prod.mk.inj hrest
    simp only at horg hsource hexternal
    simp [horg, hsource, hexternal] at hother

theorem Documented.reconciles (h : Documented platform index) (key : String × String)
    (readEpoch : String) : Documented platform { index with
      generations := index.generations.update key
        (fun row => { row with reconciledEpoch := some readEpoch }) fun _ => rfl } := by
  refine h.keeps ⟨fun row hrow => hrow, fun row _ => rfl, fun row hrow => ⟨hrow, id⟩,
    fun row _ hlive => hlive, ?_, ?_⟩
  · intro row _ g hget
    have hupdate := Table.get?_update index.generations key
      (fun row => { row with reconciledEpoch := some readEpoch }) (fun _ => rfl)
      (row.orgId, row.generation)
    rw [hget] at hupdate
    split at hupdate
    · exact ⟨_, hupdate, rfl⟩
    · exact ⟨g, hupdate, rfl⟩
  · intro row hrow
    obtain ⟨old, hold, rfl⟩ := List.mem_map.mp hrow
    refine Or.inr ⟨old, hold, ?_⟩
    split <;> rfl

/-! ### Publishing -/

theorem tiles_of_checkPublished {dimensions : Nat}
    (h : checkPublished platform dimensions ordinal start chunks = .ok ()) :
    Tiles ordinal start chunks := by
  induction chunks generalizing ordinal start with
  | nil => exact trivial
  | cons first rest ih =>
    obtain ⟨hplace, h⟩ := checked_ok h
    obtain ⟨_, _, h⟩ := sequence_ok h
    obtain ⟨_, _, h⟩ := sequence_ok h
    simp only [Bool.and_eq_true, decide_eq_true_eq] at hplace
    exact ⟨hplace.1.1.1, hplace.1.1.2, hplace.1.2, ih h⟩

theorem admits_of_checkPublished {generation : EmbeddingGeneration}
    (h : checkPublished platform generation.model.dimensions ordinal start chunks = .ok ()) :
    ∀ chunk ∈ chunks, Admits platform generation chunk ∧ platform.isUnit chunk.vector = true := by
  induction chunks generalizing ordinal start with
  | nil => simp
  | cons first rest ih =>
    obtain ⟨hplace, h⟩ := checked_ok h
    obtain ⟨⟨⟩, hvector, h⟩ := sequence_ok h
    obtain ⟨⟨⟩, horigin, h⟩ := sequence_ok h
    have hvector := throwUnless_ok hvector
    simp only [Bool.and_eq_true, decide_eq_true_eq] at hplace hvector
    intro chunk hmem
    rcases List.mem_cons.mp hmem with rfl | hmem
    · exact ⟨⟨hplace.2, hvector.1, horigin⟩, hvector.2⟩
    · exact ih h chunk hmem

/-- The rows of a document that has none before, and of the others, after its chunks are added. -/
theorem rowsOf_append (key other : DocumentKey) (table : List ChunkRow)
    (chunks : List ContextVectorChunk) :
    rowsOf other (table ++ chunks.map fun chunk => { toDocumentKey := key, chunk }) =
      rowsOf other table ++ if key = other then chunks else [] := by
  unfold rowsOf
  rw [List.filter_append, List.map_append, List.filter_map, List.map_map]
  congr 1
  split
  · next hkey =>
    rw [List.filter_eq_self.mpr fun chunk _ => by simp [hkey]]
    exact List.map_id' _
  · next hkey =>
    rw [List.filter_eq_nil_iff.mpr fun chunk _ => by simp [hkey], List.map_nil]

theorem mem_deleteCoverage
    (h : row ∈ (index.deleteCoverage fun row => row.toDocumentKey = key).coverage.rows) :
    row.toDocumentKey ≠ key := by
  simpa using (List.mem_filter.mp h).2

theorem Documented.rowsOf_deleted (h : Documented platform index) (key : DocumentKey) :
    rowsOf key (index.deleteCoverage fun row => row.toDocumentKey = key).chunks = [] := by
  unfold rowsOf
  rw [List.map_eq_nil_iff, List.filter_eq_nil_iff]
  intro row hrow hkey
  obtain ⟨hold, hkept⟩ := List.mem_filter.mp hrow
  obtain ⟨covering, hget⟩ := Option.isSome_iff_exists.mp (h.owned row hold)
  have hcovering := get?_coverage_key hget
  rw [hget] at hkept
  simp only [decide_eq_true_eq] at hkey
  simp [hcovering, hkey] at hkept

theorem coverage_putIf {covering : CoverageRow} (noContent : Bool)
    (h : row ∈ (if noContent then index.coverage else index.coverage.put covering).rows) :
    row ∈ index.coverage.rows ∧ (noContent = false →
      row.toDocumentKey ≠ covering.toDocumentKey) ∨ noContent = false ∧ row = covering := by
  cases noContent with
  | true => exact Or.inl ⟨h, fun hno => absurd hno (by simp)⟩
  | false =>
    rcases Table.mem_put.mp h with rfl | ⟨hold, hne⟩
    · exact Or.inr ⟨rfl, rfl⟩
    · exact Or.inl ⟨hold, fun _ => hne⟩

theorem publish_coverage (index : VectorIndex) (job : EmbeddingJob) (hash : String)
    (chunks : List ContextVectorChunk) (noContent : Bool) :
    (index.publish job hash chunks noContent).coverage =
      if noContent then (index.deleteCoverage fun row =>
        row.toDocumentKey = ⟨job.orgId, job.generation, job.eventId⟩).coverage
      else (index.deleteCoverage fun row =>
        row.toDocumentKey = ⟨job.orgId, job.generation, job.eventId⟩).coverage.put
          ⟨⟨job.orgId, job.generation, job.eventId⟩, hash, job.source, job.externalId,
            chunks.length⟩ := rfl

/-- A publication that passed its checks, for a head that stands, is a sound document. -/
theorem Documented.publish (h : Documented platform index) {job : EmbeddingJob} {hash : String}
    {noContent : Bool} {generation : GenerationRow}
    (hregistered : index.generations.get? (job.orgId, job.generation) = some generation)
    (hcount : noContent = true ∧ chunks = [] ∨ noContent = false ∧ 1 ≤ chunks.length ∧
      chunks.length ≤ generation.manifest.maxChunksPerEvent) (htiles : Tiles 0 0 chunks)
    (hadmits : ∀ chunk ∈ chunks, Admits platform generation.manifest chunk)
    (hlive : index.isHeadOf ⟨⟨job.orgId, job.generation, job.eventId⟩, hash, job.source,
      job.externalId, chunks.length⟩ = true) :
    Documented platform (index.publish job hash chunks noContent) := by
  let key : DocumentKey := ⟨job.orgId, job.generation, job.eventId⟩
  let uncovered := index.deleteCoverage fun row => row.toDocumentKey = key
  have hdeleted : Documented platform uncovered := h.deleteCoverage _
  have hempty : rowsOf key uncovered.chunks = [] := h.rowsOf_deleted key
  let next := index.publish job hash chunks noContent
  have hrows : ∀ other, rowsOf other next.chunks =
      rowsOf other uncovered.chunks ++
        if key = other then chunks.map ContextVectorChunk.stored else [] := by
    intro other
    rw [← rowsOf_append]
    unfold next VectorIndex.publish
    simp only [List.map_map]
    rfl
  have hstored : Tiles 0 0 (chunks.map ContextVectorChunk.stored) := htiles.stored
  have hchunks : next.chunksOf key = chunks.map ContextVectorChunk.stored := by
    rw [chunksOf_eq, hrows, hempty, if_pos rfl]
    exact byOrdinal_of_perm (List.Perm.refl _) hstored
  constructor
  · intro row hrow
    rcases coverage_putIf noContent hrow with ⟨hold, _⟩ | ⟨hcontent, rfl⟩
    · have hne := mem_deleteCoverage hold
      have hsound := hdeleted.sound row hold
      have hsame : next.chunksOf row.toDocumentKey = uncovered.chunksOf row.toDocumentKey := by
        rw [chunksOf_eq, hrows, if_neg (Ne.symm hne), List.append_nil, ← chunksOf_eq]
      obtain ⟨g, hget, hmax, hin⟩ := hsound.registered
      refine ⟨hsound.live, ⟨g, hget, hmax, ?_⟩, ?_, hsound.nonempty, ?_⟩
      · rw [hsame]
        exact hin
      · rw [hsame]
        exact hsound.counted
      · rw [hsame]
        exact hsound.tiled
    · rcases hcount with ⟨hno, _⟩ | ⟨_, hne, hmax⟩
      · exact absurd (hno.symm.trans hcontent) (by simp)
      refine ⟨hlive, ⟨generation, hregistered, hmax, ?_⟩, ?_, hne, ?_⟩
      · rw [hchunks]
        intro chunk hmem
        obtain ⟨old, hold, rfl⟩ := List.mem_map.mp hmem
        exact (hadmits old hold).stored
      · rw [hchunks]
        exact List.length_map _
      · rw [hchunks]
        exact hstored
  · intro row hrow
    rcases List.mem_append.mp hrow with hold | hnew
    · have hsome := hdeleted.owned row hold
      rw [publish_coverage]
      split
      · exact hsome
      · rw [Table.get?_put]
        split
        · rfl
        · exact hsome
    · obtain ⟨chunk, hmem, rfl⟩ := List.mem_map.mp hnew
      rcases hcount with ⟨_, rfl⟩ | ⟨hcontent, _, _⟩
      · cases hmem
      · rw [publish_coverage, hcontent, if_neg (by simp), Table.get?_put, if_pos rfl]
        rfl
  · exact h.manifests

theorem Documented.publishes (h : Documented platform index) {job : EmbeddingJob}
    {owner hash : String} {now : Stamp} {noContent : Bool}
    (hpublishes : index.Publishes platform job owner now chunks noContent) :
    Documented platform (index.publish job hash chunks noContent) := by
  obtain ⟨generation, hmanifest, hlength, hchecked⟩ := hpublishes.registered
  obtain ⟨registered, hregistered, rfl⟩ := manifest_ok hmanifest
  obtain ⟨row, _, hleased, hevent, _, hsource, hexternal, hhead⟩ := ownsJob_ok hpublishes.owns
  have hplace := leasedTo_iff.mp hleased
  refine h.publish hregistered ?_ (tiles_of_checkPublished hchecked)
    (fun chunk hmem => (admits_of_checkPublished hchecked chunk hmem).1) ?_
  · cases noContent with
    | true => exact Or.inl ⟨rfl, hpublishes.empty.mpr rfl⟩
    | false =>
      have hne : chunks ≠ [] := fun hnil => Bool.false_ne_true (hpublishes.empty.mp hnil)
      exact Or.inr ⟨rfl, List.length_pos_iff.mpr hne, hlength⟩
  · unfold isHeadOfJob at hhead
    rw [hplace.2.1, hsource, hexternal] at hhead
    obtain ⟨head, hget, hfits⟩ := (Option.any_eq_true ..).mp hhead
    simp only [Bool.and_eq_true, decide_eq_true_eq] at hfits
    exact isHeadOf_iff.mpr ⟨head, hget, hfits.1.trans hevent⟩

/-! ### Losing the visual chunks -/

theorem mem_foldl_dropVisualChunk {row : ChunkRow} (chunks : List ContextVectorChunk)
    (state : List ChunkRow × Nat × Nat) (h : row ∈ (chunks.foldl (dropVisualChunk key) state).1) :
    ∃ old ∈ state.1, old.toDocumentKey = row.toDocumentKey ∧
      old.chunk.vector = row.chunk.vector := by
  induction chunks generalizing state with
  | nil => exact ⟨row, h, rfl, rfl⟩
  | cons first rest ih =>
    obtain ⟨middle, hmiddle, hkey, hvector⟩ := ih _ h
    unfold dropVisualChunk at hmiddle
    split at hmiddle
    · exact ⟨middle, (List.mem_filter.mp hmiddle).1, hkey, hvector⟩
    · obtain ⟨old, hold, rfl⟩ := List.mem_map.mp hmiddle
      refine ⟨old, hold, hkey ▸ ?_, hvector ▸ ?_⟩ <;> split <;> rfl

theorem chunksOf_perm (index : VectorIndex) (key : DocumentKey) :
    (rowsOf key index.chunks).Perm (index.chunksOf key) :=
  (List.mergeSort_perm _ _).symm

theorem parseOrigin_congr {chunk old : ContextVectorChunk} (hhash : chunk.textHash = old.textHash)
    (horigin : chunk.origin = old.origin)
    (hlength : chunk.stop - chunk.start = old.stop - old.start) :
    parseOrigin platform chunk = parseOrigin platform old := by
  unfold parseOrigin
  rw [hhash, horigin, hlength]

theorem Admits.renumbered {generation : EmbeddingGeneration}
    (h : ∀ chunk ∈ chunks, Admits platform generation chunk) :
    ∀ chunk ∈ VectorIndex.renumbered ordinal start chunks, Admits platform generation chunk := by
  intro chunk hmem
  obtain ⟨old, hold, hvector, hhash, horigin, hlength⟩ := mem_renumbered hmem
  have hadmits := h old hold
  exact ⟨hhash ▸ hadmits.hash, hvector ▸ hadmits.dimensions,
    (parseOrigin_congr hhash horigin hlength).trans hadmits.origin⟩

/-- What a document is before it loses its visual chunks: without a coverage row it has none. -/
theorem Documented.tiled (h : Documented platform index) (key : DocumentKey) :
    Tiles 0 0 (index.chunksOf key) := by
  cases hget : index.coverage.get? key with
  | some row =>
    obtain ⟨hrow, rfl⟩ := Table.get?_eq_some.mp hget
    exact (h.sound row hrow).tiled
  | none =>
    have hnone : rowsOf key index.chunks = [] := by
      unfold rowsOf
      rw [List.map_eq_nil_iff, List.filter_eq_nil_iff]
      intro row hrow hkey
      have hsome := h.owned row hrow
      rw [of_decide_eq_true hkey, hget] at hsome
      cases hsome
    rw [chunksOf_eq, hnone, byOrdinal, List.mergeSort_nil]
    exact trivial

theorem Documented.dropVisual (h : Documented platform index) (key : DocumentKey) :
    Documented platform (index.dropVisual key) := by
  have htiled := h.tiled key
  obtain ⟨hperm, hcount⟩ := @foldl_dropVisualChunk key index.chunks [] (index.chunksOf key) 0 0 0 0
    (chunksOf_perm index key) (fun _ hmem => by cases hmem) (Nat.le_refl 0) htiled
  let left := (index.chunksOf key).foldl (dropVisualChunk key) (index.chunks, 0, 0)
  let texts := VectorIndex.renumbered 0 0 (index.chunksOf key)
  have htexts : Tiles 0 0 texts := tiles_renumbered 0 0 htiled.start_lt_stop
  have hown : rowsOf key left.1 |>.Perm texts := hperm
  have hother : ∀ {other : DocumentKey}, other ≠ key →
      rowsOf other left.1 = rowsOf other index.chunks := fun hne =>
    rowsOf_foldl_dropVisualChunk_other hne _ _
  have hkeys : ∀ row ∈ left.1, (index.coverage.get? row.toDocumentKey).isSome = true := by
    intro row hrow
    obtain ⟨old, hold, hkey, _⟩ := mem_foldl_dropVisualChunk _ _ hrow
    exact hkey ▸ h.owned old hold
  have hlength : left.2.1 = texts.length := hcount.trans (Nat.zero_add _)
  unfold VectorIndex.dropVisual
  simp only
  split
  · have hdropped : Documented platform (VectorIndex.deleteCoverage { index with chunks := left.1 }
        fun row => row.toDocumentKey = key) := by
      refine ⟨?_, ?_, h.manifests⟩
      · intro row hrow
        have hne := mem_deleteCoverage hrow
        have hold : row ∈ index.coverage.rows := (List.mem_filter.mp hrow).1
        refine (h.sound row hold).congr ?_ rfl rfl
        refine (rowsOf_filter_other fun chunk _ hkey => ?_).trans (hother hne)
        rw [hkey, Table.get?_key hold]
        simp [hne]
      · intro row hrow
        obtain ⟨hold, hkept⟩ := List.mem_filter.mp hrow
        obtain ⟨covering, hget⟩ := Option.isSome_iff_exists.mp (hkeys row hold)
        simp only [hget, Option.any_some] at hkept
        refine Option.isSome_iff_exists.mpr ⟨covering, ?_⟩
        simp only [VectorIndex.deleteCoverage]
        rw [Table.get?_filter, hget, Option.filter_some, if_pos hkept]
    exact hdropped.updateJobs _ _ _
  · next hsome =>
    refine ⟨?_, ?_, h.manifests⟩
    · intro row hrow
      obtain ⟨old, hold, rfl⟩ := List.mem_map.mp hrow
      have hsound := h.sound old hold
      split
      · next hkey =>
        have hkey := of_decide_eq_true hkey
        have hchunks : byOrdinal (rowsOf old.toDocumentKey left.1) = texts := by
          rw [hkey]
          exact byOrdinal_of_perm hown htexts
        obtain ⟨generation, hget, hmax, hadmits⟩ := hsound.registered
        refine ⟨isHeadOf_iff.mpr (isHeadOf_iff.mp hsound.live), ⟨generation, hget, ?_, ?_⟩, ?_,
          Nat.pos_of_ne_zero hsome, ?_⟩
        · refine hlength.trans_le ((length_renumbered_le 0 0 _).trans ?_)
          rw [← hkey, hsound.counted]
          exact hmax
        · rw [hkey] at hadmits
          exact fun chunk hmem =>
            Admits.renumbered hadmits chunk ((congrArg (chunk ∈ ·) hchunks).mp hmem)
        · exact (congrArg List.length hchunks).trans hlength.symm
        · exact (congrArg (Tiles 0 0) hchunks).mpr htexts
      · next hkey => exact hsound.congr (hother (of_decide_eq_false (by simpa using hkey))) rfl rfl
    · intro row hrow
      obtain ⟨covering, hget⟩ := Option.isSome_iff_exists.mp (hkeys row hrow)
      rw [Table.get?_update, hget]
      split <;> rfl

/-! ## Runs -/

theorem Documented.change (h : Documented platform index)
    (hchange : Change platform call index next) : Documented platform next := by
  cases hchange with
  | updatesJobs _ => exact h.updateJobs _ _ _
  | registers hdone => exact h.registerGeneration hdone
  | activates hdone =>
    obtain ⟨_, _, rfl⟩ := activateGeneration_ok hdone
    exact h.same ⟨rfl, rfl, rfl, rfl⟩
  | removes _ hdone =>
    obtain ⟨_, _, rfl⟩ := removeGeneration_ok hdone
    refine Documented.deleteGenerations ?_ _
    exact h.same ⟨rfl, rfl, rfl, rfl⟩
  | clears _ hdone => exact h.clearOrganization hdone
  | moves _ _ hdone => exact h.reconcileHead hdone
  | reconciles key readEpoch => exact h.reconciles key readEpoch
  | dropsVisual key => exact h.dropVisual key
  | reopens orgId allowed enabled _ => exact h.same ⟨rfl, rfl, rfl, rfl⟩

/-- Every call keeps the documents sound. -/
theorem Documented.after (h : Documented platform index)
    (hdone : index.after platform call = .ok next) : Documented platform next := by
  rcases after_cases hdone with hchanges | ⟨job, owner, now, chunk, -, -, rfl⟩ |
    ⟨job, owner, now, chunks, noContent, -, hpublishes, rfl⟩
  · exact changes_invariant _ (fun hs hchange => hs.change hchange) h hchanges
  · exact h.same ⟨rfl, rfl, rfl, rfl⟩
  · exact h.publishes hpublishes

theorem documented_run (calls : List IndexCall) :
    Documented platform (run (VectorIndex.step platform) {} calls) :=
  run_of_after (fun h hdone => h.after hdone)
    ⟨List.forall_mem_nil _, List.forall_mem_nil _, List.forall_mem_nil _⟩ calls

/-! ## What becomes of documents -/

theorem renumbered_renumbered (ordinal start : Nat) (chunks : List ContextVectorChunk) :
    renumbered ordinal start (renumbered ordinal start chunks) =
      renumbered ordinal start chunks := by
  induction chunks generalizing ordinal start with
  | nil => rfl
  | cons first rest ih =>
    rw [renumbered]
    split
    · exact ih ordinal start
    · next htext =>
      have hsame : isVisual { first with
          ordinal, start, stop := start + (first.stop - first.start) } = false := by
        simpa [isVisual] using htext
      rw [renumbered, hsame]
      simp only [Bool.false_eq_true, if_false, Nat.add_sub_cancel_left, ih]

/-- Documents stay as they are, or go, or lose their visual chunks. -/
def StaysOrStrips (index next : VectorIndex) : Prop :=
  ∀ key, next.chunksOf key = index.chunksOf key ∨ next.chunksOf key = [] ∨
    next.chunksOf key = renumbered 0 0 (index.chunksOf key)

theorem StaysOrStrips.trans {first second third : VectorIndex} (h : StaysOrStrips first second)
    (h' : StaysOrStrips second third) : StaysOrStrips first third := by
  intro key
  rcases h' key with hsame | hgone | hstripped
  · rw [hsame]
    exact h key
  · exact Or.inr (Or.inl hgone)
  · rw [hstripped]
    rcases h key with hsame | hgone | htwice
    · rw [hsame]
      exact Or.inr (Or.inr rfl)
    · rw [hgone]
      exact Or.inr (Or.inl rfl)
    · rw [htwice, renumbered_renumbered]
      exact Or.inr (Or.inr rfl)

theorem StaysOrStrips.of_eq (h : next.chunks = index.chunks) :
    StaysOrStrips index next := fun key => by
  left
  rw [chunksOf_eq, chunksOf_eq, h]

/-- Rows are kept or deleted for a whole document at a time. -/
theorem StaysOrStrips.of_filter (keep : DocumentKey → Bool)
    (h : next.chunks = index.chunks.filter fun row => keep row.toDocumentKey) :
    StaysOrStrips index next := by
  intro key
  rw [chunksOf_eq, chunksOf_eq, h]
  by_cases hkeep : keep key = true
  · left
    rw [rowsOf_filter_other fun row _ hkey => by rw [hkey, hkeep]]
  · right
    left
    have hnone : rowsOf key (index.chunks.filter fun row => keep row.toDocumentKey) = [] := by
      unfold rowsOf
      rw [List.map_eq_nil_iff, List.filter_eq_nil_iff]
      intro row hrow hkey
      have hkept := (List.mem_filter.mp hrow).2
      rw [of_decide_eq_true hkey] at hkept
      exact hkeep hkept
    rw [hnone, byOrdinal, List.mergeSort_nil]

theorem staysOrStrips_deleteCoverage (index : VectorIndex) (p : CoverageRow → Bool) :
    StaysOrStrips index (index.deleteCoverage p) :=
  StaysOrStrips.of_filter (fun key => !(index.coverage.get? key).any p) rfl

theorem staysOrStrips_deleteGenerations (index : VectorIndex) (p : String → String → Bool) :
    StaysOrStrips index (index.deleteGenerations p) :=
  StaysOrStrips.of_filter (fun key => !p key.orgId key.generation) rfl

theorem staysOrStrips_dropVisual (h : Documented platform index) (key : DocumentKey) :
    StaysOrStrips index (index.dropVisual key) := by
  have htiled := h.tiled key
  obtain ⟨hperm, -⟩ := @foldl_dropVisualChunk key index.chunks [] (index.chunksOf key) 0 0 0 0
    (chunksOf_perm index key) (fun _ hmem => by cases hmem) (Nat.le_refl 0) htiled
  have hdropped : StaysOrStrips index { index with
      chunks := ((index.chunksOf key).foldl (dropVisualChunk key) (index.chunks, 0, 0)).1 } := by
    intro other
    by_cases hkey : other = key
    · subst hkey
      right
      right
      exact byOrdinal_of_perm hperm (tiles_renumbered 0 0 htiled.start_lt_stop)
    · left
      rw [chunksOf_eq, rowsOf_foldl_dropVisualChunk_other hkey]
      rfl
  unfold VectorIndex.dropVisual
  simp only
  split
  · exact (hdropped.trans (staysOrStrips_deleteCoverage _ _)).trans (StaysOrStrips.of_eq rfl)
  · exact hdropped.trans (StaysOrStrips.of_eq rfl)

theorem staysOrStrips_reconcileHead {head : EmbeddingSourceHead}
    (h : VectorIndex.reconcileHead orgId generation index head = .ok next) :
    StaysOrStrips index next := by
  obtain ⟨fence, rfl⟩ := reconcileHead_ok h
  have hinsert : ∀ moved : VectorIndex,
      StaysOrStrips moved (moved.insertJob orgId generation head fence) := by
    intro moved
    unfold VectorIndex.insertJob
    split <;> exact StaysOrStrips.of_eq rfl
  refine StaysOrStrips.trans ?_ (hinsert _)
  split
  · exact StaysOrStrips.of_eq rfl
  · exact staysOrStrips_deleteCoverage { index with sourceHeads := _ } _

theorem staysOrStrips_change (hsound : Documented platform index)
    (hchange : Change platform call index next) : StaysOrStrips index next := by
  cases hchange with
  | updatesJobs _ => exact StaysOrStrips.of_eq rfl
  | registers hdone =>
    obtain ⟨_, _, _, rfl⟩ := registerGeneration_ok hdone
    split <;> exact StaysOrStrips.of_eq rfl
  | activates hdone =>
    obtain ⟨_, _, rfl⟩ := activateGeneration_ok hdone
    exact StaysOrStrips.of_eq rfl
  | removes _ hdone =>
    obtain ⟨_, _, rfl⟩ := removeGeneration_ok hdone
    exact (StaysOrStrips.of_eq rfl).trans (staysOrStrips_deleteGenerations _ _)
  | clears _ hdone =>
    obtain rfl := clearOrganization_ok hdone
    exact (staysOrStrips_deleteGenerations index fun org _ => org = _).trans
      (StaysOrStrips.of_eq rfl)
  | moves _ _ hdone => exact staysOrStrips_reconcileHead hdone
  | reconciles key readEpoch => exact StaysOrStrips.of_eq rfl
  | dropsVisual key => exact staysOrStrips_dropVisual hsound key
  | reopens orgId allowed enabled _ => exact StaysOrStrips.of_eq rfl

theorem staysOrStrips_changes (hsound : Documented platform index)
    (hchanges : Relation.ReflTransGen (Change platform call) index next) :
    StaysOrStrips index next :=
  (changes_invariant (fun s => Documented platform s ∧ StaysOrStrips index s)
    (fun hs hchange => ⟨hs.1.change hchange, hs.2.trans (staysOrStrips_change hs.1 hchange)⟩)
    ⟨hsound, StaysOrStrips.of_eq rfl⟩ hchanges).2

/-- Only the end of a job publishes. -/
theorem staysOrStrips_after (hsound : Documented platform index)
    (h : index.after platform call = .ok next)
    (hpublish : ∀ job owner now chunks empty, call ≠ .complete job owner now chunks empty) :
    StaysOrStrips index next := by
  rcases after_cases h with hchanges | ⟨job, owner, now, chunk, -, -, rfl⟩ |
    ⟨job, owner, now, chunks, noContent, hcall, -, -⟩
  · exact staysOrStrips_changes hsound hchanges
  · exact StaysOrStrips.of_eq rfl
  · exact (hpublish _ _ _ _ _ hcall).elim

end VectorIndex

/-- A platform to run the index on: every digest is the same text, and every vector a unit. -/
def plainPlatform : EmbeddingPlatform where
  sha256 _ := "aaaaaaaaaaaaaaaaaaaaaaaaaaaaaaaaaaaaaaaaaaaaaaaaaaaaaaaaaaaaaaaa"
  recipeId _ _ _ _ := "g1"
  isUnit _ := true
  cosine _ _ := 0
  lexicalHit _ _ := true

def plainGeneration : EmbeddingGeneration where
  id := "g1"
  model := {
    modelId := "m"
    modelRevision := "aaaaaaaaaaaaaaaaaaaaaaaaaaaaaaaaaaaaaaaa"
    tokenizerRevision := "aaaaaaaaaaaaaaaaaaaaaaaaaaaaaaaaaaaaaaaa"
    dimensions := 1, maxInputTokens := 32, queryTemplate := "q", documentTemplate := "d" }
  extractorVersion := .storedBodyAndAttachmentsV2
  chunkTokens := 32
  maxChunksPerEvent := 8

/-- A generation with one head, whose job a worker claims for a second. -/
def claimedOnce : List IndexCall := [
  .registerGeneration "o" plainGeneration,
  .reconcile "o" "g1" "e1" [{
    source := "s", externalId := "x", eventId := "v1", contentHash := plainPlatform.sha256 []
    operation := .create, lineage := ["v1"] }],
  .claim "o" "g1" "w1" ⟨0, by decide⟩ 1000 1]

def claimedJob : EmbeddingJob where
  id := 1
  orgId := "o"
  generation := "g1"
  source := "s"
  externalId := "x"
  eventId := "v1"
  contentHash := plainPlatform.sha256 []
  operation := .create
  lineage := ["v1"]
  fence := 1
  attempts := 1
  status := .running

def plainChunk : ContextVectorChunk where
  ordinal := 0
  start := 0
  stop := 4
  textHash := plainPlatform.sha256 []
  vector := [1]

end Regenic.Embedding
