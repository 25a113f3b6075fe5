import Regenic.Embedding.IndexJobs

/-!
What the index answers. Its generations always stand in order, a generation is activated exactly
when the documents it has to cover are there, and a search of authorized events finds every row
as the index wrote it.
-/

namespace Regenic.Embedding

open Lib

/-! ## Generations -/

namespace VectorIndex

variable {platform : EmbeddingPlatform}
variable {index next : VectorIndex} {call : IndexCall} {orgId generation : String}
  {active : String × String}

/-- Where the generations of an organization stand: the active one is registered and was
activated, none is without an active one beside it, none is retired, and each has a name. -/
structure Governed (index : VectorIndex) : Prop where
  activeRegistered : ∀ active ∈ index.activeGenerations.rows,
    (index.generations.get? active).isSome = true
  activated : ∀ active ∈ index.activeGenerations.rows, active ∈ index.generationActivations
  hasActive : ∀ row ∈ index.generations.rows,
    (index.activeGenerations.get? row.orgId).isSome = true
  notRetired : ∀ row ∈ index.generations.rows,
    GenerationRow.key row ∉ index.retiredGenerations
  named : ∀ row ∈ index.generations.rows, blank row.manifest.id = false

theorem Governed.congr (h : Governed index)
    (hgenerations : next.generations.rows.map GenerationRow.key =
      index.generations.rows.map GenerationRow.key)
    (hactive : next.activeGenerations = index.activeGenerations)
    (hactivations : next.generationActivations = index.generationActivations)
    (hretired : next.retiredGenerations = index.retiredGenerations) : Governed next := by
  have hrow : ∀ row ∈ next.generations.rows, ∃ old ∈ index.generations.rows,
      GenerationRow.key old = GenerationRow.key row := by
    intro row hrow
    have hkey : GenerationRow.key row ∈ next.generations.rows.map GenerationRow.key :=
      List.mem_map_of_mem hrow
    rw [hgenerations] at hkey
    exact List.mem_map.mp hkey
  have hback : ∀ row ∈ index.generations.rows, ∃ new ∈ next.generations.rows,
      GenerationRow.key new = GenerationRow.key row := by
    intro row hrow
    have hkey : GenerationRow.key row ∈ index.generations.rows.map GenerationRow.key :=
      List.mem_map_of_mem hrow
    rw [← hgenerations] at hkey
    exact List.mem_map.mp hkey
  refine ⟨?_, ?_, ?_, ?_, ?_⟩
  · rw [hactive]
    intro active hmem
    obtain ⟨row, hget⟩ := Option.isSome_iff_exists.mp (h.activeRegistered active hmem)
    obtain ⟨hold, hkey⟩ := Table.get?_eq_some.mp hget
    obtain ⟨new, hnew, hsame⟩ := hback row hold
    exact Option.isSome_iff_exists.mpr
      ⟨new, Table.get?_eq_some.mpr ⟨hnew, hsame.trans hkey⟩⟩
  · rw [hactive, hactivations]
    exact h.activated
  · rw [hactive]
    intro row hmem
    obtain ⟨old, hold, hkey⟩ := hrow row hmem
    exact (Prod.mk.inj hkey).1 ▸ h.hasActive old hold
  · rw [hretired]
    intro row hmem
    obtain ⟨old, hold, hkey⟩ := hrow row hmem
    exact hkey ▸ h.notRetired old hold
  · intro row hmem
    obtain ⟨old, hold, hkey⟩ := hrow row hmem
    exact (Prod.mk.inj hkey).2 ▸ h.named old hold

theorem mem_recordActivation {pair : String × String}
    (h : pair ∈ index.generationActivations ∨ pair = active) :
    pair ∈ (index.recordActivation active).generationActivations := by
  unfold recordActivation
  simp only
  split
  · next hmem => exact h.elim id fun heq => heq ▸ hmem
  · exact List.mem_append.mpr (h.imp id fun heq => List.mem_singleton.mpr heq)

theorem isSome_get?_put {α κ : Type} [DecidableEq κ] {key : α → κ} {table : Table key} {k : κ}
    (a : α) (h : (table.get? k).isSome = true ∨ key a = k) :
    ((table.put a).get? k).isSome = true := by
  rw [Table.get?_put]
  split
  · rfl
  · next hne => exact h.elim id fun heq => absurd heq hne

/-- The active generation of an organization moves to one that is registered. -/
theorem Governed.activate (h : Governed index)
    (hregistered : (index.generations.get? active).isSome = true) :
    Governed ({ index with
      activeGenerations := index.activeGenerations.put active }.recordActivation active) := by
  refine ⟨?_, ?_, fun row hmem => isSome_get?_put _ (Or.inl (h.hasActive row hmem)),
    h.notRetired, h.named⟩
  · intro pair hmem
    rcases Table.mem_put.mp hmem with rfl | ⟨hold, _⟩
    · exact hregistered
    · exact h.activeRegistered pair hold
  · intro pair hmem
    rcases Table.mem_put.mp hmem with rfl | ⟨hold, _⟩
    · exact mem_recordActivation (Or.inr rfl)
    · exact mem_recordActivation (Or.inl (h.activated pair hold))

/-- A new generation, beside one of its organization that is active now. -/
theorem Governed.register (h : Governed index) (row : GenerationRow) (active : String × String)
    (hnamed : blank row.manifest.id = false)
    (hretired : GenerationRow.key row ∉ index.retiredGenerations)
    (hregistered : (index.generations.get? active).isSome = true ∨ GenerationRow.key row = active)
    (horg : active.1 = row.orgId) :
    Governed ({ index with
      generations := index.generations.put row
      activeGenerations := index.activeGenerations.put active }.recordActivation active) := by
  refine ⟨?_, ?_, ?_, ?_, ?_⟩
  · intro pair hmem
    rcases Table.mem_put.mp hmem with rfl | ⟨hold, _⟩
    · exact isSome_get?_put row hregistered
    · exact isSome_get?_put row (Or.inl (h.activeRegistered pair hold))
  · intro pair hmem
    rcases Table.mem_put.mp hmem with rfl | ⟨hold, _⟩
    · exact mem_recordActivation (Or.inr rfl)
    · exact mem_recordActivation (Or.inl (h.activated pair hold))
  · intro other hmem
    rcases Table.mem_put.mp hmem with rfl | ⟨hold, _⟩
    · exact isSome_get?_put _ (Or.inr horg)
    · exact isSome_get?_put _ (Or.inl (h.hasActive other hold))
  · intro other hmem
    rcases Table.mem_put.mp hmem with rfl | ⟨hold, _⟩
    · exact hretired
    · exact h.notRetired other hold
  · intro other hmem
    rcases Table.mem_put.mp hmem with rfl | ⟨hold, _⟩
    · exact hnamed
    · exact h.named other hold

theorem Governed.registerGeneration (h : Governed index) {generation : EmbeddingGeneration}
    (hdone : index.registerGeneration platform orgId generation = .ok next) : Governed next := by
  obtain ⟨_, hnamed, hretired, rfl⟩ := registerGeneration_ok hdone
  split
  · next hold =>
    refine h.activate ?_
    cases hactive : index.activeGenerations.get? orgId with
    | none => exact hold
    | some active => exact h.activeRegistered active (Table.get?_eq_some.mp hactive).1
  · cases hactive : index.activeGenerations.get? orgId with
    | none =>
      exact h.register { orgId, manifest := generation } (orgId, generation.id) hnamed hretired
        (Or.inr rfl) rfl
    | some active =>
      obtain ⟨hmem, horg⟩ := Table.get?_eq_some.mp hactive
      exact h.register { orgId, manifest := generation } active hnamed hretired
        (Or.inl (h.activeRegistered active hmem)) horg

/-- Generations go, and with them the active ones that have none left beside them. -/
theorem Governed.deleted (h : Governed index) {p : String → String → Bool}
    (hgenerations : next.generations = index.generations.filter fun row =>
      !p row.orgId row.manifest.id)
    (hactive : next.activeGenerations = index.activeGenerations.filter fun row => !p row.1 row.2)
    (hactivations : next.generationActivations = index.generationActivations.filter fun row =>
      !p row.1 row.2) (hkept : ∀ row ∈ index.generations.rows, p row.orgId row.manifest.id = false →
      GenerationRow.key row ∉ next.retiredGenerations ∧
        ∀ active ∈ index.activeGenerations.rows, active.1 = row.orgId →
          p active.1 active.2 = false) : Governed next := by
  have hrow : ∀ row ∈ next.generations.rows, row ∈ index.generations.rows ∧
      p row.orgId row.manifest.id = false := by
    intro row hmem
    rw [hgenerations] at hmem
    simpa using List.mem_filter.mp hmem
  have hstands : ∀ active ∈ next.activeGenerations.rows,
      active ∈ index.activeGenerations.rows ∧ p active.1 active.2 = false := by
    intro active hmem
    rw [hactive] at hmem
    simpa using List.mem_filter.mp hmem
  refine ⟨?_, ?_, ?_, fun row hmem => (hkept row (hrow row hmem).1 (hrow row hmem).2).1,
    fun row hmem => h.named row (hrow row hmem).1⟩
  · intro active hmem
    obtain ⟨hold, hp⟩ := hstands active hmem
    obtain ⟨row, hget⟩ := Option.isSome_iff_exists.mp (h.activeRegistered active hold)
    obtain ⟨horg, hid⟩ := Prod.mk.inj (Table.get?_eq_some.mp hget).2
    refine Option.isSome_iff_exists.mpr ⟨row, ?_⟩
    rw [hgenerations, Table.get?_filter, hget, Option.filter_some, horg, hid, hp]
    rfl
  · intro active hmem
    obtain ⟨hold, hp⟩ := hstands active hmem
    rw [hactivations]
    exact List.mem_filter.mpr ⟨h.activated active hold, by rw [hp]; rfl⟩
  · intro row hmem
    obtain ⟨hold, hp⟩ := hrow row hmem
    obtain ⟨active, hget⟩ := Option.isSome_iff_exists.mp (h.hasActive row hold)
    obtain ⟨hin, hkey⟩ := Table.get?_eq_some.mp hget
    refine Option.isSome_iff_exists.mpr ⟨active, ?_⟩
    rw [hactive, Table.get?_filter, hget, Option.filter_some, (hkept row hold hp).2 active hin hkey]
    rfl

theorem Governed.removeGeneration (h : Governed index) {now : Stamp}
    (hdone : index.removeGeneration platform orgId generation now = .ok next) : Governed next := by
  obtain ⟨hactive, _, rfl⟩ := removeGeneration_ok hdone
  refine h.deleted (p := fun org id => org = orgId && id = generation) rfl rfl rfl
    fun row hrow hp => ⟨fun hretired => ?_, fun active hmem _ => ?_⟩
  · rcases List.mem_append.mp hretired with hbefore | hnow
    · exact h.notRetired row hrow hbefore
    · obtain ⟨horg, hid⟩ := Prod.mk.inj (List.mem_singleton.mp hnow)
      simp [horg, hid] at hp
  · by_contra hsame
    simp only [Bool.not_eq_false, Bool.and_eq_true, decide_eq_true_eq] at hsame
    obtain ⟨rfl, rfl⟩ := hsame
    exact hactive (Table.get?_key hmem)

theorem Governed.clearOrganization (h : Governed index)
    (hdone : index.clearOrganization orgId = .ok next) : Governed next := by
  obtain rfl := clearOrganization_ok hdone
  refine h.deleted (p := fun org _ => org = orgId) rfl rfl rfl fun row hrow hp =>
    ⟨fun hretired => h.notRetired row hrow (List.mem_filter.mp hretired).1, fun active _ horg => ?_⟩
  rw [horg]
  exact hp

/-- Calls that touch no generation. -/
theorem Governed.same (h : Governed index) (hgenerations : next.generations = index.generations)
    (hactive : next.activeGenerations = index.activeGenerations)
    (hactivations : next.generationActivations = index.generationActivations)
    (hretired : next.retiredGenerations = index.retiredGenerations) : Governed next :=
  h.congr (by rw [hgenerations]) hactive hactivations hretired

theorem Governed.insertJob (h : Governed index) (orgId generation : String)
    (head : EmbeddingSourceHead) (fence : Nat) :
    Governed (index.insertJob orgId generation head fence) := by
  unfold VectorIndex.insertJob
  split
  · exact h
  · exact h.same rfl rfl rfl rfl

theorem Governed.dropVisual (h : Governed index) (key : DocumentKey) :
    Governed (index.dropVisual key) := by
  unfold VectorIndex.dropVisual
  simp only
  split <;> exact h.same rfl rfl rfl rfl

theorem Governed.change (h : Governed index) (hchange : Change platform call index next) :
    Governed next := by
  cases hchange with
  | updatesJobs _ => exact h.same rfl rfl rfl rfl
  | registers hdone => exact h.registerGeneration hdone
  | activates hdone =>
    obtain ⟨_, ⟨manifest, hmanifest, _⟩, rfl⟩ := activateGeneration_ok hdone
    obtain ⟨row, hget, _⟩ := manifest_ok hmanifest
    exact h.activate (Option.isSome_iff_exists.mpr ⟨row, hget⟩)
  | removes _ hdone => exact h.removeGeneration hdone
  | clears _ hdone => exact h.clearOrganization hdone
  | moves _ _ hdone =>
    obtain ⟨fence, rfl⟩ := reconcileHead_ok hdone
    refine Governed.insertJob ?_ _ _ _ _
    split <;> exact h.same rfl rfl rfl rfl
  | reconciles key readEpoch =>
    refine h.congr ((List.map_map ..).trans (List.map_congr_left fun row _ => ?_)) rfl rfl rfl
    simp only [Function.comp_apply]
    split <;> rfl
  | dropsVisual key => exact h.dropVisual key
  | reopens orgId allowed enabled _ => exact h.same rfl rfl rfl rfl

theorem Governed.after (h : Governed index) (hdone : index.after platform call = .ok next) :
    Governed next := by
  rcases after_cases hdone with hchanges | ⟨job, owner, now, chunk, -, -, rfl⟩ |
    ⟨job, owner, now, chunks, noContent, -, -, rfl⟩
  · exact changes_invariant Governed (fun hs hchange => hs.change hchange) h hchanges
  · exact h.same rfl rfl rfl rfl
  · exact h.same rfl rfl rfl rfl

theorem governed_run (platform : EmbeddingPlatform) (calls : List IndexCall) :
    Governed (run (VectorIndex.step platform) {} calls) :=
  run_of_after (fun h hdone => h.after hdone) ⟨List.forall_mem_nil _, List.forall_mem_nil _,
    List.forall_mem_nil _, List.forall_mem_nil _, List.forall_mem_nil _⟩ calls

theorem manifest_of_registered (h : Documented platform index) {id : String} {row : GenerationRow}
    (horg : blank orgId = false) (hid : blank id = false)
    (hget : index.generations.get? (orgId, id) = some row) :
    index.manifest platform orgId id = .ok row.manifest := by
  have hvalid := h.manifests row (Table.get?_eq_some.mp hget).1
  unfold VectorIndex.manifest required
  rw [horg, hid, hget]
  simp only [hvalid, throwUnless_true]
  rfl

end VectorIndex

/-- After any calls, whichever organization asks for its active generation is told: it has one
exactly when it has registered generations, and that one is among them, was activated, and is not
retired. -/
theorem activeGeneration_known (platform : EmbeddingPlatform) (calls : List IndexCall)
    (orgId : String) (horg : blank orgId = false) :
    let index := run (VectorIndex.step platform) {} calls
    ∃ active, index.activeGeneration platform orgId = .ok active ∧
      (active = none ↔ ∀ row ∈ index.generations.rows, row.orgId ≠ orgId) ∧
      ∀ generation, active = some generation →
        (∃ row ∈ index.generations.rows, row.orgId = orgId ∧ row.manifest = generation) ∧
        (orgId, generation.id) ∈ index.generationActivations ∧
        (orgId, generation.id) ∉ index.retiredGenerations := by
  intro index
  have hgoverned : index.Governed := VectorIndex.governed_run platform calls
  have hdocumented : VectorIndex.Documented platform index := VectorIndex.documented_run calls
  have hrequired : required orgId = .ok () := by
    unfold required
    rw [horg]
    rfl
  unfold VectorIndex.activeGeneration
  rw [hrequired]
  simp only [bind, Except.bind]
  cases hactive : index.activeGenerations.get? orgId with
  | none =>
    refine ⟨none, rfl, ⟨fun _ row hrow heq => ?_, fun _ => rfl⟩,
      fun generation hsome => absurd hsome.symm (Option.some_ne_none _)⟩
    have hsome := hgoverned.hasActive row hrow
    rw [heq, hactive] at hsome
    cases hsome
  | some active =>
    obtain ⟨hmem, horgId⟩ := Table.get?_eq_some.mp hactive
    obtain ⟨row, hget⟩ := Option.isSome_iff_exists.mp (hgoverned.activeRegistered active hmem)
    obtain ⟨hrow, hkey⟩ := Table.get?_eq_some.mp hget
    have hpair : (orgId, active.2) = active := by rw [← horgId]
    obtain ⟨horgRow, hidRow⟩ := Prod.mk.inj (hkey.trans hpair.symm)
    have hmanifest : index.manifest platform orgId active.2 = .ok row.manifest :=
      VectorIndex.manifest_of_registered hdocumented horg
        (hidRow ▸ hgoverned.named row hrow) (by rw [hpair, hget])
    refine ⟨some row.manifest, by simp only [hmanifest]; rfl,
      ⟨fun hnone => absurd hnone (Option.some_ne_none _), fun hnone => ?_⟩, ?_⟩
    · exact absurd horgRow (hnone row hrow)
    · rintro generation hsome
      obtain rfl := Option.some.inj hsome
      have hid : (orgId, row.manifest.id) = active := by rw [hidRow, hpair]
      refine ⟨⟨row, hrow, horgRow, rfl⟩, hid ▸ hgoverned.activated active hmem, ?_⟩
      have hnot := hgoverned.notRetired row hrow
      rw [show GenerationRow.key row = (orgId, row.manifest.id) from by rw [← horgRow]; rfl] at hnot
      exact hnot

theorem activeGeneration_known_claimed :
    ∃ active, (run (VectorIndex.step plainPlatform) {} claimedOnce).activeGeneration plainPlatform
      "o" = .ok active := by
  obtain ⟨active, hactive, _⟩ :=
    activeGeneration_known plainPlatform claimedOnce "o" (by decide +kernel)
  exact ⟨active, hactive⟩

/-! ## Stored vectors -/

/-- The vectors that the call writes are units as they are stored, with the precision of a
`Float32`; the checks look at them before they are rounded. -/
def IndexCall.storesUnits (platform : EmbeddingPlatform) : IndexCall → Prop
  | .stageChunk _ _ _ chunk => platform.isUnit chunk.stored.vector = true
  | .complete _ _ _ chunks _ => ∀ chunk ∈ chunks, platform.isUnit chunk.stored.vector = true
  | _ => True

namespace VectorIndex

variable {platform : EmbeddingPlatform}
variable {index next : VectorIndex} {call : IndexCall} {orgId generation : String}
  {row : GenerationRow}

/-- What is stored are units. -/
structure Normalized (platform : EmbeddingPlatform) (index : VectorIndex) : Prop where
  staged : ∀ row ∈ index.stagedChunks, platform.isUnit row.chunk.vector = true
  published : ∀ row ∈ index.chunks, platform.isUnit row.chunk.vector = true

/-- Chunks of a document are rows of the table. -/
theorem mem_chunksOf {key : DocumentKey} {chunk : ContextVectorChunk}
    (h : chunk ∈ index.chunksOf key) :
    ∃ row ∈ index.chunks, row.toDocumentKey = key ∧ row.chunk = chunk := by
  have hmem := (index.chunksOf_perm key).mem_iff.mpr h
  obtain ⟨row, hrow, rfl⟩ := List.mem_map.mp hmem
  obtain ⟨hrow, hkey⟩ := List.mem_filter.mp hrow
  exact ⟨row, hrow, of_decide_eq_true hkey, rfl⟩

/-- No vector is new in the documents that stay or lose their visual chunks. -/
theorem StaysOrStrips.vector (h : StaysOrStrips index next) {row : ChunkRow}
    (hrow : row ∈ next.chunks) : ∃ old ∈ index.chunks, old.chunk.vector = row.chunk.vector := by
  have hmem : row.chunk ∈ next.chunksOf row.toDocumentKey :=
    (next.chunksOf_perm row.toDocumentKey).mem_iff.mp
      (List.mem_map_of_mem (List.mem_filter.mpr ⟨hrow, decide_eq_true rfl⟩))
  rcases h row.toDocumentKey with hsame | hnone | hstripped
  · rw [hsame] at hmem
    obtain ⟨old, hold, -, heq⟩ := mem_chunksOf hmem
    exact ⟨old, hold, congrArg _ heq⟩
  · rw [hnone] at hmem
    cases hmem
  · rw [hstripped] at hmem
    obtain ⟨chunk, hchunk, hvector, -⟩ := mem_renumbered hmem
    obtain ⟨old, hold, -, rfl⟩ := mem_chunksOf hchunk
    exact ⟨old, hold, hvector.symm⟩

/-- What a call writes are the vectors of its own chunks. -/
theorem vectors_after (hdocumented : Documented platform index)
    (h : index.after platform call = .ok next) (hcall : call.storesUnits platform) :
    ∀ row ∈ next.chunks, (∃ old ∈ index.chunks, old.chunk.vector = row.chunk.vector) ∨
      platform.isUnit row.chunk.vector = true := by
  rcases after_cases h with hchanges | ⟨job, owner, now, chunk, -, -, rfl⟩ |
    ⟨job, owner, now, chunks, noContent, rfl, -, rfl⟩
  · exact fun row hrow => Or.inl ((staysOrStrips_changes hdocumented hchanges).vector hrow)
  · exact fun row hrow => Or.inl ⟨row, hrow, rfl⟩
  · intro row hrow
    rcases List.mem_append.mp hrow with hold | hnew
    · exact Or.inl ⟨row, (List.mem_filter.mp hold).1, rfl⟩
    · obtain ⟨chunk, hchunk, rfl⟩ := List.mem_map.mp hnew
      exact Or.inr (hcall chunk hchunk)

theorem mem_checkpoint {row : StagedRow} :
    row ∈ index.stagedChunks → row.chunk ∈ index.checkpoint row.jobId := fun h =>
  List.mem_map_of_mem (List.mem_filter.mpr ⟨h, decide_eq_true rfl⟩)

theorem mem_of_mem_checkpoint {id : Nat} {chunk : ContextVectorChunk}
    (h : chunk ∈ index.checkpoint id) : ∃ row ∈ index.stagedChunks, row.chunk = chunk := by
  obtain ⟨row, hrow, rfl⟩ := List.mem_map.mp h
  exact ⟨row, (List.mem_filter.mp hrow).1, rfl⟩

theorem Normalized.after (h : Normalized platform index) (hdocumented : Documented platform index)
    (hcall : call.storesUnits platform) (hdone : index.after platform call = .ok next) :
    Normalized platform next := by
  constructor
  · intro row hrow
    have hmem := mem_checkpoint hrow
    rcases growsOrGoes_after hdone row.jobId with hsame |
      ⟨job, owner, now, chunk, rfl, _, _, hnew⟩ | ⟨_, hnone⟩
    · rw [hsame] at hmem
      obtain ⟨old, hold, heq⟩ := mem_of_mem_checkpoint hmem
      exact heq ▸ h.staged old hold
    · rw [hnew] at hmem
      rcases List.mem_append.mp hmem with hold | hlast
      · obtain ⟨old, hold, heq⟩ := mem_of_mem_checkpoint hold
        exact heq ▸ h.staged old hold
      · exact List.mem_singleton.mp hlast ▸ hcall
    · rw [hnone] at hmem
      cases hmem
  · intro row hrow
    rcases vectors_after hdocumented hdone hcall row hrow with ⟨old, hold, heq⟩ | hunit
    · exact heq ▸ h.published old hold
    · exact hunit

theorem normalized_run {calls : List IndexCall} (h : ∀ call ∈ calls, call.storesUnits platform) :
    Normalized platform (run (VectorIndex.step platform) {} calls) := by
  have hgeneral : ∀ (index : VectorIndex), Documented platform index → Normalized platform index →
      Normalized platform (run (VectorIndex.step platform) index calls) := by
    induction calls with
    | nil => exact fun index _ hindex => hindex
    | cons call rest ih =>
      intro index hdocumented hindex
      rw [run_cons]
      unfold VectorIndex.step
      split
      · next after hdone =>
        exact ih (fun later hlater => h later (List.mem_cons_of_mem _ hlater)) _
          (hdocumented.after hdone)
          (hindex.after hdocumented (h call List.mem_cons_self) hdone)
      · exact ih (fun later hlater => h later (List.mem_cons_of_mem _ hlater)) _ hdocumented hindex
  exact hgeneral {} (documented_run []) ⟨List.forall_mem_nil _, List.forall_mem_nil _⟩

/-! ## Rows that are read back -/

theorem validateEmbeddingVector_ok {vector : List ℚ} {dimensions : Nat}
    (hlength : vector.length = dimensions) (hunit : platform.isUnit vector = true) :
    validateEmbeddingVector platform vector dimensions = .ok () := by
  unfold validateEmbeddingVector
  rw [hlength, hunit]
  simp

theorem checkChunks_ok {generation : EmbeddingGeneration} {ordinal start : Nat}
    {chunks : List ContextVectorChunk} (htiles : Tiles ordinal start chunks)
    (hadmits : ∀ chunk ∈ chunks, Admits platform generation chunk)
    (hunits : ∀ chunk ∈ chunks, platform.isUnit chunk.vector = true) :
    checkChunks platform generation.model.dimensions ordinal start chunks = .ok () := by
  induction chunks generalizing ordinal start with
  | nil => rfl
  | cons first rest ih =>
    obtain ⟨hordinal, hstart, hlt, hrest⟩ := htiles
    have hfirst := hadmits first List.mem_cons_self
    have hvector := validateEmbeddingVector_ok hfirst.dimensions
      (hunits first List.mem_cons_self)
    have htail := ih hrest (fun chunk hmem => hadmits chunk (List.mem_cons_of_mem _ hmem))
      fun chunk hmem => hunits chunk (List.mem_cons_of_mem _ hmem)
    unfold checkChunks
    simp [hordinal, hstart, hlt, hfirst.dimensions, hvector, htail, bind, Except.bind]

theorem checkStaged_ok {generation : EmbeddingGeneration} {ordinal start : Nat}
    {chunks : List ContextVectorChunk} (htiles : Tiles ordinal start chunks)
    (hadmits : ∀ chunk ∈ chunks, Admits platform generation chunk)
    (hunits : ∀ chunk ∈ chunks, platform.isUnit chunk.vector = true) :
    checkStaged platform generation.model.dimensions ordinal start chunks = .ok () := by
  induction chunks generalizing ordinal start with
  | nil => rfl
  | cons first rest ih =>
    obtain ⟨hordinal, hstart, hlt, hrest⟩ := htiles
    have hfirst := hadmits first List.mem_cons_self
    have hvector := validateEmbeddingVector_ok hfirst.dimensions
      (hunits first List.mem_cons_self)
    have htail := ih hrest (fun chunk hmem => hadmits chunk (List.mem_cons_of_mem _ hmem))
      fun chunk hmem => hunits chunk (List.mem_cons_of_mem _ hmem)
    unfold checkStaged
    simp [hordinal, hstart, hlt, hfirst.dimensions, hfirst.hash, hfirst.origin, hvector, htail,
      bind, Except.bind]

/-- What the owner of a job loads is its checkpoint. -/
theorem loadStagedChunks_of_owner (hcheckpoint : Checkpointed platform index)
    (hdocumented : Documented platform index) (hgoverned : index.Governed)
    (hnormalized : Normalized platform index) {job : EmbeddingJob} {owner : String} {now : Stamp}
    (horg : blank job.orgId = false) (howns : index.ownsJob job owner now = .ok true) :
    index.loadStagedChunks platform job owner now = .ok (index.checkpoint job.id) := by
  obtain ⟨row, hrow, hleased, _⟩ := ownsJob_ok howns
  obtain ⟨hid, horgRow, hgenRow, _⟩ := leasedTo_iff.mp hleased
  obtain ⟨generation, hget⟩ := Option.isSome_iff_exists.mp (hcheckpoint.registered row hrow)
  rw [horgRow, hgenRow] at hget
  obtain ⟨hgeneration, hkey⟩ := Table.get?_eq_some.mp hget
  have hmanifest : index.manifest platform job.orgId job.generation = .ok generation.manifest :=
    manifest_of_registered hdocumented horg
      ((Prod.mk.inj hkey).2 ▸ hgoverned.named generation hgeneration) hget
  have hstaged := stagedOf_eq (hcheckpoint.tiled job.id)
  have hunits : ∀ chunk ∈ index.checkpoint job.id, platform.isUnit chunk.vector = true := by
    intro chunk hmem
    obtain ⟨old, hold, rfl⟩ := mem_of_mem_checkpoint hmem
    exact hnormalized.staged old hold
  have hsound : (index.checkpoint job.id).length ≤ generation.manifest.maxChunksPerEvent ∧
      ∀ chunk ∈ index.checkpoint job.id, Admits platform generation.manifest chunk := by
    by_cases hempty : index.checkpoint job.id = []
    · rw [hempty]
      exact ⟨Nat.zero_le _, fun _ hmem => by cases hmem⟩
    · obtain ⟨row', generation', hrow', _, hget', hlength, hadmits⟩ :=
        hcheckpoint.sound job.id hempty
      rw [← hid, Table.get?_key hrow] at hrow'
      obtain rfl := Option.some.inj hrow'
      rw [horgRow, hgenRow, hget] at hget'
      obtain rfl := Option.some.inj hget'
      exact ⟨hlength, hadmits⟩
  have hchecked := checkStaged_ok (hcheckpoint.tiled job.id) hsound.2 hunits
  unfold VectorIndex.loadStagedChunks
  simp [howns, hmanifest, hstaged, hsound.1, hchecked, bind, Except.bind]

theorem checkCovered_iff (hdocumented : Documented platform index)
    (hnormalized : Normalized platform index)
    (hget : index.generations.get? (orgId, generation) = some row) (key : ContextLexicalKey) :
    let checked := index.checkCovered platform orgId generation row.manifest.model.dimensions key
    (checked = .ok () ↔ ∃ covering, index.coverage.get? ⟨orgId, generation, key.eventId⟩ =
      some covering ∧ covering.contentHash = key.contentHash) ∧
    (checked = .ok () ∨ checked = .error (.notReady .backfillIncomplete)) := by
  unfold checkCovered
  cases hcovering : index.coverage.get? ⟨orgId, generation, key.eventId⟩ with
  | none =>
    simp
  | some covering =>
    obtain ⟨hmem, hkey⟩ := Table.get?_eq_some.mp hcovering
    have hsound := hdocumented.sound covering hmem
    obtain ⟨row', hget', _, hadmits⟩ := hsound.registered
    rw [show (covering.orgId, covering.generation) = (orgId, generation) by
      rw [hkey], hget] at hget'
    obtain rfl := Option.some.inj hget'
    have hunits : ∀ chunk ∈ index.chunksOf covering.toDocumentKey,
        platform.isUnit chunk.vector = true := by
      intro chunk hchunk
      obtain ⟨old, hold, _, rfl⟩ := mem_chunksOf hchunk
      exact hnormalized.published old hold
    have hchecked := checkChunks_ok hsound.tiled hadmits hunits
    have hcounted := hsound.counted
    have hnonempty := hsound.nonempty
    by_cases hhash : covering.contentHash = key.contentHash
    · simp [hhash, hsound.live, hchecked, hcounted, hnonempty, bind, Except.bind]
    · simp [hhash, bind, Except.bind]

/-! ## Activation -/

/-- The call does not end with a corrupt row. -/
def NotCorrupt {α : Type} (x : Except EmbedThrown α) : Prop := x ≠ .error .corrupt

theorem notCorrupt_ok {α : Type} (a : α) : NotCorrupt (.ok a) := fun h => by cases h

theorem notCorrupt_bind {α β : Type} {x : Except EmbedThrown α} {f : α → Except EmbedThrown β}
    (hx : NotCorrupt x) (hf : ∀ a, x = .ok a → NotCorrupt (f a)) : NotCorrupt (x >>= f) := by
  cases x with
  | error thrown => exact fun h => hx (by rw [Except.error.inj h])
  | ok a => exact hf a rfl

theorem notCorrupt_throwUnless {ok : Bool} {thrown : EmbedThrown} (h : thrown ≠ .corrupt) :
    NotCorrupt (throwUnless ok thrown) := by
  cases ok with
  | true => exact notCorrupt_ok ()
  | false => exact fun heq => h (Except.error.inj heq)

theorem notCorrupt_required (value : String) : NotCorrupt (required value) :=
  notCorrupt_throwUnless (by simp)

theorem notCorrupt_checkProof (seen : List String) (keys : List ContextLexicalKey) :
    NotCorrupt (checkProof seen keys) := by
  induction keys generalizing seen with
  | nil => exact notCorrupt_ok ()
  | cons key rest ih =>
    refine notCorrupt_bind (notCorrupt_required _) fun _ _ => ?_
    exact notCorrupt_bind (notCorrupt_throwUnless (by simp)) fun _ _ => ih _

theorem notCorrupt_forM {α : Type} {f : α → Except EmbedThrown Unit} {l : List α}
    (h : ∀ a ∈ l, NotCorrupt (f a)) : NotCorrupt (l.forM f) := by
  induction l with
  | nil => exact notCorrupt_ok ()
  | cons a rest ih =>
    exact notCorrupt_bind (h a List.mem_cons_self) fun _ _ =>
      ih fun b hb => h b (List.mem_cons_of_mem _ hb)

theorem Documented.manifest_notCorrupt (h : Documented platform index) (orgId id : String) :
    NotCorrupt (index.manifest platform orgId id) := by
  refine notCorrupt_bind (notCorrupt_required _) fun _ _ => ?_
  refine notCorrupt_bind (notCorrupt_required _) fun _ _ => ?_
  cases hget : index.generations.get? (orgId, id) with
  | none => exact fun heq => by cases heq
  | some row =>
    have hvalid := h.manifests row (Table.get?_eq_some.mp hget).1
    simp only [hvalid, throwUnless_true]
    exact notCorrupt_ok _

/-- What has to stand for a generation to be activated: named arguments, a proof of distinct
documents, the epoch of the last reconciliation, and a document for each of the proof. -/
structure CoversProof (index : VectorIndex) (orgId generation readEpoch : String)
    (requiredKeys : List ContextLexicalKey) : Prop where
  orgNamed : blank orgId = false
  generationNamed : blank generation = false
  epochNamed : blank readEpoch = false
  proof : checkProof [] requiredKeys = .ok ()
  reconciled : ∃ row, index.generations.get? (orgId, generation) = some row ∧
    row.reconciledEpoch = some readEpoch
  covered : ∀ key ∈ requiredKeys, ∃ covering,
    index.coverage.get? ⟨orgId, generation, key.eventId⟩ = some covering ∧
      covering.contentHash = key.contentHash

theorem activateGeneration_of_covers (hdocumented : Documented platform index)
    (hnormalized : Normalized platform index) {readEpoch : String}
    {requiredKeys : List ContextLexicalKey}
    (h : CoversProof index orgId generation readEpoch requiredKeys) :
    ∃ next, index.activateGeneration platform orgId generation readEpoch requiredKeys =
      .ok next := by
  obtain ⟨row, hget, hepoch⟩ := h.reconciled
  have hmanifest := manifest_of_registered hdocumented h.orgNamed h.generationNamed hget
  have hcovered : requiredKeys.forM
      (index.checkCovered platform orgId generation row.manifest.model.dimensions) = .ok () :=
    forM_ok_of fun key hkey =>
      (checkCovered_iff hdocumented hnormalized hget key).1.mpr (h.covered key hkey)
  have hproof := h.proof
  let activated : VectorIndex :=
    { index with activeGenerations := index.activeGenerations.put (orgId, generation) }
  refine ⟨activated.recordActivation (orgId, generation), ?_⟩
  unfold VectorIndex.activateGeneration required
  simp only [h.orgNamed, h.generationNamed, h.epochNamed, hproof, hmanifest, hget, hepoch, hcovered,
    Option.any_some, decide_true, Bool.not_false, throwUnless_true, bind, Except.bind]
  rfl

end VectorIndex

/-- After any calls that store unit vectors, a generation is activated exactly when it was
reconciled at the epoch of the proof and has a document, which is live and whole, for each event
of the proof under its content hash; no row of the index is ever found corrupt on the way. -/
theorem activation_iff_covered (platform : EmbeddingPlatform) (calls : List IndexCall)
    (hunits : ∀ call ∈ calls, call.storesUnits platform) (orgId generation readEpoch : String)
    (requiredKeys : List VectorIndex.ContextLexicalKey) :
    let index := run (VectorIndex.step platform) {} calls
    let activated := index.activateGeneration platform orgId generation readEpoch requiredKeys
    ((∃ next, activated = .ok next) ↔
      VectorIndex.CoversProof index orgId generation readEpoch requiredKeys) ∧
      activated ≠ .error .corrupt := by
  intro index activated
  have hdocumented : VectorIndex.Documented platform index := VectorIndex.documented_run calls
  have hnormalized : VectorIndex.Normalized platform index := VectorIndex.normalized_run hunits
  refine ⟨⟨?_, VectorIndex.activateGeneration_of_covers hdocumented hnormalized⟩, ?_⟩
  · rintro ⟨next, hnext⟩
    obtain ⟨⟨horg, hgeneration, hepoch, hproof⟩, ⟨manifest, hmanifest, hreconciled, hcovered⟩, _⟩ :=
      VectorIndex.activateGeneration_ok hnext
    obtain ⟨row, hget, rfl⟩ := VectorIndex.manifest_ok hmanifest
    rw [hget, Option.any_some] at hreconciled
    exact ⟨horg, hgeneration, hepoch, hproof, ⟨row, hget, of_decide_eq_true hreconciled⟩,
      fun key hkey =>
        (VectorIndex.checkCovered_iff hdocumented hnormalized hget key).1.mp (hcovered key hkey)⟩
  · refine VectorIndex.notCorrupt_bind (VectorIndex.notCorrupt_required _) fun _ _ => ?_
    refine VectorIndex.notCorrupt_bind (VectorIndex.notCorrupt_required _) fun _ _ => ?_
    refine VectorIndex.notCorrupt_bind (VectorIndex.notCorrupt_required _) fun _ _ => ?_
    refine VectorIndex.notCorrupt_bind (VectorIndex.notCorrupt_checkProof _ _) fun _ _ => ?_
    refine VectorIndex.notCorrupt_bind (hdocumented.manifest_notCorrupt _ _)
      fun manifest hmanifest => ?_
    obtain ⟨row, hget, rfl⟩ := VectorIndex.manifest_ok hmanifest
    refine VectorIndex.notCorrupt_bind (VectorIndex.notCorrupt_throwUnless (by simp)) fun _ _ => ?_
    refine VectorIndex.notCorrupt_bind (VectorIndex.notCorrupt_forM fun key _ => ?_) fun _ _ =>
      VectorIndex.notCorrupt_ok _
    rcases (VectorIndex.checkCovered_iff hdocumented hnormalized hget key).2 with hok | hmissing
    · exact hok ▸ VectorIndex.notCorrupt_ok ()
    · exact hmissing ▸ fun heq => by cases heq

theorem plain_storesUnits (call : IndexCall) : call.storesUnits plainPlatform := by
  cases call with
  | stageChunk => rfl
  | complete => exact fun _ _ => rfl
  | _ => trivial

theorem activation_iff_covered_published :
    ∃ next, (run (VectorIndex.step plainPlatform) {} (claimedOnce ++
      [.complete claimedJob "w1" ⟨500, by decide⟩ [plainChunk] false])).activateGeneration
        plainPlatform "o" "g1" "e1" [⟨"v1", plainPlatform.sha256 []⟩] = .ok next := by
  refine (activation_iff_covered plainPlatform _ (fun call _ => plain_storesUnits call) "o" "g1"
    "e1" _).1.mpr ⟨by decide +kernel, by decide +kernel, by decide +kernel, by decide +kernel,
      ⟨⟨"o", plainGeneration, some "e1"⟩, by decide +kernel⟩, fun key hkey => ?_⟩
  obtain rfl := List.mem_singleton.mp hkey
  exact ⟨⟨⟨"o", "g1", "v1"⟩, plainPlatform.sha256 [], "s", "x", 1⟩, by decide +kernel⟩

/-- After any calls that store unit vectors, the owner of a job finds every chunk staged for it
since its checkpoint began, as it was stored, and no row corrupt. -/
theorem checkpoint_loaded (platform : EmbeddingPlatform) (calls : List IndexCall)
    (hunits : ∀ call ∈ calls, call.storesUnits platform) (job : EmbeddingJob) (owner : String)
    (now : Stamp) (horg : blank job.orgId = false)
    (howns : (run (VectorIndex.step platform) {} calls).ownsJob job owner now = .ok true) :
    let index := run (VectorIndex.step platform) {} calls
    index.loadStagedChunks platform job owner now = .ok (index.checkpoint job.id) :=
  VectorIndex.loadStagedChunks_of_owner (VectorIndex.checkpointed_run calls)
    (VectorIndex.documented_run calls) (VectorIndex.governed_run platform calls)
    (VectorIndex.normalized_run hunits) horg howns

theorem checkpoint_loaded_staged :
    let index := run (VectorIndex.step plainPlatform) {} (claimedOnce ++
      [.stageChunk claimedJob "w1" ⟨500, by decide⟩ plainChunk])
    index.loadStagedChunks plainPlatform claimedJob "w1" ⟨501, by decide⟩ =
      .ok (index.checkpoint 1) :=
  checkpoint_loaded plainPlatform _ (fun call _ => plain_storesUnits call) claimedJob "w1"
    ⟨501, by decide⟩ (by decide +kernel) (by decide +kernel)

end Regenic.Embedding
