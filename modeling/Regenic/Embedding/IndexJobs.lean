import Regenic.Embedding.IndexDocuments

/-!
The jobs of the index. A checkpoint grows by one chunk at a time, each following the last, or goes
as a whole, and a lease that runs is not disturbed by other workers.
-/

namespace Regenic.Embedding

open Lib

namespace VectorIndex

variable {platform : EmbeddingPlatform}
variable {index next : VectorIndex} {call : IndexCall} {job : EmbeddingJob}
  {orgId generation owner : String} {now : Stamp} {p : JobRow → Bool} {f : JobRow → JobRow}

/-! ## Checkpoints -/

/-- The staged chunks of a job, in the order they came. -/
def checkpoint (index : VectorIndex) (id : Nat) : List ContextVectorChunk :=
  (index.stagedChunks.filter fun row => row.jobId = id).map (·.chunk)

theorem stagedOf_eq {id : Nat} (h : Tiles 0 0 (index.checkpoint id)) :
    index.stagedOf id = index.checkpoint id :=
  byOrdinal_of_perm (List.Perm.refl _) h

/-- What a checkpoint that is not empty rests on: an open job of a registered generation, which
admits its chunks. -/
def SoundCheckpoint (platform : EmbeddingPlatform) (index : VectorIndex) (id : Nat) : Prop :=
  ∃ row generation, index.jobs.get? id = some row ∧ isOpen row = true ∧
    index.generations.get? (row.orgId, row.generation) = some generation ∧
    (index.checkpoint id).length ≤ generation.manifest.maxChunksPerEvent ∧
    ∀ chunk ∈ index.checkpoint id, Admits platform generation.manifest chunk

structure Checkpointed (platform : EmbeddingPlatform) (index : VectorIndex) : Prop where
  registered : ∀ row ∈ index.jobs.rows,
    (index.generations.get? (row.orgId, row.generation)).isSome = true
  sound : ∀ id, index.checkpoint id ≠ [] → SoundCheckpoint platform index id
  tiled : ∀ id, Tiles 0 0 (index.checkpoint id)
  fresh : ∀ row ∈ index.jobs.rows, row.id < index.nextJobId

theorem checkpoint_congr (h : next.stagedChunks = index.stagedChunks) (id : Nat) :
    next.checkpoint id = index.checkpoint id := by
  unfold checkpoint
  rw [h]

theorem checkpoint_filter (keep : Nat → Bool)
    (h : next.stagedChunks = index.stagedChunks.filter fun row => keep row.jobId) (id : Nat) :
    next.checkpoint id = if keep id then index.checkpoint id else [] := by
  unfold checkpoint
  rw [h, List.filter_filter]
  split
  · next hkeep =>
    congr 1
    refine List.filter_congr fun row _ => ?_
    by_cases hid : row.jobId = id <;> simp [hid, hkeep]
  · next hkeep =>
    rw [List.map_eq_nil_iff, List.filter_eq_nil_iff]
    intro row _ hrow
    simp only [Bool.and_eq_true, decide_eq_true_eq] at hrow
    exact hkeep (hrow.1 ▸ hrow.2)

/-- An update of jobs that closes none without dropping its checkpoint. -/
theorem Checkpointed.updated (h : Checkpointed platform index) (hid : ∀ row, (f row).id = row.id)
    (keep : Nat → Bool) (hjobs : next.jobs = index.jobs.updateWhere p f hid)
    (hstaged : next.stagedChunks = index.stagedChunks.filter fun row => keep row.jobId)
    (hgenerations : next.generations = index.generations) (hnext : next.nextJobId = index.nextJobId)
    (hdocument : ∀ row, documentOf (f row) = documentOf row)
    (hopen : ∀ row ∈ index.jobs.rows, p row = true → isOpen row = true →
      isOpen (f row) = true ∨ keep row.id = false) : Checkpointed platform next := by
  have hchunks := checkpoint_filter keep hstaged
  have hplace : ∀ row, ((f row).orgId, (f row).generation) = (row.orgId, row.generation) :=
    fun row => congrArg (fun key => (key.orgId, key.generation)) (hdocument row)
  refine ⟨?_, ?_, ?_, ?_⟩
  · intro row hrow
    rw [hjobs] at hrow
    obtain ⟨old, hold, rfl⟩ := List.mem_map.mp hrow
    have hsome := h.registered old hold
    rw [hgenerations]
    split
    · rw [hplace]
      exact hsome
    · exact hsome
  · intro id hne
    rw [hchunks] at hne
    have hkeep : keep id = true := by
      by_contra hnot
      exact hne (if_neg hnot)
    rw [if_pos hkeep] at hne
    obtain ⟨row, generation, hget, hrow, hgeneration, hlength, hadmits⟩ := h.sound id hne
    have hsame : next.checkpoint id = index.checkpoint id := (hchunks id).trans (if_pos hkeep)
    obtain ⟨hmem, hrowId⟩ := Table.get?_eq_some.mp hget
    refine ⟨if p row then f row else row, generation, ?_, ?_, ?_, hsame ▸ hlength,
      hsame ▸ hadmits⟩
    · rw [hjobs, Table.get?_updateWhere, hget]
      rfl
    · split
      · next hp =>
        rcases hopen row hmem hp hrow with hstill | hdropped
        · exact hstill
        · rw [hrowId, hkeep] at hdropped
          cases hdropped
      · exact hrow
    · rw [hgenerations]
      split
      · rw [hplace]
        exact hgeneration
      · exact hgeneration
  · intro id
    rw [hchunks]
    split
    · exact h.tiled id
    · exact trivial
  · intro row hrow
    rw [hjobs] at hrow
    obtain ⟨old, hold, rfl⟩ := List.mem_map.mp hrow
    rw [hnext]
    have hlt := h.fresh old hold
    split
    · rw [hid]
      exact hlt
    · exact hlt

theorem Checkpointed.updateJobs (h : Checkpointed platform index) (hf : KeepsJob f) :
    Checkpointed platform (index.updateJobs p f hf.id) :=
  h.updated hf.id (fun _ => true) rfl (List.filter_eq_self.mpr fun _ _ => rfl).symm rfl rfl
    hf.document fun row _ _ hrow => Or.inl (hf.opened row hrow)

/-- Deleting jobs with their checkpoints, and generations that no job is left of. -/
theorem Checkpointed.deleteGenerations (h : Checkpointed platform index)
    (p : String → String → Bool) : Checkpointed platform (index.deleteGenerations p) := by
  let jobs := index.jobs.filter fun row => !p row.orgId row.generation
  have hfilter : (index.deleteGenerations p).stagedChunks =
      index.stagedChunks.filter fun row => (jobs.get? row.jobId).isSome := rfl
  have hchunks := checkpoint_filter (fun id => (jobs.get? id).isSome) hfilter
  have hgenerations : ∀ {row : JobRow} {generation : GenerationRow},
      p row.orgId row.generation = false →
      index.generations.get? (row.orgId, row.generation) = some generation →
      (index.deleteGenerations p).generations.get? (row.orgId, row.generation) =
        some generation := by
    intro row generation hp hget
    have hkey : (generation.orgId, generation.manifest.id) = (row.orgId, row.generation) :=
      (Table.get?_eq_some.mp hget).2
    rw [VectorIndex.deleteGenerations, Table.get?_filter, hget, Option.filter_some,
      (Prod.mk.inj hkey).1, (Prod.mk.inj hkey).2, if_pos (by simp [hp])]
  refine ⟨?_, ?_, ?_, ?_⟩
  · intro row hrow
    obtain ⟨hold, hp⟩ := List.mem_filter.mp hrow
    obtain ⟨generation, hget⟩ := Option.isSome_iff_exists.mp (h.registered row hold)
    exact Option.isSome_iff_exists.mpr ⟨generation, hgenerations (by simpa using hp) hget⟩
  · intro id hne
    rw [hchunks] at hne
    have hkeep : (jobs.get? id).isSome = true := by
      by_contra hnot
      exact hne (if_neg hnot)
    rw [if_pos hkeep] at hne
    obtain ⟨row, generation, hget, hrow, hgeneration, hlength, hadmits⟩ := h.sound id hne
    have hsame := (hchunks id).trans (if_pos hkeep)
    obtain ⟨kept, hkept⟩ := Option.isSome_iff_exists.mp hkeep
    have hfilter := hkept
    rw [Table.get?_filter, hget] at hfilter
    obtain ⟨hkeptRow, hp⟩ := Option.filter_eq_some_iff.mp hfilter
    obtain rfl := Option.some.inj hkeptRow
    exact ⟨row, generation, hkept, hrow, hgenerations (by simpa using hp) hgeneration,
      hsame ▸ hlength, hsame ▸ hadmits⟩
  · intro id
    rw [hchunks]
    split
    · exact h.tiled id
    · exact trivial
  · exact fun row hrow => h.fresh row (List.mem_filter.mp hrow).1

/-- Jobs, checkpoints and the manifests of their generations stay. -/
theorem Checkpointed.congr (h : Checkpointed platform index) (hjobs : next.jobs = index.jobs)
    (hstaged : next.stagedChunks = index.stagedChunks) (hnext : next.nextJobId = index.nextJobId)
    (hgenerations : ∀ key generation, index.generations.get? key = some generation →
      ∃ generation', next.generations.get? key = some generation' ∧
        generation'.manifest = generation.manifest) : Checkpointed platform next := by
  have hsame := checkpoint_congr hstaged
  refine ⟨?_, ?_, fun id => (hsame id).symm ▸ h.tiled id, ?_⟩
  · rw [hjobs]
    intro row hrow
    obtain ⟨generation, hget⟩ := Option.isSome_iff_exists.mp (h.registered row hrow)
    obtain ⟨generation', hget', _⟩ := hgenerations _ _ hget
    exact Option.isSome_iff_exists.mpr ⟨generation', hget'⟩
  · intro id hne
    rw [hsame] at hne
    obtain ⟨row, generation, hget, hrow, hgeneration, hlength, hadmits⟩ := h.sound id hne
    obtain ⟨generation', hget', hmanifest⟩ := hgenerations _ _ hgeneration
    refine ⟨row, generation', hjobs ▸ hget, hrow, hget', ?_, ?_⟩
    · rw [hsame, hmanifest]
      exact hlength
    · rw [hsame, hmanifest]
      exact hadmits
  · rw [hjobs, hnext]
    exact h.fresh

theorem Checkpointed.insertJob (h : Checkpointed platform index) (head : EmbeddingSourceHead)
    (fence : Nat) (hregistered : (index.generations.get? (orgId, generation)).isSome = true) :
    Checkpointed platform (index.insertJob orgId generation head fence) := by
  unfold VectorIndex.insertJob
  split
  · exact h
  refine ⟨?_, ?_, h.tiled, ?_⟩
  · intro row hrow
    rcases Table.mem_put.mp hrow with rfl | ⟨hold, _⟩
    · exact hregistered
    · exact h.registered row hold
  · intro id hne
    obtain ⟨row, g, hget, hrest⟩ := h.sound id hne
    obtain ⟨hmem, rfl⟩ := Table.get?_eq_some.mp hget
    have hlt := h.fresh row hmem
    refine ⟨row, g, ?_, hrest⟩
    simp only [Table.get?_put]
    rw [if_neg (Nat.ne_of_gt hlt), hget]
  · intro row hrow
    rcases Table.mem_put.mp hrow with rfl | ⟨hold, _⟩
    · exact Nat.lt_succ_self _
    · exact (h.fresh row hold).trans (Nat.lt_succ_self _)

theorem Checkpointed.supersede (h : Checkpointed platform index) (orgId : String)
    (head : EmbeddingSourceHead) : Checkpointed platform (index.supersede orgId head) := by
  refine h.updated (f := superseded) (fun _ => rfl)
    (fun id => !((index.supersede orgId head).jobs.get? id).any fun row =>
      (row.orgId = orgId && row.source = head.source && row.externalId = head.externalId) &&
        row.status = .superseded) rfl rfl rfl rfl (fun _ => rfl) fun row hrow hp hopen => Or.inr ?_
  have hget : (index.supersede orgId head).jobs.get? row.id = some (superseded row) := by
    have hupdated := Table.get?_updateWhere index.jobs
      (fun row => (row.orgId = orgId && row.source = head.source &&
        row.externalId = head.externalId) && row.eventId ≠ head.eventId) superseded
      (fun _ => rfl) row.id
    rw [Table.get?_key hrow, Option.map_some, if_pos hp] at hupdated
    exact hupdated
  simp only [Bool.and_eq_true] at hp
  rw [hget, Option.any_some]
  simp only [superseded, Bool.not_eq_eq_eq_not, Bool.not_false, Bool.and_eq_true, decide_true,
    and_true]
  exact hp.1

theorem Checkpointed.reconcileHead (h : Checkpointed platform index) {head : EmbeddingSourceHead}
    (hregistered : (index.generations.get? (orgId, generation)).isSome = true)
    (hdone : VectorIndex.reconcileHead orgId generation index head = .ok next) :
    Checkpointed platform next := by
  obtain ⟨fence, rfl⟩ := reconcileHead_ok hdone
  have hkept : ∀ {moved : VectorIndex}, moved.jobs = index.jobs →
      moved.stagedChunks = index.stagedChunks → moved.nextJobId = index.nextJobId →
      moved.generations = index.generations → Checkpointed platform moved :=
    fun hjobs hstaged hnext hgenerations => h.congr hjobs hstaged hnext
      fun _ g hget => ⟨g, hgenerations ▸ hget, rfl⟩
  split
  · refine Checkpointed.insertJob ?_ head _ hregistered
    exact hkept rfl rfl rfl rfl
  · refine Checkpointed.insertJob (Checkpointed.supersede ?_ orgId head) head _ hregistered
    exact hkept rfl rfl rfl rfl

theorem Checkpointed.reconciles (h : Checkpointed platform index) (key : String × String)
    (readEpoch : String) : Checkpointed platform { index with
      generations := index.generations.update key
        (fun row => { row with reconciledEpoch := some readEpoch }) fun _ => rfl } := by
  refine h.congr rfl rfl rfl fun other g hkey => ?_
  have hupdate := Table.get?_update index.generations key
    (fun row => { row with reconciledEpoch := some readEpoch }) (fun _ => rfl) other
  rw [hkey] at hupdate
  split at hupdate
  · exact ⟨_, hupdate, rfl⟩
  · exact ⟨g, hupdate, rfl⟩

theorem dropVisual_staged (index : VectorIndex) (key : DocumentKey) :
    (index.dropVisual key).stagedChunks = index.stagedChunks := by
  unfold VectorIndex.dropVisual
  simp only
  split <;> rfl

theorem Checkpointed.dropVisual (h : Checkpointed platform index) (key : DocumentKey) :
    Checkpointed platform (index.dropVisual key) := by
  unfold VectorIndex.dropVisual
  simp only
  split
  · refine h.updated (f := emptied) (fun _ => rfl) (fun _ => true) rfl
      (List.filter_eq_self.mpr fun _ _ => rfl).symm rfl rfl (fun _ => rfl) ?_
    intro row _ hp hopen
    simp only [Bool.and_eq_true, decide_eq_true_eq] at hp
    simp [isOpen, hp.2] at hopen
  · exact h.congr rfl rfl rfl fun _ g hget => ⟨g, hget, rfl⟩

theorem Checkpointed.reopens (h : Checkpointed platform index) (orgId : String) (allowed : Bool) :
    Checkpointed platform
      ((index.dropCheckpoints orgId).updateJobs (reopened orgId allowed) requeued fun _ => rfl) :=
  h.updated (f := requeued) (fun _ => rfl)
    (fun id => !(index.jobs.get? id).any fun row => row.orgId = orgId) rfl rfl rfl rfl
    (fun _ => rfl) fun _ _ _ _ => Or.inl rfl

theorem Checkpointed.publish (h : Checkpointed platform index) (job : EmbeddingJob) (hash : String)
    (chunks : List ContextVectorChunk) (noContent : Bool) :
    Checkpointed platform (index.publish job hash chunks noContent) := by
  refine h.updated (f := ended noContent) (fun _ => rfl) (fun id => id ≠ job.id) rfl rfl rfl rfl
    (fun _ => rfl)
    fun row _ hp _ => Or.inr ?_
  simpa using hp

theorem registerGeneration_kept {generation : EmbeddingGeneration}
    (h : index.registerGeneration platform orgId generation = .ok next) :
    ∀ key old, index.generations.get? key = some old → next.generations.get? key = some old := by
  obtain ⟨_, _, _, rfl⟩ := registerGeneration_ok h
  intro key old hget
  split
  · exact hget
  · next hfree =>
    simp only [recordActivation, Table.get?_put]
    rw [if_neg, hget]
    intro hkey
    apply hfree
    rw [show (orgId, generation.id) = key from hkey, hget]
    rfl

theorem checkpoint_staged (index : VectorIndex) (jobId id : Nat) (chunk : ContextVectorChunk) :
    VectorIndex.checkpoint
        { index with stagedChunks := index.stagedChunks ++ [⟨jobId, chunk⟩] } id =
      index.checkpoint id ++ if jobId = id then [chunk] else [] := by
  unfold checkpoint
  rw [List.filter_append, List.map_append]
  congr 1
  by_cases hid : jobId = id <;> simp [hid]

theorem Checkpointed.stages (h : Checkpointed platform index) {chunk : ContextVectorChunk}
    (hstages : index.Stages platform job owner now chunk) : Checkpointed platform
      { index with stagedChunks := index.stagedChunks ++ [⟨job.id, chunk.stored⟩] } := by
  obtain ⟨generation, hmanifest, hmax, hadmits⟩ := hstages.registered
  obtain ⟨registered, hgeneration, rfl⟩ := manifest_ok hmanifest
  obtain ⟨row, hrow, hleased, _⟩ := ownsJob_ok hstages.owns
  obtain ⟨hid, horg, hgen, hstatus, _⟩ := leasedTo_iff.mp hleased
  have hordinal := hstages.ordinal
  have hstart := hstages.start
  rw [stagedOf_eq (h.tiled job.id)] at hordinal hstart
  have htiled : Tiles 0 0 (index.checkpoint job.id ++ [chunk.stored]) :=
    tiles_append.mpr ⟨h.tiled job.id, hordinal, hstart, hstages.nonempty⟩
  refine ⟨h.registered, ?_, ?_, h.fresh⟩
  · intro id hne
    rw [checkpoint_staged] at hne
    by_cases hsame : job.id = id
    · subst hsame
      refine ⟨row, registered, hid ▸ Table.get?_key hrow, by simp [isOpen, hstatus],
        by rw [horg, hgen]; exact hgeneration, ?_, ?_⟩
      · rw [checkpoint_staged, if_pos rfl, List.length_append, List.length_singleton]
        have hnext := (h.tiled job.id).next_ordinal
        rw [← hordinal] at hnext
        omega
      · rw [checkpoint_staged, if_pos rfl]
        intro chunk' hmem
        rcases List.mem_append.mp hmem with hold | hnew
        · obtain ⟨row', g, hget, _, hg, _, hin⟩ := h.sound job.id (List.ne_nil_of_mem hold)
          rw [← hid, Table.get?_key hrow] at hget
          obtain rfl := Option.some.inj hget
          rw [horg, hgen, hgeneration] at hg
          obtain rfl := Option.some.inj hg
          exact hin chunk' hold
        · obtain rfl := List.mem_singleton.mp hnew
          exact hadmits.stored
    · rw [if_neg hsame, List.append_nil] at hne
      obtain ⟨row', g, hget, hopen, hg, hlength, hin⟩ := h.sound id hne
      refine ⟨row', g, hget, hopen, hg, ?_⟩
      rw [checkpoint_staged, if_neg hsame, List.append_nil]
      exact ⟨hlength, hin⟩
  · intro id
    rw [checkpoint_staged]
    split
    · next hsame => exact hsame ▸ htiled
    · rw [List.append_nil]
      exact h.tiled id

theorem Checkpointed.change (h : Checkpointed platform index)
    (hchange : Change platform call index next) : Checkpointed platform next := by
  cases hchange with
  | updatesJobs hf => exact h.updateJobs hf
  | registers hdone =>
    have hkept := registerGeneration_kept hdone
    obtain ⟨_, _, _, rfl⟩ := registerGeneration_ok hdone
    refine h.congr ?_ ?_ ?_ fun key g hget => ⟨g, hkept key g hget, rfl⟩ <;> split <;> rfl
  | activates hdone =>
    obtain ⟨_, _, rfl⟩ := activateGeneration_ok hdone
    exact h.congr rfl rfl rfl fun _ g hget => ⟨g, hget, rfl⟩
  | removes _ hdone =>
    obtain ⟨_, _, rfl⟩ := removeGeneration_ok hdone
    refine Checkpointed.deleteGenerations ?_ _
    exact h.congr rfl rfl rfl fun _ g hget => ⟨g, hget, rfl⟩
  | clears _ hdone =>
    obtain rfl := clearOrganization_ok hdone
    exact (h.deleteGenerations fun org _ => org = _).congr rfl rfl rfl
      fun _ g hget => ⟨g, hget, rfl⟩
  | moves _ hregistered hdone => exact h.reconcileHead hregistered hdone
  | reconciles key readEpoch => exact h.reconciles key readEpoch
  | dropsVisual key => exact h.dropVisual key
  | reopens orgId allowed enabled _ =>
    exact (h.reopens orgId allowed).congr rfl rfl rfl fun _ g hget => ⟨g, hget, rfl⟩

/-- Every call keeps the checkpoints sound. -/
theorem Checkpointed.after (h : Checkpointed platform index)
    (hdone : index.after platform call = .ok next) : Checkpointed platform next := by
  rcases after_cases hdone with hchanges | ⟨job, owner, now, chunk, -, hstages, rfl⟩ |
    ⟨job, owner, now, chunks, noContent, -, -, rfl⟩
  · exact changes_invariant _ (fun hs hchange => hs.change hchange) h hchanges
  · exact h.stages hstages
  · exact h.publish job _ chunks noContent

theorem checkpointed_run (calls : List IndexCall) :
    Checkpointed platform (run (VectorIndex.step platform) {} calls) :=
  run_of_after (fun h hdone => h.after hdone) ⟨List.forall_mem_nil _,
    fun _ hne => absurd rfl hne, fun _ => trivial, List.forall_mem_nil _⟩ calls

/-! ### What a call does to a checkpoint -/

/-- The calls that may take the checkpoint of a job away: the end of the job by its owner, a new
head, a change of the permission, and the removal of its generation. -/
def Drops (index : VectorIndex) (id : Nat) : IndexCall → Prop
  | .complete job owner now _ _ => job.id = id ∧ index.ownsJob job owner now = .ok true
  | .setVisualEnabled .. => True
  | .reconcile .. => True
  | .removeGeneration .. => True
  | .clearOrganization .. => True
  | _ => False

/-- The checkpoint stays, or its job's owner adds one chunk, or it goes as a whole. -/
def GrowsOrGoes (index : VectorIndex) (call : IndexCall) (id : Nat)
    (after : List ContextVectorChunk) : Prop :=
  after = index.checkpoint id ∨
    (∃ job owner now chunk, call = .stageChunk job owner now chunk ∧ job.id = id ∧
      index.ownsJob job owner now = .ok true ∧ after = index.checkpoint id ++ [chunk.stored]) ∨
    index.Drops id call ∧ after = []

/-- Checkpoints that are kept or dropped, as they were before some steps. -/
def StaysOrGoes (index next : VectorIndex) : Prop :=
  ∀ id, next.checkpoint id = index.checkpoint id ∨ next.checkpoint id = []

theorem StaysOrGoes.of_filter (keep : Nat → Bool)
    (h : next.stagedChunks = index.stagedChunks.filter fun row => keep row.jobId) :
    StaysOrGoes index next := by
  intro id
  rw [checkpoint_filter keep h]
  split
  · exact Or.inl rfl
  · exact Or.inr rfl

theorem StaysOrGoes.of_eq (h : next.stagedChunks = index.stagedChunks) :
    StaysOrGoes index next := fun id =>
  Or.inl (checkpoint_congr h id)

theorem StaysOrGoes.trans {first second third : VectorIndex} (h : StaysOrGoes first second)
    (h' : StaysOrGoes second third) : StaysOrGoes first third := by
  intro id
  rcases h' id with hstays | hgoes
  · rw [hstays]
    exact h id
  · exact Or.inr hgoes

theorem insertJob_staged (index : VectorIndex) (orgId generation : String)
    (head : EmbeddingSourceHead) (fence : Nat) :
    (index.insertJob orgId generation head fence).stagedChunks = index.stagedChunks := by
  unfold VectorIndex.insertJob
  split <;> rfl

theorem supersede_staysOrGoes (index : VectorIndex) (orgId : String)
    (head : EmbeddingSourceHead) : StaysOrGoes index (index.supersede orgId head) :=
  StaysOrGoes.of_filter (fun id => !((index.supersede orgId head).jobs.get? id).any fun row =>
    (row.orgId = orgId && row.source = head.source && row.externalId = head.externalId) &&
      row.status = .superseded) rfl

theorem deleteGenerations_staysOrGoes (index : VectorIndex) (p : String → String → Bool) :
    StaysOrGoes index (index.deleteGenerations p) :=
  StaysOrGoes.of_filter
    (fun id => ((index.jobs.filter fun row => !p row.orgId row.generation).get? id).isSome) rfl

theorem dropCheckpoints_staysOrGoes (index : VectorIndex) (orgId : String) :
    StaysOrGoes index (index.dropCheckpoints orgId) :=
  StaysOrGoes.of_filter (fun id => !(index.jobs.get? id).any fun row => row.orgId = orgId) rfl

theorem reconcileHead_staysOrGoes {head : EmbeddingSourceHead}
    (h : VectorIndex.reconcileHead orgId generation index head = .ok next) :
    StaysOrGoes index next := by
  obtain ⟨fence, rfl⟩ := reconcileHead_ok h
  refine StaysOrGoes.trans ?_ (StaysOrGoes.of_eq (insertJob_staged _ _ _ _ _))
  split
  · exact StaysOrGoes.of_eq rfl
  · exact supersede_staysOrGoes _ orgId head

theorem checkpoint_publish (index : VectorIndex) (job : EmbeddingJob) (hash : String)
    (chunks : List ContextVectorChunk) (noContent : Bool) (id : Nat) :
    (index.publish job hash chunks noContent).checkpoint id =
      if id ≠ job.id then index.checkpoint id else [] := by
  have hfilter : (index.publish job hash chunks noContent).stagedChunks =
      index.stagedChunks.filter fun row => decide (row.jobId ≠ job.id) := rfl
  rw [checkpoint_filter (fun id => id ≠ job.id) hfilter]
  simp only [decide_eq_true_eq]

/-- A checkpoint stays under a change, or goes if the call may take it. -/
theorem checkpoint_change (hchange : Change platform call index next) (id : Nat) :
    next.checkpoint id = index.checkpoint id ∨ call.takes ∧ next.checkpoint id = [] := by
  have hgoes : call.takes → StaysOrGoes index next →
      next.checkpoint id = index.checkpoint id ∨ call.takes ∧ next.checkpoint id = [] :=
    fun htakes h => (h id).imp_right fun hnone => ⟨htakes, hnone⟩
  cases hchange with
  | updatesJobs _ => exact Or.inl rfl
  | registers hdone =>
    obtain ⟨_, _, _, rfl⟩ := registerGeneration_ok hdone
    refine Or.inl (checkpoint_congr ?_ id)
    split <;> rfl
  | activates hdone =>
    obtain ⟨_, _, rfl⟩ := activateGeneration_ok hdone
    exact Or.inl rfl
  | removes htakes hdone =>
    obtain ⟨_, _, rfl⟩ := removeGeneration_ok hdone
    exact hgoes htakes (deleteGenerations_staysOrGoes _ _)
  | clears htakes hdone =>
    obtain rfl := clearOrganization_ok hdone
    exact hgoes htakes (deleteGenerations_staysOrGoes index fun org _ => org = _)
  | moves htakes _ hdone => exact hgoes htakes (reconcileHead_staysOrGoes hdone)
  | reconciles key readEpoch => exact Or.inl rfl
  | dropsVisual key => exact Or.inl (checkpoint_congr (dropVisual_staged index key) id)
  | reopens orgId allowed enabled htakes =>
    exact hgoes htakes (dropCheckpoints_staysOrGoes index orgId)

theorem drops_of_takes (h : call.takes) (index : VectorIndex) (id : Nat) : index.Drops id call := by
  cases call <;> first | exact trivial | exact h.elim

theorem growsOrGoes_after (h : index.after platform call = .ok next) (id : Nat) :
    GrowsOrGoes index call id (next.checkpoint id) := by
  rcases after_cases h with hchanges | ⟨job, owner, now, chunk, rfl, hstages, rfl⟩ |
    ⟨job, owner, now, chunks, noContent, rfl, hpublishes, rfl⟩
  · have hboth : next.checkpoint id = index.checkpoint id ∨
        call.takes ∧ next.checkpoint id = [] := by
      refine changes_invariant (fun s => s.checkpoint id = index.checkpoint id ∨
        call.takes ∧ s.checkpoint id = []) (fun hs hchange => ?_) (Or.inl rfl) hchanges
      rcases checkpoint_change hchange id with hsame | hnone
      · rw [hsame]
        exact hs
      · exact Or.inr hnone
    exact hboth.imp_right fun hgone => Or.inr ⟨drops_of_takes hgone.1 index id, hgone.2⟩
  · rw [checkpoint_staged]
    split
    · next hid => exact Or.inr (Or.inl ⟨job, owner, now, chunk, rfl, hid, hstages.owns, rfl⟩)
    · exact Or.inl (List.append_nil _)
  · rw [checkpoint_publish]
    by_cases hid : id = job.id
    · exact Or.inr (Or.inr ⟨⟨hid.symm, hpublishes.owns⟩, if_neg (not_not_intro hid)⟩)
    · exact Or.inl (if_pos hid)

end VectorIndex

/-- The call leaves the jobs of this worker alone while its lease runs: it is by another worker, or
takes no job from anyone; clocks do not pass `now`, and it is no permission change, no
reconciliation and no clearing. -/
def IndexCall.leaves (owner : String) (now : Stamp) : IndexCall → Prop
  | .claim _ _ _ clock _ _ => now.before clock = false
  | .renew _ owner' _ _ => owner' ≠ owner
  | .yieldJob _ owner' _ => owner' ≠ owner
  | .complete _ owner' _ _ _ => owner' ≠ owner
  | .fail _ owner' _ _ _ _ => owner' ≠ owner
  | .removeGeneration _ _ clock => now.before clock = false
  | .setVisualEnabled .. => False
  | .reconcile .. => False
  | .clearOrganization .. => False
  | _ => True

theorem Stamp.before_of_le {now clock bound : Stamp} (hclock : now.before clock = false)
    (hbound : now.before bound = true) : clock.before bound = true := by
  unfold Stamp.before at *
  have hle : ¬ Context.Canonical.isoText now.ms < Context.Canonical.isoText clock.ms :=
    of_decide_eq_false hclock
  exact decide_eq_true (List.lt_of_le_of_lt hle (of_decide_eq_true hbound))

namespace VectorIndex

variable {platform : EmbeddingPlatform}
variable {index next : VectorIndex} {call : IndexCall} {job job' : EmbeddingJob}
  {owner owner' : String} {now now' : Stamp} {row : JobRow}

/-- The row stands as it is. -/
theorem mem_updateJobs {p : JobRow → Bool} {f : JobRow → JobRow} {hid : ∀ row, (f row).id = row.id}
    (h : row ∈ index.jobs.rows) (hp : p row = false) : row ∈ (index.updateJobs p f hid).jobs.rows :=
  List.mem_map.mpr ⟨row, h, by rw [hp]; rfl⟩

/-- Another worker owns no job of this one. -/
theorem not_leasedTo (h : leasedTo job owner now row = true) (hne : owner' ≠ owner) :
    leasedTo job' owner' now' row = false := by
  by_contra hleased
  have howner := (leasedTo_iff.mp h).2.2.2.2.1
  have howner' := (leasedTo_iff.mp (by simpa using hleased)).2.2.2.2.1
  exact hne (Option.some.inj (howner'.symm.trans howner))

/-- The job that another worker owns is another one. -/
theorem ne_of_ownsJob (hrow : row ∈ index.jobs.rows) (h : leasedTo job owner now row = true)
    (hne : owner' ≠ owner) (howns : index.ownsJob job' owner' now' = .ok true) :
    row.id ≠ job'.id := by
  intro hid
  obtain ⟨row', hrow', hleased', _⟩ := ownsJob_ok howns
  have hid' := (leasedTo_iff.mp hleased').1
  have hsame : row' = row := Table.eq_of_key hrow' hrow (hid'.trans hid.symm)
  rw [hsame, not_leasedTo h hne] at hleased'
  cases hleased'

/-- What the ownership of a job rests on stands after a call that leaves its owner alone. -/
theorem leased_after (hrow : row ∈ index.jobs.rows) (hleased : leasedTo job owner now row = true)
    (hcall : call.leaves owner now) (h : index.after platform call = .ok next) :
    row ∈ next.jobs.rows ∧ next.sourceHeads = index.sourceHeads := by
  obtain ⟨hid, horg, hgeneration, hstatus, howner, hbound, _⟩ := leasedTo_iff.mp hleased
  obtain ⟨bound, hlease, hbefore⟩ := (Option.any_eq_true ..).mp hbound
  cases call with
  | setVisualEnabled orgId enabled => exact hcall.elim
  | registerGeneration orgId generation =>
    obtain ⟨_, _, _, rfl⟩ := registerGeneration_ok h
    split <;> exact ⟨hrow, rfl⟩
  | activateGeneration orgId generation readEpoch requiredKeys =>
    obtain ⟨_, _, rfl⟩ := activateGeneration_ok h
    exact ⟨hrow, rfl⟩
  | removeGeneration orgId generation clock =>
    obtain ⟨_, hlive, rfl⟩ := removeGeneration_ok h
    refine ⟨List.mem_filter.mpr ⟨hrow, ?_⟩, rfl⟩
    have hnot := hlive row hrow
    simp only [hstatus, hlease, Option.any_some, Stamp.before_of_le hcall hbefore, decide_true,
      Bool.and_true] at hnot
    exact congrArg Bool.not hnot
  | clearOrganization orgId => exact hcall.elim
  | reconcile orgId generation readEpoch heads => exact hcall.elim
  | claim orgId generation' owner' clock leaseMs limit =>
    obtain ⟨result, hresult, rfl⟩ := fst_map_ok h
    obtain ⟨leaseEnd, _, rfl⟩ := claim_ok hresult
    refine ⟨mem_updateJobs hrow ?_, rfl⟩
    by_contra hclaimed
    simp only [Bool.not_eq_false, List.contains_eq_mem, decide_eq_true_eq, List.mem_map] at hclaimed
    obtain ⟨row', hrow', hsame⟩ := hclaimed
    obtain ⟨hmem, hclaimable⟩ := List.mem_filter.mp (List.mem_of_mem_take hrow')
    obtain rfl : row = row' := Table.eq_of_key hrow hmem hsame.symm
    simp [claimable, hstatus, hlease, Stamp.before_of_le hcall hbefore] at hclaimable
  | renew job' owner' clock leaseMs =>
    obtain ⟨result, hresult, rfl⟩ := fst_map_ok h
    obtain ⟨leaseEnd, _, rfl⟩ := renew_ok hresult
    exact ⟨mem_updateJobs hrow (not_leasedTo hleased hcall), rfl⟩
  | stageChunk job' owner' clock chunk =>
    obtain ⟨result, hresult, rfl⟩ := fst_map_ok h
    rcases stageChunk_ok hresult with rfl | ⟨_, rfl⟩ <;> exact ⟨hrow, rfl⟩
  | yieldJob job' owner' clock =>
    obtain ⟨result, hresult, rfl⟩ := fst_map_ok h
    rcases yieldJob_ok hresult with rfl | ⟨howns, rfl⟩
    · exact ⟨hrow, rfl⟩
    · have hne := ne_of_ownsJob hrow hleased hcall howns
      exact ⟨mem_updateJobs hrow (by simpa using hne), rfl⟩
  | complete job' owner' clock chunks noContent =>
    obtain ⟨result, hresult, rfl⟩ := fst_map_ok h
    rcases complete_ok hresult with rfl | ⟨hpublishes, rfl⟩
    · exact ⟨hrow, rfl⟩
    · have hne := ne_of_ownsJob hrow hleased hcall hpublishes.owns
      exact ⟨List.mem_map.mpr ⟨row, hrow, by simp [hne]⟩, rfl⟩
  | fail job' owner' clock retryAt errorCode retryable =>
    obtain ⟨result, hresult, rfl⟩ := fst_map_ok h
    obtain rfl := fail_ok hresult
    exact ⟨mem_updateJobs hrow (not_leasedTo hleased hcall), rfl⟩
  | retryQuarantined orgId generation' eventId =>
    obtain ⟨result, hresult, rfl⟩ := fst_map_ok h
    rw [retryQuarantined_ok hresult]
    exact ⟨mem_updateJobs hrow (by simp [hstatus]), rfl⟩
  | retryFailed orgId generation' limit =>
    obtain ⟨result, hresult, rfl⟩ := fst_map_ok h
    rw [retryFailed_ok hresult]
    refine ⟨mem_updateJobs hrow ?_, rfl⟩
    by_contra hretried
    simp only [Bool.not_eq_false, List.contains_eq_mem, decide_eq_true_eq, List.mem_map] at hretried
    obtain ⟨row', hrow', hsame⟩ := hretried
    obtain ⟨hmem, hfits⟩ := List.mem_filter.mp (List.mem_of_mem_take hrow')
    obtain rfl : row = row' := Table.eq_of_key hrow hmem hsame.symm
    simp [hstatus] at hfits

theorem ownsJob_of {hash : String} (howner : blank owner = false)
    (hjob : job.contentHash = some hash) (hrow : row ∈ index.jobs.rows)
    (hleased : leasedTo job owner now row = true) (hevent : row.eventId = job.eventId)
    (hhash : row.contentHash = job.contentHash) (hsource : row.source = job.source)
    (hexternal : row.externalId = job.externalId) (hhead : index.isHeadOfJob row = true) :
    index.ownsJob job owner now = .ok true := by
  have hany : index.jobs.rows.any (fun row =>
      leasedTo job owner now row && row.eventId = job.eventId && row.contentHash = some hash &&
        row.source = job.source && row.externalId = job.externalId &&
        index.isHeadOfJob row) = true :=
    List.any_eq_true.mpr ⟨row, hrow, by
      simp [hleased, hevent, hhash, hjob, hsource, hexternal, hhead]⟩
  unfold ownsJob required
  rw [howner, hjob]
  exact congrArg Except.ok hany

/-- A step that leaves the owner of a job alone leaves it the job. -/
theorem ownsJob_after (howns : index.ownsJob job owner now = .ok true)
    (hcall : call.leaves owner now) (h : index.after platform call = .ok next) :
    next.ownsJob job owner now = .ok true := by
  obtain ⟨row, hrow, hleased, hevent, hhash, hsource, hexternal, hhead⟩ := ownsJob_ok howns
  obtain ⟨hstays, hheads⟩ := leased_after hrow hleased hcall h
  have howner : blank owner = false := by
    unfold ownsJob at howns
    obtain ⟨⟨⟩, hrequired, _⟩ := sequence_ok howns
    simpa using throwUnless_ok hrequired
  cases hjob : job.contentHash with
  | none =>
    unfold ownsJob at howns
    obtain ⟨_, _, howns⟩ := sequence_ok howns
    rw [hjob] at howns
    cases howns
  | some hash =>
    refine ownsJob_of howner hjob hstays hleased hevent hhash hsource hexternal ?_
    unfold isHeadOfJob at hhead ⊢
    rw [hheads]
    exact hhead

end VectorIndex

end Regenic.Embedding
