import Regenic.Embedding.Resumption

/-!
Workers over one index. Any number of them run, each as often as it likes and under any owner,
among other callers that change generations, heads, jobs and permissions; their calls come in any
order, and a run may stop anywhere. A checkpoint is a beginning of the plan of its job's event all
the same, and a published document is such a plan, or what the loss of the visual permission has
left of it.
-/

namespace Regenic.Embedding

open Lib

namespace VectorIndex

variable {platform : EmbeddingPlatform}
variable {index next : VectorIndex} {call : IndexCall} {job : EmbeddingJob}
  {owner orgId generation : String} {now : Stamp} {chunks staged : List ContextVectorChunk}

/-! ## Jobs keep their events -/

/-- Every job is an old one, about the same event in the same generation, or has a new id. -/
structure KeepsJobs (index next : VectorIndex) : Prop where
  ids : index.nextJobId ≤ next.nextJobId
  rows : ∀ row' ∈ next.jobs.rows, index.nextJobId ≤ row'.id ∨
    ∃ row ∈ index.jobs.rows, row'.id = row.id ∧ row'.generation = row.generation ∧
      row'.eventId = row.eventId

theorem KeepsJobs.refl (index : VectorIndex) : KeepsJobs index index :=
  ⟨Nat.le_refl _, fun row hrow => Or.inr ⟨row, hrow, rfl, rfl, rfl⟩⟩

theorem KeepsJobs.trans {first second third : VectorIndex} (h : KeepsJobs first second)
    (h' : KeepsJobs second third) : KeepsJobs first third := by
  refine ⟨h.ids.trans h'.ids, fun row hrow => ?_⟩
  rcases h'.rows row hrow with hnew | ⟨middle, hmiddle, hid, hgeneration, hevent⟩
  · exact Or.inl (h.ids.trans hnew)
  · rcases h.rows middle hmiddle with hnew | ⟨old, hold, hid', hgeneration', hevent'⟩
    · exact Or.inl (hid ▸ hnew)
    · exact Or.inr ⟨old, hold, hid.trans hid', hgeneration.trans hgeneration',
        hevent.trans hevent'⟩

theorem KeepsJobs.of_eq (hjobs : next.jobs = index.jobs) (hids : next.nextJobId = index.nextJobId) :
    KeepsJobs index next :=
  ⟨hids.ge, fun row hrow => Or.inr ⟨row, hjobs ▸ hrow, rfl, rfl, rfl⟩⟩

theorem KeepsJobs.of_update {p : JobRow → Bool} {f : JobRow → JobRow}
    (hid : ∀ row, (f row).id = row.id) (hjobs : next.jobs = index.jobs.updateWhere p f hid)
    (hids : next.nextJobId = index.nextJobId)
    (hdocument : ∀ row, documentOf (f row) = documentOf row) : KeepsJobs index next := by
  refine ⟨hids.ge, fun row hrow => Or.inr ?_⟩
  rw [hjobs] at hrow
  obtain ⟨old, hold, rfl⟩ := List.mem_map.mp hrow
  refine ⟨old, hold, ?_⟩
  split
  · have hplace := hdocument old
    injection hplace with _ hgeneration hevent
    exact ⟨hid old, hgeneration, hevent⟩
  · exact ⟨rfl, rfl, rfl⟩

theorem KeepsJobs.of_filter {p : JobRow → Bool} (hjobs : next.jobs = index.jobs.filter p)
    (hids : next.nextJobId = index.nextJobId) : KeepsJobs index next := by
  refine ⟨hids.ge, fun row hrow => Or.inr ⟨row, ?_, rfl, rfl, rfl⟩⟩
  rw [hjobs] at hrow
  exact (List.mem_filter.mp hrow).1

theorem keepsJobs_insertJob (index : VectorIndex) (orgId generation : String)
    (head : EmbeddingSourceHead) (fence : Nat) :
    KeepsJobs index (index.insertJob orgId generation head fence) := by
  unfold VectorIndex.insertJob
  split
  · exact KeepsJobs.refl index
  · refine ⟨Nat.le_succ _, fun row hrow => ?_⟩
    rcases Table.mem_put.mp hrow with rfl | ⟨hold, -⟩
    · exact Or.inl (Nat.le_refl _)
    · exact Or.inr ⟨row, hold, rfl, rfl, rfl⟩

theorem keepsJobs_reconcileHead {head : EmbeddingSourceHead}
    (h : VectorIndex.reconcileHead orgId generation index head = .ok next) :
    KeepsJobs index next := by
  obtain ⟨fence, rfl⟩ := reconcileHead_ok h
  refine KeepsJobs.trans ?_ (keepsJobs_insertJob _ _ _ _ _)
  split
  · exact KeepsJobs.of_eq rfl rfl
  · exact KeepsJobs.of_update (f := superseded) (fun _ => rfl) rfl rfl fun _ => rfl

theorem keepsJobs_dropVisual (index : VectorIndex) (key : DocumentKey) :
    KeepsJobs index (index.dropVisual key) := by
  unfold VectorIndex.dropVisual
  simp only
  split
  · exact KeepsJobs.of_update (f := emptied) (fun _ => rfl) rfl rfl fun _ => rfl
  · exact KeepsJobs.of_eq rfl rfl

theorem keepsJobs_change (hchange : Change platform call index next) : KeepsJobs index next := by
  cases hchange with
  | updatesJobs hf => exact KeepsJobs.of_update hf.id rfl rfl hf.document
  | registers hdone =>
    obtain ⟨_, _, _, rfl⟩ := registerGeneration_ok hdone
    split <;> exact KeepsJobs.of_eq rfl rfl
  | activates hdone =>
    obtain ⟨_, _, rfl⟩ := activateGeneration_ok hdone
    exact KeepsJobs.of_eq rfl rfl
  | removes _ hdone =>
    obtain ⟨_, _, rfl⟩ := removeGeneration_ok hdone
    exact KeepsJobs.of_filter rfl rfl
  | clears _ hdone =>
    obtain rfl := clearOrganization_ok hdone
    exact KeepsJobs.of_filter rfl rfl
  | moves _ _ hdone => exact keepsJobs_reconcileHead hdone
  | reconciles key readEpoch => exact KeepsJobs.of_eq rfl rfl
  | dropsVisual key => exact keepsJobs_dropVisual index key
  | reopens orgId allowed enabled _ =>
    exact KeepsJobs.of_update (f := requeued) (fun _ => rfl) rfl rfl fun _ => rfl

theorem keepsJobs_after (h : index.after platform call = .ok next) : KeepsJobs index next := by
  rcases after_cases h with hchanges | ⟨job, owner, now, chunk, -, -, rfl⟩ |
    ⟨job, owner, now, chunks, noContent, -, -, rfl⟩
  · exact changes_invariant (KeepsJobs index)
      (fun hs hchange => hs.trans (keepsJobs_change hchange)) (KeepsJobs.refl index) hchanges
  · exact KeepsJobs.of_eq rfl rfl
  · exact KeepsJobs.of_update (f := ended noContent) (fun _ => rfl) rfl rfl fun _ => rfl

/-! ## What becomes of documents -/

/-- What is published is the chunks of the call, and other documents stay. -/
theorem Documented.chunksOf_publish (h : Documented platform index) {hash : String}
    {noContent : Bool} (htiles : Tiles 0 0 chunks) (key : DocumentKey) :
    (index.publish job hash chunks noContent).chunksOf key =
      if (⟨job.orgId, job.generation, job.eventId⟩ : DocumentKey) = key then
        chunks.map ContextVectorChunk.stored else index.chunksOf key := by
  have hrows : rowsOf key (index.publish job hash chunks noContent).chunks =
      rowsOf key (index.deleteCoverage fun row => row.toDocumentKey =
        (⟨job.orgId, job.generation, job.eventId⟩ : DocumentKey)).chunks ++
        if (⟨job.orgId, job.generation, job.eventId⟩ : DocumentKey) = key then
          chunks.map ContextVectorChunk.stored else [] := by
    rw [← rowsOf_append]
    unfold VectorIndex.publish
    simp only [List.map_map]
    rfl
  rw [chunksOf_eq, hrows]
  split
  · next hkey =>
    rw [← hkey, h.rowsOf_deleted]
    exact byOrdinal_of_perm (List.Perm.refl _) htiles.stored
  · next hkey =>
    rw [List.append_nil, chunksOf_eq]
    congr 1
    refine rowsOf_filter_other fun row hrow hrowKey => ?_
    obtain ⟨covering, hget⟩ := Option.isSome_iff_exists.mp (h.owned row hrow)
    have hcovering := get?_coverage_key hget
    rw [hrowKey] at hcovering
    rw [hget, Option.any_some, hcovering]
    simp [Ne.symm hkey]

/-! ## What the index holds of plans -/

/-- The chunks are all of the plan's, which has no error, or those that are not visual. -/
def OfPlan (total : Plan) (chunks : List ContextVectorChunk) : Prop :=
  total.stop = none ∧ (chunks = total.rows.map ContextVectorChunk.stored ∨
    chunks = renumbered 0 0 (total.rows.map ContextVectorChunk.stored))

/-- Checkpoints are beginnings of plans, and documents are plans. -/
structure Planned (platform : EmbeddingPlatform) (plan : String → String → Plan)
    (index : VectorIndex) : Prop where
  documented : Documented platform index
  checkpointed : Checkpointed platform index
  checkpoints : ∀ row ∈ index.jobs.rows, index.checkpoint row.id <+:
    (plan row.generation row.eventId).rows.map ContextVectorChunk.stored
  documents : ∀ key, index.chunksOf key = [] ∨
    OfPlan (plan key.generation key.eventId) (index.chunksOf key)

variable {plan : String → String → Plan}

/-- A row under an id that the index has given out before is about the same event. -/
theorem Planned.old_row (h : Planned platform plan index) (hjobs : KeepsJobs index next)
    {row row' : JobRow} (hrow : row ∈ index.jobs.rows) (hrow' : row' ∈ next.jobs.rows)
    (hid : row'.id = row.id) : row'.generation = row.generation ∧ row'.eventId = row.eventId := by
  rcases hjobs.rows row' hrow' with hnew | ⟨old, hold, hsame, hplace⟩
  · have hlt := h.checkpointed.fresh row hrow
    omega
  · obtain rfl : row = old := Table.eq_of_key hrow hold (hid.symm.trans hsame)
    exact hplace

/-- Steps that add nothing to a checkpoint or a document. -/
theorem Planned.keeps (h : Planned platform plan index) (hdocumented : Documented platform next)
    (hcheckpointed : Checkpointed platform next) (hjobs : KeepsJobs index next)
    (hcheckpoints : StaysOrGoes index next) (hdocuments : ∀ key, next.chunksOf key = [] ∨
      OfPlan (plan key.generation key.eventId) (next.chunksOf key)) :
    Planned platform plan next := by
  refine ⟨hdocumented, hcheckpointed, fun row' hrow' => ?_, hdocuments⟩
  rcases hcheckpoints row'.id with hsame | hnone
  · rw [hsame]
    by_cases hempty : index.checkpoint row'.id = []
    · rw [hempty]
      exact List.nil_prefix
    · obtain ⟨row, _, hget, -⟩ := h.checkpointed.sound row'.id hempty
      obtain ⟨hrow, hid⟩ := Table.get?_eq_some.mp hget
      obtain ⟨hgeneration, hevent⟩ := h.old_row hjobs hrow hrow' hid.symm
      rw [hgeneration, hevent, ← hid]
      exact h.checkpoints row hrow
  · rw [hnone]
    exact List.nil_prefix

theorem Planned.documents_of_strips (h : Planned platform plan index)
    (hstrips : StaysOrStrips index next) (key : DocumentKey) : next.chunksOf key = [] ∨
      OfPlan (plan key.generation key.eventId) (next.chunksOf key) := by
  rcases hstrips key with hsame | hnone | hstripped
  · rw [hsame]
    exact h.documents key
  · exact Or.inl hnone
  · rw [hstripped]
    rcases h.documents key with hnone | ⟨hstop, hwhole | hstripped'⟩
    · rw [hnone]
      exact Or.inl rfl
    · rw [hwhole]
      exact Or.inr ⟨hstop, Or.inr rfl⟩
    · rw [hstripped', renumbered_renumbered]
      exact Or.inr ⟨hstop, Or.inr rfl⟩

theorem Planned.stageChunk (h : Planned platform plan index)
    (htiled : ∀ generation eventId, Tiles 0 0 (plan generation eventId).rows)
    {chunk : ContextVectorChunk} {place : Nat}
    (hrow : (plan job.generation job.eventId).rows[place]? = some chunk)
    (hdone : index.after platform (.stageChunk job owner now chunk) = .ok next) :
    Planned platform plan next := by
  have hdocumented := h.documented.after hdone
  have hcheckpointed := h.checkpointed.after hdone
  have hstrips := staysOrStrips_after h.documented hdone (by intros; exact IndexCall.noConfusion)
  obtain ⟨result, hresult, rfl⟩ := fst_map_ok hdone
  rcases stageChunk_ok hresult with rfl | ⟨hstages, rfl⟩
  · exact h
  refine ⟨hdocumented, hcheckpointed, fun row hmem => ?_, h.documents_of_strips hstrips⟩
  simp only
  rw [checkpoint_staged]
  split
  · next hid =>
    obtain ⟨owned, howned, hleased, hevent, -⟩ := ownsJob_ok hstages.owns
    obtain ⟨hownedId, -, hgeneration, -⟩ := leasedTo_iff.mp hleased
    have hordinal := hstages.ordinal
    have hsame : row = owned := by
      have hget := Table.get?_key hmem
      have hget' := Table.get?_key howned
      rw [hownedId, hid] at hget'
      exact Option.some.inj (hget.symm.trans hget')
    have hbefore := h.checkpoints row hmem
    rw [hsame, hgeneration, hevent, hownedId] at hbefore ⊢
    rw [stagedOf_eq (h.checkpointed.tiled job.id)] at hordinal
    have hnext := (h.checkpointed.tiled job.id).next_ordinal
    rw [← hordinal, (htiled _ _).ordinal_eq hrow, Nat.zero_add, Nat.zero_add] at hnext
    -- The chunk is the one that comes next in the plan.
    have hlast : ((plan job.generation job.eventId).rows.map
        ContextVectorChunk.stored)[(index.checkpoint job.id).length]? = some chunk.stored := by
      rw [← hnext, List.getElem?_map, hrow]
      rfl
    obtain ⟨rest, hrest⟩ := hbefore
    rw [← hrest, List.getElem?_append_right (Nat.le_refl _), Nat.sub_self] at hlast
    cases rest with
    | nil => cases hlast
    | cons first more =>
      obtain rfl := Option.some.inj hlast
      exact ⟨more, by rw [← hrest, List.append_assoc]; rfl⟩
  · rw [List.append_nil]
    exact h.checkpoints row hmem

theorem Planned.complete (h : Planned platform plan index)
    (htiled : ∀ generation eventId, Tiles 0 0 (plan generation eventId).rows) {empty : Bool}
    (hstop : (plan job.generation job.eventId).stop = none)
    (hchunks : chunks.map ContextVectorChunk.stored =
      (plan job.generation job.eventId).rows.map ContextVectorChunk.stored)
    (hdone : index.after platform (.complete job owner now chunks empty) = .ok next) :
    Planned platform plan next := by
  have hgrows := growsOrGoes_after hdone
  refine h.keeps (h.documented.after hdone) (h.checkpointed.after hdone) (keepsJobs_after hdone)
    ?_ ?_
  · intro id
    rcases hgrows id with hsame | ⟨_, _, _, _, hcall, -⟩ | ⟨-, hnone⟩
    · exact Or.inl hsame
    · cases hcall
    · exact Or.inr hnone
  · intro key
    obtain ⟨result, hresult, rfl⟩ := fst_map_ok hdone
    rcases complete_ok hresult with rfl | ⟨-, rfl⟩
    · exact h.documents key
    · have htiles : Tiles 0 0 chunks :=
        Tiles.of_stored ((congrArg (Tiles 0 0) hchunks).mpr (htiled _ _).stored)
      rw [h.documented.chunksOf_publish htiles key]
      split
      · next hkey =>
        subst hkey
        exact Or.inr ⟨hstop, Or.inl hchunks⟩
      · exact h.documents key

theorem loadStagedChunks_ok (h : index.loadStagedChunks platform job owner now = .ok staged) :
    index.ownsJob job owner now = .ok true ∧ staged = index.stagedOf job.id := by
  unfold VectorIndex.loadStagedChunks at h
  obtain ⟨owns, howns, h⟩ := sequence_ok h
  obtain ⟨hsome, h⟩ := checked_ok h
  obtain ⟨_, _, h⟩ := sequence_ok h
  obtain ⟨_, h⟩ := checked_ok h
  obtain ⟨_, _, h⟩ := sequence_ok h
  rw [hsome] at howns
  exact ⟨howns, (Except.ok.inj h).symm⟩

/-- What a worker loads is a beginning of the plan. -/
theorem Planned.loadStagedChunks (h : Planned platform plan index)
    (hload : index.loadStagedChunks platform job owner now = .ok staged) :
    staged <+: (plan job.generation job.eventId).rows.map ContextVectorChunk.stored := by
  obtain ⟨howns, rfl⟩ := loadStagedChunks_ok hload
  obtain ⟨row, hrow, hleased, hevent, -⟩ := ownsJob_ok howns
  obtain ⟨hid, -, hgeneration, -⟩ := leasedTo_iff.mp hleased
  rw [stagedOf_eq (h.checkpointed.tiled job.id), ← hid, ← hgeneration, ← hevent]
  exact h.checkpoints row hrow

theorem claim_generation {leaseMs limit : Nat} {result : VectorIndex × List EmbeddingJob}
    (h : index.claim orgId generation owner now leaseMs limit = .ok result) :
    ∀ job ∈ result.2, job.generation = generation := by
  obtain ⟨leaseEnd, _, rfl⟩ := claim_ok h
  intro job hjob
  obtain ⟨row, hrow, rfl⟩ := List.mem_map.mp hjob
  have hclaimable := (List.mem_filter.mp (List.mem_of_mem_take hrow)).2
  simp only [claimable, Bool.and_eq_true, decide_eq_true_eq] at hclaimable
  exact hclaimable.1.2

theorem planned_empty : Planned platform plan {} := by
  refine ⟨documented_run [], checkpointed_run [], List.forall_mem_nil _, fun key => Or.inl ?_⟩
  rw [chunksOf_eq]
  exact List.mergeSort_nil

/-- Every call that the protocol allows keeps checkpoints and documents within their plans. -/
theorem Planned.step (h : Planned platform plan index)
    (htiled : ∀ generation eventId, Tiles 0 0 (plan generation eventId).rows) {m : RunMode}
    (hallowed : WorkerCall.allowed
      (fun job => plan job.generation job.eventId) m (.onIndex call)) :
    Planned platform plan (index.step platform call) := by
  unfold VectorIndex.step
  split
  · next next hdone =>
    have hothers (hstage : ∀ job owner now chunk, call ≠ .stageChunk job owner now chunk)
        (hpublish : ∀ job owner now chunks empty, call ≠ .complete job owner now chunks empty) :
        Planned platform plan next := by
      refine h.keeps (h.documented.after hdone) (h.checkpointed.after hdone)
        (keepsJobs_after hdone) (fun id => ?_)
        (h.documents_of_strips (staysOrStrips_after h.documented hdone hpublish))
      rcases growsOrGoes_after hdone id with hsame | ⟨_, _, _, _, hcall, -⟩ | ⟨-, hnone⟩
      · exact Or.inl hsame
      · exact absurd hcall (hstage _ _ _ _)
      · exact Or.inr hnone
    cases call with
    | stageChunk job owner now chunk => exact h.stageChunk htiled hallowed hdone
    | complete job owner now chunks empty =>
      exact h.complete htiled hallowed.1 hallowed.2.1 hdone
    | _ => refine hothers ?_ ?_ <;> intros <;> exact IndexCall.noConfusion
  · exact h

end VectorIndex

/-! ## Pools of workers -/

section Pools

variable (platform : EmbeddingPlatform) (provider : EmbeddingProvider) (source : EmbeddingSource)
  (generations : String → EmbeddingGeneration)

/-- What an event comes to in the generation of this id. -/
def eventPlan (generation eventId : String) : Plan :=
  planEvent platform provider (generations generation) source eventId

/-- A run of a worker for the generation of an id. -/
def IsWorker (p : WorkerProg (List JobOutcome)) : Prop :=
  ∃ orgId owner generation previous, generations generation.id = generation ∧
    p = runGeneration platform provider source orgId owner generation previous

/-- What other callers do: they neither stage nor publish. -/
def WorkerCall.ByOthers : WorkerCall → Prop
  | .onIndex (.stageChunk ..) => False
  | .onIndex (.complete ..) => False
  | _ => True

abbrev WorkerPool : Type := Pool WorkerCall.Answer EmbedThrown (List JobOutcome) VectorIndex

/-- One program makes its next call; the outside answers as it likes. -/
def stepWorkers (pool : WorkerPool) (event : Nat × OutsideAnswers) : WorkerPool :=
  Pool.step (WorkerCall.exec platform) (fun _ _ => none) pool event

variable {platform provider source generations}

open VectorIndex in
theorem workers_keep : Pool.Keeps
    (workProtocol (jobPlan platform provider source generations)) (fun _ _ => {})
    (WorkerCall.exec platform)
    (fun _ _ => (none : Option (WorkerProg (List JobOutcome)))) (fun _ _ _ => True)
    fun _ index => Planned platform (eventPlan platform provider source generations) index ∧
      ∀ _ : Nat, True := by
  have htiled : ∀ generation eventId,
      Tiles 0 0 (eventPlan platform provider source generations generation eventId).rows :=
    fun _ _ => tiles_planEvent _ _ _
  refine Pool.Keeps.of_local (K := fun _ _ => True) ?_ ?_ ?_ fun _ _ _ _ _ _ _ => trivial
  · intro m index call answers hplanned _ _ _
    cases call with
    | outside question => trivial
    | loadStagedChunks job owner now =>
      show beginningOf _ (index.loadStagedChunks platform job owner now)
      cases hload : index.loadStagedChunks platform job owner now with
      | error thrown => trivial
      | ok staged => exact hplanned.loadStagedChunks hload
    | onIndex call =>
      cases call with
      | claim orgId generation owner now leaseMs limit =>
        show claimsOf generation
          (Prod.snd <$> index.claim orgId generation owner now leaseMs limit)
        cases hclaim : index.claim orgId generation owner now leaseMs limit with
        | error thrown => trivial
        | ok result => exact claim_generation hclaim
      | _ => trivial
  · intro m index call answers hplanned _ hallowed _
    refine ⟨?_, trivial, fun _ _ => trivial⟩
    cases call with
    | outside question => exact hplanned
    | loadStagedChunks job owner now => exact hplanned
    | onIndex call => exact hplanned.step htiled hallowed
  · intro m call answer p _ _ hfork
    cases hfork

theorem follows_byOthers {p : WorkerProg (List JobOutcome)} (h : p.Calls WorkerCall.ByOthers)
    (plan : EmbeddingJob → Plan) (m : RunMode) : FollowsPlan plan (fun _ _ => True) m p := by
  refine follows_of_free (h.mono fun call hcall m => ?_) m
  cases call with
  | outside question => trivial
  | loadStagedChunks job owner now => trivial
  | onIndex call =>
    cases call with
    | stageChunk job owner now chunk => exact hcall.elim
    | complete job owner now chunks empty => exact hcall.elim
    | _ => trivial

end Pools

/-- However many workers run over an index that starts empty, under any owners and among any other
callers that neither stage nor publish, with their calls in any order, runs that stop anywhere,
and any answers of clocks, of the authority and of what may fail: a checkpoint is a beginning of the
plan of its job's event, as one run without a limit would have staged it, and a published document
is that plan as a whole, which ended without an error, or its chunks that are not visual. -/
theorem workers_publishPlans (platform : EmbeddingPlatform) (provider : EmbeddingProvider)
    (source : EmbeddingSource) (generations : String → EmbeddingGeneration)
    (programs : List (WorkerProg (List JobOutcome)))
    (hprograms : ∀ p ∈ programs,
      IsWorker platform provider source generations p ∨ p.Calls WorkerCall.ByOthers)
    (events : List (Nat × OutsideAnswers)) :
    let index := (run (stepWorkers platform) { procs := programs, state := {} } events).state
    (∀ row ∈ index.jobs.rows, index.checkpoint row.id <+:
      (eventPlan platform provider source generations row.generation row.eventId).rows.map
        ContextVectorChunk.stored) ∧
    ∀ row ∈ index.coverage.rows, VectorIndex.OfPlan
      (eventPlan platform provider source generations row.generation row.eventId)
      (index.chunksOf row.toDocumentKey) := by
  have hfollow : Pool.Follow (workProtocol (jobPlan platform provider source generations))
      (fun _ _ _ => True) (fun _ => {}) { procs := programs, state := ({} : VectorIndex) } := by
    intro i p hp
    rcases hprograms p (List.mem_of_getElem? hp) with
      ⟨orgId, owner, generation, previous, hgeneration, rfl⟩ | hothers
    · exact follows_runGeneration hgeneration orgId owner previous _
    · exact follows_byOthers hothers _ _
  obtain ⟨_, _, hplanned, _⟩ := workers_keep.run (Pool.freeEnds_true _) hfollow
    ⟨VectorIndex.planned_empty, fun _ => trivial⟩ events
    (along_of_forall _ (fun _ _ _ _ => trivial) _ _)
  refine ⟨hplanned.checkpoints, fun row hrow => ?_⟩
  have hsound := hplanned.documented.sound row hrow
  rcases hplanned.documents row.toDocumentKey with hnone | hplan
  · have hcounted := hsound.counted
    have hnonempty := hsound.nonempty
    rw [hnone, List.length_nil] at hcounted
    omega
  · exact hplan

/-- A read of one event, which is a head. -/
def plainRead : EmbeddingRead where
  recordedAt := ""
  lifecycleHeads := [⟨"s", "x", "v1"⟩]
  events := [{
    eventId := "v1", orgId := "o", source := "s", externalId := "x", operation := .create
    occurredAt := "", ingestedAt := "", requiredScopeIds := []
    contentHash := some (plainPlatform.sha256 []) }]
  readEpoch := "e1"
  lifecycleComplete := true

theorem epoch_inRange : |(0 : ℤ)| ≤ Context.Canonical.maxTime := by decide

theorem noJitter_inRange : 0 < 1000 := by decide

def plainAnswers : OutsideAnswers
  | .now => ⟨0, epoch_inRange⟩
  | .jitter => ⟨0, noJitter_inRange⟩
  | .aborted => false
  | .openRead => .ok plainRead
  | .reach => .ok ()
  | .heartbeat => .ok false

def plainClient : WorkerProg (List JobOutcome) := do
  let () ← callIndex (.registerGeneration "o" plainGeneration)
  pure []

def plainText : EmbeddingSource where
  materialize _ := some [0x61, 0x62, 0x63]

def plainWorker : WorkerProg (List JobOutcome) :=
  runGeneration plainPlatform plainProvider plainText "o" "w1" plainGeneration none

def plainPrograms : List (WorkerProg (List JobOutcome)) := [plainClient, plainWorker]

/-- The client registers the generation, then the worker runs to its end. -/
def plainEvents : List (Nat × OutsideAnswers) :=
  (0, plainAnswers) :: List.replicate 20 (1, plainAnswers)

theorem workers_publishPlans_besideClient :
    let index := (run (stepWorkers plainPlatform)
      { procs := plainPrograms, state := ({} : VectorIndex) } plainEvents).state
    index.coverage.rows.length = 1 ∧
      ∀ row ∈ index.coverage.rows, VectorIndex.OfPlan
        (eventPlan plainPlatform plainProvider plainText (fun _ => plainGeneration)
          row.generation row.eventId) (index.chunksOf row.toDocumentKey) := by
  have hprograms : ∀ p ∈ plainPrograms,
      IsWorker plainPlatform plainProvider plainText (fun _ => plainGeneration) p ∨
        p.Calls WorkerCall.ByOthers := by
    intro p hp
    rcases List.mem_pair.mp hp with rfl | rfl
    · right
      refine Prog.calls_bind (Prog.calls_bind (Prog.calls_perform trivial)
        fun (answer : Except EmbedThrown Unit) => ?_) fun _ => trivial
      cases answer <;> trivial
    · exact Or.inl ⟨"o", "w1", plainGeneration, none, rfl, rfl⟩
  exact ⟨by decide +kernel, (workers_publishPlans plainPlatform plainProvider plainText
    (fun _ => plainGeneration) plainPrograms hprograms plainEvents).2⟩

end Regenic.Embedding
