import Regenic.Embedding.IndexAnswers
import Regenic.Embedding.Scans

/-!
What a search answers, whatever calls came before it. It never finds a row corrupt, it covers the
live documents of the authorized events, and it ranks all of them though it keeps few at a time.
-/

namespace Regenic.Embedding

open Lib

namespace VectorIndex

variable {platform : EmbeddingPlatform}
variable {index next : VectorIndex} {call : IndexCall} {orgId generation : String}
  {p : JobRow → Bool} {f : JobRow → JobRow}

/-! ## Jobs without a document -/

/-- An event has one job in a generation, and no document while the job counts as skipped. -/
structure Settled (index : VectorIndex) : Prop where
  one : ∀ first ∈ index.jobs.rows, ∀ second ∈ index.jobs.rows,
    documentOf first = documentOf second → first = second
  uncovered : ∀ row ∈ index.jobs.rows, row.status = .skipped →
    index.coverage.get? (documentOf row) = none

theorem Settled.updated (h : Settled index) (hid : ∀ row, (f row).id = row.id)
    (hjobs : next.jobs = index.jobs.updateWhere p f hid)
    (hdocument : ∀ row, documentOf (f row) = documentOf row)
    (hmet : ∀ row ∈ index.jobs.rows, p row = true → (f row).status = .skipped →
      next.coverage.get? (documentOf row) = none)
    (hleft : ∀ row ∈ index.jobs.rows, p row = false → row.status = .skipped →
      next.coverage.get? (documentOf row) = none) : Settled next := by
  refine ⟨?_, ?_⟩
  · rw [hjobs]
    intro first hfirst second hsecond heq
    obtain ⟨oldFirst, holdFirst, rfl⟩ := List.mem_map.mp hfirst
    obtain ⟨oldSecond, holdSecond, rfl⟩ := List.mem_map.mp hsecond
    have hkept : ∀ row : JobRow, documentOf (if p row then f row else row) = documentOf row := by
      intro row
      split
      · exact hdocument row
      · rfl
    rw [hkept, hkept] at heq
    rw [h.one oldFirst holdFirst oldSecond holdSecond heq]
  · rw [hjobs]
    intro row hrow hskipped
    obtain ⟨old, hold, rfl⟩ := List.mem_map.mp hrow
    cases hp : p old with
    | true =>
      simp only [hp, if_true] at hskipped ⊢
      rw [hdocument]
      exact hmet old hold hp hskipped
    | false =>
      simp only [hp, Bool.false_eq_true, if_false] at hskipped ⊢
      exact hleft old hold hp hskipped

/-- No document is new, and no job is skipped by it. -/
theorem Settled.shrinks (h : Settled index) (hid : ∀ row, (f row).id = row.id)
    (hjobs : next.jobs = index.jobs.updateWhere p f hid)
    (hdocument : ∀ row, documentOf (f row) = documentOf row)
    (hstatus : ∀ row, (f row).status ≠ .skipped)
    (hcoverage : ∀ key, index.coverage.get? key = none → next.coverage.get? key = none) :
    Settled next :=
  h.updated hid hjobs hdocument (fun row _ _ hskipped => absurd hskipped (hstatus row))
    fun row hrow _ hskipped => hcoverage _ (h.uncovered row hrow hskipped)

theorem Settled.same (h : Settled index) (hjobs : next.jobs = index.jobs)
    (hcoverage : ∀ key, index.coverage.get? key = none → next.coverage.get? key = none) :
    Settled next := by
  refine ⟨?_, ?_⟩
  · rw [hjobs]
    exact h.one
  · rw [hjobs]
    exact fun row hrow hskipped => hcoverage _ (h.uncovered row hrow hskipped)

theorem get?_filter_none {α κ : Type} [DecidableEq κ] {key : α → κ} {t : Table key} {k : κ}
    (p : α → Bool) (h : t.get? k = none) : (t.filter p).get? k = none := by
  rw [Table.get?_filter, h]
  rfl

theorem Settled.insertJob (h : Settled index) (orgId generation : String)
    (head : EmbeddingSourceHead) (fence : Nat) :
    Settled (index.insertJob orgId generation head fence) := by
  unfold VectorIndex.insertJob
  split
  · exact h
  next hfree =>
  have hnew : ∀ row ∈ index.jobs.rows, documentOf row ≠ ⟨orgId, generation, head.eventId⟩ := by
    intro row hrow heq
    apply hfree
    rw [List.any_eq_true]
    refine ⟨row, hrow, ?_⟩
    injection heq with horg hgeneration hevent
    simp [horg, hgeneration, hevent]
  refine ⟨?_, ?_⟩
  · intro first hfirst second hsecond heq
    rcases Table.mem_put.mp hfirst with rfl | ⟨hfirst, _⟩
    · rcases Table.mem_put.mp hsecond with rfl | ⟨hsecond, _⟩
      · rfl
      · exact absurd heq.symm (hnew second hsecond)
    · rcases Table.mem_put.mp hsecond with rfl | ⟨hsecond, _⟩
      · exact absurd heq (hnew first hfirst)
      · exact h.one first hfirst second hsecond heq
  · intro row hrow hskipped
    rcases Table.mem_put.mp hrow with rfl | ⟨hrow, _⟩
    · simp only at hskipped
      split at hskipped <;> cases hskipped
    · exact h.uncovered row hrow hskipped

theorem Settled.reconcileHead (h : Settled index) {head : EmbeddingSourceHead}
    (hdone : VectorIndex.reconcileHead orgId generation index head = .ok next) : Settled next := by
  obtain ⟨fence, rfl⟩ := reconcileHead_ok hdone
  refine Settled.insertJob ?_ orgId generation head fence
  split
  · exact h.same rfl fun _ hnone => hnone
  · exact h.shrinks (f := superseded) (fun _ => rfl) rfl (fun _ => rfl)
      (fun _ hskipped => by cases hskipped) fun _ hnone => get?_filter_none _ hnone

theorem Settled.dropVisual (h : Settled index) (key : DocumentKey) :
    Settled (index.dropVisual key) := by
  unfold VectorIndex.dropVisual
  simp only
  split
  · refine h.updated (f := emptied) (fun _ => rfl) rfl (fun _ => rfl) (fun row _ hp _ => ?_)
      fun row hrow _ hskipped => get?_filter_none _ (h.uncovered row hrow hskipped)
    simp only [Bool.and_eq_true, decide_eq_true_eq] at hp
    have hkey : documentOf row = key := by
      unfold documentOf
      rw [hp.1.1.1, hp.1.1.2, hp.1.2]
    simp only [updateJobs, deleteCoverage]
    rw [Table.get?_filter, hkey, Option.filter_eq_none_iff]
    intro covering hget
    simp [(Table.get?_eq_some.mp hget).2]
  · refine h.same rfl fun other hnone => ?_
    simp only
    rw [Table.get?_update, hnone]
    split <;> rfl

theorem Settled.deleteGenerations (h : Settled index) (p : String → String → Bool) :
    Settled (index.deleteGenerations p) where
  one := fun first hfirst second hsecond heq =>
    h.one first (List.mem_filter.mp hfirst).1 second (List.mem_filter.mp hsecond).1 heq
  uncovered := fun row hrow hskipped =>
    get?_filter_none _ (h.uncovered row (List.mem_filter.mp hrow).1 hskipped)

/-- The document of a job that ends is its own, and no other job is about it. -/
theorem Settled.publish (h : Settled index) {job : EmbeddingJob} {owner : String} {now : Stamp}
    (howns : index.ownsJob job owner now = .ok true) (hash : String)
    (chunks : List ContextVectorChunk) (noContent : Bool) :
    Settled (index.publish job hash chunks noContent) := by
  obtain ⟨owned, howned, hleased, hevent, _⟩ := ownsJob_ok howns
  obtain ⟨hid, horg, hgeneration, _⟩ := leasedTo_iff.mp hleased
  have hdocument : documentOf owned = ⟨job.orgId, job.generation, job.eventId⟩ := by
    unfold documentOf
    rw [horg, hgeneration, hevent]
  have hdeleted : ∀ key : DocumentKey, index.coverage.get? key = none →
      (index.coverage.filter fun row =>
        !decide (row.toDocumentKey = ⟨job.orgId, job.generation, job.eventId⟩)).get? key = none :=
    fun key hnone => get?_filter_none _ hnone
  refine h.updated (f := ended noContent) (fun _ => rfl) rfl (fun _ => rfl) ?_ ?_
  · intro row hrow hp hskipped
    have hnoContent : noContent = true := by
      cases noContent with
      | true => rfl
      | false => cases hskipped
    have hrowId : row.id = job.id := of_decide_eq_true hp
    have howner : row = owned :=
      List.inj_on_of_nodup_map index.jobs.nodup hrow howned (hrowId.trans hid.symm)
    rw [howner, hdocument]
    simp only [VectorIndex.publish, updateJobs, deleteCoverage, hnoContent, if_true]
    rw [Table.get?_filter, Option.filter_eq_none_iff]
    intro covering hget
    simp [(Table.get?_eq_some.mp hget).2]
  · intro row hrow hp hskipped
    have hother : ⟨job.orgId, job.generation, job.eventId⟩ ≠ documentOf row := by
      intro heq
      have hsame := h.one row hrow owned howned (heq.symm.trans hdocument.symm)
      rw [hsame, hid] at hp
      simp at hp
    have hnone := hdeleted _ (h.uncovered row hrow hskipped)
    simp only [VectorIndex.publish, updateJobs, deleteCoverage]
    split
    · exact hnone
    · rw [Table.get?_put, if_neg hother]
      exact hnone

theorem Settled.change (h : Settled index) (hchange : Change platform call index next) :
    Settled next := by
  cases hchange with
  | updatesJobs hf =>
    refine h.updated hf.id rfl hf.document (fun row hrow _ hskipped => ?_) fun row hrow _ => ?_
    · exact h.uncovered row hrow (hf.skipped row hskipped)
    · exact h.uncovered row hrow
  | registers hdone =>
    obtain ⟨_, _, _, rfl⟩ := registerGeneration_ok hdone
    refine h.same ?_ fun key hnone => ?_
    · simp only [recordActivation]
      split <;> rfl
    · simp only [recordActivation]
      split <;> exact hnone
  | activates hdone =>
    obtain ⟨_, _, rfl⟩ := activateGeneration_ok hdone
    exact h.same rfl fun _ hnone => hnone
  | removes _ hdone =>
    obtain ⟨_, _, rfl⟩ := removeGeneration_ok hdone
    refine Settled.deleteGenerations ?_ _
    exact h.same rfl fun _ hnone => hnone
  | clears _ hdone =>
    have heq := clearOrganization_ok hdone
    subst heq
    exact (h.deleteGenerations fun org _ => org = _).same rfl fun _ hnone => hnone
  | moves _ _ hdone => exact h.reconcileHead hdone
  | reconciles key readEpoch => exact h.same rfl fun _ hnone => hnone
  | dropsVisual key => exact h.dropVisual key
  | reopens orgId allowed enabled _ =>
    exact h.shrinks (f := requeued) (fun _ => rfl) rfl (fun _ => rfl)
      (fun _ hskipped => by cases hskipped) fun _ hnone => hnone

theorem Settled.after (h : Settled index) (hdone : index.after platform call = .ok next) :
    Settled next := by
  rcases after_cases hdone with hchanges | ⟨job, owner, now, chunk, -, -, rfl⟩ |
    ⟨job, owner, now, chunks, noContent, -, hpublishes, rfl⟩
  · exact changes_invariant Settled (fun hs hchange => hs.change hchange) h hchanges
  · exact h.same rfl fun _ hnone => hnone
  · exact h.publish hpublishes.owns _ chunks noContent

theorem settled_run (calls : List IndexCall) : Settled (run (step platform) {} calls) :=
  run_of_after (fun h hdone => h.after hdone) ⟨by simp, by simp⟩ calls

end VectorIndex

/-! ## Ranks -/

theorem stringLe_total (first second : String) :
    stringLe first second = true ∨ stringLe second first = true :=
  unitsLe_total (codeUnits first) (codeUnits second)

theorem stringLe_antisymm {first second : String} (h : stringLe first second = true)
    (h' : stringLe second first = true) : first = second :=
  codeUnits_injective (unitsLe_antisymm h h')

theorem rankedBefore_iff {first second : ContextVectorMatch} :
    rankedBefore first second = true ↔ first.lexical = true ∧ second.lexical = false ∨
      first.lexical = second.lexical ∧ (second.score < first.score ∨
        first.score = second.score ∧ stringLe first.eventId second.eventId = true) := by
  unfold rankedBefore
  by_cases hlexical : first.lexical = second.lexical
  · by_cases hscore : first.score = second.score
    · simp [hlexical, hscore]
    · simp [hlexical, hscore]
  · simp only [ne_eq, hlexical, not_false_eq_true, if_true, false_and, or_false]
    cases hfirst : first.lexical <;> cases hsecond : second.lexical <;> simp_all

theorem rankedBefore_trans (first second third : ContextVectorMatch)
    (h : rankedBefore first second = true) (h' : rankedBefore second third = true) :
    rankedBefore first third = true := by
  rw [rankedBefore_iff] at h h' ⊢
  rcases h with ⟨hfirst, hsecond⟩ | ⟨hlexical, h⟩
  · rcases h' with ⟨hcontra, _⟩ | ⟨hlexical', _⟩
    · rw [hsecond] at hcontra
      cases hcontra
    · exact Or.inl ⟨hfirst, hlexical' ▸ hsecond⟩
  · rcases h' with ⟨hsecond, hthird⟩ | ⟨hlexical', h'⟩
    · exact Or.inl ⟨hlexical ▸ hsecond, hthird⟩
    · refine Or.inr ⟨hlexical.trans hlexical', ?_⟩
      rcases h with hlt | ⟨heq, hle⟩
      · rcases h' with hlt' | ⟨heq', _⟩
        · exact Or.inl (hlt'.trans hlt)
        · exact Or.inl (heq' ▸ hlt)
      · rcases h' with hlt' | ⟨heq', hle'⟩
        · exact Or.inl (heq ▸ hlt')
        · exact Or.inr ⟨heq.trans heq', unitsLe_trans hle hle'⟩

theorem rankedBefore_total (first second : ContextVectorMatch) :
    rankedBefore first second = true ∨ rankedBefore second first = true := by
  rw [rankedBefore_iff, rankedBefore_iff]
  cases hfirst : first.lexical <;> cases hsecond : second.lexical
  · rcases lt_trichotomy first.score second.score with hlt | heq | hgt
    · simp [hlt]
    · simp [heq, stringLe_total]
    · simp [hgt]
  · simp
  · simp
  · rcases lt_trichotomy first.score second.score with hlt | heq | hgt
    · simp [hlt]
    · simp [heq, stringLe_total]
    · simp [hgt]

/-- Only matches of one event rank alike. -/
theorem eventId_of_rankedBefore {first second : ContextVectorMatch}
    (h : rankedBefore first second = true) (h' : rankedBefore second first = true) :
    first.eventId = second.eventId := by
  rw [rankedBefore_iff] at h h'
  rcases h with ⟨hfirst, hsecond⟩ | ⟨_, h⟩
  · rcases h' with ⟨hcontra, _⟩ | ⟨heq, _⟩
    · rw [hsecond] at hcontra
      cases hcontra
    · rw [hfirst, hsecond] at heq
      cases heq
  · rcases h' with ⟨hsecond, hfirst⟩ | ⟨_, h'⟩
    · simp_all
    · rcases h with hlt | ⟨heq, hle⟩
      · rcases h' with hlt' | ⟨heq', _⟩
        · exact absurd hlt hlt'.not_gt
        · exact absurd heq' hlt.ne
      · rcases h' with hlt' | ⟨_, hle'⟩
        · exact absurd heq hlt'.ne
        · exact stringLe_antisymm hle hle'

namespace VectorIndex

variable {platform : EmbeddingPlatform}
variable {index : VectorIndex} {input : VectorQuery} {generation : EmbeddingGeneration}
  {row : GenerationRow} {document : AuthorizedKey × CoverageRow}

/-! ## What a search reads -/

theorem checkAuthorized_ok {seen : List String} {authorized : List AuthorizedKey}
    (h : checkAuthorized seen authorized = .ok ()) :
    (authorized.map (·.eventId)).Nodup ∧ ∀ key ∈ authorized, key.eventId ∉ seen := by
  induction authorized generalizing seen with
  | nil => exact ⟨List.nodup_nil, by simp⟩
  | cons first rest ih =>
    unfold checkAuthorized at h
    obtain ⟨_, _, h⟩ := sequence_ok h
    obtain ⟨hfresh, h⟩ := checked_ok h
    obtain ⟨_, _, h⟩ := sequence_ok h
    simp only [Bool.and_eq_true, Bool.not_eq_true', List.contains_eq_mem,
      decide_eq_false_iff_not] at hfresh
    obtain ⟨hnodup, hunseen⟩ := ih h
    refine ⟨List.nodup_cons.mpr ⟨fun hmem => ?_, hnodup⟩, fun key hkey => ?_⟩
    · obtain ⟨key, hkey, heq⟩ := List.mem_map.mp hmem
      exact hunseen key hkey (heq ▸ List.mem_cons_self)
    · rcases List.mem_cons.mp hkey with rfl | hkey
      · exact hfresh.2
      · exact fun hmem => hunseen key hkey (List.mem_cons_of_mem _ hmem)

theorem notCorrupt_checkAuthorized (seen : List String) (authorized : List AuthorizedKey) :
    NotCorrupt (checkAuthorized seen authorized) := by
  induction authorized generalizing seen with
  | nil => exact notCorrupt_ok ()
  | cons key rest ih =>
    refine notCorrupt_bind (notCorrupt_required _) fun _ _ => ?_
    refine notCorrupt_bind (notCorrupt_throwUnless (by simp)) fun _ _ => ?_
    refine notCorrupt_bind ?_ fun _ _ => ih _
    cases key.bodyLength with
    | none => exact notCorrupt_ok ()
    | some bodyLength => exact notCorrupt_throwUnless (by simp)

theorem byEventId_perm (authorized : List AuthorizedKey) :
    (byEventId authorized).Perm authorized :=
  List.mergeSort_perm _ _

theorem authorizedDocument_eq_some {orgId generation : String} {key : AuthorizedKey} :
    index.authorizedDocument orgId generation key = some document ↔ document.1 = key ∧
      index.coverage.get? ⟨orgId, generation, key.eventId⟩ = some document.2 ∧
      document.2.contentHash = key.contentHash ∧ index.isHeadOf document.2 = true := by
  unfold authorizedDocument
  cases hget : index.coverage.get? ⟨orgId, generation, key.eventId⟩ with
  | none => simp
  | some row =>
    obtain ⟨other, row'⟩ := document
    simp only [Option.some.injEq]
    constructor
    · intro h
      split at h
      · next hlive =>
        cases h
        simpa using hlive
      · cases h
    · rintro ⟨rfl, rfl, hhash, hlive⟩
      simp [hhash, hlive]

theorem mem_authorizedDocuments :
    document ∈ index.authorizedDocuments input ↔ document.1 ∈ input.authorized ∧
      index.coverage.get? ⟨input.orgId, input.generation, document.1.eventId⟩ = some document.2 ∧
      document.2.contentHash = document.1.contentHash ∧ index.isHeadOf document.2 = true := by
  unfold authorizedDocuments
  rw [List.mem_filterMap]
  constructor
  · rintro ⟨key, hkey, hdocument⟩
    obtain ⟨rfl, hrest⟩ := authorizedDocument_eq_some.mp hdocument
    exact ⟨(byEventId_perm _).mem_iff.mp hkey, hrest⟩
  · rintro ⟨hkey, hrest⟩
    exact ⟨document.1, (byEventId_perm _).mem_iff.mpr hkey,
      authorizedDocument_eq_some.mpr ⟨rfl, hrest⟩⟩

theorem authorizedDocuments_nodup (h : (input.authorized.map (·.eventId)).Nodup) :
    ((index.authorizedDocuments input).map fun document => document.1.eventId).Nodup := by
  have hsorted : ((byEventId input.authorized).map (·.eventId)).Nodup :=
    ((byEventId_perm input.authorized).map _).nodup_iff.mpr h
  refine List.Nodup.sublist ?_ hsorted
  unfold authorizedDocuments
  induction byEventId input.authorized with
  | nil => exact List.Sublist.refl _
  | cons key rest ih =>
    cases hdocument : index.authorizedDocument input.orgId input.generation key with
    | none =>
      rw [List.filterMap_cons_none hdocument]
      exact ih.cons _
    | some document =>
      rw [List.filterMap_cons_some hdocument, List.map_cons, List.map_cons,
        (authorizedDocument_eq_some.mp hdocument).1]
      exact ih.cons_cons _

/-- The match of one document as its rows stand. -/
def foundDocument (platform : EmbeddingPlatform) (index : VectorIndex) (input : VectorQuery)
    (generation : EmbeddingGeneration) (document : AuthorizedKey × CoverageRow) :
    Option ContextVectorMatch :=
  foundOf platform input generation document.1 (index.chunksOf document.2.toDocumentKey)

/-- All matches, before any is left out. -/
def allFound (platform : EmbeddingPlatform) (index : VectorIndex) (input : VectorQuery)
    (generation : EmbeddingGeneration) : List ContextVectorMatch :=
  (index.authorizedDocuments input).filterMap (foundDocument platform index input generation)

def ranked (found : List ContextVectorMatch) : List ContextVectorMatch :=
  found.insertionSort fun first second => rankedBefore first second = true

/-- What has to stand for a search to be answered. -/
structure ValidSearch (platform : EmbeddingPlatform) (index : VectorIndex) (input : VectorQuery)
    (row : GenerationRow) : Prop where
  orgNamed : blank input.orgId = false
  generationNamed : blank input.generation = false
  registered : index.generations.get? (input.orgId, input.generation) = some row
  vector : validateEmbeddingVector platform input.queryVector row.manifest.model.dimensions = .ok ()
  limit : bounded input.limit 1 1000 = .ok ()
  authorized : checkAuthorized [] input.authorized = .ok ()

def answerOf (platform : EmbeddingPlatform) (index : VectorIndex) (input : VectorQuery)
    (row : GenerationRow) : VectorAnswer where
  generation := input.generation
  covered := ((index.authorizedDocuments input).map fun document => document.1.key).insertionSort
    fun first second => stringLe first.eventId second.eventId = true
  matched := (ranked (allFound platform index input row.manifest)).take input.limit
  skipped := index.skippedKeys input
  reconciledEpoch := row.reconciledEpoch.filter (· ≠ "")

/-! ## The answer -/

theorem key_of_foundDocument {found : ContextVectorMatch}
    (h : foundDocument platform index input generation document = some found) :
    found.key = document.1.key := by
  obtain ⟨best, -, rfl⟩ := Option.map_eq_some_iff.mp h
  rfl

theorem allFound_nodup (h : (input.authorized.map (·.eventId)).Nodup) :
    ((allFound platform index input generation).map (·.eventId)).Nodup := by
  have hdocuments :
      ((index.authorizedDocuments input).map fun document => document.1.eventId).Nodup :=
    authorizedDocuments_nodup h
  refine List.Nodup.sublist ?_ hdocuments
  clear hdocuments
  unfold allFound
  induction index.authorizedDocuments input with
  | nil => exact List.Sublist.refl _
  | cons document rest ih =>
    cases hfound : foundDocument platform index input generation document with
    | none =>
      rw [List.filterMap_cons_none hfound]
      exact ih.cons _
    | some found =>
      have heq : found.eventId = document.1.eventId :=
        congrArg ContextLexicalKey.eventId (key_of_foundDocument hfound)
      rw [List.filterMap_cons_some hfound, List.map_cons, List.map_cons, heq]
      exact ih.cons_cons _

theorem matchDocument_of_sound (hdocumented : Documented platform index)
    (hnormalized : Normalized platform index)
    (hget : index.generations.get? (input.orgId, input.generation) = some row)
    (hmem : document ∈ index.authorizedDocuments input) :
    matchDocument platform input row.manifest document.1 document.2.chunkCount
      (index.chunksOf document.2.toDocumentKey) =
        .ok (foundDocument platform index input row.manifest document) := by
  obtain ⟨-, hcovering, -, -⟩ := mem_authorizedDocuments.mp hmem
  obtain ⟨hrow, hkey⟩ := Table.get?_eq_some.mp hcovering
  have hsound := hdocumented.sound document.2 hrow
  obtain ⟨row', hget', -, hadmits⟩ := hsound.registered
  have hsame : (document.2.orgId, document.2.generation) = (input.orgId, input.generation) := by
    rw [hkey]
  rw [hsame, hget] at hget'
  obtain rfl := Option.some.inj hget'
  have hnonempty := hsound.nonempty
  rw [← hsound.counted] at hnonempty ⊢
  refine matchDocument_eq hsound.tiled hnonempty hadmits fun chunk hchunk => ?_
  obtain ⟨old, hold, -, rfl⟩ := mem_chunksOf hchunk
  exact hnormalized.published old hold

theorem mapM_matchDocument (hdocumented : Documented platform index)
    (hnormalized : Normalized platform index)
    (hget : index.generations.get? (input.orgId, input.generation) = some row) :
    (index.authorizedDocuments input).mapM (fun document =>
      matchDocument platform input row.manifest document.1 document.2.chunkCount
        (index.chunksOf document.2.toDocumentKey)) =
      .ok ((index.authorizedDocuments input).map
        (foundDocument platform index input row.manifest)) :=
  mapM_ok fun _ hmem => matchDocument_of_sound hdocumented hnormalized hget hmem

/-- The best that were kept while the documents were read are the best of all. -/
theorem ranked_kept (h : (input.authorized.map (·.eventId)).Nodup) (limit : Nat) :
    (ranked ((allFound platform index input generation).foldl
      (keepBest (fun first second => rankedBefore first second = true) limit) [])).take limit =
        (ranked (allFound platform index input generation)).take limit := by
  refine take_foldl_keepBest rankedBefore_trans rankedBefore_total limit
    fun first hfirst second hsecond hle hge => ?_
  exact List.inj_on_of_nodup_map (allFound_nodup h) hfirst hsecond
    (eventId_of_rankedBefore hle hge)

theorem matchAuthorized_eq (hdocumented : Documented platform index)
    (hnormalized : Normalized platform index) (h : ValidSearch platform index input row) :
    index.matchAuthorized platform input = .ok (answerOf platform index input row) := by
  have hmanifest := manifest_of_registered hdocumented h.orgNamed h.generationNamed h.registered
  have hhits := mapM_matchDocument hdocumented hnormalized h.registered
  have hfound : ((index.authorizedDocuments input).map
      (foundDocument platform index input row.manifest)).filterMap id =
        allFound platform index input row.manifest := by
    rw [List.filterMap_map]
    rfl
  unfold matchAuthorized
  simp only [hmanifest, h.vector, h.limit, h.authorized, bind, Except.bind, hhits, hfound,
    h.registered, Option.bind_some]
  unfold answerOf
  rw [← ranked_kept (checkAuthorized_ok h.authorized).1]
  rfl

/-- A search is answered exactly when it is a valid one, and no row is ever found corrupt. -/
theorem matchAuthorized_iff (hdocumented : Documented platform index)
    (hnormalized : Normalized platform index) (input : VectorQuery) (answer : VectorAnswer) :
    index.matchAuthorized platform input = .ok answer ↔
      ∃ row, ValidSearch platform index input row ∧
        answer = answerOf platform index input row := by
  constructor
  · intro hok
    have hread := hok
    unfold matchAuthorized at hread
    obtain ⟨generation, hmanifest, hread⟩ := sequence_ok hread
    obtain ⟨⟨⟩, hvector, hread⟩ := sequence_ok hread
    obtain ⟨⟨⟩, hlimit, hread⟩ := sequence_ok hread
    obtain ⟨⟨⟩, hauthorized, -⟩ := sequence_ok hread
    obtain ⟨row, hget, rfl⟩ := manifest_ok hmanifest
    have hnamed := hmanifest
    unfold VectorIndex.manifest at hnamed
    obtain ⟨⟨⟩, horg, -⟩ := sequence_ok hnamed
    have hvalid : ValidSearch platform index input row :=
      ⟨required_ok horg, manifest_named hmanifest, hget, hvector, hlimit, hauthorized⟩
    rw [matchAuthorized_eq hdocumented hnormalized hvalid] at hok
    exact ⟨row, hvalid, (Except.ok.inj hok).symm⟩
  · rintro ⟨row, hvalid, rfl⟩
    exact matchAuthorized_eq hdocumented hnormalized hvalid

/-- The key is authorized, and its event has a document under its content hash. -/
def HasDocument (index : VectorIndex) (input : VectorQuery) (key : ContextLexicalKey) : Prop :=
  (∃ authorized ∈ input.authorized, authorized.key = key) ∧
    ∃ row, index.coverage.get? ⟨input.orgId, input.generation, key.eventId⟩ = some row ∧
      row.contentHash = key.contentHash

/-- The key is authorized, and the job of its event, which is the head of its source, found no
content. -/
def HasNoContent (index : VectorIndex) (input : VectorQuery) (key : ContextLexicalKey) : Prop :=
  (∃ authorized ∈ input.authorized, authorized.key = key) ∧
    ∃ job ∈ index.jobs.rows, documentOf job = ⟨input.orgId, input.generation, key.eventId⟩ ∧
      job.contentHash = some key.contentHash ∧ job.status = .skipped ∧
      index.isHeadOfJob job = true

theorem mem_covered (hdocumented : Documented platform index) {key : ContextLexicalKey} :
    key ∈ (answerOf platform index input row).covered ↔ HasDocument index input key := by
  unfold answerOf HasDocument
  simp only
  rw [List.mem_insertionSort, List.mem_map]
  constructor
  · rintro ⟨document, hmem, rfl⟩
    obtain ⟨hkey, hget, hhash, -⟩ := mem_authorizedDocuments.mp hmem
    exact ⟨⟨document.1, hkey, rfl⟩, document.2, hget, hhash⟩
  · rintro ⟨⟨authorized, hkey, rfl⟩, covering, hget, hhash⟩
    have hlive := (hdocumented.sound covering (Table.get?_eq_some.mp hget).1).live
    exact ⟨(authorized, covering), mem_authorizedDocuments.mpr ⟨hkey, hget, hhash, hlive⟩, rfl⟩

/-- Which jobs answer for a skipped key. -/
def skippedJob (index : VectorIndex) (input : VectorQuery) (key : AuthorizedKey) (row : JobRow) :
    Bool :=
  row.orgId = input.orgId && row.generation = input.generation && row.eventId = key.eventId &&
    row.contentHash = some key.contentHash && row.status = .skipped && index.isHeadOfJob row

theorem skippedJob_iff {key : AuthorizedKey} {row : JobRow} :
    skippedJob index input key row = true ↔
      documentOf row = ⟨input.orgId, input.generation, key.eventId⟩ ∧
        row.contentHash = some key.contentHash ∧ row.status = .skipped ∧
        index.isHeadOfJob row = true := by
  unfold skippedJob documentOf
  simp only [Bool.and_eq_true, decide_eq_true_eq, DocumentKey.mk.injEq, and_assoc]

theorem mem_skippedKeys {key : ContextLexicalKey} :
    key ∈ index.skippedKeys input ↔ HasNoContent index input key := by
  unfold skippedKeys HasNoContent
  rw [List.mem_flatMap]
  constructor
  · rintro ⟨authorized, hmem, hkey⟩
    obtain ⟨job, hjob, rfl⟩ := List.mem_map.mp hkey
    obtain ⟨hjob, hskipped⟩ := List.mem_filter.mp hjob
    exact ⟨⟨authorized, (byEventId_perm _).mem_iff.mp hmem, rfl⟩, job, hjob,
      skippedJob_iff.mp hskipped⟩
  · rintro ⟨⟨authorized, hmem, rfl⟩, job, hjob, hskipped⟩
    exact ⟨authorized, (byEventId_perm _).mem_iff.mpr hmem, List.mem_map.mpr
      ⟨job, List.mem_filter.mpr ⟨hjob, skippedJob_iff.mpr hskipped⟩, rfl⟩⟩

/-- An event has one job at most that answers for it. -/
theorem length_filter_skippedJob (h : Settled index) (input : VectorQuery) (key : AuthorizedKey) :
    (index.jobs.rows.filter (skippedJob index input key)).length ≤ 1 := by
  have hnodup : (index.jobs.rows.filter (skippedJob index input key)).Nodup :=
    (List.Nodup.of_map _ index.jobs.nodup).filter _
  have hone : ∀ first ∈ index.jobs.rows.filter (skippedJob index input key),
      ∀ second ∈ index.jobs.rows.filter (skippedJob index input key), first = second := by
    intro first hfirst second hsecond
    obtain ⟨hfirst, hskipped⟩ := List.mem_filter.mp hfirst
    obtain ⟨hsecond, hskipped'⟩ := List.mem_filter.mp hsecond
    exact h.one first hfirst second hsecond
      ((skippedJob_iff.mp hskipped).1.trans (skippedJob_iff.mp hskipped').1.symm)
  cases hrows : index.jobs.rows.filter (skippedJob index input key) with
  | nil => simp
  | cons first rest =>
    cases rest with
    | nil => simp
    | cons second rest =>
      rw [hrows] at hnodup hone
      have heq := hone first List.mem_cons_self second (by simp)
      rw [heq] at hnodup
      simp at hnodup

theorem skippedKeys_nodup (hsettled : Settled index)
    (h : (input.authorized.map (·.eventId)).Nodup) :
    ((index.skippedKeys input).map (·.eventId)).Nodup := by
  have hsorted : ((byEventId input.authorized).map (·.eventId)).Nodup :=
    ((byEventId_perm input.authorized).map _).nodup_iff.mpr h
  refine List.Nodup.sublist ?_ hsorted
  unfold skippedKeys
  induction byEventId input.authorized with
  | nil => exact List.Sublist.refl _
  | cons key rest ih =>
    rw [List.flatMap_cons, List.map_append, List.map_cons]
    have hfirst : ((List.map (fun _ => key.key) (index.jobs.rows.filter
        (skippedJob index input key))).map (·.eventId)).Sublist [key.eventId] := by
      have hlength := length_filter_skippedJob hsettled input key
      cases hrows : index.jobs.rows.filter (skippedJob index input key) with
      | nil => simp
      | cons first rest =>
        cases rest with
        | nil => exact List.Sublist.refl _
        | cons second rest =>
          rw [hrows] at hlength
          simp at hlength
    exact hfirst.append ih

theorem covered_nodup (h : (input.authorized.map (·.eventId)).Nodup) :
    ((answerOf platform index input row).covered.map (·.eventId)).Nodup := by
  have hperm : (answerOf platform index input row).covered.Perm
      ((index.authorizedDocuments input).map fun document => document.1.key) :=
    List.perm_insertionSort _ _
  rw [(hperm.map _).nodup_iff, List.map_map]
  exact authorizedDocuments_nodup h

/-- A skipped job has no document, so no event is both covered and skipped. -/
theorem Settled.disjoint (h : Settled index) {first second : ContextLexicalKey}
    (hfirst : HasDocument index input first) (hsecond : HasNoContent index input second) :
    first.eventId ≠ second.eventId := by
  obtain ⟨-, row, hget, -⟩ := hfirst
  obtain ⟨-, job, hjob, hdocument, -, hskipped, -⟩ := hsecond
  intro heq
  have hnone := h.uncovered job hjob hskipped
  rw [hdocument, ← heq, hget] at hnone
  cases hnone

theorem answer_nodup (hdocumented : Documented platform index) (hsettled : Settled index)
    (h : (input.authorized.map (·.eventId)).Nodup) :
    (((answerOf platform index input row).covered ++
      (answerOf platform index input row).skipped).map (·.eventId)).Nodup := by
  rw [List.map_append]
  refine List.Nodup.append (covered_nodup h) (skippedKeys_nodup hsettled h) ?_
  intro eventId hcovered hskipped
  obtain ⟨first, hfirst, rfl⟩ := List.mem_map.mp hcovered
  obtain ⟨second, hsecond, heq⟩ := List.mem_map.mp hskipped
  exact hsettled.disjoint ((mem_covered hdocumented).mp hfirst) (mem_skippedKeys.mp hsecond)
    heq.symm

theorem foundOf_isSome {authorized : AuthorizedKey} {chunks : List ContextVectorChunk} :
    (∃ found, foundOf platform input generation authorized chunks = some found) ↔
      eligibleChunks input (authorized.bodyLength.getD 0) chunks ≠ [] := by
  unfold foundOf bestHit
  rw [← Option.isSome_iff_exists, Option.isSome_map, Option.isSome_iff_ne_none, ne_eq,
    greatest_eq_none, List.map_eq_nil_iff]

/-- The rows that a match was found in. -/
theorem mem_allFound {hit : ContextVectorMatch}
    (h : hit ∈ allFound platform index input generation) :
    ∃ authorized ∈ input.authorized, hit.key = authorized.key ∧ HasDocument index input hit.key ∧
      Found platform input (authorized.bodyLength.getD 0)
        (index.chunksOf ⟨input.orgId, input.generation, authorized.eventId⟩) hit := by
  obtain ⟨document, hmem, hfound⟩ := List.mem_filterMap.mp h
  obtain ⟨hkey, hget, hhash, -⟩ := mem_authorizedDocuments.mp hmem
  have hsame := key_of_foundDocument hfound
  refine ⟨document.1, hkey, hsame, hsame ▸ ⟨⟨document.1, hkey, rfl⟩, document.2, hget, hhash⟩, ?_⟩
  rw [← (Table.get?_eq_some.mp hget).2]
  exact found_of_foundOf hfound

theorem exists_allFound (hdocumented : Documented platform index)
    (hdistinct : (input.authorized.map (·.eventId)).Nodup) {authorized : AuthorizedKey}
    (hkey : authorized ∈ input.authorized) (hcovered : HasDocument index input authorized.key) :
    (∃ hit ∈ allFound platform index input generation, hit.key = authorized.key) ↔
      eligibleChunks input (authorized.bodyLength.getD 0)
        (index.chunksOf ⟨input.orgId, input.generation, authorized.eventId⟩) ≠ [] := by
  obtain ⟨-, covering, hget, hhash⟩ := hcovered
  obtain ⟨hcovering, hplace⟩ := Table.get?_eq_some.mp hget
  have hlive := (hdocumented.sound covering hcovering).live
  have hsome : (∃ found, foundDocument platform index input generation (authorized, covering) =
      some found) ↔ eligibleChunks input (authorized.bodyLength.getD 0)
        (index.chunksOf covering.toDocumentKey) ≠ [] := foundOf_isSome
  rw [hplace] at hsome
  refine Iff.trans ⟨?_, ?_⟩ hsome
  · rintro ⟨hit, hhit, hsame⟩
    obtain ⟨document, hmem, hfound⟩ := List.mem_filterMap.mp hhit
    obtain ⟨hother, hget', -, -⟩ := mem_authorizedDocuments.mp hmem
    have heq : document.1 = authorized :=
      List.inj_on_of_nodup_map hdistinct hother hkey
        (congrArg ContextLexicalKey.eventId ((key_of_foundDocument hfound).symm.trans hsame))
    rw [heq] at hget'
    have hrow : document.2 = covering := Option.some.inj (hget'.symm.trans hget)
    exact ⟨hit, heq ▸ hrow ▸ hfound⟩
  · rintro ⟨found, hfound⟩
    have hdocument : (authorized, covering) ∈ index.authorizedDocuments input :=
      mem_authorizedDocuments.mpr ⟨hkey, hget, hhash, hlive⟩
    exact ⟨found, List.mem_filterMap.mpr ⟨_, hdocument, hfound⟩, key_of_foundDocument hfound⟩

end VectorIndex

open VectorIndex

/-- After any calls that store unit vectors, a search is answered exactly when it is a valid one,
and no row is found corrupt. It covers the authorized events that have a document under their
hash and skips those whose job found no content, each event once. -/
theorem search_covers (platform : EmbeddingPlatform) (calls : List IndexCall)
    (hunits : ∀ call ∈ calls, call.storesUnits platform) (input : VectorQuery) :
    let index := run (VectorIndex.step platform) {} calls
    let answered := index.matchAuthorized platform input
    ((∃ answer, answered = .ok answer) ↔ ∃ row, ValidSearch platform index input row) ∧
      answered ≠ .error .corrupt ∧
      ∀ answer, answered = .ok answer →
        (∀ key, key ∈ answer.covered ↔ HasDocument index input key) ∧
        (∀ key, key ∈ answer.skipped ↔ HasNoContent index input key) ∧
        ((answer.covered ++ answer.skipped).map (·.eventId)).Nodup := by
  intro index answered
  have hdocumented : Documented platform index := documented_run calls
  have hnormalized : Normalized platform index := normalized_run hunits
  have hsettled : Settled index := settled_run calls
  refine ⟨?_, ?_, ?_⟩
  · constructor
    · rintro ⟨answer, hanswer⟩
      obtain ⟨row, hvalid, -⟩ :=
        (matchAuthorized_iff hdocumented hnormalized input answer).mp hanswer
      exact ⟨row, hvalid⟩
    · rintro ⟨row, hvalid⟩
      exact ⟨_, matchAuthorized_eq hdocumented hnormalized hvalid⟩
  · refine notCorrupt_bind (hdocumented.manifest_notCorrupt _ _) fun generation hmanifest => ?_
    refine notCorrupt_bind (notCorrupt_throwUnless (by simp [invalidResponse])) fun _ _ => ?_
    refine notCorrupt_bind (notCorrupt_throwUnless (by simp)) fun _ _ => ?_
    refine notCorrupt_bind (notCorrupt_checkAuthorized _ _) fun _ _ => ?_
    obtain ⟨row, hget, rfl⟩ := manifest_ok hmanifest
    refine notCorrupt_bind ?_ fun _ _ => notCorrupt_ok _
    rw [mapM_matchDocument hdocumented hnormalized hget]
    exact notCorrupt_ok _
  · intro answer hanswer
    obtain ⟨row, hvalid, rfl⟩ :=
      (matchAuthorized_iff hdocumented hnormalized input answer).mp hanswer
    exact ⟨fun key => mem_covered hdocumented, fun key => mem_skippedKeys,
      answer_nodup hdocumented hsettled (checkAuthorized_ok hvalid.authorized).1⟩

/-- A unit vector, and the event of the plain job. -/
def plainQuery : VectorQuery where
  orgId := "o"
  generation := "g1"
  authorized := [{ eventId := "v1", contentHash := plainPlatform.sha256 [] }]
  queryVector := [1]
  limit := 1

def plainRow : GenerationRow := ⟨"o", plainGeneration, some "e1"⟩

def published : List IndexCall :=
  claimedOnce ++ [.complete claimedJob "w1" ⟨500, by decide⟩ [plainChunk] false]

theorem plainQuery_valid : ValidSearch plainPlatform
    (run (VectorIndex.step plainPlatform) {} published) plainQuery plainRow where
  orgNamed := by decide +kernel
  generationNamed := by decide +kernel
  registered := by decide +kernel
  vector := by decide +kernel
  limit := by decide +kernel
  authorized := by decide +kernel

theorem search_covers_published :
    ∃ answer, (run (VectorIndex.step plainPlatform) {} published).matchAuthorized plainPlatform
      plainQuery = .ok answer :=
  (search_covers plainPlatform published (fun call _ => plain_storesUnits call) plainQuery).1.mpr
    ⟨_, plainQuery_valid⟩

/-- After any calls that store unit vectors, what a search answers is the best of the matches of
all documents that it covers, though it never keeps more than twice as many while it reads them.
A document has a match when one of its chunks may stand for it. -/
theorem search_ranksAll (platform : EmbeddingPlatform) (calls : List IndexCall)
    (hunits : ∀ call ∈ calls, call.storesUnits platform) (input : VectorQuery)
    (answer : VectorAnswer) :
    let index := run (VectorIndex.step platform) {} calls
    let chunksFor (authorized : AuthorizedKey) : List ContextVectorChunk :=
      index.chunksOf ⟨input.orgId, input.generation, authorized.eventId⟩
    index.matchAuthorized platform input = .ok answer →
      ∃ found : List ContextVectorMatch, answer.matched = (ranked found).take input.limit ∧
        (found.map (·.eventId)).Nodup ∧
        (∀ hit ∈ found, ∃ authorized ∈ input.authorized, hit.key = authorized.key ∧
          HasDocument index input hit.key ∧
          Found platform input (authorized.bodyLength.getD 0) (chunksFor authorized) hit) ∧
        ∀ authorized ∈ input.authorized, HasDocument index input authorized.key →
          ((∃ hit ∈ found, hit.key = authorized.key) ↔
            eligibleChunks input (authorized.bodyLength.getD 0) (chunksFor authorized) ≠ []) := by
  intro index chunksFor hanswer
  have hdocumented : Documented platform index := documented_run calls
  have hnormalized : Normalized platform index := normalized_run hunits
  obtain ⟨row, hvalid, rfl⟩ :=
      (matchAuthorized_iff hdocumented hnormalized input answer).mp hanswer
  have hdistinct := (checkAuthorized_ok hvalid.authorized).1
  exact ⟨allFound platform index input row.manifest, rfl, allFound_nodup hdistinct,
    fun hit hhit => mem_allFound hhit,
    fun authorized hkey hcovered => exists_allFound hdocumented hdistinct hkey hcovered⟩

theorem search_ranksAll_published :
    ∃ found : List ContextVectorMatch, ∃ hit ∈ found, (answerOf plainPlatform
      (run (VectorIndex.step plainPlatform) {} published) plainQuery plainRow).matched =
        (ranked found).take 1 ∧ hit.eventId = "v1" := by
  have hdocumented : Documented plainPlatform (run (VectorIndex.step plainPlatform) {} published) :=
    documented_run published
  have hnormalized : Normalized plainPlatform (run (VectorIndex.step plainPlatform) {} published) :=
    normalized_run fun call _ => plain_storesUnits call
  obtain ⟨found, hmatched, -, -, hall⟩ := search_ranksAll plainPlatform published
    (fun call _ => plain_storesUnits call) plainQuery _
    (matchAuthorized_eq hdocumented hnormalized plainQuery_valid)
  obtain ⟨hit, hhit, hkey⟩ := (hall _ List.mem_cons_self
    ⟨⟨_, List.mem_cons_self, rfl⟩, ⟨⟨"o", "g1", "v1"⟩, plainPlatform.sha256 [], "s", "x", 1⟩,
      by decide +kernel⟩).mpr (by decide +kernel)
  exact ⟨found, hit, hhit, hmatched, congrArg ContextLexicalKey.eventId hkey⟩

end Regenic.Embedding
