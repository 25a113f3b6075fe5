import Regenic.Context.BudgetSound

/-!
What an assembly stores, and what a replay checks of it: a snapshot with the flat list of what was
selected, a bundle with the same items by section, and the hashes that pin one to the other.
-/

namespace Regenic.Context.Assembly

open Lib Ingest
open Customer (ActorRef nonBlank)

/-! ## What is stored -/

inductive ContextAllowedUse where
  | display
  | reason
  | draft
  | execute
  deriving DecidableEq, Repr

def ContextAllowedUse.name : ContextAllowedUse → String
  | .display => "display"
  | .reason => "reason"
  | .draft => "draft"
  | .execute => "execute"

/-- A request with who asks, what for, and how much of it. -/
structure AssemblyRequest extends ContextRequest where
  principal : ActorRef
  consumerId : String
  purpose : String
  allowedUses : List ContextAllowedUse
  budget : ContextBudget

inductive RetrievalMode where
  | lexical
  | hybrid
  deriving DecidableEq, Repr

structure RetrievalRoute where
  eventId : String
  lexicalRank : Option Nat := none
  vectorRank : Option Nat := none
  vectorScore : Option ℚ := none
  threadId : Option String := none
  threadRank : Option Nat := none
  threadScore : Option ℚ := none
  evidenceDiversity : Option ℚ := none
  chunkOrdinal : Option Nat := none
  start : Option Nat := none
  finish : Option Nat := none
  deriving DecidableEq

structure ContextRetrievalTrace where
  retrieverId : String
  profile : String
  mode : RetrievalMode
  generation : Option String := none
  modelRevision : Option String := none
  authorizedCount : Nat
  coveredCount : Nat
  routes : List RetrievalRoute
  deriving DecidableEq

structure ContextSelectedReference where
  candidateId : String
  resourceId : String
  kind : ContextCandidateKind
  contentHash : Option String := none
  projectionGeneration : Option String := none
  deriving DecidableEq, Repr

structure ContextSnapshot where
  schemaVersion : String
  id : String
  orgId : String
  requestHash : String
  principalPolicyHash : String
  readEpoch : String
  retrievalProfileVersion : String
  retrievalTrace : Option (List ContextRetrievalTrace) := none
  assemblyProfileVersion : String
  bundlePayloadHash : String
  selected : List ContextSelectedReference
  budgetLedger : ContextBudgetLedger
  degradationFlags : List String
  contentHash : String
  createdAt : String
  deriving DecidableEq

structure ContextConflict where
  code : String
  candidateIds : List String
  deriving DecidableEq, Repr

structure ContextBundlePayload where
  schemaVersion : String
  orgId : String
  principal : ActorRef
  consumerId : String
  purpose : String
  allowedUses : List ContextAllowedUse
  sections : List ContextBundleSection
  citations : List EvidenceReference
  conflicts : List ContextConflict
  redactions : List ContextRedaction
  budgetLedger : ContextBudgetLedger
  degradationFlags : List String
  deriving DecidableEq

structure ContextBundle extends ContextBundlePayload where
  snapshotId : String
  contentHash : String
  deriving DecidableEq

/-- `bundlePayloadOf` -/
def ContextBundle.payload (bundle : ContextBundle) : ContextBundlePayload :=
  bundle.toContextBundlePayload

/-! ## Hashes and schemas -/

/-- SHA-256 of the canonical texts, and the schemas of what is stored. -/
structure CanonicalEnv where
  evidenceJson : EvidenceReference → String
  snapshotDigest : ContextSnapshot → String
  bundleDigest : ContextBundle → String
  payloadDigest : ContextBundlePayload → String
  validSnapshot : ContextSnapshot → Bool
  validBundle : ContextBundle → Bool

def sortedStrings (values : List String) : List String :=
  values.insertionSort fun left right => codeUnits left ≤ codeUnits right

def normalizedLedger (ledger : ContextBudgetLedger) : ContextBudgetLedger :=
  { ledger with sections := ledger.sections.insertionSort ledgerOrder }

def sortedRedactions (redactions : List ContextRedaction) : List ContextRedaction :=
  redactions.insertionSort fun left right =>
    codeUnits (left.section.name ++ "\x00" ++ left.category) ≤
      codeUnits (right.section.name ++ "\x00" ++ right.category)

section Hashes

variable (canonical : CanonicalEnv)

def sortedEvidence (references : List EvidenceReference) : List EvidenceReference :=
  references.insertionSort fun left right =>
    codeUnits (canonical.evidenceJson left) ≤ codeUnits (canonical.evidenceJson right)

/-- Neither the id nor the hash itself is hashed. -/
def hashContextSnapshot (snapshot : ContextSnapshot) : String :=
  canonical.snapshotDigest { snapshot with
    id := ""
    contentHash := ""
    budgetLedger := normalizedLedger snapshot.budgetLedger
    degradationFlags := sortedStrings snapshot.degradationFlags }

def normalizedPayload (payload : ContextBundlePayload) : ContextBundlePayload :=
  { payload with
    citations := sortedEvidence canonical payload.citations
    redactions := sortedRedactions payload.redactions
    budgetLedger := normalizedLedger payload.budgetLedger
    degradationFlags := sortedStrings payload.degradationFlags }

def hashContextBundlePayload (payload : ContextBundlePayload) : String :=
  canonical.payloadDigest (normalizedPayload canonical payload)

def hashContextBundle (bundle : ContextBundle) : String :=
  canonical.bundleDigest { normalizedPayload canonical bundle.payload with
    snapshotId := bundle.snapshotId
    contentHash := "" }

end Hashes

/-! ## Assembly -/

def toSelectedReference (value : ScoredRetrievedCandidate) :
    Except AssemblyFailure ContextSelectedReference :=
  if value.candidate.kind = .event then
    match present value.candidate.contentHash with
    | none => .error (invalidCandidate "Event candidate is missing content_hash")
    | some contentHash =>
      .ok { candidateId := value.candidate.candidateId
            resourceId := value.candidate.resourceId
            kind := .event
            contentHash := some contentHash }
  else
    match value.candidate.projection with
    | none => .error (invalidCandidate "Projection candidate is missing projection metadata")
    | some projection =>
      .ok { candidateId := value.candidate.candidateId
            resourceId := value.candidate.resourceId
            kind := value.candidate.kind
            contentHash := present value.candidate.contentHash
            projectionGeneration := some projection.generation }

def addCitation (byEvent : Table EvidenceReference.eventId) (citation : EvidenceReference) :
    Except AssemblyFailure (Table EvidenceReference.eventId) :=
  match byEvent.get? citation.eventId with
  | none => .ok (byEvent.put citation)
  | some current =>
    if current = citation then .ok byEvent
    else .error (invalidCandidate "One event has conflicting citation metadata")

def uniqueCitations (citations : List EvidenceReference) :
    Except AssemblyFailure (List EvidenceReference) := do
  let byEvent ← citations.foldlM addCitation ∅
  return byEvent.rows.insertionSort fun left right =>
    codeUnits left.eventId ≤ codeUnits right.eventId

def conflictKey (conflict : ContextConflict) : String :=
  "\x00".intercalate conflict.candidateIds

def conflictsFor (selected : List ScoredRetrievedCandidate) : List ContextConflict :=
  let selectedIds := selected.map (·.candidate.candidateId)
  let found := selected.flatMap fun value =>
    ((value.candidate.conflicts.getD []).filter fun conflict =>
      selectedIds.contains conflict && conflict ≠ value.candidate.candidateId).map fun conflict =>
        { code := "candidate_conflict"
          candidateIds := sortedStrings [value.candidate.candidateId, conflict] }
  let pairs : Table conflictKey := found.foldl Table.put ∅
  pairs.rows.insertionSort fun left right =>
    codeUnits (conflictKey left) ≤ codeUnits (conflictKey right)

/-- What the engine has at hand when it comes to the bundle, but for the candidates. -/
structure AssemblyRun where
  request : AssemblyRequest
  profile : ContextAssemblyProfile
  protectedEventIds : List String
  requestHash : String
  policyHash : String
  readEpoch : String
  recordedAt : String
  retrievalProfileVersion : String
  retrievalTrace : List ContextRetrievalTrace
  degradationFlags : List String

section Assemble

variable (canonical : CanonicalEnv) (run : AssemblyRun)

def createBundlePayload (assembled : BudgetAssembly) :
    Except AssemblyFailure ContextBundlePayload := do
  let citations ← uniqueCitations (assembled.selected.flatMap fun value => value.item.evidence)
  return {
    schemaVersion := "2.0"
    orgId := run.request.orgId
    principal := run.request.principal
    consumerId := run.request.consumerId
    purpose := run.request.purpose
    allowedUses := run.request.allowedUses.insertionSort fun left right =>
      codeUnits left.name ≤ codeUnits right.name
    sections := assembled.sections
    citations
    conflicts := conflictsFor assembled.selected
    redactions := assembled.redactions
    budgetLedger := assembled.ledger
    degradationFlags := run.degradationFlags }

def createSnapshot (bundlePayloadHash : String) (assembled : BudgetAssembly) :
    Except AssemblyFailure ContextSnapshot := do
  let selected ← assembled.selected.mapM toSelectedReference
  let value : ContextSnapshot := {
    schemaVersion := "1.0"
    id := "pending"
    orgId := run.request.orgId
    requestHash := run.requestHash
    principalPolicyHash := run.policyHash
    readEpoch := run.readEpoch
    retrievalProfileVersion := run.retrievalProfileVersion
    retrievalTrace := if run.retrievalTrace = [] then none else some run.retrievalTrace
    assemblyProfileVersion := run.profile.version
    bundlePayloadHash
    selected
    budgetLedger := assembled.ledger
    degradationFlags := run.degradationFlags
    contentHash := ""
    createdAt := run.recordedAt }
  let contentHash := hashContextSnapshot canonical value
  return { value with contentHash, id := "context-snapshot:" ++ contentHash }

def createBundle (snapshotId : String) (payload : ContextBundlePayload) : ContextBundle :=
  let value : ContextBundle := { payload with snapshotId, contentHash := "" }
  { value with contentHash := hashContextBundle canonical value }

def assertValidResult (snapshot : ContextSnapshot) (bundle : ContextBundle) :
    Except AssemblyFailure Unit := do
  throwUnless (canonical.validSnapshot snapshot)
    (invalidCandidate "Assembler created an invalid context snapshot")
  throwUnless (canonical.validBundle bundle)
    (invalidCandidate "Assembler created an invalid context bundle")
  throwUnless (snapshot.bundlePayloadHash = hashContextBundlePayload canonical bundle.payload)
    (invalidCandidate "Bundle payload does not match its snapshot pin")

/-- `assemble`, from the fused candidates to what is stored. -/
def assemble (candidates : List ScoredRetrievedCandidate) :
    Except AssemblyFailure (ContextSnapshot × ContextBundle) := do
  assertProtectedCandidates run.protectedEventIds candidates
  let assembled ← assembleBudget run.profile run.request.budget candidates run.protectedEventIds
  let payload ← createBundlePayload run assembled
  let snapshot ← createSnapshot canonical run (hashContextBundlePayload canonical payload) assembled
  let bundle := createBundle canonical snapshot.id payload
  assertValidResult canonical snapshot bundle
  return (snapshot, bundle)

end Assemble

/-! ## Replay -/

structure ContextReplayRequest where
  orgId : String
  snapshotId : String
  principal : ActorRef
  consumerId : String
  purpose : String
  allowedUses : List ContextAllowedUse
  deriving DecidableEq, Repr

/-- An item is the one that its pin says. -/
def matchesPin (selected : ContextSelectedReference) (item : ContextBundleItem) : Bool :=
  selected.candidateId = item.candidateId && selected.resourceId = item.resourceId &&
    selected.kind = item.kind && selected.contentHash = item.contentHash

def assertReplayIntegrity (canonical : CanonicalEnv) (request : ContextReplayRequest)
    (snapshot : ContextSnapshot) (bundle : ContextBundle) : Except AssemblyFailure Unit := do
  throwUnless (canonical.validSnapshot snapshot && canonical.validBundle bundle)
    (invalidCandidate "Stored context replay data is invalid")
  throwUnless (snapshot.id = request.snapshotId && snapshot.orgId = request.orgId &&
      bundle.snapshotId = snapshot.id && bundle.orgId = request.orgId &&
      bundle.consumerId = request.consumerId && bundle.purpose = request.purpose &&
      bundle.principal = request.principal && bundle.budgetLedger = snapshot.budgetLedger &&
      bundle.degradationFlags = snapshot.degradationFlags)
    (invalidCandidate "Stored context bundle does not match its snapshot")
  throwUnless (snapshot.bundlePayloadHash = hashContextBundlePayload canonical bundle.payload)
    (invalidCandidate "Stored context bundle payload does not match its snapshot pin")
  let items := bundle.sections.flatMap (·.items)
  throwUnless (items.length = snapshot.selected.length)
    (invalidCandidate "Stored context selection is incomplete")
  throwUnless ((snapshot.selected.zip items).all fun pair => matchesPin pair.1 pair.2)
    (invalidCandidate "Stored context item does not match its replay pin")

/-! ## What is stored can be replayed -/

section Replays

variable {canonical : CanonicalEnv} {run : AssemblyRun}
  {candidates : List ScoredRetrievedCandidate}

theorem present_of_hash {hash : Option String} (h : hash.all isSha256Hex = true) :
    present hash = hash := by
  cases hash with
  | none => rfl
  | some text =>
    apply present_some.mpr
    refine ⟨rfl, ?_⟩
    rintro rfl
    exact absurd h (by decide)

theorem toSelectedReference_matches {value : ScoredRetrievedCandidate}
    (hfused : Fused value.toRetrievedContextCandidate) {selected : ContextSelectedReference}
    (h : toSelectedReference value = .ok selected) : matchesPin selected value.item = true := by
  obtain ⟨hkind, hresource, hid, hhash⟩ := hfused.item_eq
  have hpresent := present_of_hash hfused.hash
  unfold toSelectedReference at h
  unfold matchesPin
  rw [hkind, hresource, hid, hhash]
  split at h
  · next hevent =>
    split at h
    · cases h
    · next contentHash hsome =>
      cases h
      rw [hpresent] at hsome
      simp [hevent, hsome]
  · split at h
    · cases h
    · cases h
      simp [hpresent]

/-- The pins of a selection go with its items, one by one. -/
theorem pins_match {selected : List ScoredRetrievedCandidate}
    {pins : List ContextSelectedReference}
    (hfused : ∀ value ∈ selected, Fused value.toRetrievedContextCandidate)
    (h : List.Forall₂ (fun value pin => toSelectedReference value = .ok pin) selected pins) :
    (selected.map (·.item)).length = pins.length ∧
      ((pins.zip (selected.map (·.item))).all fun pair => matchesPin pair.1 pair.2) = true := by
  induction h with
  | nil => exact ⟨rfl, rfl⟩
  | @cons value pin values pins hpin _ ih =>
    obtain ⟨hlength, hall⟩ := ih fun other hother => hfused other (List.mem_cons_of_mem _ hother)
    have hfirst := toSelectedReference_matches (hfused value List.mem_cons_self) hpin
    constructor
    · simpa using hlength
    · rw [List.map_cons, List.zip_cons_cons, List.all_cons, hfirst, hall]
      rfl

/-- What is stored passes the checks of a replay for the same principal, consumer and purpose. -/
theorem assemble_replays
    (hfused : ∀ value ∈ candidates, Fused value.toRetrievedContextCandidate)
    {snapshot : ContextSnapshot} {bundle : ContextBundle}
    (h : assemble canonical run candidates = .ok (snapshot, bundle))
    (allowedUses : List ContextAllowedUse) :
    assertReplayIntegrity canonical
      { orgId := run.request.orgId, snapshotId := snapshot.id, principal := run.request.principal,
        consumerId := run.request.consumerId, purpose := run.request.purpose, allowedUses }
      snapshot bundle = .ok () := by
  unfold assemble at h
  obtain ⟨_, -, h⟩ := sequence_ok h
  obtain ⟨assembled, hassembled, h⟩ := sequence_ok h
  obtain ⟨payload, hpayload, h⟩ := sequence_ok h
  obtain ⟨made, hsnapshot, h⟩ := sequence_ok h
  obtain ⟨_, hvalid, h⟩ := sequence_ok h
  cases h
  obtain ⟨hvalidSnapshot, hvalid⟩ := checked_ok hvalid
  obtain ⟨hvalidBundle, hvalid⟩ := checked_ok hvalid
  have hpinned := throwUnless_ok hvalid
  unfold createBundlePayload at hpayload
  obtain ⟨citations, -, hpayload⟩ := sequence_ok hpayload
  cases hpayload
  unfold createSnapshot at hsnapshot
  obtain ⟨pins, hpins, hsnapshot⟩ := sequence_ok hsnapshot
  cases hsnapshot
  have hselected : ∀ value ∈ assembled.selected, Fused value.toRetrievedContextCandidate := by
    obtain ⟨truncated, hledger⟩ : ∃ truncated, LedgerCounts candidates assembled.selected
        truncated assembled.ledger := ⟨_, assembleBudget_ledger hassembled⟩
    intro value hvalue
    exact hfused value (hledger.partition.subset (List.mem_append_left _ hvalue))
  obtain ⟨hlength, hall⟩ := pins_match hselected (forall₂_of_mapM_ok hpins)
  have hitems := assembleBudget_items hassembled
  unfold assertReplayIntegrity
  rw [hvalidSnapshot, hvalidBundle, hpinned]
  simp only [createBundle, hitems, hlength, hall]
  simp
  rfl

end Replays

/-! ## An assembly -/

section Assembled

/-- A store with one message, an engine that shows everything, and one protected event. -/
def plainFusion : FusionEnv where
  isTimestamp _ := true
  dateParse _ := none
  weightedScore scores := (scores.map Prod.snd).sum
  visible _ _ _ := true

def contentDigest : String := String.ofList (List.replicate 64 'a')

def plainCanonical : CanonicalEnv where
  evidenceJson evidence := evidence.eventId
  snapshotDigest _ := contentDigest
  bundleDigest _ := contentDigest
  payloadDigest _ := contentDigest
  validSnapshot _ := true
  validBundle _ := true

def plainProfile : ContextAssemblyProfile where
  version := "event-evidence-v1"
  sectionOrder := contextSectionKinds
  valid := by decide +kernel

def noteVisible : VisibleEvent where
  event :=
    { eventId := "e1", orgId := "o", source := "mail", externalId := "m1", operation := .create
      occurredAt := "2026-01-01T00:00:00Z", ingestedAt := "2026-01-01T00:00:01Z"
      contentHash := some contentDigest, requiredScopeIds := [], status := .current }
  text := some "hi"

def noteRetrieved : RetrievedContextCandidate where
  candidate :=
    { candidateId := "event:e1", kind := .event, resourceId := "e1"
      evidence := [evidenceFor noteVisible], requiredScopeIds := []
      recordedAt := "2026-01-01T00:00:01Z", status := some .current
      contentHash := some contentDigest, estimatedTokens := 1, scores := [] }
  «section» := .evidence
  item :=
    { candidateId := "event:e1", resourceId := "e1", kind := .event, status := some .current
      text := some "hi", contentHash := some contentDigest
      evidence := [evidenceFor noteVisible], estimatedTokens := 1 }

/-- A summary of the message under an id of its own choice. -/
def summaryRetrieved (resourceId : String) : RetrievedContextCandidate where
  candidate :=
    { candidateId := "artifact:s1", kind := .artifact, resourceId
      evidence := [evidenceFor noteVisible], requiredScopeIds := []
      recordedAt := "2026-01-01T00:00:01Z", estimatedTokens := 1, scores := []
      projection := some
        { projectorId := "thread-summary", algorithmVersion := "1", generation := "g1" } }
  «section» := .summaries
  item :=
    { candidateId := "artifact:s1", resourceId, kind := .artifact, text := some "hi"
      evidence := [evidenceFor noteVisible], estimatedTokens := 1 }

def plainRetriever : ActiveRetriever where
  id := "all"
  candidateKinds := [.event, .artifact]

def plainRun (maxItems : Nat) : AssemblyRun where
  request :=
    { orgId := "o", temporal := .current, principal := { actorType := .human, actorId := "u" }
      consumerId := "c", purpose := "reply", allowedUses := [.draft]
      budget := { profile := "p", maxTokens := 10, maxItems, maxRawEvidence := 1 } }
  profile := plainProfile
  protectedEventIds := ["e1"]
  requestHash := contentDigest
  policyHash := contentDigest
  readEpoch := "epoch"
  recordedAt := "2026-01-01T00:00:02Z"
  retrievalProfileVersion := "deterministic-v1"
  retrievalTrace := []
  degradationFlags := ["model_absent"]

/-- What the assembly takes of fused candidates is sound, holds every protected event exactly when
each of them was retrieved as an event, and is stored so that it can be replayed. -/
theorem assembly_sound_and_replayable (env : FusionEnv) (canonical : CanonicalEnv)
    (run : AssemblyRun) (visibleEvents : List VisibleEvent)
    (retrieved : List SourcedRetrievedCandidate) (candidates : List ScoredRetrievedCandidate)
    (hfuse : fuse env run.request.toContextRequest visibleEvents run.protectedEventIds retrieved =
      .ok candidates) :
    (∀ assembled, assembleBudget run.profile run.request.budget candidates
        run.protectedEventIds = .ok assembled →
      BudgetSound run.profile run.request.budget candidates assembled ∧
        (ProtectedSelected run.protectedEventIds assembled ↔
          ProtectedRetrieved candidates run.protectedEventIds)) ∧
    (∀ snapshot bundle, assemble canonical run candidates = .ok (snapshot, bundle) →
      ∀ allowedUses, assertReplayIntegrity canonical
        { orgId := run.request.orgId, snapshotId := snapshot.id
          principal := run.request.principal, consumerId := run.request.consumerId
          purpose := run.request.purpose, allowedUses } snapshot bundle = .ok ()) := by
  obtain ⟨hnodup, hfused⟩ := fuse_fused hfuse
  constructor
  · intro assembled hassembled
    exact ⟨assembleBudget_sound hnodup hassembled, protectedSelected_iff hfused hassembled⟩
  · intro snapshot bundle hstored allowedUses
    exact assemble_replays hfused hstored allowedUses

/-- One of the two candidates is taken, and it is the protected message. -/
theorem assembly_sound_and_replayable_note : ∃ candidates assembled snapshot bundle,
    assembleBudget plainProfile (plainRun 1).request.budget candidates ["e1"] = .ok assembled ∧
      assembled.ledger.truncatedItems = 1 ∧
      BudgetSound plainProfile (plainRun 1).request.budget candidates assembled ∧
      ProtectedSelected ["e1"] assembled ∧
      assertReplayIntegrity plainCanonical
        { orgId := "o", snapshotId := snapshot.id
          principal := { actorType := .human, actorId := "u" }, consumerId := "c"
          purpose := "reply", allowedUses := [.draft] } snapshot bundle = .ok () := by
  have hrun : (fuse plainFusion (plainRun 1).request.toContextRequest [noteVisible] ["e1"]
      [⟨plainRetriever, noteRetrieved⟩, ⟨plainRetriever, summaryRetrieved "s1"⟩]).toOption.any
      (fun candidates =>
        ((assembleBudget plainProfile (plainRun 1).request.budget candidates
          ["e1"]).toOption.any fun assembled => assembled.ledger.truncatedItems = 1 &&
            decide (ProtectedSelected ["e1"] assembled)) &&
        (assemble plainCanonical (plainRun 1) candidates).toOption.any fun _ => true) = true := by
    decide +kernel
  obtain ⟨candidates, hfuse, hboth⟩ := ok_of_any hrun
  obtain ⟨hbudget, hstored⟩ := (Bool.and_eq_true _ _).mp hboth
  obtain ⟨assembled, hassembled, hselected⟩ := ok_of_any hbudget
  obtain ⟨⟨snapshot, bundle⟩, hstored, -⟩ := ok_of_any hstored
  obtain ⟨htruncated, hprotected⟩ := (Bool.and_eq_true _ _).mp hselected
  obtain ⟨hsound, hreplays⟩ := assembly_sound_and_replayable plainFusion plainCanonical
    (plainRun 1) [noteVisible] _ candidates hfuse
  exact ⟨candidates, assembled, snapshot, bundle, hassembled, of_decide_eq_true htruncated,
    (hsound assembled hassembled).1, of_decide_eq_true hprotected,
    hreplays snapshot bundle hstored [.draft]⟩

/-- An artifact under the id of a protected event passes for the event. -/
theorem artifact_stands_for_protected_event : ∃ candidates assembled,
    fuse plainFusion (plainRun 1).request.toContextRequest [noteVisible] ["e1"]
        [⟨plainRetriever, summaryRetrieved "e1"⟩] = .ok candidates ∧
      assertProtectedCandidates ["e1"] candidates = .ok () ∧
      assembleBudget plainProfile (plainRun 1).request.budget candidates ["e1"] =
        .ok assembled ∧
      ¬ProtectedSelected ["e1"] assembled := by
  have hrun : (fuse plainFusion (plainRun 1).request.toContextRequest [noteVisible] ["e1"]
      [⟨plainRetriever, summaryRetrieved "e1"⟩]).toOption.any (fun candidates =>
        ((assertProtectedCandidates ["e1"] candidates).toOption.any fun _ => true) &&
        (assembleBudget plainProfile (plainRun 1).request.budget candidates
          ["e1"]).toOption.any fun assembled =>
            !decide (ProtectedSelected ["e1"] assembled)) = true := by
    decide +kernel
  obtain ⟨candidates, hfuse, hboth⟩ := ok_of_any hrun
  obtain ⟨hretrieved, hbudget⟩ := (Bool.and_eq_true _ _).mp hboth
  obtain ⟨_, hretrieved, -⟩ := ok_of_any hretrieved
  obtain ⟨assembled, hassembled, hmissing⟩ := ok_of_any hbudget
  refine ⟨candidates, assembled, hfuse, hretrieved, hassembled, ?_⟩
  simpa using hmissing

end Assembled

end Regenic.Context.Assembly
