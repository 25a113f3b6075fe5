import Mathlib.Algebra.Order.Ring.Unbundled.Rat
import Mathlib.Algebra.Ring.Rat
import Mathlib.Data.Rat.Defs
import Regenic.Context.Lifecycle
import Regenic.Lib.Checked
import Regenic.Lib.JsonText
import Regenic.Lib.Run

/-!
The candidates that retrievers give and the engine fuses: each is checked against its item, its
section and the events it cites, and what is given more than once for one resource is merged.
-/

namespace Regenic.Context.Assembly

open Lib Ingest
open Customer (nonBlank)

/-! ## Candidates -/

inductive ContextSectionKind where
  | policy
  | memory
  | working
  | facts
  | summaries
  | evidence
  deriving DecidableEq, Repr

def ContextSectionKind.name : ContextSectionKind → String
  | .policy => "policy"
  | .memory => "memory"
  | .working => "working"
  | .facts => "facts"
  | .summaries => "summaries"
  | .evidence => "evidence"

def contextSectionKinds : List ContextSectionKind :=
  [.policy, .memory, .working, .facts, .summaries, .evidence]

structure EvidenceReference where
  eventId : String
  source : String
  externalId : String
  operation : IngestOperation
  occurredAt : String
  contentHash : Option String := none
  deriving DecidableEq, Repr

structure ContextProjectionReference where
  projectorId : String
  algorithmVersion : String
  generation : String
  deriving DecidableEq, Repr

/-- What a candidate is but for its scores: `candidateMetadata`. -/
structure CandidateMetadata where
  candidateId : String
  kind : ContextCandidateKind
  resourceId : String
  evidence : List EvidenceReference
  requiredScopeIds : List String
  validFrom : Option String := none
  validTo : Option String := none
  recordedAt : String
  status : Option EventStatus := none
  contentHash : Option String := none
  estimatedTokens : Nat
  conflicts : Option (List String) := none
  projection : Option ContextProjectionReference := none
  deriving DecidableEq, Repr

structure ContextCandidate extends CandidateMetadata where
  scores : List (String × ℚ)
  deriving DecidableEq

inductive SearchMatchKind where
  | message
  | file
  | event
  deriving DecidableEq, Repr

inductive SearchVia where
  | filename
  | metadata
  | text
  | semantic
  | visual
  deriving DecidableEq, Repr

structure ContextSearchMatch where
  kind : SearchMatchKind
  partIndex : Option Int := none
  mediaType : Option String := none
  filename : Option String := none
  contentHash : Option String := none
  via : List SearchVia
  snippet : Option String := none
  start : Option Nat := none
  finish : Option Nat := none
  deriving DecidableEq, Repr

structure ContextBundleItem where
  candidateId : String
  resourceId : String
  kind : ContextCandidateKind
  status : Option EventStatus := none
  text : Option String := none
  searchMatches : Option (List ContextSearchMatch) := none
  contentHash : Option String := none
  evidence : List EvidenceReference
  estimatedTokens : Nat
  deriving DecidableEq, Repr

structure RetrievedContextCandidate where
  candidate : ContextCandidate
  «section» : ContextSectionKind
  item : ContextBundleItem
  deriving DecidableEq

structure ScoredRetrievedCandidate extends RetrievedContextCandidate where
  rankScore : ℚ
  deriving DecidableEq

/-- `candidateKey` -/
def ScoredRetrievedCandidate.key (value : ScoredRetrievedCandidate) :
    ContextCandidateKind × String :=
  (value.candidate.kind, value.candidate.resourceId)

structure ActiveRetriever where
  id : String
  candidateKinds : List ContextCandidateKind
  deriving DecidableEq, Repr

structure SourcedRetrievedCandidate where
  active : ActiveRetriever
  value : RetrievedContextCandidate
  deriving DecidableEq

structure ContextSearchPart where
  partIndex : Int
  mediaType : String
  filename : Option String := none
  contentHash : Option String := none
  text : Option String := none
  deriving DecidableEq, Repr

/-- An event of the authorized view with its material. -/
structure VisibleEvent where
  event : AuthorizedSourceEvent
  text : Option String := none
  searchBody : Option String := none
  searchParts : List ContextSearchPart := []

/-- `ContextEngineError` with its code. -/
inductive AssemblyFailure where
  | invalidRequest (message : String)
  | invalidCandidate (message : String)
  deriving DecidableEq, Repr

def invalidCandidate (message : String) : AssemblyFailure := .invalidCandidate message

/-! ## Token costs and scores -/

/-- `Math.ceil(ascii / 4) + nonAscii` -/
def estimateTextTokens (text : Option String) : Nat :=
  match present text with
  | none => 0
  | some text =>
    let ascii := text.toList.countP fun c => c.toNat ≤ 0x7F
    (ascii + 3) / 4 + (text.toList.length - ascii)

def normalizedTokenCost (value : RetrievedContextCandidate) : RetrievedContextCandidate :=
  let textEstimate := estimateTextTokens value.item.text +
    ((value.item.searchMatches.getD []).map fun found =>
      estimateTextTokens (found.snippet <|> found.filename)).sum
  let estimatedTokens :=
    max (max value.candidate.estimatedTokens value.item.estimatedTokens) textEstimate
  { value with
    candidate := { value.candidate with estimatedTokens }
    item := { value.item with estimatedTokens } }

def namespaceCandidateScores (value : RetrievedContextCandidate) (retrieverId : String) :
    RetrievedContextCandidate :=
  let scores := value.candidate.scores.map fun (name, score) =>
    (Json.stringify (.array [.string retrieverId, .string name]), score)
  { value with candidate := { value.candidate with scores } }

/-- A higher score of the same name replaces a lower one. -/
def raiseScore (scores : List (String × ℚ)) (entry : String × ℚ) : List (String × ℚ) :=
  if scores.any fun own => own.1 = entry.1 then
    scores.map fun own => if own.1 = entry.1 then (own.1, max own.2 entry.2) else own
  else scores ++ [entry]

/-! ## Checks -/

/-- Times, the sum of weighted scores in floating point and the policy's decisions come from
outside. -/
structure FusionEnv where
  isTimestamp : String → Bool
  dateParse : String → Option Int
  weightedScore : List (String × ℚ) → ℚ
  visible : ContextCandidateKind → String → List String → Bool

variable (env : FusionEnv)

def validEvidence (evidence : EvidenceReference) : Bool :=
  nonBlank evidence.eventId && nonBlank evidence.source && nonBlank evidence.externalId &&
    env.isTimestamp evidence.occurredAt && evidence.contentHash.all isSha256Hex

def validProjection (projection : ContextProjectionReference) : Bool :=
  nonBlank projection.projectorId && nonBlank projection.algorithmVersion &&
    nonBlank projection.generation

/-- `valid_to` cannot precede `valid_from`. -/
def validSpan (candidate : CandidateMetadata) : Bool :=
  match (present candidate.validFrom).bind env.dateParse,
    (present candidate.validTo).bind env.dateParse with
  | some first, some last => first ≤ last
  | _, _ => true

def validateContextCandidate (candidate : ContextCandidate) : Bool :=
  nonBlank candidate.candidateId && nonBlank candidate.resourceId &&
    candidate.evidence ≠ [] && candidate.evidence.length ≤ 10000 &&
    candidate.evidence.all (validEvidence env) &&
    candidate.requiredScopeIds.all nonBlank && candidate.requiredScopeIds.length ≤ 1000 &&
    candidate.requiredScopeIds.Nodup &&
    candidate.validFrom.all env.isTimestamp && candidate.validTo.all env.isTimestamp &&
    env.isTimestamp candidate.recordedAt && candidate.contentHash.all isSha256Hex &&
    candidate.conflicts.all (fun conflicts => conflicts.all nonBlank && conflicts.Nodup) &&
    candidate.projection.all validProjection && validSpan env candidate.toCandidateMetadata

/-- Evidence is compared by the hash of its sorted references. -/
def itemMatchesCandidate (value : RetrievedContextCandidate) : Bool :=
  value.item.candidateId = value.candidate.candidateId &&
    value.item.resourceId = value.candidate.resourceId &&
    value.item.kind = value.candidate.kind &&
    value.item.estimatedTokens = value.candidate.estimatedTokens &&
    value.item.contentHash = value.candidate.contentHash &&
    value.item.status = value.candidate.status &&
    decide (value.item.evidence.Perm value.candidate.evidence)

def isSubset (required available : List String) : Bool := required.all available.contains

def evidenceFor (source : VisibleEvent) : EvidenceReference where
  eventId := source.event.eventId
  source := source.event.source
  externalId := source.event.externalId
  operation := source.event.operation
  occurredAt := source.event.occurredAt
  contentHash := present source.event.contentHash

/-- `slice` of the UTF-16 units. -/
def sliceIs (text : String) (found : ContextSearchMatch) (snippet : String) : Bool :=
  let units := codeUnits text
  (units.take (found.finish.getD units.length)).drop (found.start.getD 0) = codeUnits snippet

def searchMatchBound (source : VisibleEvent) (found : ContextSearchMatch) : Bool :=
  match found.kind with
  | .file =>
    (source.searchParts.find? fun part => some part.partIndex = found.partIndex).any fun part =>
      part.contentHash = found.contentHash && part.filename = found.filename &&
        some part.mediaType = found.mediaType &&
        part.text.all fun text => found.snippet.all (sliceIs text found)
  | _ =>
    found.snippet.all (sliceIs ((source.searchBody <|> source.text).getD "") found)

section Binding

variable (visibleEvents : List VisibleEvent) (searchKind : Option ContextSearchKind)

def visibleById (eventId : String) : Option VisibleEvent :=
  visibleEvents.find? fun source => source.event.eventId = eventId

/-- The events a candidate cites, or none if one of them is not in the view as cited. -/
def evidenceSources (candidate : ContextCandidate) : Option (List VisibleEvent) :=
  candidate.evidence.mapM fun evidence =>
    (visibleById visibleEvents evidence.eventId).filter fun source =>
      evidenceFor source = evidence

/-- The text that an event candidate may show. -/
def boundText (source : VisibleEvent) : Option String :=
  if searchKind.isSome then
    some (String.ofList (((source.searchBody <|> source.text).getD "").toList.take 480))
  else source.text

def eventMatchesSource (value : RetrievedContextCandidate) (source : VisibleEvent) : Bool :=
  value.candidate.evidence.map (·.eventId) = [value.candidate.resourceId] &&
    value.candidate.contentHash = source.event.contentHash &&
    value.candidate.recordedAt = source.event.ingestedAt &&
    value.candidate.status = some source.event.status &&
    uniqueSorted value.candidate.requiredScopeIds = uniqueSorted source.event.requiredScopeIds &&
    value.item.text = boundText searchKind source && value.candidate.projection = none

def assertCandidateEvidenceBinding (value : RetrievedContextCandidate) :
    Except AssemblyFailure Unit :=
  let candidate := value.candidate
  match evidenceSources visibleEvents candidate with
  | none => .error (invalidCandidate "Candidate evidence is not in the authorized source view")
  | some sources => do
    let evidenceScopes := uniqueSorted (sources.flatMap fun source => source.event.requiredScopeIds)
    throwUnless (isSubset evidenceScopes (uniqueSorted candidate.requiredScopeIds))
      (invalidCandidate "Candidate scopes do not cover all evidence scopes")
    throwUnless (candidate.kind ≠ .artifact ||
        uniqueSorted candidate.requiredScopeIds = evidenceScopes)
      (invalidCandidate "Artifact candidate scopes must exactly match evidence scopes")
    if candidate.kind ≠ .event then
      throwUnless candidate.projection.isSome
        (invalidCandidate "Projection candidate is missing projection metadata")
    else
      match (visibleById visibleEvents candidate.resourceId).filter
          (eventMatchesSource searchKind value) with
      | none =>
        .error (invalidCandidate "Event candidate does not match its authorized source event")
      | some source =>
        (value.item.searchMatches.getD []).forM fun found => do
          throwUnless searchKind.isSome
            (invalidCandidate "Search matches require a search request")
          throwUnless (searchMatchBound source found)
            (invalidCandidate (if found.kind = .file then
              "Search attachment does not match its authorized source"
              else "Search text range does not match its authorized message"))

end Binding

/-! ## Fusion -/

section Fuse

variable (request : ContextRequest) (visibleEvents : List VisibleEvent)
  (protectedEventIds : List String)

/-- The checks that a candidate has to pass before the policy is asked. -/
def checkCandidate (active : ActiveRetriever) (value : RetrievedContextCandidate) :
    Except AssemblyFailure Unit := do
  throwUnless (validateContextCandidate env value.candidate)
    (invalidCandidate "Retriever returned an invalid context candidate")
  throwUnless (!(value.candidate.kind = .event && value.section ≠ .evidence ||
      value.candidate.kind = .artifact && value.section ≠ .summaries))
    (invalidCandidate "Deterministic Event retrievers may publish evidence sections only")
  throwUnless (active.candidateKinds.contains value.candidate.kind)
    (invalidCandidate "Retriever returned an undeclared candidate kind")
  throwUnless (value.candidate.kind = .event || value.candidate.kind = .artifact)
    (invalidCandidate "Deterministic context engine accepts Event and Artifact candidates only")
  throwUnless (request.requestedKinds.all fun kinds => kinds.contains value.candidate.kind)
    (invalidCandidate "Retriever returned a candidate kind outside the request")
  throwUnless (itemMatchesCandidate value)
    (invalidCandidate "Candidate material does not match candidate metadata")
  assertCandidateEvidenceBinding visibleEvents request.searchKind value

/-- Protected events go to the policy section. -/
def placeCandidate (value : RetrievedContextCandidate) : RetrievedContextCandidate :=
  if value.candidate.kind = .event then
    { value with «section» :=
        if protectedEventIds.contains value.candidate.resourceId then .policy else .evidence }
  else value

/-- A resource that is given again has to be given the same but for its scores. -/
def mergeCandidate (byResource : Table ScoredRetrievedCandidate.key)
    (value : RetrievedContextCandidate) :
    Except AssemblyFailure (Table ScoredRetrievedCandidate.key) :=
  match byResource.get? (value.candidate.kind, value.candidate.resourceId) with
  | none =>
    .ok (byResource.put { value with rankScore := env.weightedScore value.candidate.scores })
  | some current => do
    throwUnless (current.section = value.section && current.item = value.item &&
        current.candidate.toCandidateMetadata = value.candidate.toCandidateMetadata)
      (invalidCandidate "Retrievers returned conflicting material for one resource")
    let scores := value.candidate.scores.foldl raiseScore current.candidate.scores
    return byResource.put
      { current with
        candidate := { current.candidate with scores }
        rankScore := env.weightedScore scores }

def fuseCandidate (byResource : Table ScoredRetrievedCandidate.key)
    (sourced : SourcedRetrievedCandidate) :
    Except AssemblyFailure (Table ScoredRetrievedCandidate.key) := do
  let value := namespaceCandidateScores (normalizedTokenCost sourced.value) sourced.active.id
  checkCandidate env request visibleEvents sourced.active value
  if env.visible value.candidate.kind value.candidate.resourceId
      value.candidate.requiredScopeIds then
    mergeCandidate env byResource (placeCandidate protectedEventIds value)
  else return byResource

def rankOrder (left right : ScoredRetrievedCandidate) : Prop :=
  right.rankScore < left.rankScore ∨ left.rankScore = right.rankScore ∧
    codeUnits left.candidate.candidateId ≤ codeUnits right.candidate.candidateId

instance decidableRankOrder (left right : ScoredRetrievedCandidate) :
    Decidable (rankOrder left right) :=
  inferInstanceAs (Decidable (right.rankScore < left.rankScore ∨
    left.rankScore = right.rankScore ∧
      codeUnits left.candidate.candidateId ≤ codeUnits right.candidate.candidateId))

def fuse (retrieved : List SourcedRetrievedCandidate) :
    Except AssemblyFailure (List ScoredRetrievedCandidate) := do
  let byResource ← retrieved.foldlM (fuseCandidate env request visibleEvents protectedEventIds) ∅
  return byResource.rows.insertionSort rankOrder

end Fuse

/-! ## What fusion gives -/

/-- A candidate goes with its item, and its content hash is a hash. -/
structure Fused (value : RetrievedContextCandidate) : Prop where
  agrees : itemMatchesCandidate value = true
  hash : value.candidate.contentHash.all isSha256Hex = true

section Facts

variable {env : FusionEnv} {request : ContextRequest} {visibleEvents : List VisibleEvent}
  {protectedEventIds : List String}

theorem checkCandidate_fused {active : ActiveRetriever} {value : RetrievedContextCandidate}
    (h : checkCandidate env request visibleEvents active value = .ok ()) : Fused value := by
  unfold checkCandidate at h
  obtain ⟨hvalid, h⟩ := checked_ok h
  obtain ⟨_, h⟩ := checked_ok h
  obtain ⟨_, h⟩ := checked_ok h
  obtain ⟨_, h⟩ := checked_ok h
  obtain ⟨_, h⟩ := checked_ok h
  obtain ⟨hmatches, _⟩ := checked_ok h
  refine ⟨hmatches, ?_⟩
  simp only [validateContextCandidate, Bool.and_eq_true] at hvalid
  exact hvalid.1.1.1.2

theorem placeCandidate_fused {value : RetrievedContextCandidate} (h : Fused value) :
    Fused (placeCandidate protectedEventIds value) := by
  unfold placeCandidate
  split
  · exact ⟨h.agrees, h.hash⟩
  · exact h

theorem mergeCandidate_fused {byResource byResource' : Table ScoredRetrievedCandidate.key}
    {value : RetrievedContextCandidate}
    (hall : ∀ known ∈ byResource.rows, Fused known.toRetrievedContextCandidate)
    (hvalue : Fused value) (h : mergeCandidate env byResource value = .ok byResource') :
    ∀ known ∈ byResource'.rows, Fused known.toRetrievedContextCandidate := by
  unfold mergeCandidate at h
  intro known hknown
  split at h
  · cases h
    rcases Table.mem_put.mp hknown with rfl | ⟨hold, _⟩
    · exact hvalue
    · exact hall known hold
  · next current hget =>
    obtain ⟨_, h⟩ := checked_ok h
    cases h
    -- The scores of a candidate are not compared with its item.
    have hcurrent := hall current (Table.get?_eq_some.mp hget).1
    rcases Table.mem_put.mp hknown with rfl | ⟨hold, _⟩
    · exact ⟨hcurrent.agrees, hcurrent.hash⟩
    · exact hall known hold

theorem fuseCandidate_fused {byResource byResource' : Table ScoredRetrievedCandidate.key}
    {sourced : SourcedRetrievedCandidate}
    (hall : ∀ known ∈ byResource.rows, Fused known.toRetrievedContextCandidate)
    (h : fuseCandidate env request visibleEvents protectedEventIds byResource sourced =
      .ok byResource') :
    ∀ known ∈ byResource'.rows, Fused known.toRetrievedContextCandidate := by
  unfold fuseCandidate at h
  obtain ⟨_, hcheck, h⟩ := sequence_ok h
  split at h
  · exact mergeCandidate_fused hall (placeCandidate_fused (checkCandidate_fused hcheck)) h
  · cases h
    exact hall

/-- No candidate is given twice, and each of them was checked. -/
theorem fuse_fused {retrieved : List SourcedRetrievedCandidate}
    {candidates : List ScoredRetrievedCandidate}
    (h : fuse env request visibleEvents protectedEventIds retrieved = .ok candidates) :
    candidates.Nodup ∧ ∀ value ∈ candidates, Fused value.toRetrievedContextCandidate := by
  unfold fuse at h
  obtain ⟨byResource, hrun, h⟩ := sequence_ok h
  cases h
  have hperm := List.perm_insertionSort rankOrder byResource.rows
  constructor
  · exact hperm.nodup_iff.mpr byResource.nodup.of_map
  · intro value hvalue
    refine foldlM_invariant
      (fun table : Table ScoredRetrievedCandidate.key =>
        ∀ known ∈ table.rows, Fused known.toRetrievedContextCandidate)
      (fun _ _ _ => fuseCandidate_fused) retrieved ∅ byResource ?_ hrun value
      (hperm.mem_iff.mp hvalue)
    intro known hknown
    cases hknown

end Facts

end Regenic.Context.Assembly
