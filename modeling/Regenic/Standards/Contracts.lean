import Mathlib.Algebra.Order.Ring.Unbundled.Rat
import Mathlib.Algebra.Ring.Rat
import Regenic.Customer.Contracts
import Regenic.Lib.Checked
import Regenic.Lib.Json

/-!
Proposals, decisions and standards: the records, what their validators refuse, and the
transition of one version of a standard. What the types of the source already say of a value is
said by the types here.
-/

namespace Regenic.Standards

open Lib
open Customer (ActorType ActorRef DateParse nonBlank)

/-! ## Records -/

inductive StandardLayer where
  | stableCore
  | adjacent
  | frontier
  deriving DecidableEq, Repr

inductive StandardVersionStatus where
  | draft
  | trial
  | active
  | deprecated
  deriving DecidableEq, Repr

inductive TargetUserTier where
  | innovator
  | earlyAdopter
  | earlyMajority
  | lateMajority
  | laggard
  deriving DecidableEq, Repr

inductive LearningOutput where
  | newStandard
  | revision
  | noStandardNeeded
  deriving DecidableEq, Repr

inductive ProposalKind where
  | newStandard
  | reviseStandard
  | decision
  | contextUpdate
  | hypothesis
  deriving DecidableEq, Repr

inductive ProposalStatus where
  | draft
  | submitted
  | inReview
  | accepted
  | rejected
  | withdrawn
  deriving DecidableEq, Repr

inductive DecisionRightsLevel where
  | direct
  | coach
  | negotiate
  | authorize
  | delegate
  deriving DecidableEq, Repr

inductive ProposalEvidenceKind where
  | data
  | demo
  | userQuote
  | document
  | other
  deriving DecidableEq, Repr

structure ProposalEvidenceRef where
  kind : ProposalEvidenceKind
  uriOrRef : String
  note : Option String := none
  claimIds : Option (List String) := none
  deriving DecidableEq, Repr

structure StandardBinding where
  standardId : String
  versionId : String
  deriving DecidableEq, Repr

inductive OutcomeKind where
  | standardVersion
  | decision
  | claim
  | none
  deriving DecidableEq, Repr

structure OutcomeRef where
  outcomeKind : OutcomeKind
  refId : Option String := none
  deriving DecidableEq, Repr

structure ProposalRecord where
  id : String
  orgId : String
  kind : ProposalKind
  title : String
  summary : String
  status : ProposalStatus
  author : ActorRef
  rightsLevel : DecisionRightsLevel
  boundary : String
  contextSnapshotId : Option String := none
  standardBindings : List StandardBinding
  singleUncertainty : Option String := none
  evidence : List ProposalEvidenceRef
  gapId : Option String := none
  outcomeRef : Option OutcomeRef := none
  sourceDigestId : Option String := none
  sourceItemEventId : Option String := none
  createdAt : String
  updatedAt : String
  deriving DecidableEq, Repr

inductive DecisionStatus where
  | committed
  | superseded
  | void
  deriving DecidableEq, Repr

structure DecisionRecord where
  id : String
  orgId : String
  proposalId : String
  summary : String
  rationale : String
  decidedBy : ActorRef
  coDeciders : List ActorRef
  rightsLevel : DecisionRightsLevel
  contextSnapshotId : String
  standardBindings : List StandardBinding
  status : DecisionStatus
  committedAt : String
  deriving DecidableEq, Repr

structure StandardScope where
  orgId : String
  teamIds : List String
  roles : List String
  decisionKinds : List String
  deriving DecidableEq, Repr

structure UpgradeEvidence where
  coreValueRevalidated : Bool
  deliveryStandardized : Bool
  unitEconomicsOrRoiOk : Bool
  nextTierBehavioralEvidence : Bool
  rollbackSafe : Bool
  waiverReason : Option String := none
  deriving DecidableEq, Repr

structure IterationGate where
  singleUncertainty : String
  targetUserTier : TargetUserTier
  consensusHypothesis : String
  valueMetric : String
  costBudget : String
  validationWindow : String
  stopCondition : String
  stableCorePreserved : Bool
  compatAndRollback : String
  upgradeEvidence : Option UpgradeEvidence := none
  learningOutput : LearningOutput
  deriving DecidableEq, Repr

structure TrialConfig where
  audience : StandardScope
  startsAt : String
  endsAt : Option String := none
  successMetric : String
  stopCondition : String
  deriving DecidableEq, Repr

structure StandardRecord where
  id : String
  orgId : String
  slug : String
  title : String
  layer : StandardLayer
  scope : StandardScope
  createdAt : String
  createdBy : ActorRef
  currentVersionId : Option String := none
  citationCount : ℚ
  deriving DecidableEq

structure StandardVersionRecord where
  id : String
  orgId : String
  standardId : String
  proposalId : String
  version : String
  status : StandardVersionStatus
  condition : String
  action : String
  acceptance : String
  boundary : String
  revisionTrigger : String
  gate : Option IterationGate := none
  trial : Option TrialConfig := none
  supersedesVersionId : Option String := none
  bodyHash : String
  createdAt : String
  publishedAt : Option String := none
  publishedBy : Option ActorRef := none
  deprecatedAt : Option String := none
  deprecatedBy : Option ActorRef := none
  deprecationEvidence : Option (List ProposalEvidenceRef) := none
  supersededByVersionId : Option String := none
  deriving DecidableEq, Repr

structure StandardVersionTransition where
  orgId : String
  versionId : String
  status : StandardVersionStatus
  actor : ActorRef
  transitionedAt : String
  upgradeEvidence : Option UpgradeEvidence := none
  deprecationEvidence : Option (List ProposalEvidenceRef) := none
  supersededByVersionId : Option String := none
  deriving DecidableEq, Repr

/-- What of a version its transitions change. -/
structure StandardVersionState where
  status : StandardVersionStatus
  upgradeEvidence : Option UpgradeEvidence := none
  publishedAt : Option String := none
  publishedBy : Option ActorRef := none
  deprecatedAt : Option String := none
  deprecatedBy : Option ActorRef := none
  deprecationEvidence : Option (List ProposalEvidenceRef) := none
  supersededByVersionId : Option String := none
  deriving DecidableEq, Repr

/-! ## Texts -/

/-- `/^[a-z0-9]+(?:-[a-z0-9]+)*$/` -/
def isSlug (value : String) : Bool :=
  (splitBy '-' value.toList).all fun part =>
    part ≠ [] && part.all fun c => ('a' ≤ c && c ≤ 'z') || c.isDigit

/-- `0|[1-9]\d*` -/
def isNumericPart (part : List Char) : Bool :=
  part ≠ [] && part.all Char.isDigit && (part = ['0'] || part.head? ≠ some '0')

/-- `[0-9A-Za-z-]+(?:\.[0-9A-Za-z-]+)*` -/
def isDottedPart (part : List Char) : Bool :=
  (splitBy '.' part).all fun word =>
    word ≠ [] && word.all fun c => c.isAlphanum || c = '-'

/-- The part of a version text before its build; a first dash ends the three numbers. -/
def isVersionCore (part : List Char) : Bool :=
  let numbers := splitBy '.' (part.takeWhile (· ≠ '-'))
  numbers.length = 3 && numbers.all isNumericPart &&
    match part.dropWhile (· ≠ '-') with
    | [] => true
    | _ :: prerelease => isDottedPart prerelease

def isSemver (value : String) : Bool :=
  match splitBy '+' value.toList with
  | [core] => isVersionCore core
  | [core, build] => isVersionCore core && isDottedPart build
  | _ => false

/-- The canonical text of the five fields of a version's body, hashed. -/
def hashStandardVersionBody (sha256 : String → String) (version : StandardVersionRecord) :
    String :=
  sha256 (String.ofList (Json.quoteRecord
    [("acceptance", version.acceptance), ("action", version.action),
      ("boundary", version.boundary), ("condition", version.condition),
      ("revision_trigger", version.revisionTrigger)]))

def validStringSet (values : List String) : Bool := values.all nonBlank && decide values.Nodup

def hasDuplicateStandardBindings (bindings : List StandardBinding) : Bool :=
  !decide (bindings.map fun binding =>
    binding.standardId ++ "\x00" ++ binding.versionId).Nodup

def validBinding (binding : StandardBinding) : Bool :=
  nonBlank binding.standardId && nonBlank binding.versionId

/-! ## Validators -/

section Validators

variable (dateParse : DateParse) (sha256 : String → String)

def validTimestamp (value : String) : Bool := (dateParse value).isSome

/-- `Date.parse(left) < Date.parse(right)`, which `NaN` never meets. -/
def isBefore (left right : String) : Bool :=
  match dateParse left, dateParse right with
  | some left, some right => left < right
  | _, _ => false

def validActor (actor : ActorRef) : Bool := nonBlank actor.actorId

def validateProposal (proposal : ProposalRecord) : Except String ProposalRecord := do
  throwUnless (nonBlank proposal.id && nonBlank proposal.orgId && nonBlank proposal.title &&
    nonBlank proposal.summary && nonBlank proposal.boundary &&
    nonBlank proposal.author.actorId && validTimestamp dateParse proposal.createdAt &&
    validTimestamp dateParse proposal.updatedAt) "Invalid Proposal"
  throwUnless (proposal.evidence ≠ [] && proposal.evidence.all fun item =>
    nonBlank item.uriOrRef) "Invalid Proposal evidence"
  throwUnless (proposal.standardBindings.all validBinding &&
    !hasDuplicateStandardBindings proposal.standardBindings)
    "Invalid Proposal standard binding"
  throwUnless (proposal.status ∉
      [ProposalStatus.submitted, .inReview, .accepted, .rejected] ||
    proposal.evidence.any fun item => item.kind ≠ .other)
    "Submitted Proposal requires non-other evidence"
  throwUnless (proposal.kind ∉ [ProposalKind.newStandard, .reviseStandard, .decision] ||
    proposal.status ∉ [ProposalStatus.submitted, .inReview, .accepted] ||
    (present proposal.contextSnapshotId).isSome)
    "Submitted decision or standard Proposal requires a snapshot"
  throwUnless (proposal.kind ∉ [ProposalKind.newStandard, .reviseStandard] ||
    proposal.status ∉ [ProposalStatus.submitted, .inReview, .accepted] ||
    proposal.singleUncertainty.any nonBlank)
    "Submitted standard Proposal requires one uncertainty"
  pure proposal

def validateDecision (decision : DecisionRecord) : Except String DecisionRecord := do
  throwUnless (nonBlank decision.id && nonBlank decision.orgId &&
    nonBlank decision.proposalId && nonBlank decision.summary && nonBlank decision.rationale &&
    nonBlank decision.contextSnapshotId && decision.status = .committed &&
    nonBlank decision.decidedBy.actorId && validTimestamp dateParse decision.committedAt)
    "Invalid Decision"
  throwUnless (decision.coDeciders.all fun actor => nonBlank actor.actorId)
    "Invalid Decision co-decider"
  throwUnless (decision.rightsLevel ≠ .negotiate || decision.coDeciders ≠ [])
    "Negotiated Decision requires a co-decider"
  throwUnless (decision.rightsLevel = .negotiate || decision.coDeciders = [])
    "Only negotiated Decisions may have co-deciders"
  throwUnless (decision.standardBindings.all validBinding &&
    !hasDuplicateStandardBindings decision.standardBindings)
    "Invalid Decision standard binding"
  pure decision

def validateStandardScope (input : StandardScope) (expectedOrgId : Option String) :
    Except String StandardScope := do
  throwUnless (nonBlank input.orgId && expectedOrgId.all (input.orgId = ·) &&
    validStringSet input.teamIds && validStringSet input.roles &&
    validStringSet input.decisionKinds) "Invalid Standard scope"
  pure input

def validateStandard (input : StandardRecord) : Except String StandardRecord := do
  throwUnless (nonBlank input.id && nonBlank input.orgId && nonBlank input.title &&
    isSlug input.slug && input.createdBy.actorType ∈ [ActorType.human, .system] &&
    validActor input.createdBy && validTimestamp dateParse input.createdAt &&
    input.currentVersionId.all nonBlank && input.citationCount.den = 1 &&
    0 ≤ input.citationCount && input.citationCount ≤ 2 ^ 53 - 1) "Invalid Standard"
  let _ ← validateStandardScope input.scope (some input.orgId)
  pure input

def validateUpgradeEvidence (input : UpgradeEvidence) : Except String UpgradeEvidence := do
  throwUnless (input.waiverReason.all nonBlank) "Invalid UpgradeEvidence"
  pure input

def upgradeEvidenceComplete (input : UpgradeEvidence) : Except String Bool := do
  let evidence ← validateUpgradeEvidence input
  pure ((evidence.coreValueRevalidated && evidence.deliveryStandardized &&
      evidence.unitEconomicsOrRoiOk && evidence.nextTierBehavioralEvidence &&
      evidence.rollbackSafe) || evidence.waiverReason.any nonBlank)

def validateIterationGate (input : IterationGate) : Except String IterationGate := do
  throwUnless (nonBlank input.singleUncertainty && nonBlank input.consensusHypothesis &&
    nonBlank input.valueMetric && nonBlank input.costBudget &&
    nonBlank input.validationWindow && nonBlank input.stopCondition &&
    nonBlank input.compatAndRollback) "Invalid IterationGate"
  let _ ← input.upgradeEvidence.mapM validateUpgradeEvidence
  pure input

def validateTrialConfig (input : TrialConfig) : Except String TrialConfig := do
  throwUnless (validTimestamp dateParse input.startsAt &&
    (input.endsAt.all fun endsAt =>
      validTimestamp dateParse endsAt && isBefore dateParse input.startsAt endsAt) &&
    nonBlank input.successMetric && nonBlank input.stopCondition) "Invalid TrialConfig"
  let _ ← validateStandardScope input.audience none
  pure input

def validateEvidence (input : List ProposalEvidenceRef) :
    Except String (List ProposalEvidenceRef) := do
  throwUnless (input.all fun item => nonBlank item.uriOrRef)
    "Invalid Standard lifecycle evidence"
  pure input

def hasNonOtherEvidence (input : List ProposalEvidenceRef) : Except String Bool := do
  let evidence ← validateEvidence input
  pure (evidence.any fun item => item.kind ≠ .other)

/-- The upgrade evidence that an active version needs. -/
def requireUpgrade (evidence : Option UpgradeEvidence) : Except String UpgradeEvidence :=
  match evidence with
  | none => .error "Active StandardVersion requires upgrade evidence"
  | some evidence => do
    let complete ← upgradeEvidenceComplete evidence
    throwUnless complete "Active StandardVersion requires upgrade evidence"
    pure evidence

/-- Evidence is looked at only where no replacement is named. -/
def requireDeprecationGround (replacement : Option String)
    (evidence : Option (List ProposalEvidenceRef)) : Except String Unit :=
  if (present replacement).isSome then .ok ()
  else do
    let grounded ← hasNonOtherEvidence (evidence.getD [])
    throwUnless grounded "StandardVersion deprecation requires evidence or replacement"

/-- A version that has no lifecycle outcome. -/
def noDeprecation (input : StandardVersionRecord) : Bool :=
  input.deprecatedAt = none && input.deprecatedBy = none &&
    input.deprecationEvidence = none && input.supersededByVersionId = none

def validatePublication (input : StandardVersionRecord) : Except String Unit :=
  if input.status = .draft then
    throwUnless (input.publishedAt = none && input.publishedBy = none && noDeprecation input)
      "Draft StandardVersion cannot have lifecycle outcome"
  else do
    throwUnless (input.gate.isSome && input.publishedAt.any (validTimestamp dateParse) &&
      input.publishedBy.any validActor) "Published StandardVersion requires gate and publisher"
    throwUnless (!input.publishedAt.any (isBefore dateParse · input.createdAt))
      "StandardVersion publication predates creation"

def validateUpgraded (input : StandardVersionRecord) : Except String Unit :=
  if input.status = .active ∨ input.status = .deprecated then do
    let _ ← requireUpgrade (input.gate.bind (·.upgradeEvidence))
    pure ()
  else .ok ()

def validateDeprecation (input : StandardVersionRecord) : Except String Unit :=
  if input.status = .deprecated then do
    throwUnless (input.deprecatedBy.any validActor && input.deprecatedAt.any fun deprecatedAt =>
      validTimestamp dateParse deprecatedAt &&
        !input.publishedAt.any (isBefore dateParse deprecatedAt ·))
      "Deprecated StandardVersion requires deprecation metadata"
    requireDeprecationGround input.supersededByVersionId input.deprecationEvidence
  else
    throwUnless (noDeprecation input)
      "Non-deprecated StandardVersion cannot have deprecation metadata"

def validateStandardVersion (input : StandardVersionRecord) :
    Except String StandardVersionRecord := do
  throwUnless (nonBlank input.id && nonBlank input.orgId && nonBlank input.standardId &&
    nonBlank input.proposalId && isSemver input.version && nonBlank input.condition &&
    nonBlank input.action && nonBlank input.acceptance && nonBlank input.boundary &&
    nonBlank input.revisionTrigger && input.bodyHash = hashStandardVersionBody sha256 input &&
    validTimestamp dateParse input.createdAt && input.supersedesVersionId.all nonBlank)
    "Invalid StandardVersion"
  let _ ← input.gate.mapM validateIterationGate
  let _ ← input.trial.mapM (validateTrialConfig dateParse)
  validatePublication dateParse input
  throwUnless (input.status ≠ .trial || input.trial.isSome)
    "Trial StandardVersion requires trial config"
  validateUpgraded input
  validateDeprecation dateParse input
  pure input

end Validators

/-! ## The transition of a version -/

/-- The head that a version has to find: what it supersedes while it is a draft, itself
afterwards. -/
def expectedHead (version : StandardVersionRecord) : Option String :=
  if version.status = .draft then version.supersedesVersionId else some version.id

def assertCurrentStandardHead (standard : StandardRecord) (version : StandardVersionRecord) :
    Except String Unit :=
  throwUnless (standard.currentVersionId = expectedHead version)
    "StandardVersion does not extend the current Standard head"

def assertStableCoreGate (standard : StandardRecord) (gate : IterationGate) :
    Except String Unit :=
  throwUnless (standard.layer = .frontier || gate.stableCorePreserved)
    "Non-frontier StandardVersion must preserve stable core"

/-- One dimension of a trial's audience stays inside the scope's. -/
def staysInside (parent audience : List String) : Bool :=
  parent = [] || (audience ≠ [] && audience.all (· ∈ parent))

def isNarrower (parent audience : List String) : Bool :=
  (parent = [] && audience ≠ []) || (parent ≠ [] && audience.length < parent.length)

def assertTrialNarrower (parent audience : StandardScope) : Except String Unit := do
  throwUnless (parent.orgId = audience.orgId) "Trial audience must stay in Standard scope"
  throwUnless (staysInside parent.teamIds audience.teamIds &&
    staysInside parent.roles audience.roles &&
    staysInside parent.decisionKinds audience.decisionKinds)
    "Trial audience must stay in Standard scope"
  throwUnless (isNarrower parent.teamIds audience.teamIds ||
    isNarrower parent.roles audience.roles ||
    isNarrower parent.decisionKinds audience.decisionKinds)
    "Trial audience must be narrower than Standard scope"

section Transition

variable (dateParse : DateParse) (sha256 : String → String)
  (current : StandardVersionRecord) (standard : StandardRecord)
  (transition : StandardVersionTransition)

def startTrial : Except String StandardVersionRecord :=
  match current.gate, current.trial with
  | some gate, some trial => do
    throwUnless (current.status = .draft) "Invalid StandardVersion transition"
    assertCurrentStandardHead standard current
    assertStableCoreGate standard gate
    assertTrialNarrower standard.scope trial.audience
    validateStandardVersion dateParse sha256 { current with
      status := .trial
      publishedAt := some transition.transitionedAt
      publishedBy := some transition.actor }
  | _, _ => .error "Invalid StandardVersion transition"

def activate : Except String StandardVersionRecord :=
  match current.gate with
  | none => .error "Invalid StandardVersion transition"
  | some gate => do
    throwUnless (current.status = .draft || current.status = .trial)
      "Invalid StandardVersion transition"
    assertCurrentStandardHead standard current
    throwUnless (current.status ≠ .draft || standard.layer = .frontier ||
      gate.stableCorePreserved) "Non-frontier StandardVersion must preserve stable core"
    let upgradeEvidence ← requireUpgrade (transition.upgradeEvidence <|> gate.upgradeEvidence)
    validateStandardVersion dateParse sha256 { current with
      status := .active
      gate := some { gate with upgradeEvidence := some upgradeEvidence }
      publishedAt := current.publishedAt <|> some transition.transitionedAt
      publishedBy := current.publishedBy <|> some transition.actor }

def deprecateVersion : Except String StandardVersionRecord := do
  throwUnless (current.status = .active) "Invalid StandardVersion transition"
  requireDeprecationGround transition.supersededByVersionId transition.deprecationEvidence
  throwUnless (transition.supersededByVersionId ≠ some current.id)
    "StandardVersion cannot supersede itself"
  let evidence ← validateEvidence (transition.deprecationEvidence.getD [])
  validateStandardVersion dateParse sha256 { current with
    status := .deprecated
    deprecatedAt := some transition.transitionedAt
    deprecatedBy := some transition.actor
    deprecationEvidence :=
      if evidence = [] then current.deprecationEvidence else some evidence
    supersededByVersionId :=
      present transition.supersededByVersionId <|> current.supersededByVersionId }

def transitionStandardVersion (currentInput : StandardVersionRecord)
    (standardInput : StandardRecord) (transition : StandardVersionTransition) :
    Except String StandardVersionRecord := do
  let current ← validateStandardVersion dateParse sha256 currentInput
  let standard ← validateStandard dateParse standardInput
  throwUnless (current.orgId = transition.orgId && standard.orgId = transition.orgId &&
    current.standardId = standard.id && current.id = transition.versionId &&
    validActor transition.actor && validTimestamp dateParse transition.transitionedAt &&
    !isBefore dateParse transition.transitionedAt current.createdAt &&
    !current.publishedAt.any (isBefore dateParse transition.transitionedAt ·))
    "Invalid StandardVersion transition"
  match transition.status with
  | .trial => startTrial dateParse sha256 current standard transition
  | .active => activate dateParse sha256 current standard transition
  | .deprecated => deprecateVersion dateParse sha256 current transition
  | .draft => .error "Invalid StandardVersion transition"

end Transition

end Regenic.Standards
