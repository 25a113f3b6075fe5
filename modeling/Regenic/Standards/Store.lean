import Regenic.Lib.Table
import Regenic.Standards.Contracts

/-!
The tables of proposals, decisions, standards and their versions, and the calls that write them.
Each call is one transaction: where it throws, the tables stay as they were.
-/

namespace Regenic.Standards

open Lib
open Customer (DateParse)

/-! ## Rows -/

/-- `payload_json` is the record as it was put; the other columns are what later calls
change. -/
structure ProposalRow where
  created : ProposalRecord
  status : ProposalStatus
  updatedAt : String
  outcomeKind : Option OutcomeKind := none
  outcomeRefId : Option String := none
  deriving DecidableEq

def ProposalRow.id (row : ProposalRow) : String := row.created.id

structure StandardRow where
  created : StandardRecord
  currentVersionId : Option String := none
  citationCount : ℚ := 0
  deriving DecidableEq

def StandardRow.id (row : StandardRow) : String := row.created.id

structure StandardVersionRow where
  created : StandardVersionRecord
  status : StandardVersionStatus
  state : StandardVersionState
  deriving DecidableEq

def StandardVersionRow.id (row : StandardVersionRow) : String := row.created.id

structure StandardTables where
  proposals : Table ProposalRow.id := ∅
  decisions : Table DecisionRecord.id := ∅
  standards : Table StandardRow.id := ∅
  versions : Table StandardVersionRow.id := ∅

/-! ## From rows to records -/

section Reading

variable (dateParse : DateParse) (sha256 : String → String)

def ProposalRow.outcome (row : ProposalRow) : Option OutcomeRef :=
  match row.outcomeKind with
  | none => row.created.outcomeRef
  | some kind => some ⟨kind, present row.outcomeRefId⟩

def toProposal (row : ProposalRow) : Except String ProposalRecord := do
  let proposal ← validateProposal dateParse
    { row.created with status := row.status, updatedAt := row.updatedAt }
  pure { proposal with outcomeRef := row.outcome }

def StandardRow.merged (row : StandardRow) : StandardRecord :=
  { row.created with
    currentVersionId := present row.currentVersionId <|> row.created.currentVersionId
    citationCount := row.citationCount }

def toStandard (row : StandardRow) : Except String StandardRecord :=
  validateStandard dateParse row.merged

def standardVersionState (version : StandardVersionRecord) : StandardVersionState where
  status := version.status
  upgradeEvidence := version.gate.bind (·.upgradeEvidence)
  publishedAt := present version.publishedAt
  publishedBy := version.publishedBy
  deprecatedAt := present version.deprecatedAt
  deprecatedBy := version.deprecatedBy
  deprecationEvidence := version.deprecationEvidence
  supersededByVersionId := present version.supersededByVersionId

/-- The record as it was put, with the columns of the state laid over it. -/
def StandardVersionRow.merged (row : StandardVersionRow) : StandardVersionRecord :=
  { row.created with
    status := row.status
    gate := row.created.gate.map fun gate =>
      { gate with upgradeEvidence := row.state.upgradeEvidence <|> gate.upgradeEvidence }
    publishedAt := present row.state.publishedAt <|> row.created.publishedAt
    publishedBy := row.state.publishedBy <|> row.created.publishedBy
    deprecatedAt := present row.state.deprecatedAt <|> row.created.deprecatedAt
    deprecatedBy := row.state.deprecatedBy <|> row.created.deprecatedBy
    deprecationEvidence := row.state.deprecationEvidence <|> row.created.deprecationEvidence
    supersededByVersionId :=
      present row.state.supersededByVersionId <|> row.created.supersededByVersionId }

def toStandardVersion (row : StandardVersionRow) : Except String StandardVersionRecord :=
  validateStandardVersion dateParse sha256 row.merged

end Reading

namespace StandardTables

/-! ## Selects -/

def proposalRow (db : StandardTables) (orgId proposalId : String) : Option ProposalRow :=
  (db.proposals.get? proposalId).filter fun row => row.created.orgId = orgId

def proposalRowOfSource (db : StandardTables) (orgId digestId itemEventId : String) :
    Option ProposalRow :=
  db.proposals.rows.find? fun row => row.created.orgId = orgId &&
    row.created.sourceDigestId = some digestId &&
    row.created.sourceItemEventId = some itemEventId

def standardRow (db : StandardTables) (orgId standardId : String) : Option StandardRow :=
  (db.standards.get? standardId).filter fun row => row.created.orgId = orgId

def versionRow (db : StandardTables) (orgId versionId : String) : Option StandardVersionRow :=
  (db.versions.get? versionId).filter fun row => row.created.orgId = orgId

def versionOfProposal (db : StandardTables) (orgId proposalId : String) :
    Option StandardVersionRow :=
  db.versions.rows.find? fun row =>
    row.created.orgId = orgId && row.created.proposalId = proposalId

def decisionOfProposal (db : StandardTables) (orgId proposalId : String) :
    Option DecisionRecord :=
  db.decisions.rows.find? fun row => row.orgId = orgId && row.proposalId = proposalId

variable (dateParse : DateParse) (sha256 : String → String)

def getProposalSync (db : StandardTables) (orgId proposalId : String) :
    Except String (Option ProposalRecord) :=
  (db.proposalRow orgId proposalId).mapM (toProposal dateParse)

def getStandardSync (db : StandardTables) (orgId standardId : String) :
    Except String (Option StandardRecord) :=
  (db.standardRow orgId standardId).mapM (toStandard dateParse)

def getStandardVersionSync (db : StandardTables) (orgId versionId : String) :
    Except String (Option StandardVersionRecord) :=
  (db.versionRow orgId versionId).mapM (toStandardVersion dateParse sha256)

/-! ## Inserts and updates -/

/-- A unique constraint reads a null as different from every value. -/
def sameSource (proposal other : ProposalRecord) : Bool :=
  proposal.orgId = other.orgId && proposal.sourceDigestId.isSome &&
    proposal.sourceDigestId = other.sourceDigestId && proposal.sourceItemEventId.isSome &&
    proposal.sourceItemEventId = other.sourceItemEventId

/-- `INSERT … ON CONFLICT DO NOTHING` -/
def insertProposal (db : StandardTables) (proposal : ProposalRecord) : StandardTables :=
  if (db.proposals.get? proposal.id).isSome ||
      db.proposals.rows.any fun row => sameSource proposal row.created then db
  else
    let row : ProposalRow :=
      { created := proposal, status := proposal.status, updatedAt := proposal.updatedAt }
    { db with proposals := db.proposals.put row }

def insertStandard (db : StandardTables) (standard : StandardRecord) :
    Except String StandardTables := do
  throwUnless (db.standards.get? standard.id).isNone "UNIQUE constraint failed: standards.id"
  throwUnless (db.standards.rows.all fun row =>
      row.created.orgId ≠ standard.orgId || row.created.slug ≠ standard.slug)
    "UNIQUE constraint failed: standards.org_id, standards.slug"
  pure { db with standards := db.standards.put { created := standard } }

def insertVersion (db : StandardTables) (version : StandardVersionRecord) :
    Except String StandardTables := do
  throwUnless (db.versions.get? version.id).isNone
    "UNIQUE constraint failed: standard_versions.id"
  throwUnless (db.versions.rows.all fun row => row.created.orgId ≠ version.orgId ||
      row.created.standardId ≠ version.standardId || row.created.version ≠ version.version)
    ("UNIQUE constraint failed: standard_versions.org_id, " ++
      "standard_versions.standard_id, standard_versions.version")
  throwUnless (db.versionOfProposal version.orgId version.proposalId).isNone
    "UNIQUE constraint failed: standard_versions.org_id, standard_versions.proposal_id"
  throwUnless ((db.standards.get? version.standardId).isSome &&
    (db.proposals.get? version.proposalId).isSome) "FOREIGN KEY constraint failed"
  let row : StandardVersionRow :=
    { created := version, status := version.status, state := standardVersionState version }
  pure { db with versions := db.versions.put row }

def insertDecision (db : StandardTables) (decision : DecisionRecord) :
    Except String StandardTables := do
  throwUnless (db.decisions.get? decision.id).isNone "UNIQUE constraint failed: decisions.id"
  throwUnless (db.decisionOfProposal decision.orgId decision.proposalId).isNone
    "UNIQUE constraint failed: decisions.org_id, decisions.proposal_id"
  throwUnless (db.proposals.get? decision.proposalId).isSome "FOREIGN KEY constraint failed"
  pure { db with decisions := db.decisions.put decision }

def setProposalStatus (db : StandardTables) (orgId proposalId : String)
    (expected status : ProposalStatus) (updatedAt : String) : StandardTables :=
  { db with
    proposals := db.proposals.updateWhere
      (fun row => row.id = proposalId && row.created.orgId = orgId && row.status = expected)
      (fun row => { row with status := status, updatedAt := updatedAt }) fun _ => rfl }

def acceptProposal (db : StandardTables) (orgId proposalId : String) (kind : OutcomeKind)
    (refId updatedAt : String) : StandardTables :=
  { db with
    proposals := db.proposals.updateWhere
      (fun row => row.id = proposalId && row.created.orgId = orgId && row.status = .inReview)
      (fun row => { row with
        status := .accepted
        outcomeKind := some kind
        outcomeRefId := some refId
        updatedAt := updatedAt }) fun _ => rfl }

def setVersion (db : StandardTables) (orgId versionId : String)
    (expected : StandardVersionStatus) (next : StandardVersionRecord) : StandardTables :=
  { db with
    versions := db.versions.updateWhere
      (fun row => row.id = versionId && row.created.orgId = orgId && row.status = expected)
      (fun row => { row with status := next.status, state := standardVersionState next })
      fun _ => rfl }

/-- `UPDATE standards SET current_version_id = ?`, where the head meets `expected`. -/
def setHead (db : StandardTables) (orgId standardId : String)
    (expected : Option String → Bool) (versionId : String) : StandardTables :=
  { db with
    standards := db.standards.updateWhere
      (fun row => row.id = standardId && row.created.orgId = orgId &&
        expected row.currentVersionId)
      (fun row => { row with currentVersionId := some versionId }) fun _ => rfl }

/-! ## Proposals and decisions -/

/-- The row that a put answers with: by its source where it names one whole, else by its id. -/
def storedProposal (db : StandardTables) (proposal : ProposalRecord) : Option ProposalRow :=
  match present proposal.sourceDigestId, present proposal.sourceItemEventId with
  | some digestId, some itemEventId =>
    db.proposalRowOfSource proposal.orgId digestId itemEventId
  | _, _ => db.proposalRow proposal.orgId proposal.id

def putProposal (db : StandardTables) (input : ProposalRecord) :
    Except String (StandardTables × ProposalRecord) := do
  let proposal ← validateProposal dateParse input
  throwUnless (proposal.status = .draft) "New Proposal must be draft"
  match (db.insertProposal proposal).storedProposal proposal with
  | none => .error "Cannot read properties of undefined (reading 'payload_json')"
  | some row => do
    let record ← toProposal dateParse row
    pure (db.insertProposal proposal, record)

structure ProposalTransition where
  orgId : String
  proposalId : String
  status : ProposalStatus
  updatedAt : String
  deriving DecidableEq

def allowedProposalTransition (status next : ProposalStatus) : Bool :=
  match status with
  | .draft => next ∈ [ProposalStatus.submitted, .withdrawn]
  | .submitted => next ∈ [ProposalStatus.inReview, .withdrawn]
  | .inReview => next ∈ [ProposalStatus.rejected, .withdrawn]
  | _ => false

def transitionProposal (db : StandardTables) (input : ProposalTransition) :
    Except String (StandardTables × Option ProposalRecord) :=
  match db.proposalRow input.orgId input.proposalId with
  | none => .ok (db, none)
  | some current => do
    let proposal ← toProposal dateParse current
    throwUnless (allowedProposalTransition proposal.status input.status)
      "Invalid Proposal transition"
    let next ← validateProposal dateParse
      { proposal with status := input.status, updatedAt := input.updatedAt }
    pure (db.setProposalStatus input.orgId input.proposalId proposal.status next.status
      next.updatedAt, some next)

structure DecisionCommit where
  orgId : String
  proposalId : String
  decision : DecisionRecord
  deriving DecidableEq

/-- A commit that finds its decision in place answers with it. -/
def replayDecision (db : StandardTables) (input : DecisionCommit)
    (decision stored : DecisionRecord) :
    Except String (StandardTables × (Option ProposalRecord × DecisionRecord)) := do
  let stored ← validateDecision dateParse stored
  throwUnless (stored = decision) "Cannot replace immutable Decision"
  let proposal ← db.getProposalSync dateParse input.orgId input.proposalId
  pure (db, (proposal, stored))

def firstDecision (db : StandardTables) (input : DecisionCommit) (decision : DecisionRecord) :
    Except String (StandardTables × (Option ProposalRecord × DecisionRecord)) := do
  let proposal? ← db.getProposalSync dateParse input.orgId input.proposalId
  match proposal? with
  | none => .error "Invalid Proposal Decision commit"
  | some proposal => do
    throwUnless (proposal.status = .inReview && proposal.kind = .decision &&
      decision.orgId = input.orgId && decision.proposalId = proposal.id &&
      some decision.contextSnapshotId = proposal.contextSnapshotId &&
      decision.rightsLevel = proposal.rightsLevel &&
      decision.standardBindings = proposal.standardBindings) "Invalid Proposal Decision commit"
    let after ← db.insertDecision decision
    let after := after.acceptProposal input.orgId input.proposalId .decision decision.id
      decision.committedAt
    let accepted ← after.getProposalSync dateParse input.orgId input.proposalId
    pure (after, (accepted, decision))

def commitProposalDecision (db : StandardTables) (input : DecisionCommit) :
    Except String (StandardTables × (Option ProposalRecord × DecisionRecord)) := do
  let decision ← validateDecision dateParse input.decision
  match db.decisionOfProposal input.orgId input.proposalId with
  | some stored => db.replayDecision dateParse input decision stored
  | none => db.firstDecision dateParse input decision

/-! ## Versions of a standard -/

structure VersionCommit where
  orgId : String
  proposalId : String
  standard : Option StandardRecord := none
  version : StandardVersionRecord
  deriving DecidableEq

structure CommittedVersion where
  proposal : Option ProposalRecord
  standard : StandardRecord
  version : StandardVersionRecord
  deriving DecidableEq

/-- A commit that names a standard again names it as it was put. -/
def requireSameStandard (proposal : ProposalRecord) (attempted : Option StandardRecord)
    (standardRow : StandardRow) : Except String Unit :=
  match proposal.kind, attempted with
  | .newStandard, some attempted => do
    let storedStandard ← validateStandard dateParse standardRow.created
    let attemptedStandard ← validateStandard dateParse attempted
    throwUnless
      (storedStandard = { attemptedStandard with createdAt := storedStandard.createdAt })
      "Cannot replace immutable Standard"
  | _, _ => .ok ()

/-- A commit that finds the version of its proposal in place answers with it. -/
def replayVersion (db : StandardTables) (input : VersionCommit) (proposal : ProposalRecord)
    (version : StandardVersionRecord) (existing : StandardVersionRow) :
    Except String (StandardTables × CommittedVersion) := do
  let storedCreation ← validateStandardVersion dateParse sha256 existing.created
  throwUnless (storedCreation = { version with createdAt := storedCreation.createdAt })
    "Cannot replace immutable StandardVersion"
  match db.standardRow input.orgId storedCreation.standardId with
  | none => .error "Standard was not found"
  | some standardRow => do
    requireSameStandard dateParse proposal input.standard standardRow
    let standard ← toStandard dateParse standardRow
    let version ← toStandardVersion dateParse sha256 existing
    pure (db, ⟨some proposal, standard, version⟩)

/-- The standard that a new version belongs to, put first where the proposal asks for a new
one. -/
def standardOfVersion (db : StandardTables) (input : VersionCommit) (proposal : ProposalRecord)
    (gate : IterationGate) (version : StandardVersionRecord) :
    Except String (StandardTables × StandardRecord) :=
  if proposal.kind = .newStandard then
    match input.standard with
    | none => .error "New Standard Proposal requires Standard identity"
    | some attempted => do
      let standard ← validateStandard dateParse attempted
      throwUnless (standard.orgId = input.orgId && standard.id = version.standardId &&
        (present standard.currentVersionId).isNone && standard.citationCount = 0 &&
        (present version.supersedesVersionId).isNone && gate.learningOutput = .newStandard &&
        standard.createdBy = proposal.author) "Invalid new Standard Proposal outcome"
      let after ← db.insertStandard standard
      pure (after, standard)
  else do
    let standard? ← db.getStandardSync dateParse input.orgId version.standardId
    let superseded? ← (present version.supersedesVersionId).elim (.ok none)
      (db.getStandardVersionSync dateParse sha256 input.orgId)
    match standard?, superseded? with
    | some standard, some superseded => do
      throwUnless (superseded.standardId = standard.id && superseded.status ≠ .draft &&
        superseded.status ≠ .deprecated &&
        standard.currentVersionId = version.supersedesVersionId &&
        (proposal.standardBindings.any fun binding =>
          binding.standardId = version.standardId &&
            some binding.versionId = version.supersedesVersionId) &&
        gate.learningOutput = .revision) "Invalid revised Standard Proposal outcome"
      pure (db, standard)
    | _, _ => .error "Invalid revised Standard Proposal outcome"

def firstVersion (db : StandardTables) (input : VersionCommit) (proposal : ProposalRecord)
    (gate : IterationGate) (version : StandardVersionRecord) :
    Except String (StandardTables × CommittedVersion) := do
  throwUnless (proposal.status = .inReview)
    "StandardVersion commit requires an in-review Proposal"
  let (after, standard) ← db.standardOfVersion dateParse sha256 input proposal gate version
  let after ← after.insertVersion version
  let after := after.acceptProposal input.orgId proposal.id .standardVersion version.id
    version.createdAt
  let accepted ← after.getProposalSync dateParse input.orgId proposal.id
  pure (after, ⟨accepted, standard, version⟩)

def commitProposalStandardVersion (db : StandardTables) (input : VersionCommit) :
    Except String (StandardTables × CommittedVersion) := do
  let version ← validateStandardVersion dateParse sha256 input.version
  throwUnless (version.status = .draft) "New StandardVersion must be draft"
  let proposal? ← db.getProposalSync dateParse input.orgId input.proposalId
  match proposal?, version.gate with
  | some proposal, some gate => do
    throwUnless ((proposal.kind = .newStandard || proposal.kind = .reviseStandard) &&
      version.orgId = input.orgId && version.proposalId = proposal.id &&
      some gate.singleUncertainty = proposal.singleUncertainty)
      "Invalid Proposal StandardVersion commit"
    match db.versionOfProposal input.orgId input.proposalId with
    | some existing => db.replayVersion dateParse sha256 input proposal version existing
    | none => db.firstVersion dateParse sha256 input proposal gate version
  | _, _ => .error "Invalid Proposal StandardVersion commit"

def requireReplacement (db : StandardTables) (input : StandardVersionTransition)
    (current : StandardVersionRecord) : Except String Unit :=
  match present input.supersededByVersionId with
  | none => .ok ()
  | some replacementId => do
    let replacement ← db.getStandardVersionSync dateParse sha256 input.orgId replacementId
    throwUnless (replacement.any fun version =>
      version.standardId = current.standardId && version.status = .active)
      "StandardVersion replacement must be active in the same Standard"

/-- What a transition writes: the version's status and state, and the head of its standard. -/
def writeTransition (db : StandardTables) (orgId : String) (current next : StandardVersionRecord)
    (standardId : String) : StandardTables :=
  let after := db.setVersion orgId current.id current.status next
  if next.status = .trial ∨ next.status = .active then
    after.setHead orgId standardId (fun _ => true) next.id
  else
    match present next.supersededByVersionId with
    | some replacementId =>
      after.setHead orgId standardId (fun head => head = some next.id) replacementId
    | none => after

def transitionStandardVersion (db : StandardTables) (input : StandardVersionTransition) :
    Except String (StandardTables × Option StandardVersionRecord) :=
  match db.versionRow input.orgId input.versionId with
  | none => .ok (db, none)
  | some row => do
    let current ← toStandardVersion dateParse sha256 row
    let standard? ← db.getStandardSync dateParse input.orgId current.standardId
    match standard? with
    | none => .error "Standard was not found"
    | some standard => do
      db.requireReplacement dateParse sha256 input current
      let next ← Standards.transitionStandardVersion dateParse sha256 current standard input
      pure (db.writeTransition input.orgId current next standard.id, some next)

end StandardTables

/-! ## Calls -/

inductive StandardCall where
  | putProposal (input : ProposalRecord)
  | transitionProposal (input : StandardTables.ProposalTransition)
  | commitProposalDecision (input : StandardTables.DecisionCommit)
  | commitProposalStandardVersion (input : StandardTables.VersionCommit)
  | transitionStandardVersion (input : StandardVersionTransition)

section Calls

variable (dateParse : DateParse) (sha256 : String → String)

def StandardCall.exec (db : StandardTables) : StandardCall → Except String StandardTables
  | .putProposal input => (db.putProposal dateParse input).map (·.1)
  | .transitionProposal input => (db.transitionProposal dateParse input).map (·.1)
  | .commitProposalDecision input => (db.commitProposalDecision dateParse input).map (·.1)
  | .commitProposalStandardVersion input =>
    (db.commitProposalStandardVersion dateParse sha256 input).map (·.1)
  | .transitionStandardVersion input =>
    (db.transitionStandardVersion dateParse sha256 input).map (·.1)

/-- A call that throws changes nothing. -/
def StandardCall.step (db : StandardTables) (call : StandardCall) : StandardTables :=
  match call.exec dateParse sha256 db with
  | .ok after => after
  | .error _ => db

end Calls

end Regenic.Standards
