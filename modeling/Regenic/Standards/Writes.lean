import Regenic.Standards.Store

/-!
What one call can do to the tables of standards: the ends of a transition, and the writes of
each call with the conditions they were made under.
-/

namespace Regenic.Standards

open Lib
open Customer (DateParse nonBlank)

/-! ## Validators answer with what they were given -/

section Validated

variable {dateParse : DateParse} {sha256 : String → String}

theorem validateProposal_ok {proposal valid : ProposalRecord}
    (h : validateProposal dateParse proposal = .ok valid) : proposal = valid := by
  unfold validateProposal at h
  obtain ⟨-, h⟩ := checked_ok h
  obtain ⟨-, h⟩ := checked_ok h
  obtain ⟨-, h⟩ := checked_ok h
  obtain ⟨-, h⟩ := checked_ok h
  obtain ⟨-, h⟩ := checked_ok h
  obtain ⟨-, h⟩ := checked_ok h
  cases h
  rfl

theorem nonBlank_ne_empty {value : String} (h : nonBlank value = true) : value ≠ "" := by
  rintro rfl
  revert h
  decide

theorem validateStandard_ok {standard valid : StandardRecord}
    (h : validateStandard dateParse standard = .ok valid) :
    standard = valid ∧ standard.currentVersionId.all nonBlank = true := by
  unfold validateStandard at h
  obtain ⟨hfields, h⟩ := checked_ok h
  obtain ⟨_, -, h⟩ := sequence_ok h
  cases h
  simp only [Bool.and_eq_true] at hfields
  exact ⟨rfl, hfields.1.1.1.2⟩

/-- What the store's invariants need of a version that passed. -/
structure ValidVersion (version : StandardVersionRecord) : Prop where
  id_ne : version.id ≠ ""
  supersedes_ne : version.supersedesVersionId ≠ some ""
  unreplaced : version.status ≠ .deprecated → version.supersededByVersionId = none

theorem noDeprecation_unreplaced {version : StandardVersionRecord}
    (h : noDeprecation version = true) : version.supersededByVersionId = none := by
  simp only [noDeprecation, Bool.and_eq_true, decide_eq_true_eq] at h
  exact h.2

theorem validateDeprecation_unreplaced {version : StandardVersionRecord} {u : Unit}
    (h : validateDeprecation dateParse version = .ok u) (hstatus : version.status ≠ .deprecated) :
    version.supersededByVersionId = none := by
  unfold validateDeprecation at h
  rw [if_neg hstatus] at h
  cases hnone : noDeprecation version with
  | true => exact noDeprecation_unreplaced hnone
  | false =>
    rw [hnone] at h
    cases h

theorem validateStandardVersion_ok {version valid : StandardVersionRecord}
    (h : validateStandardVersion dateParse sha256 version = .ok valid) :
    version = valid ∧ ValidVersion version := by
  unfold validateStandardVersion at h
  obtain ⟨hfields, h⟩ := checked_ok h
  obtain ⟨_, -, h⟩ := sequence_ok h
  obtain ⟨_, -, h⟩ := sequence_ok h
  obtain ⟨_, -, h⟩ := sequence_ok h
  obtain ⟨-, h⟩ := checked_ok h
  obtain ⟨_, -, h⟩ := sequence_ok h
  obtain ⟨_, hdeprecation, h⟩ := sequence_ok h
  cases h
  simp only [Bool.and_eq_true] at hfields
  refine ⟨rfl, nonBlank_ne_empty hfields.1.1.1.1.1.1.1.1.1.1.1.1, ?_,
    validateDeprecation_unreplaced hdeprecation⟩
  intro hempty
  have hall := hfields.2
  rw [hempty] at hall
  exact nonBlank_ne_empty hall rfl

end Validated

/-! ## The ends of a transition -/

/-- What a transition of `current` can end in, with the conditions it was made under. -/
inductive Moved (current : StandardVersionRecord) (standard : StandardRecord)
    (transition : StandardVersionTransition) : StandardVersionRecord → Prop
  | trial (hdraft : current.status = .draft)
      (hhead : standard.currentVersionId = expectedHead current) :
      Moved current standard transition { current with
        status := .trial
        publishedAt := some transition.transitionedAt
        publishedBy := some transition.actor }
  | active (gate : Option IterationGate)
      (hstatus : current.status = .draft ∨ current.status = .trial)
      (hhead : standard.currentVersionId = expectedHead current) :
      Moved current standard transition { current with
        status := .active
        gate := gate
        publishedAt := current.publishedAt <|> some transition.transitionedAt
        publishedBy := current.publishedBy <|> some transition.actor }
  | deprecated (evidence : Option (List ProposalEvidenceRef))
      (hactive : current.status = .active)
      (hself : transition.supersededByVersionId ≠ some current.id) :
      Moved current standard transition { current with
        status := .deprecated
        deprecatedAt := some transition.transitionedAt
        deprecatedBy := some transition.actor
        deprecationEvidence := evidence
        supersededByVersionId := present transition.supersededByVersionId }

section Transition

variable {dateParse : DateParse} {sha256 : String → String}
  {current next : StandardVersionRecord} {standard : StandardRecord}
  {transition : StandardVersionTransition}

theorem startTrial_moved
    (h : startTrial dateParse sha256 current standard transition = .ok next) :
    Moved current standard transition next := by
  unfold startTrial at h
  split at h
  · obtain ⟨hdraft, h⟩ := checked_ok h
    obtain ⟨hhead, h⟩ := checked_ok h
    obtain ⟨_, -, h⟩ := sequence_ok h
    obtain ⟨_, -, h⟩ := sequence_ok h
    obtain ⟨rfl, -⟩ := validateStandardVersion_ok h
    exact .trial (of_decide_eq_true hdraft) (of_decide_eq_true hhead)
  · cases h

theorem activate_moved
    (h : activate dateParse sha256 current standard transition = .ok next) :
    Moved current standard transition next := by
  unfold activate at h
  split at h
  · cases h
  · obtain ⟨hstatus, h⟩ := checked_ok h
    obtain ⟨hhead, h⟩ := checked_ok h
    obtain ⟨-, h⟩ := checked_ok h
    obtain ⟨_, -, h⟩ := sequence_ok h
    obtain ⟨rfl, -⟩ := validateStandardVersion_ok h
    simp only [Bool.or_eq_true, decide_eq_true_eq] at hstatus
    exact .active _ hstatus (of_decide_eq_true hhead)

theorem deprecateVersion_moved (hcurrent : ValidVersion current)
    (h : deprecateVersion dateParse sha256 current transition = .ok next) :
    Moved current standard transition next := by
  unfold deprecateVersion at h
  obtain ⟨hactive, h⟩ := checked_ok h
  obtain ⟨_, -, h⟩ := sequence_ok h
  obtain ⟨hself, h⟩ := checked_ok h
  obtain ⟨evidence, -, h⟩ := sequence_ok h
  obtain ⟨rfl, -⟩ := validateStandardVersion_ok h
  have hactive := of_decide_eq_true hactive
  have hunreplaced : current.supersededByVersionId = none :=
    hcurrent.unreplaced (by rw [hactive]; decide)
  have hreplacement : (present transition.supersededByVersionId <|>
      current.supersededByVersionId) = present transition.supersededByVersionId := by
    simp [hunreplaced]
  rw [hreplacement]
  exact .deprecated _ hactive (of_decide_eq_true hself)

/-- A transition that goes through ends in one of three ways. -/
theorem transitionStandardVersion_moved
    (h : transitionStandardVersion dateParse sha256 current standard transition = .ok next) :
    Moved current standard transition next := by
  unfold transitionStandardVersion at h
  obtain ⟨current', hcurrent, h⟩ := sequence_ok h
  obtain ⟨standard', hstandard, h⟩ := sequence_ok h
  obtain ⟨-, h⟩ := checked_ok h
  obtain ⟨rfl, hvalid⟩ := validateStandardVersion_ok hcurrent
  obtain ⟨rfl, -⟩ := validateStandard_ok hstandard
  split at h
  · exact startTrial_moved h
  · exact activate_moved h
  · exact deprecateVersion_moved hvalid h
  · cases h

/-- A transition changes the outcome of a version, not what it is a version of. -/
theorem Moved.same (h : Moved current standard transition next) :
    next.id = current.id ∧ next.standardId = current.standardId := by
  cases h <;> exact ⟨rfl, rfl⟩

end Transition

/-! ## The writes of a call -/

namespace StandardTables

/-- What a call that goes through has written, and where. -/
inductive Wrote (db : StandardTables) : StandardTables → Prop
  | nothing : Wrote db db
  | proposed (proposal : ProposalRecord) (hdraft : proposal.status = .draft) :
      Wrote db (db.insertProposal proposal)
  | reviewed (orgId proposalId : String) (status next : ProposalStatus) (updatedAt : String)
      (hstatus : status ≠ .accepted) (hnext : next ≠ .accepted) :
      Wrote db (db.setProposalStatus orgId proposalId status next updatedAt)
  | decided (row : ProposalRow) (decision : DecisionRecord) (after : StandardTables)
      (hrow : db.proposalRow decision.orgId decision.proposalId = some row)
      (hreview : row.status = .inReview) (hinsert : db.insertDecision decision = .ok after) :
      Wrote db (after.acceptProposal decision.orgId decision.proposalId .decision decision.id
        decision.committedAt)
  | versioned (row : ProposalRow) (version : StandardVersionRecord)
      (middle after : StandardTables)
      (hrow : db.proposalRow version.orgId version.proposalId = some row)
      (hreview : row.status = .inReview) (hvalid : ValidVersion version)
      (hdraft : version.status = .draft)
      (hstandard : middle = db ∨ ∃ standard, standard.currentVersionId = none ∧
        db.insertStandard standard = .ok middle)
      (hsupersedes : version.supersedesVersionId = none ∨
        ∃ superseded, db.versions.get? superseded ≠ none ∧
          version.supersedesVersionId = some superseded)
      (hinsert : middle.insertVersion version = .ok after) :
      Wrote db (after.acceptProposal version.orgId version.proposalId .standardVersion
        version.id version.createdAt)
  | transitioned (row : StandardVersionRow) (standard : StandardRow)
      (input : StandardVersionTransition) (next : StandardVersionRecord)
      (hrow : db.versionRow input.orgId input.versionId = some row)
      (hstandard : db.standardRow input.orgId row.created.standardId = some standard)
      (hreplacement : ∀ id, present input.supersededByVersionId = some id →
        ∃ other, db.versionRow input.orgId id = some other ∧
          other.created.standardId = row.created.standardId ∧ other.status = .active)
      (hvalid : ValidVersion row.merged)
      (hmoved : Moved row.merged standard.merged input next) :
      Wrote db (db.writeTransition input.orgId row.merged next standard.created.id)

variable {dateParse : DateParse} {sha256 : String → String} {db after : StandardTables}

/-! ### Reads that went through -/

theorem mapM_ok {α β : Type} {f : α → Except String β} {found : Option α} {b : β}
    (h : found.mapM f = .ok (some b)) : ∃ a, found = some a ∧ f a = .ok b := by
  cases found with
  | none => cases h
  | some a =>
    obtain ⟨b', hb, h⟩ := sequence_ok h
    cases h
    exact ⟨a, rfl, hb⟩

theorem toProposal_ok {row : ProposalRow} {proposal : ProposalRecord}
    (h : toProposal dateParse row = .ok proposal) :
    proposal.id = row.created.id ∧ proposal.orgId = row.created.orgId ∧
      proposal.status = row.status := by
  unfold toProposal at h
  obtain ⟨valid, hvalid, h⟩ := sequence_ok h
  cases validateProposal_ok hvalid
  cases h
  exact ⟨rfl, rfl, rfl⟩

theorem getProposalSync_ok {orgId proposalId : String} {proposal : ProposalRecord}
    (h : db.getProposalSync dateParse orgId proposalId = .ok (some proposal)) :
    ∃ row, db.proposalRow orgId proposalId = some row ∧ row.created.id = proposal.id ∧
      row.status = proposal.status := by
  obtain ⟨row, hrow, hread⟩ := mapM_ok h
  obtain ⟨hid, -, hstatus⟩ := toProposal_ok hread
  exact ⟨row, hrow, hid.symm, hstatus.symm⟩

theorem getStandardSync_ok {orgId standardId : String} {standard : StandardRecord}
    (h : db.getStandardSync dateParse orgId standardId = .ok (some standard)) :
    ∃ row, db.standardRow orgId standardId = some row ∧ standard = row.merged := by
  obtain ⟨row, hrow, hread⟩ := mapM_ok h
  exact ⟨row, hrow, (validateStandard_ok hread).1.symm⟩

theorem getStandardVersionSync_ok {orgId versionId : String} {version : StandardVersionRecord}
    (h : db.getStandardVersionSync dateParse sha256 orgId versionId = .ok (some version)) :
    ∃ row, db.versionRow orgId versionId = some row ∧ version = row.merged := by
  obtain ⟨row, hrow, hread⟩ := mapM_ok h
  exact ⟨row, hrow, (validateStandardVersion_ok hread).1.symm⟩

theorem proposalRow_some {orgId proposalId : String} {row : ProposalRow}
    (h : db.proposalRow orgId proposalId = some row) :
    db.proposals.get? proposalId = some row ∧ row.created.orgId = orgId := by
  simpa [proposalRow, Option.filter_eq_some_iff] using h

theorem versionRow_some {orgId versionId : String} {row : StandardVersionRow}
    (h : db.versionRow orgId versionId = some row) :
    db.versions.get? versionId = some row ∧ row.created.orgId = orgId := by
  simpa [versionRow, Option.filter_eq_some_iff] using h

theorem standardRow_some {orgId standardId : String} {row : StandardRow}
    (h : db.standardRow orgId standardId = some row) :
    db.standards.get? standardId = some row ∧ row.created.orgId = orgId := by
  simpa [standardRow, Option.filter_eq_some_iff] using h

theorem versionRow_id {orgId versionId : String} {row : StandardVersionRow}
    (h : db.versionRow orgId versionId = some row) : row.created.id = versionId :=
  (Table.get?_eq_some.mp (versionRow_some h).1).2

theorem proposalRow_id {orgId proposalId : String} {row : ProposalRow}
    (h : db.proposalRow orgId proposalId = some row) : row.created.id = proposalId :=
  (Table.get?_eq_some.mp (proposalRow_some h).1).2

theorem standardRow_id {orgId standardId : String} {row : StandardRow}
    (h : db.standardRow orgId standardId = some row) : row.created.id = standardId :=
  (Table.get?_eq_some.mp (standardRow_some h).1).2

/-! ### One lemma for each call -/

theorem putProposal_wrote {input answer : ProposalRecord}
    (h : db.putProposal dateParse input = .ok (after, answer)) : Wrote db after := by
  unfold putProposal at h
  obtain ⟨proposal, hvalid, h⟩ := sequence_ok h
  cases validateProposal_ok hvalid
  obtain ⟨hdraft, h⟩ := checked_ok h
  split at h
  · cases h
  · obtain ⟨record, -, h⟩ := sequence_ok h
    cases h
    exact .proposed input (of_decide_eq_true hdraft)

theorem allowedProposalTransition_ne {status next : ProposalStatus}
    (h : allowedProposalTransition status next = true) :
    status ≠ .accepted ∧ next ≠ .accepted := by
  revert h
  cases status <;> cases next <;> decide

theorem transitionProposal_wrote {input : ProposalTransition} {answer : Option ProposalRecord}
    (h : db.transitionProposal dateParse input = .ok (after, answer)) : Wrote db after := by
  unfold transitionProposal at h
  split at h
  · cases h
    exact .nothing
  · obtain ⟨proposal, -, h⟩ := sequence_ok h
    obtain ⟨hallowed, h⟩ := checked_ok h
    obtain ⟨next, hnext, h⟩ := sequence_ok h
    cases validateProposal_ok hnext
    cases h
    obtain ⟨hstatus, hnext⟩ := allowedProposalTransition_ne hallowed
    exact .reviewed _ _ _ _ _ hstatus hnext

theorem firstDecision_wrote {input : DecisionCommit} {decision : DecisionRecord}
    {answer : Option ProposalRecord × DecisionRecord}
    (h : db.firstDecision dateParse input decision = .ok (after, answer)) :
    Wrote db after := by
  unfold firstDecision at h
  obtain ⟨proposal?, hproposal, h⟩ := sequence_ok h
  split at h
  · cases h
  · next proposal =>
    obtain ⟨hchecks, h⟩ := checked_ok h
    obtain ⟨middle, hinsert, h⟩ := sequence_ok h
    obtain ⟨accepted, -, h⟩ := sequence_ok h
    cases h
    obtain ⟨row, hrow, hid, hstatus⟩ := getProposalSync_ok hproposal
    simp only [Bool.and_eq_true, decide_eq_true_eq] at hchecks
    obtain ⟨⟨⟨⟨⟨⟨hreview, -⟩, horg⟩, hproposalId⟩, -⟩, -⟩, -⟩ := hchecks
    have hsame : decision.proposalId = input.proposalId :=
      hproposalId.trans (hid.symm.trans (proposalRow_id hrow))
    rw [← horg, ← hsame] at hrow ⊢
    exact .decided row decision middle hrow (hstatus.trans hreview) hinsert

theorem commitProposalDecision_wrote {input : DecisionCommit}
    {answer : Option ProposalRecord × DecisionRecord}
    (h : db.commitProposalDecision dateParse input = .ok (after, answer)) :
    Wrote db after := by
  unfold commitProposalDecision at h
  obtain ⟨decision, -, h⟩ := sequence_ok h
  split at h
  · -- a decision in place is only read
    unfold replayDecision at h
    obtain ⟨stored, -, h⟩ := sequence_ok h
    obtain ⟨-, h⟩ := checked_ok h
    obtain ⟨proposal, -, h⟩ := sequence_ok h
    cases h
    exact .nothing
  · exact firstDecision_wrote h

theorem replayVersion_same {input : VersionCommit} {proposal : ProposalRecord}
    {version : StandardVersionRecord} {existing : StandardVersionRow} {answer : CommittedVersion}
    (h : db.replayVersion dateParse sha256 input proposal version existing =
      .ok (after, answer)) : after = db := by
  unfold replayVersion at h
  obtain ⟨stored, -, h⟩ := sequence_ok h
  obtain ⟨-, h⟩ := checked_ok h
  split at h
  · cases h
  · obtain ⟨_, -, h⟩ := sequence_ok h
    obtain ⟨standard, -, h⟩ := sequence_ok h
    obtain ⟨read, -, h⟩ := sequence_ok h
    cases h
    rfl

theorem present_isNone {value : Option String} (h : (present value).isNone = true)
    (hne : value ≠ some "") : value = none :=
  (present_eq_none.mp (Option.isNone_iff_eq_none.mp h)).resolve_right hne

theorem all_nonBlank_ne {value : Option String} (h : value.all nonBlank = true) :
    value ≠ some "" := by
  rintro rfl
  exact nonBlank_ne_empty h rfl

/-- The standard of a new version: one put with no head, or one in place whose head the
version supersedes. -/
theorem standardOfVersion_ok {input : VersionCommit} {proposal : ProposalRecord}
    {gate : IterationGate} {version : StandardVersionRecord} {middle : StandardTables}
    {standard : StandardRecord} (hvalid : ValidVersion version)
    (h : db.standardOfVersion dateParse sha256 input proposal gate version =
      .ok (middle, standard)) :
    (middle = db ∨ ∃ standard, standard.currentVersionId = none ∧
        db.insertStandard standard = .ok middle) ∧
      (version.supersedesVersionId = none ∨
        ∃ superseded, db.versions.get? superseded ≠ none ∧
          version.supersedesVersionId = some superseded) := by
  unfold standardOfVersion at h
  split at h
  · split at h
    · cases h
    · obtain ⟨valid, hread, h⟩ := sequence_ok h
      obtain ⟨rfl, hhead⟩ := validateStandard_ok hread
      obtain ⟨hchecks, h⟩ := checked_ok h
      obtain ⟨stored, hinsert, h⟩ := sequence_ok h
      cases h
      simp only [Bool.and_eq_true] at hchecks
      obtain ⟨⟨⟨⟨⟨-, hheadless⟩, -⟩, hfirst⟩, -⟩, -⟩ := hchecks
      exact ⟨.inr ⟨_, present_isNone hheadless (all_nonBlank_ne hhead), hinsert⟩,
        .inl (present_isNone hfirst hvalid.supersedes_ne)⟩
  · obtain ⟨standard?, -, h⟩ := sequence_ok h
    obtain ⟨superseded?, hsuperseded, h⟩ := sequence_ok h
    split at h
    · obtain ⟨-, h⟩ := checked_ok h
      cases h
      refine ⟨.inl rfl, ?_⟩
      cases hpresent : present version.supersedesVersionId with
      | none =>
        rw [hpresent] at hsuperseded
        cases hsuperseded
      | some superseded =>
        rw [hpresent] at hsuperseded
        obtain ⟨row, hrow, -⟩ := getStandardVersionSync_ok hsuperseded
        refine .inr ⟨superseded, ?_, (present_some.mp hpresent).1⟩
        rw [(versionRow_some hrow).1]
        exact Option.some_ne_none row
    · cases h

theorem commitProposalStandardVersion_wrote {input : VersionCommit} {answer : CommittedVersion}
    (h : db.commitProposalStandardVersion dateParse sha256 input = .ok (after, answer)) :
    Wrote db after := by
  unfold commitProposalStandardVersion at h
  obtain ⟨version, hversion, h⟩ := sequence_ok h
  obtain ⟨rfl, hvalid⟩ := validateStandardVersion_ok hversion
  obtain ⟨hdraft, h⟩ := checked_ok h
  obtain ⟨proposal?, hproposal, h⟩ := sequence_ok h
  split at h
  · next proposal gate _ =>
    obtain ⟨hchecks, h⟩ := checked_ok h
    split at h
    · rw [replayVersion_same h]
      exact .nothing
    · unfold firstVersion at h
      obtain ⟨hreview, h⟩ := checked_ok h
      obtain ⟨⟨middle, standard⟩, hstandard, h⟩ := sequence_ok h
      obtain ⟨stored, hinsert, h⟩ := sequence_ok h
      obtain ⟨accepted, -, h⟩ := sequence_ok h
      cases h
      obtain ⟨hmiddle, hsupersedes⟩ := standardOfVersion_ok hvalid hstandard
      obtain ⟨row, hrow, hid, hstatus⟩ := getProposalSync_ok hproposal
      simp only [Bool.and_eq_true, decide_eq_true_eq] at hchecks
      obtain ⟨⟨⟨-, horg⟩, hproposalId⟩, -⟩ := hchecks
      have hsame : input.version.proposalId = input.proposalId :=
        hproposalId.trans (hid.symm.trans (proposalRow_id hrow))
      rw [← horg, ← hproposalId]
      rw [← horg, ← hsame] at hrow
      exact .versioned row _ middle stored hrow
        (hstatus.trans (of_decide_eq_true hreview)) hvalid (of_decide_eq_true hdraft) hmiddle
        hsupersedes hinsert
  · cases h

theorem requireReplacement_ok {input : StandardVersionTransition}
    {current : StandardVersionRecord} {u : Unit}
    (h : db.requireReplacement dateParse sha256 input current = .ok u) (id : String)
    (hid : present input.supersededByVersionId = some id) :
    ∃ other, db.versionRow input.orgId id = some other ∧
      other.created.standardId = current.standardId ∧ other.status = .active := by
  unfold requireReplacement at h
  rw [hid] at h
  obtain ⟨replacement, hread, h⟩ := sequence_ok h
  cases replacement with
  | none => cases h
  | some version =>
    obtain ⟨row, hrow, rfl⟩ := getStandardVersionSync_ok hread
    cases hchecks : (decide (row.merged.standardId = current.standardId) &&
        decide (row.merged.status = .active)) with
    | false =>
      rw [Option.any_some, hchecks] at h
      cases h
    | true =>
      simp only [Bool.and_eq_true, decide_eq_true_eq] at hchecks
      exact ⟨row, hrow, hchecks.1, hchecks.2⟩

theorem transitionStandardVersion_wrote {input : StandardVersionTransition}
    {answer : Option StandardVersionRecord}
    (h : db.transitionStandardVersion dateParse sha256 input = .ok (after, answer)) :
    Wrote db after := by
  unfold StandardTables.transitionStandardVersion at h
  split at h
  · cases h
    exact .nothing
  · next row hrow =>
    obtain ⟨current, hcurrent, h⟩ := sequence_ok h
    obtain ⟨rfl, hvalid⟩ := validateStandardVersion_ok hcurrent
    obtain ⟨standard?, hstandard, h⟩ := sequence_ok h
    split at h
    · cases h
    · next standard =>
      obtain ⟨_, hreplacement, h⟩ := sequence_ok h
      obtain ⟨next, hnext, h⟩ := sequence_ok h
      cases h
      obtain ⟨standardRow, hstandardRow, rfl⟩ := getStandardSync_ok hstandard
      exact .transitioned row standardRow input next hrow hstandardRow
        (requireReplacement_ok hreplacement) hvalid (transitionStandardVersion_moved hnext)

end StandardTables

/-- What a call that goes through has done to the tables. -/
theorem StandardCall.exec_wrote {dateParse : DateParse} {sha256 : String → String}
    {db after : StandardTables} {call : StandardCall}
    (h : call.exec dateParse sha256 db = .ok after) : db.Wrote after := by
  have hmap {α : Type} {x : Except String (StandardTables × α)}
      (hx : x.map (·.1) = .ok after) : ∃ answer, x = .ok (after, answer) := by
    cases x with
    | error message => cases hx
    | ok found =>
      cases hx
      exact ⟨found.2, rfl⟩
  cases call with
  | putProposal input =>
    obtain ⟨answer, hexec⟩ := hmap h
    exact StandardTables.putProposal_wrote hexec
  | transitionProposal input =>
    obtain ⟨answer, hexec⟩ := hmap h
    exact StandardTables.transitionProposal_wrote hexec
  | commitProposalDecision input =>
    obtain ⟨answer, hexec⟩ := hmap h
    exact StandardTables.commitProposalDecision_wrote hexec
  | commitProposalStandardVersion input =>
    obtain ⟨answer, hexec⟩ := hmap h
    exact StandardTables.commitProposalStandardVersion_wrote hexec
  | transitionStandardVersion input =>
    obtain ⟨answer, hexec⟩ := hmap h
    exact StandardTables.transitionStandardVersion_wrote hexec

theorem StandardCall.step_wrote (dateParse : DateParse) (sha256 : String → String)
    (db : StandardTables) (call : StandardCall) :
    db.Wrote (call.step dateParse sha256 db) := by
  unfold StandardCall.step
  cases hexec : call.exec dateParse sha256 db with
  | error message => exact .nothing
  | ok after => exact exec_wrote hexec

end Regenic.Standards
