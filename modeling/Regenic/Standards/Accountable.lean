import Regenic.Standards.Line

/-!
Proposals are accounted for by what they led to, and the whole of a run of calls: its heads, its
replacements, the moments its drafts were published at, and its deprecated versions.
-/

namespace Regenic.Standards

open Lib
open Customer (DateParse)

namespace StandardTables

variable {db after : StandardTables}

/-! ## Proposals and what carries their ids -/

theorem carriers_congr (hversions : after.versions.rows.map (·.created) =
      db.versions.rows.map (·.created)) (hdecisions : after.decisions = db.decisions)
    (proposal : ProposalRow) : after.carriers proposal = db.carriers proposal := by
  have hcount (t : Table StandardVersionRow.id) :
      t.rows.countP (fun row => row.created.orgId = proposal.created.orgId &&
        row.created.proposalId = proposal.id) =
      (t.rows.map (·.created)).countP (fun created =>
        created.orgId = proposal.created.orgId && created.proposalId = proposal.id) := by
    rw [List.countP_map]
    rfl
  rw [carriers, carriers, hcount, hcount, hversions, hdecisions]

/-- Nothing carries the id of a proposal that is not there. -/
theorem Accounted.carriers_free (h : Accounted db) {proposal : ProposalRow}
    (hfree : db.proposals.get? proposal.id = none) : db.carriers proposal = 0 := by
  have habsent := Table.get?_eq_none.mp hfree
  rw [carriers, Nat.add_eq_zero_iff, List.countP_eq_zero, List.countP_eq_zero]
  constructor
  · intro row hrow hmatch
    simp only [Bool.and_eq_true, decide_eq_true_eq] at hmatch
    obtain ⟨other, hother, hid⟩ := h.versionProposal row hrow
    exact habsent other hother (hid.trans hmatch.2)
  · intro row hrow hmatch
    simp only [Bool.and_eq_true, decide_eq_true_eq] at hmatch
    obtain ⟨other, hother, hid⟩ := h.decisionProposal row hrow
    exact habsent other hother (hid.trans hmatch.2)

theorem insertProposal_same (db : StandardTables) (proposal : ProposalRecord) :
    (db.insertProposal proposal).versions = db.versions ∧
      (db.insertProposal proposal).decisions = db.decisions ∧
      (db.insertProposal proposal).standards = db.standards := by
  unfold insertProposal
  split
  · exact ⟨rfl, rfl, rfl⟩
  · exact ⟨rfl, rfl, rfl⟩

/-- The rows of proposals after a put: those that were there, and it may be a new one under an
id that was free. -/
theorem mem_insertProposal {proposal : ProposalRecord} {row : ProposalRow} :
    row ∈ (db.insertProposal proposal).proposals.rows ↔
      row ∈ db.proposals.rows ∨ (row ∈ (db.insertProposal proposal).proposals.rows ∧
        db.proposals.get? proposal.id = none ∧ row.id = proposal.id ∧
        row.status = proposal.status) := by
  unfold insertProposal
  split
  · exact ⟨.inl, fun h => h.elim id (·.1)⟩
  · next htaken =>
    simp only [Bool.or_eq_true, not_or, Bool.not_eq_true, Option.isSome_eq_false_iff,
      Option.isNone_iff_eq_none] at htaken
    constructor
    · intro hmem
      rcases Table.mem_put.mp hmem with rfl | ⟨hold, -⟩
      · exact .inr ⟨hmem, htaken.1, rfl, rfl⟩
      · exact .inl hold
    · rintro (hold | hnew)
      · exact Table.mem_put.mpr (.inr ⟨hold, Table.get?_eq_none.mp htaken.1 row hold⟩)
      · exact hnew.1

theorem Accounted.insertProposal (h : Accounted db) {proposal : ProposalRecord}
    (hdraft : proposal.status = .draft) : Accounted (db.insertProposal proposal) := by
  obtain ⟨hversions, hdecisions, -⟩ := insertProposal_same db proposal
  have hcarriers (row : ProposalRow) :
      (db.insertProposal proposal).carriers row = db.carriers row :=
    carriers_congr (by rw [hversions]) hdecisions row
  constructor
  · rw [hversions]
    intro row hrow
    obtain ⟨other, hother, hid⟩ := h.versionProposal row hrow
    exact ⟨other, mem_insertProposal.mpr (.inl hother), hid⟩
  · rw [hdecisions]
    intro row hrow
    obtain ⟨other, hother, hid⟩ := h.decisionProposal row hrow
    exact ⟨other, mem_insertProposal.mpr (.inl hother), hid⟩
  · intro row hrow
    rw [hcarriers]
    rcases mem_insertProposal.mp hrow with hold | ⟨-, hfree, hid, hstatus⟩
    · exact h.accepted row hold
    · rw [h.carriers_free (hid.symm ▸ hfree), hstatus, hdraft]
      rfl

theorem Accounted.setProposalStatus (h : Accounted db) {status next : ProposalStatus}
    (hstatus : status ≠ .accepted) (hnext : next ≠ .accepted) (orgId proposalId : String)
    (updatedAt : String) :
    Accounted (db.setProposalStatus orgId proposalId status next updatedAt) := by
  have hids {id : String} (hfound : ∃ proposal ∈ db.proposals.rows, proposal.id = id) :
      ∃ proposal ∈ (db.setProposalStatus orgId proposalId status next
        updatedAt).proposals.rows, proposal.id = id := by
    obtain ⟨other, hother, hid⟩ := hfound
    refine ⟨_, List.mem_map_of_mem hother, ?_⟩
    rw [← hid]
    split <;> rfl
  constructor
  · exact fun row hrow => hids (h.versionProposal row hrow)
  · exact fun row hrow => hids (h.decisionProposal row hrow)
  · intro row hrow
    obtain ⟨before, hbefore, rfl⟩ := List.mem_map.mp hrow
    have hcount := h.accepted before hbefore
    split
    · next hmatch =>
      simp only [Bool.and_eq_true, decide_eq_true_eq] at hmatch
      rw [hmatch.2, if_neg hstatus] at hcount
      exact hcount
    · exact hcount

/-- A proposal in review is accepted in the call that puts the one row that carries its id. -/
theorem Accounted.accept (h : Accounted db) {row : ProposalRow} {orgId proposalId : String}
    (hrow : db.proposalRow orgId proposalId = some row) (hreview : row.status = .inReview)
    (hproposals : after.proposals = db.proposals)
    (hcarriers : ∀ proposal, after.carriers proposal = db.carriers proposal +
      if orgId = proposal.created.orgId && proposalId = proposal.id then 1 else 0)
    (hversions : ∀ row ∈ after.versions.rows, row ∈ db.versions.rows ∨
      row.created.proposalId = proposalId)
    (hdecisions : ∀ row ∈ after.decisions.rows, row ∈ db.decisions.rows ∨
      row.proposalId = proposalId) (kind : OutcomeKind) (refId updatedAt : String) :
    Accounted (after.acceptProposal orgId proposalId kind refId updatedAt) := by
  obtain ⟨hget, horg⟩ := proposalRow_some hrow
  have hin := (Table.get?_eq_some.mp hget).1
  have hids {id : String} (hfound : ∃ proposal ∈ db.proposals.rows, proposal.id = id) :
      ∃ proposal ∈ (after.acceptProposal orgId proposalId kind refId
        updatedAt).proposals.rows, proposal.id = id := by
    obtain ⟨other, hother, hid⟩ := hfound
    rw [← hproposals] at hother
    refine ⟨_, List.mem_map_of_mem hother, ?_⟩
    rw [← hid]
    split <;> rfl
  constructor
  · intro version hversion
    rcases hversions version hversion with hold | hnew
    · exact hids (h.versionProposal version hold)
    · exact hids ⟨row, hin, (proposalRow_id hrow).trans hnew.symm⟩
  · intro decision hdecision
    rcases hdecisions decision hdecision with hold | hnew
    · exact hids (h.decisionProposal decision hold)
    · exact hids ⟨row, hin, (proposalRow_id hrow).trans hnew.symm⟩
  · intro proposal hproposal
    obtain ⟨before, hbefore, rfl⟩ := List.mem_map.mp hproposal
    rw [hproposals] at hbefore
    have hcount := h.accepted before hbefore
    have hmore := hcarriers before
    split
    · next hmatch =>
      simp only [Bool.and_eq_true, decide_eq_true_eq] at hmatch
      rw [hcount, hmatch.2, if_neg (by decide), if_pos (by simp [hmatch.1.1, hmatch.1.2])] at hmore
      exact hmore.trans (if_pos rfl).symm
    · next hmatch =>
      have hdifferent : ¬(orgId = before.created.orgId ∧ proposalId = before.id) := by
        rintro ⟨hsameOrg, hsameId⟩
        -- one id, one proposal, and that one is in review
        have hsame := (Table.get?_key hbefore).symm.trans (hsameId ▸ hget)
        cases hsame
        simp [← hsameOrg, ← hsameId, hreview] at hmatch
      rw [if_neg (by simpa using hdifferent)] at hmore
      exact hmore.trans hcount

/-- A transition leaves the proposals and the ids that versions carry. -/
theorem Accounted.writeTransition (h : Accounted db) (row : StandardVersionRow)
    (orgId standardId : String) (next : StandardVersionRecord) :
    Accounted (db.writeTransition orgId row.merged next standardId) := by
  have hsame : (db.writeTransition orgId row.merged next standardId).proposals = db.proposals ∧
      (db.writeTransition orgId row.merged next standardId).decisions = db.decisions := by
    unfold StandardTables.writeTransition
    dsimp only
    split
    · exact ⟨rfl, rfl⟩
    · split <;> exact ⟨rfl, rfl⟩
  have hcreated : (db.writeTransition orgId row.merged next
      standardId).versions.rows.map (·.created) = db.versions.rows.map (·.created) := by
    rw [writeTransition_versions]
    refine (List.map_map).trans (List.map_congr_left fun found _ => ?_)
    rw [Function.comp_apply]
    split <;> rfl
  obtain ⟨hproposals, hdecisions⟩ := hsame
  constructor
  · intro version hversion
    rw [hproposals]
    have hmem := List.mem_map_of_mem (f := (·.created)) hversion
    rw [hcreated] at hmem
    obtain ⟨before, hbefore, heq⟩ := List.mem_map.mp hmem
    rw [← heq]
    exact h.versionProposal before hbefore
  · rw [hproposals, hdecisions]
    exact h.decisionProposal
  · rw [hproposals]
    intro proposal hproposal
    rw [carriers_congr hcreated hdecisions]
    exact h.accepted proposal hproposal

theorem insertDecision_ok {decision : DecisionRecord}
    (h : db.insertDecision decision = .ok after) :
    db.decisions.get? decision.id = none ∧
      after = { db with decisions := db.decisions.put decision } := by
  unfold insertDecision at h
  obtain ⟨hfree, h⟩ := checked_ok h
  obtain ⟨-, h⟩ := checked_ok h
  obtain ⟨-, h⟩ := checked_ok h
  cases h
  exact ⟨Option.isNone_iff_eq_none.mp hfree, rfl⟩

theorem countP_put {α κ : Type} [DecidableEq κ] {key : α → κ} {t : Table key} {a : α}
    (hfree : t.get? (key a) = none) (q : α → Bool) :
    (t.put a).rows.countP q = t.rows.countP q + if q a then 1 else 0 := by
  rw [Table.put_eq_insert hfree, Table.countP_insert]

/-- Every call keeps account of its proposals. -/
theorem Accounted.wrote (h : Accounted db) (hwrote : Wrote db after) : Accounted after := by
  rcases hwrote with _ | ⟨proposal, hdraft⟩ |
    ⟨orgId, proposalId, status, next, updatedAt, hstatus, hnext⟩ |
    ⟨row, decision, middle, hrow, hreview, hinsert⟩ |
    ⟨row, version, first, middle, hrow, hreview, hvalid, hdraft, hstandard, hsupersedes,
      hinsert⟩ |
    ⟨row, standard, input, next, hrow, hstandard, hreplacement, hvalid, hmoved⟩
  · exact h
  · exact h.insertProposal hdraft
  · exact h.setProposalStatus hstatus hnext orgId proposalId updatedAt
  · obtain ⟨hfree, rfl⟩ := insertDecision_ok hinsert
    refine @Accounted.accept db { db with decisions := db.decisions.put decision } h _ _ _
      hrow hreview rfl ?_ ?_ ?_ _ _ _
    · intro proposal
      rw [carriers, carriers, countP_put hfree, Nat.add_assoc]
    · exact fun version hversion => .inl hversion
    · intro other hother
      rcases Table.mem_put.mp hother with rfl | ⟨hold, -⟩
      · exact .inr rfl
      · exact .inl hold
  · have hsame : first.proposals = db.proposals ∧ first.versions = db.versions ∧
        first.decisions = db.decisions := by
      rcases hstandard with rfl | ⟨standard, -, hput⟩
      · exact ⟨rfl, rfl, rfl⟩
      · obtain ⟨-, rfl⟩ := insertStandard_ok hput
        exact ⟨rfl, rfl, rfl⟩
    obtain ⟨hproposals, hversions, hdecisions⟩ := hsame
    obtain ⟨hfree, -, rfl⟩ := insertVersion_ok hinsert
    have hold : ∀ row ∈ (first.versions.put (newVersion version)).rows,
        row ∈ db.versions.rows ∨ row.created.proposalId = version.proposalId := by
      intro other hother
      rcases Table.mem_put.mp hother with rfl | ⟨hold, -⟩
      · exact .inr rfl
      · exact .inl (hversions ▸ hold)
    refine @Accounted.accept db { first with versions := first.versions.put (newVersion version) }
      h _ _ _ hrow hreview hproposals ?_ hold ?_ _ _ _
    · intro proposal
      rw [carriers, carriers, countP_put hfree, hversions, hdecisions, Nat.add_right_comm]
      rfl
    · intro other hother
      exact .inl (hdecisions ▸ hother)
  · exact h.writeTransition row input.orgId standard.created.id next

/-- Every call keeps the line. -/
theorem Lines.wrote (h : Lines db) (hwrote : Wrote db after) : Lines after := by
  rcases hwrote with _ | ⟨proposal, hdraft⟩ |
    ⟨orgId, proposalId, status, next, updatedAt, hstatus, hnext⟩ |
    ⟨row, decision, middle, hrow, hreview, hinsert⟩ |
    ⟨row, version, first, middle, hrow, hreview, hvalid, hdraft, hstandard, hsupersedes,
      hinsert⟩ |
    ⟨row, standard, input, next, hrow, hstandard, hreplacement, hvalid, hmoved⟩
  · exact h
  · obtain ⟨hversions, -, hstandards⟩ := insertProposal_same db proposal
    exact h.congr hversions hstandards
  · exact h.congr rfl rfl
  · obtain ⟨-, rfl⟩ := insertDecision_ok hinsert
    exact h.congr rfl rfl
  · have hfirst : Lines first ∧ first.versions = db.versions := by
      rcases hstandard with rfl | ⟨standard, hheadless, hput⟩
      · exact ⟨h, rfl⟩
      · obtain ⟨-, hafter⟩ := insertStandard_ok hput
        exact ⟨h.insertStandard hheadless hput, by rw [hafter]⟩
    obtain ⟨hlines, hversions⟩ := hfirst
    rw [← hversions] at hsupersedes
    exact (hlines.insertVersion hvalid hdraft hsupersedes hinsert).congr rfl rfl
  · exact h.writeTransition hrow hstandard hreplacement hmoved

/-! ## The publication of a draft -/

/-- The version is a draft before and no draft afterwards. -/
structure Publishes (db after : StandardTables) (version : StandardVersionRow) : Prop where
  stored : version ∈ db.versions.rows
  draft : version.status = .draft
  published : ∃ row ∈ after.versions.rows, row.id = version.id ∧ row.status ≠ .draft

/-- `current_version_id` of a standard. -/
def headOf (db : StandardTables) (orgId standardId : String) : Option String :=
  (db.standardRow orgId standardId).bind (·.currentVersionId)

/-- A write that leaves the rows of versions does not publish one. -/
theorem Publishes.elim_of_subset {version : StandardVersionRow}
    (h : Publishes db after version)
    (hsame : ∀ row ∈ after.versions.rows, row ∈ db.versions.rows ∨ row.status = .draft) :
    False := by
  obtain ⟨row, hrow, hid, hstatus⟩ := h.published
  rcases hsame row hrow with hold | hdraft
  · have heq := (Table.get?_key hold).symm.trans (hid ▸ Table.get?_key h.stored)
    cases heq
    exact hstatus h.draft
  · exact hstatus hdraft

/-- The head as it is read is the column. -/
theorem Lines.merged_head (h : Lines db) {standard : StandardRow}
    (hin : standard ∈ db.standards.rows) :
    standard.merged.currentVersionId = standard.currentVersionId := by
  have hcreated : standard.created.currentVersionId = none := h.headless standard hin
  cases hhead : standard.currentVersionId with
  | none => simp [StandardRow.merged, hhead, hcreated]
  | some headId =>
    obtain ⟨row, hrow, -⟩ := h.head standard hin headId hhead
    obtain ⟨hmem, hid, -⟩ := versionRow_iff.mp hrow
    have hne : headId ≠ "" := hid ▸ (h.created row hmem).2.2
    simp [StandardRow.merged, hhead, present_some.mpr ⟨rfl, hne⟩]

theorem headOf_setHead {standard : StandardRow} {orgId standardId : String}
    (hstandard : db.standardRow orgId standardId = some standard)
    {expected : Option String → Bool} (hexpected : expected standard.currentVersionId = true)
    (versionId : String) :
    (db.setHead orgId standardId expected versionId).headOf orgId standardId =
      some versionId := by
  obtain ⟨hget, horg⟩ := standardRow_some hstandard
  have hid : standard.id = standardId := standardRow_id hstandard
  have hafter : (db.setHead orgId standardId expected versionId).standards.get? standardId =
      some { standard with currentVersionId := some versionId } := by
    refine (Table.get?_updateWhere db.standards _
      (fun row => { row with currentVersionId := some versionId }) (fun _ => rfl)
      standardId).trans ?_
    rw [hget, Option.map_some, if_pos]
    simp [hid, horg, hexpected]
  rw [headOf, standardRow, hafter, Option.filter_some_pos (by simp [horg])]
  rfl

/-- A draft is published by a call that finds its standard at the version it supersedes, and
leaves it at the draft. -/
theorem Publishes.head {version : StandardVersionRow} (h : Publishes db after version)
    (hlines : Lines db) (hwrote : Wrote db after) :
    (∃ standard, db.standardRow version.created.orgId version.created.standardId =
        some standard ∧ standard.currentVersionId = version.created.supersedesVersionId) ∧
      after.headOf version.created.orgId version.created.standardId = some version.id := by
  rcases hwrote with _ | ⟨proposal, hdraft⟩ |
    ⟨orgId, proposalId, status, next, updatedAt, hstatus, hnext⟩ |
    ⟨row, decision, middle, hrow, hreview, hinsert⟩ |
    ⟨row, version', first, middle, hrow, hreview, hvalid, hdraft, hstandard, hsupersedes,
      hinsert⟩ |
    ⟨row, standard, input, next, hrow, hstandard, hreplacement, hvalid, hmoved⟩
  · exact (h.elim_of_subset fun _ hmem => .inl hmem).elim
  · refine (h.elim_of_subset fun row hmem => .inl ?_).elim
    rw [(insertProposal_same db proposal).1] at hmem
    exact hmem
  · exact (h.elim_of_subset fun _ hmem => .inl hmem).elim
  · obtain ⟨-, rfl⟩ := insertDecision_ok hinsert
    exact (h.elim_of_subset fun _ hmem => .inl hmem).elim
  · -- a version that is put is put as a draft
    have hversions : first.versions = db.versions := by
      rcases hstandard with rfl | ⟨standard, -, hput⟩
      · rfl
      · rw [(insertStandard_ok hput).2]
    obtain ⟨-, -, rfl⟩ := insertVersion_ok hinsert
    refine (h.elim_of_subset fun found hmem => ?_).elim
    rcases Table.mem_put.mp hmem with rfl | ⟨hold, -⟩
    · exact .inr hdraft
    · exact .inl (hversions ▸ hold)
  · obtain ⟨hin, hid, horg⟩ := versionRow_iff.mp hrow
    obtain ⟨found, hfound, hfoundId, hpublished⟩ := h.published
    have hsameId : row.merged.id = input.versionId := hid
    rw [writeTransition_versions, hsameId] at hfound
    have hversion : version = row := by
      rcases mem_setVersion hrow hfound with rfl | ⟨hold, hdifferent⟩
      · have hget := Table.get?_key h.stored
        rw [← hfoundId] at hget
        exact Option.some.inj (hget.symm.trans (Table.get?_key hin))
      · have heq := (Table.get?_key hold).symm.trans (hfoundId ▸ Table.get?_key h.stored)
        cases heq
        exact absurd h.draft hpublished
    rw [hversion]
    have hdraft : row.merged.status = .draft := hversion ▸ h.draft
    obtain ⟨hget, hstandardOrg⟩ := standardRow_some hstandard
    have hstandardIn := (Table.get?_eq_some.mp hget).1
    have hhead : standard.merged.currentVersionId = expectedHead row.merged ∧
        (next.status = .trial ∨ next.status = .active) := by
      rcases hmoved with ⟨-, hhead⟩ | ⟨gate, -, hhead⟩ | ⟨evidence, hactive, -⟩
      · exact ⟨hhead, .inl rfl⟩
      · exact ⟨hhead, .inr rfl⟩
      · rw [hdraft] at hactive
        cases hactive
    rw [hlines.merged_head hstandardIn, expectedHead, if_pos hdraft] at hhead
    rw [horg]
    refine ⟨⟨standard, hstandard, hhead.1⟩, ?_⟩
    have hstandardId : standard.created.id = row.created.standardId := standardRow_id hstandard
    rw [StandardTables.writeTransition, if_pos hhead.2, hstandardId]
    have hkept : (db.setVersion input.orgId row.merged.id row.merged.status next).standardRow
        input.orgId row.created.standardId = some standard := hstandard
    rw [headOf_setHead hkept rfl]
    exact congrArg some hmoved.same.1

/-- No call writes a deprecated version. -/
theorem Wrote.frozen (hwrote : Wrote db after) {version : StandardVersionRow}
    (hin : version ∈ db.versions.rows) (hdeprecated : version.status = .deprecated) :
    version ∈ after.versions.rows := by
  rcases hwrote with _ | ⟨proposal, hdraft⟩ |
    ⟨orgId, proposalId, status, next, updatedAt, hstatus, hnext⟩ |
    ⟨row, decision, middle, hrow, hreview, hinsert⟩ |
    ⟨row, version', first, middle, hrow, hreview, hvalid, hdraft, hstandard, hsupersedes,
      hinsert⟩ |
    ⟨row, standard, input, next, hrow, hstandard, hreplacement, hvalid, hmoved⟩
  · exact hin
  · rw [(insertProposal_same db proposal).1]
    exact hin
  · exact hin
  · obtain ⟨-, rfl⟩ := insertDecision_ok hinsert
    exact hin
  · have hversions : first.versions = db.versions := by
      rcases hstandard with rfl | ⟨standard, -, hput⟩
      · rfl
      · rw [(insertStandard_ok hput).2]
    obtain ⟨hfree, -, rfl⟩ := insertVersion_ok hinsert
    rw [← hversions] at hin
    exact Table.mem_put.mpr (.inr ⟨hin, Table.get?_eq_none.mp hfree version hin⟩)
  · have hdifferent : version.id ≠ input.versionId := by
      intro hid
      have hsame := (Table.get?_key hin).symm.trans (hid ▸ (versionRow_some hrow).1)
      cases hsame
      have hstatus : version.merged.status = .deprecated := hdeprecated
      rcases hmoved with ⟨h, -⟩ | ⟨gate, h, -⟩ | ⟨evidence, h, -⟩
      · exact absurd (h.symm.trans hstatus) (by decide)
      · rw [hstatus] at h
        exact absurd h (by decide)
      · exact absurd (h.symm.trans hstatus) (by decide)
    have hkept := @versionRow_writeTransition db row standard input next hrow
      version.created.orgId version.id
    rw [if_neg fun hsame => hdifferent hsame.1, mem_versionRow hin] at hkept
    exact (versionRow_iff.mp hkept).1

end StandardTables

/-! ## Runs -/

section Runs

variable (dateParse : DateParse) (sha256 : String → String)

/-- The tables after the calls, from empty ones. -/
def standardsAfter (calls : List StandardCall) : StandardTables :=
  run (StandardCall.step dateParse sha256) {} calls

/-- What holds of the tables and of the history of a run of calls. -/
structure AccountableLine (calls : List StandardCall) : Prop where
  /-- A head is on trial, active, or deprecated without a replacement. -/
  head : ∀ standard ∈ (standardsAfter dateParse sha256 calls).standards.rows, ∀ headId,
    standard.currentVersionId = some headId →
      ∃ row, (standardsAfter dateParse sha256 calls).versionRow standard.created.orgId headId =
          some row ∧ row.created.standardId = standard.id ∧
        StandardTables.CanLead row.merged
  /-- Following replacements ends. -/
  ends : ∀ version ∈ (standardsAfter dateParse sha256 calls).versions.rows, ∃ n,
    ((standardsAfter dateParse sha256 calls).replacedBy version.created.orgId)^[n]
      (some version.id) = none
  /-- A draft is published while its standard is at the version it supersedes. -/
  published : ∀ earlier call later, calls = earlier ++ call :: later → ∀ version,
    StandardTables.Publishes (standardsAfter dateParse sha256 earlier)
        (standardsAfter dateParse sha256 (earlier ++ [call])) version →
      ∃ standard, (standardsAfter dateParse sha256 earlier).standardRow version.created.orgId
          version.created.standardId = some standard ∧
        standard.currentVersionId = version.created.supersedesVersionId
  /-- Between two publications over one head a call restores that head. -/
  restored : ∀ earlier first between second later,
    calls = earlier ++ first :: (between ++ second :: later) → ∀ version other,
    StandardTables.Publishes (standardsAfter dateParse sha256 earlier)
        (standardsAfter dateParse sha256 (earlier ++ [first])) version →
    StandardTables.Publishes (standardsAfter dateParse sha256 (earlier ++ first :: between))
        (standardsAfter dateParse sha256 (earlier ++ first :: between ++ [second])) other →
    other.created.orgId = version.created.orgId →
    other.created.standardId = version.created.standardId →
    other.created.supersedesVersionId = version.created.supersedesVersionId →
      ∃ before call rest, between = before ++ call :: rest ∧
        (standardsAfter dateParse sha256 (earlier ++ first :: before)).headOf
            version.created.orgId version.created.standardId ≠
          version.created.supersedesVersionId ∧
        (standardsAfter dateParse sha256 (earlier ++ first :: before ++ [call])).headOf
            version.created.orgId version.created.standardId =
          version.created.supersedesVersionId
  /-- A proposal is accepted exactly when one version or decision carries its id. -/
  accepted : ∀ proposal ∈ (standardsAfter dateParse sha256 calls).proposals.rows,
    (proposal.status = .accepted ↔
        (standardsAfter dateParse sha256 calls).carriers proposal = 1) ∧
      (standardsAfter dateParse sha256 calls).carriers proposal ≤ 1
  /-- A deprecated version stays as it is. -/
  frozen : ∀ earlier later, calls = earlier ++ later →
    ∀ version ∈ (standardsAfter dateParse sha256 earlier).versions.rows,
      version.status = .deprecated →
        version ∈ (standardsAfter dateParse sha256 calls).versions.rows

variable {dateParse sha256}

theorem standardsAfter_snoc (calls : List StandardCall) (call : StandardCall) :
    standardsAfter dateParse sha256 (calls ++ [call]) =
      call.step dateParse sha256 (standardsAfter dateParse sha256 calls) :=
  run_append _ _ calls [call]

theorem lines_standardsAfter (calls : List StandardCall) :
    (standardsAfter dateParse sha256 calls).Lines :=
  run_invariant _ StandardTables.Lines
    (fun db call h => h.wrote (call.step_wrote dateParse sha256 db)) _
    StandardTables.lines_empty calls

theorem accounted_standardsAfter (calls : List StandardCall) :
    (standardsAfter dateParse sha256 calls).Accounted :=
  run_invariant _ StandardTables.Accounted
    (fun db call h => h.wrote (call.step_wrote dateParse sha256 db)) _
    StandardTables.accounted_empty calls

/-- What a publication in a run found and left as the head of its standard. -/
theorem publishes_head {earlier : List StandardCall} {call : StandardCall}
    {version : StandardVersionRow}
    (h : StandardTables.Publishes (standardsAfter dateParse sha256 earlier)
      (standardsAfter dateParse sha256 (earlier ++ [call])) version) :
    (∃ standard, (standardsAfter dateParse sha256 earlier).standardRow version.created.orgId
        version.created.standardId = some standard ∧
        standard.currentVersionId = version.created.supersedesVersionId) ∧
      (standardsAfter dateParse sha256 (earlier ++ [call])).headOf version.created.orgId
        version.created.standardId = some version.id := by
  rw [standardsAfter_snoc] at h ⊢
  exact h.head (lines_standardsAfter earlier) (call.step_wrote dateParse sha256 _)

/-- Standards evolve along one accountable line. -/
theorem standards_accountable (dateParse : DateParse) (sha256 : String → String)
    (calls : List StandardCall) : AccountableLine dateParse sha256 calls where
  head := (lines_standardsAfter calls).head
  ends := fun version _ => (lines_standardsAfter calls).ends version.created.orgId version.id
  published := fun earlier call later _ version h => (publishes_head h).1
  restored := by
    intro earlier first between second later _ version other hfirst hsecond horg hstandard
      hsupersedes
    have hleft := (publishes_head hfirst).2
    obtain ⟨standard, hfound, hhead⟩ := (publishes_head hsecond).1
    rw [horg, hstandard] at hfound
    have hself : version.created.supersedesVersionId ≠ some version.id :=
      ((lines_standardsAfter earlier).created version hfirst.stored).2.1
    -- the head is at the first draft, and has to come back for the second
    obtain ⟨before, call, rest, hbetween, hbefore, hafter⟩ :=
      run_turns (StandardCall.step dateParse sha256)
        (fun db => db.headOf version.created.orgId version.created.standardId =
          version.created.supersedesVersionId)
        (standardsAfter dateParse sha256 (earlier ++ [first])) between
        (fun heq => hself (heq.symm.trans hleft)) (by
          rw [standardsAfter, ← run_append, List.append_assoc, List.singleton_append]
          refine Eq.trans ?_ (hhead.trans hsupersedes)
          exact congrArg (·.bind (·.currentVersionId)) hfound)
    refine ⟨before, call, rest, hbetween, ?_, ?_⟩
    · rw [standardsAfter, ← run_append, List.append_assoc, List.singleton_append] at hbefore
      exact hbefore
    · rw [standardsAfter, ← run_append, List.append_assoc, List.singleton_append] at hafter
      rw [standardsAfter_snoc]
      exact hafter
  accepted := by
    intro proposal hproposal
    rw [(accounted_standardsAfter calls).accepted proposal hproposal]
    by_cases haccepted : proposal.status = .accepted
    · simp [haccepted]
    · simp [haccepted]
  frozen := by
    rintro earlier later rfl version hin hdeprecated
    rw [standardsAfter, run_append]
    exact run_invariant _ (fun db => version ∈ db.versions.rows)
      (fun db call h => (call.step_wrote dateParse sha256 db).frozen h hdeprecated) _ hin later

end Runs

end Regenic.Standards
