import Mathlib.Logic.Function.Iterate
import Regenic.Lib.Run
import Regenic.Standards.Writes

/-!
The line of a standard. Its head, the replacements of its versions, the proposals behind them
and the moment at which a draft is published hold together in every run of calls.
-/

namespace Regenic.Standards

open Lib
open Customer (DateParse)

/-! ## Following replacements -/

/-- Where one function ends from everywhere, so does one that differs from it at a single
place and ends from there. -/
theorem iterate_ends_of_agree {α : Type} {f g : Option α → Option α} (place : α)
    (hend : ∃ n, g^[n] (some place) = none)
    (hagree : ∀ a, a ≠ place → g (some a) = f (some a)) (n : Nat) (start : Option α)
    (h : f^[n] start = none) : ∃ m, g^[m] start = none := by
  induction n generalizing start with
  | zero => exact ⟨0, h⟩
  | succ n ih =>
    cases start with
    | none => exact ⟨0, rfl⟩
    | some a =>
      by_cases heq : a = place
      · rw [heq]
        exact hend
      · obtain ⟨m, hm⟩ := ih (f (some a)) h
        refine ⟨m + 1, ?_⟩
        rw [Function.iterate_succ_apply, hagree a heq]
        exact hm

/-- The row of a version after a transition to `next`. -/
def StandardVersionRow.moved (row : StandardVersionRow) (next : StandardVersionRecord) :
    StandardVersionRow :=
  { row with status := next.status, state := standardVersionState next }

namespace StandardTables

/-- `superseded_by_version_id` of the version, as it is read. -/
def replacedBy (db : StandardTables) (orgId : String) (versionId? : Option String) :
    Option String :=
  versionId?.bind fun versionId =>
    (db.versionRow orgId versionId).bind (·.merged.supersededByVersionId)

/-- How many versions and decisions carry the id of the proposal. -/
def carriers (db : StandardTables) (proposal : ProposalRow) : Nat :=
  db.versions.rows.countP (fun row => row.created.orgId = proposal.created.orgId &&
      row.created.proposalId = proposal.id) +
    db.decisions.rows.countP fun row => row.orgId = proposal.created.orgId &&
      row.proposalId = proposal.id

/-- A version that a standard may have as its head. -/
def CanLead (version : StandardVersionRecord) : Prop :=
  version.status = .trial ∨ version.status = .active ∨
    (version.status = .deprecated ∧ version.supersededByVersionId = none)

/-- The invariant of versions and heads. -/
structure Lines (db : StandardTables) : Prop where
  created : ∀ row ∈ db.versions.rows, row.created.supersededByVersionId = none ∧
    row.created.supersedesVersionId ≠ some row.id ∧ row.id ≠ ""
  unreplaced : ∀ row ∈ db.versions.rows, row.status ≠ .deprecated →
    row.merged.supersededByVersionId = none
  headless : ∀ standard ∈ db.standards.rows, standard.created.currentVersionId = none
  head : ∀ standard ∈ db.standards.rows, ∀ headId, standard.currentVersionId = some headId →
    ∃ row, db.versionRow standard.created.orgId headId = some row ∧
      row.created.standardId = standard.id ∧ CanLead row.merged
  ends : ∀ orgId versionId, ∃ n, (db.replacedBy orgId)^[n] (some versionId) = none

/-- The invariant of proposals and what they led to. -/
structure Accounted (db : StandardTables) : Prop where
  versionProposal : ∀ row ∈ db.versions.rows, ∃ proposal ∈ db.proposals.rows,
    proposal.id = row.created.proposalId
  decisionProposal : ∀ row ∈ db.decisions.rows, ∃ proposal ∈ db.proposals.rows,
    proposal.id = row.proposalId
  accepted : ∀ proposal ∈ db.proposals.rows,
    db.carriers proposal = if proposal.status = .accepted then 1 else 0

theorem lines_empty : Lines {} where
  created := by simp
  unreplaced := by simp
  headless := by simp
  head := by simp
  ends := fun _ _ => ⟨1, rfl⟩

theorem accounted_empty : Accounted {} where
  versionProposal := by simp
  decisionProposal := by simp
  accepted := by simp

variable {db after : StandardTables}

/-! ## Rows after a write -/

theorem versionRow_iff {orgId versionId : String} {row : StandardVersionRow} :
    db.versionRow orgId versionId = some row ↔
      row ∈ db.versions.rows ∧ row.id = versionId ∧ row.created.orgId = orgId := by
  rw [versionRow, Option.filter_eq_some_iff, Table.get?_eq_some]
  simp [and_assoc]

theorem mem_versionRow {row : StandardVersionRow} (h : row ∈ db.versions.rows) :
    db.versionRow row.created.orgId row.id = some row :=
  versionRow_iff.mpr ⟨h, rfl, rfl⟩

/-- Versions and standards decide the invariant of the line. -/
theorem Lines.congr (h : Lines db) (hversions : after.versions = db.versions)
    (hstandards : after.standards = db.standards) : Lines after := by
  have hrow : after.versionRow = db.versionRow := by
    funext orgId versionId
    rw [versionRow, versionRow, hversions]
  have hreplaced : after.replacedBy = db.replacedBy := by
    funext orgId versionId?
    rw [replacedBy, replacedBy, hrow]
  constructor
  · rw [hversions]
    exact h.created
  · rw [hversions]
    exact h.unreplaced
  · rw [hstandards]
    exact h.headless
  · rw [hstandards, hrow]
    exact h.head
  · rw [hreplaced]
    exact h.ends

/-! ## A new standard, a new version -/

theorem insertStandard_ok {standard : StandardRecord}
    (h : db.insertStandard standard = .ok after) :
    db.standards.get? standard.id = none ∧
      after = { db with standards := db.standards.put { created := standard } } := by
  unfold insertStandard at h
  obtain ⟨hfree, h⟩ := checked_ok h
  obtain ⟨-, h⟩ := checked_ok h
  cases h
  exact ⟨Option.isNone_iff_eq_none.mp hfree, rfl⟩

theorem Lines.insertStandard (h : Lines db) {standard : StandardRecord}
    (hheadless : standard.currentVersionId = none)
    (hinsert : db.insertStandard standard = .ok after) : Lines after := by
  obtain ⟨-, rfl⟩ := insertStandard_ok hinsert
  constructor
  · exact h.created
  · exact h.unreplaced
  · intro row hrow
    rcases Table.mem_put.mp hrow with rfl | ⟨hrow, -⟩
    · exact hheadless
    · exact h.headless row hrow
  · intro row hrow headId hhead
    rcases Table.mem_put.mp hrow with rfl | ⟨hrow, -⟩
    · cases hhead
    · exact h.head row hrow headId hhead
  · exact h.ends

/-- The row of a version that was just put. -/
def newVersion (version : StandardVersionRecord) : StandardVersionRow where
  created := version
  status := version.status
  state := standardVersionState version

theorem insertVersion_ok {version : StandardVersionRecord}
    (h : db.insertVersion version = .ok after) :
    db.versions.get? version.id = none ∧ (db.proposals.get? version.proposalId).isSome ∧
      after = { db with versions := db.versions.put (newVersion version) } := by
  unfold insertVersion at h
  obtain ⟨hfree, h⟩ := checked_ok h
  obtain ⟨-, h⟩ := checked_ok h
  obtain ⟨-, h⟩ := checked_ok h
  obtain ⟨hkeys, h⟩ := checked_ok h
  cases h
  simp only [Bool.and_eq_true] at hkeys
  exact ⟨Option.isNone_iff_eq_none.mp hfree, hkeys.2, rfl⟩

theorem newVersion_unreplaced {version : StandardVersionRecord}
    (h : version.supersededByVersionId = none) :
    (newVersion version).merged.supersededByVersionId = none := by
  simp [StandardVersionRow.merged, newVersion, standardVersionState, h]

/-- A version keeps its row when another one is put. -/
theorem versionRow_put {version : StandardVersionRecord} (orgId versionId : String) :
    ({ db with versions := db.versions.put (newVersion version) } : StandardTables).versionRow
        orgId versionId =
      if version.id = versionId then
        (some (newVersion version)).filter fun row => row.created.orgId = orgId
      else db.versionRow orgId versionId := by
  unfold versionRow
  rw [Table.get?_put]
  by_cases hid : version.id = versionId
  · rw [if_pos hid]
    exact congrArg _ (if_pos hid)
  · rw [if_neg hid]
    exact congrArg _ (if_neg hid)

theorem Lines.insertVersion (h : Lines db) {version : StandardVersionRecord}
    (hvalid : ValidVersion version) (hdraft : version.status = .draft)
    (hsupersedes : version.supersedesVersionId = none ∨
      ∃ superseded, db.versions.get? superseded ≠ none ∧
        version.supersedesVersionId = some superseded)
    (hinsert : db.insertVersion version = .ok after) : Lines after := by
  obtain ⟨hfree, -, rfl⟩ := insertVersion_ok hinsert
  have hunreplaced : version.supersededByVersionId = none :=
    hvalid.unreplaced (by rw [hdraft]; decide)
  constructor
  · intro row hrow
    rcases Table.mem_put.mp hrow with rfl | ⟨hrow, -⟩
    · refine ⟨hunreplaced, ?_, hvalid.id_ne⟩
      -- the id was free, and a superseded version has a row
      rintro hself
      rcases hsupersedes with hnone | ⟨superseded, hfound, hsome⟩
      · exact Option.some_ne_none _ (hself.symm.trans hnone)
      · cases hself.symm.trans hsome
        exact hfound hfree
    · exact h.created row hrow
  · intro row hrow hstatus
    rcases Table.mem_put.mp hrow with rfl | ⟨hrow, -⟩
    · exact newVersion_unreplaced hunreplaced
    · exact h.unreplaced row hrow hstatus
  · exact h.headless
  · intro standard hstandard headId hhead
    obtain ⟨row, hrow, hrest⟩ := h.head standard hstandard headId hhead
    refine ⟨row, ?_, hrest⟩
    rw [versionRow_put, if_neg]
    · exact hrow
    · rintro rfl
      rw [(versionRow_some hrow).1] at hfree
      cases hfree
  · intro orgId versionId
    obtain ⟨n, hn⟩ := h.ends orgId versionId
    refine iterate_ends_of_agree version.id ⟨1, ?_⟩ ?_ n _ hn
    · rw [Function.iterate_one, replacedBy, Option.bind_some, versionRow_put, if_pos rfl]
      cases hown : (some (newVersion version)).filter fun row => row.created.orgId = orgId with
      | none => rfl
      | some row =>
        cases (Option.filter_eq_some_iff.mp hown).1
        exact newVersion_unreplaced hunreplaced
    · intro other hne
      rw [replacedBy, replacedBy, Option.bind_some, Option.bind_some, versionRow_put,
        if_neg hne.symm]

/-! ## A transition -/

section Transition

variable {row : StandardVersionRow} {orgId versionId : String} {next : StandardVersionRecord}

theorem setVersion_get? (expected : StandardVersionStatus) (versionId' : String) :
    (db.setVersion orgId versionId expected next).versions.get? versionId' =
      (db.versions.get? versionId').map fun row =>
        if row.id = versionId && row.created.orgId = orgId && row.status = expected then
          row.moved next
        else row :=
  Table.get?_updateWhere db.versions _ (fun row => row.moved next) (fun _ => rfl) versionId'

theorem versionRow_setVersion (hrow : db.versionRow orgId versionId = some row)
    (orgId' versionId' : String) :
    (db.setVersion orgId versionId row.status next).versionRow orgId' versionId' =
      if versionId' = versionId ∧ orgId' = orgId then
        some (row.moved next)
      else db.versionRow orgId' versionId' := by
  obtain ⟨hget, horg⟩ := versionRow_some hrow
  have hid := versionRow_id hrow
  unfold versionRow
  rw [setVersion_get?]
  by_cases hsame : versionId' = versionId
  · rw [hsame, hget]
    by_cases horg' : orgId' = orgId
    · simp [StandardVersionRow.id, StandardVersionRow.moved, hid, horg, horg']
    · have hother : ∀ found : StandardVersionRow, found.created.orgId = orgId →
          (some found).filter (fun row => row.created.orgId = orgId') = none := by
        intro found hfound
        simp [hfound, Ne.symm horg']
      rw [if_neg fun h => horg' h.2, Option.map_some, hother row horg]
      split
      · exact hother _ horg
      · exact hother _ horg
  · rw [if_neg fun h => hsame h.1]
    cases hother : db.versions.get? versionId' with
    | none => rfl
    | some other =>
      have hkey : other.id = versionId' := (Table.get?_eq_some.mp hother).2
      simp [hkey, hsame]

/-- A row after the write is the one that moved or one that was there. -/
theorem mem_setVersion (hrow : db.versionRow orgId versionId = some row)
    {row' : StandardVersionRow}
    (hmem : row' ∈ (db.setVersion orgId versionId row.status next).versions.rows) :
    row' = row.moved next ∨ row' ∈ db.versions.rows ∧ row'.id ≠ versionId := by
  have hfound := mem_versionRow hmem
  rw [versionRow_setVersion hrow] at hfound
  split at hfound
  · cases hfound
    exact .inl rfl
  · next hother =>
    have hin := (versionRow_iff.mp hfound).1
    refine .inr ⟨hin, fun hid => hother ⟨hid, ?_⟩⟩
    -- one id, one row
    have hget := (Table.get?_key hin).symm.trans (hid ▸ (versionRow_some hrow).1)
    cases hget
    exact (versionRow_some hrow).2

theorem moved_replacement (hcreated : row.created.supersededByVersionId = none) :
    (row.moved next).merged.supersededByVersionId =
      present next.supersededByVersionId := by
  simp [StandardVersionRow.merged, StandardVersionRow.moved, standardVersionState,
    present_present, hcreated]

/-- What every transition leaves the version with, besides its outcome. -/
theorem moved_canLead {standard : StandardRecord} {input : StandardVersionTransition}
    (hcreated : row.created.supersededByVersionId = none)
    (hmoved : Moved row.merged standard input next)
    (hreplacement : next.status = .deprecated → present next.supersededByVersionId = none) :
    CanLead (row.moved next).merged := by
  rcases hmoved with ⟨-, -⟩ | ⟨gate, -, -⟩ | ⟨evidence, -, -⟩
  · exact .inl rfl
  · exact .inr (.inl rfl)
  · refine .inr (.inr ⟨rfl, ?_⟩)
    rw [moved_replacement hcreated]
    exact hreplacement rfl

/-- A version that has not been deprecated is replaced by none after it has moved, unless the
move deprecates it. -/
theorem moved_unreplaced {standard : StandardRecord} {input : StandardVersionTransition}
    (hcreated : row.created.supersededByVersionId = none)
    (hunreplaced : row.status ≠ .deprecated → row.merged.supersededByVersionId = none)
    (hmoved : Moved row.merged standard input next) (hstatus : next.status ≠ .deprecated) :
    (row.moved next).merged.supersededByVersionId = none := by
  rw [moved_replacement hcreated]
  rcases hmoved with ⟨hdraft, -⟩ | ⟨gate, hbefore, -⟩ | ⟨evidence, -, -⟩
  · have hdraft : row.status = .draft := hdraft
    exact present_eq_none.mpr (.inl (hunreplaced (by rw [hdraft]; decide)))
  · have hbefore : row.status = .draft ∨ row.status = .trial := hbefore
    refine present_eq_none.mpr (.inl (hunreplaced ?_))
    rcases hbefore with h | h <;> (rw [h]; decide)
  · exact absurd rfl hstatus

end Transition

section Transitioned

variable {row : StandardVersionRow} {standard : StandardRow}
  {input : StandardVersionTransition} {next : StandardVersionRecord}

/-- The versions after a transition are those after its first write. -/
theorem writeTransition_versions (db : StandardTables) (orgId standardId : String)
    (current next : StandardVersionRecord) :
    (db.writeTransition orgId current next standardId).versions =
      (db.setVersion orgId current.id current.status next).versions := by
  unfold writeTransition
  dsimp only
  split
  · rfl
  · split
    · rfl
    · rfl

theorem versionRow_writeTransition (hrow : db.versionRow input.orgId input.versionId = some row)
    (orgId versionId : String) :
    (db.writeTransition input.orgId row.merged next standard.created.id).versionRow
        orgId versionId =
      if versionId = input.versionId ∧ orgId = input.orgId then some (row.moved next)
      else db.versionRow orgId versionId := by
  rw [← versionRow_setVersion hrow, versionRow, writeTransition_versions, versionRow]
  have hid : row.merged.id = input.versionId := versionRow_id hrow
  rw [hid]
  rfl

/-- The heads after a transition. That of the version's standard moves to the version where it
is published, and from a replaced version to its replacement; the others are as they were. -/
theorem mem_writeTransition_standards {standard' : StandardRow}
    (hmem : standard' ∈ (db.writeTransition input.orgId row.merged next
      standard.created.id).standards.rows) :
    ∃ before ∈ db.standards.rows, standard'.created = before.created ∧
      ((next.status = .trial ∨ next.status = .active) ∧
          before.id = standard.created.id ∧ before.created.orgId = input.orgId ∧
          standard'.currentVersionId = some next.id ∨
        ¬(next.status = .trial ∨ next.status = .active) ∧
          before.currentVersionId = some next.id ∧
          (∃ replacementId, present next.supersededByVersionId = some replacementId ∧
            standard'.currentVersionId = some replacementId) ∨
        standard'.currentVersionId = before.currentVersionId ∧
          (before.id = standard.created.id → before.created.orgId = input.orgId →
            before.currentVersionId = some next.id → next.status = .deprecated →
            present next.supersededByVersionId = none)) := by
  unfold writeTransition at hmem
  dsimp only at hmem
  split at hmem
  · next hpublished =>
    obtain ⟨before, hbefore, rfl⟩ := List.mem_map.mp hmem
    refine ⟨before, hbefore, ?_⟩
    split
    · next hmatch =>
      simp only [Bool.and_true, Bool.and_eq_true, decide_eq_true_eq] at hmatch
      exact ⟨rfl, .inl ⟨hpublished, hmatch.1, hmatch.2, rfl⟩⟩
    · refine ⟨rfl, .inr (.inr ⟨rfl, fun _ _ _ hdeprecated => ?_⟩)⟩
      rw [hdeprecated] at hpublished
      exact absurd hpublished (by decide)
  · next hunpublished =>
    split at hmem
    · next replacementId hreplacement =>
      obtain ⟨before, hbefore, rfl⟩ := List.mem_map.mp hmem
      refine ⟨before, hbefore, ?_⟩
      split
      · next hmatch =>
        simp only [Bool.and_eq_true, decide_eq_true_eq] at hmatch
        exact ⟨rfl, .inr (.inl ⟨hunpublished, hmatch.2, replacementId, hreplacement, rfl⟩)⟩
      · next hmatch =>
        refine ⟨rfl, .inr (.inr ⟨rfl, fun hid horg hhead _ => absurd ?_ hmatch⟩)⟩
        simp [hid, horg, hhead]
    · next hnone => exact ⟨standard', hmem, rfl, .inr (.inr ⟨rfl, fun _ _ _ _ => hnone⟩)⟩

/-- What a transition names as the replacement: a version of the same standard, active and not
the one that moved. -/
theorem moved_other (hid : row.id = input.versionId)
    (hunreplaced : row.status ≠ .deprecated → row.merged.supersededByVersionId = none)
    (hreplacement : ∀ id, present input.supersededByVersionId = some id →
      ∃ other, db.versionRow input.orgId id = some other ∧
        other.created.standardId = row.created.standardId ∧ other.status = .active)
    (hmoved : Moved row.merged standard.merged input next) {replacementId : String}
    (hnamed : present next.supersededByVersionId = some replacementId) :
    ∃ other, db.versionRow input.orgId replacementId = some other ∧
      replacementId ≠ input.versionId ∧ other.created.standardId = row.created.standardId ∧
      other.status = .active := by
  have hnone (hstatus : row.status ≠ .deprecated)
      (h : present row.merged.supersededByVersionId = some replacementId) : False := by
    rw [hunreplaced hstatus] at h
    cases h
  rcases hmoved with ⟨hdraft, -⟩ | ⟨gate, hbefore, -⟩ | ⟨evidence, -, hself⟩
  · have hdraft : row.status = .draft := hdraft
    exact (hnone (by rw [hdraft]; decide) hnamed).elim
  · have hbefore : row.status = .draft ∨ row.status = .trial := hbefore
    refine (hnone ?_ hnamed).elim
    rcases hbefore with h | h <;> (rw [h]; decide)
  · rw [present_present] at hnamed
    obtain ⟨other, hfound, hsame, hactive⟩ := hreplacement replacementId hnamed
    refine ⟨other, hfound, ?_, hsame, hactive⟩
    rintro rfl
    exact hself ((present_some.mp hnamed).1.trans (congrArg some hid.symm))

theorem Lines.writeTransition (h : Lines db)
    (hrow : db.versionRow input.orgId input.versionId = some row)
    (hstandard : db.standardRow input.orgId row.created.standardId = some standard)
    (hreplacement : ∀ id, present input.supersededByVersionId = some id →
      ∃ other, db.versionRow input.orgId id = some other ∧
        other.created.standardId = row.created.standardId ∧ other.status = .active)
    (hmoved : Moved row.merged standard.merged input next) :
    Lines (db.writeTransition input.orgId row.merged next standard.created.id) := by
  obtain ⟨hin, hid, horg⟩ := versionRow_iff.mp hrow
  obtain ⟨hcreated, hsupersedes, hne⟩ := h.created row hin
  have hother := @moved_other db row standard input next hid (h.unreplaced row hin)
    hreplacement hmoved
  have hnextId : next.id = input.versionId := hmoved.same.1.trans hid
  have hmem : ∀ row' ∈ (db.writeTransition input.orgId row.merged next
      standard.created.id).versions.rows,
      row' = row.moved next ∨ row' ∈ db.versions.rows ∧ row'.id ≠ input.versionId := by
    intro row' hrow'
    have hsame : row.merged.id = input.versionId := hid
    rw [writeTransition_versions, hsame] at hrow'
    exact mem_setVersion hrow hrow'
  have hkept : ∀ {orgId versionId : String} {found : StandardVersionRow},
      versionId ≠ input.versionId → db.versionRow orgId versionId = some found →
      (db.writeTransition input.orgId row.merged next standard.created.id).versionRow
        orgId versionId = some found := by
    intro orgId versionId found hdifferent hfound
    rw [versionRow_writeTransition hrow, if_neg fun hsame => hdifferent hsame.1]
    exact hfound
  constructor
  · intro row' hrow'
    rcases hmem row' hrow' with rfl | ⟨hrow', -⟩
    · exact ⟨hcreated, hsupersedes, hne⟩
    · exact h.created row' hrow'
  · intro row' hrow' hstatus
    rcases hmem row' hrow' with rfl | ⟨hrow', -⟩
    · exact moved_unreplaced hcreated (h.unreplaced row hin) hmoved hstatus
    · exact h.unreplaced row' hrow' hstatus
  · intro standard' hstandard'
    obtain ⟨before, hbefore, hsame, -⟩ := mem_writeTransition_standards hstandard'
    rw [hsame]
    exact h.headless before hbefore
  · intro standard' hstandard' headId hhead
    obtain ⟨before, hbefore, hsame, hmove⟩ := mem_writeTransition_standards hstandard'
    have hsameId : standard'.id = before.id := congrArg (·.id) hsame
    have hstandardId : standard.created.id = row.created.standardId := standardRow_id hstandard
    rw [hsame, hsameId]
    rcases hmove with ⟨hpublished, hbeforeId, hbeforeOrg, hled⟩ |
        ⟨-, hwas, replacementId, hnamed, hled⟩ | ⟨hstayed, hunmoved⟩
    · -- the version leads from now on
      cases hled.symm.trans hhead
      refine ⟨row.moved next, ?_, hstandardId.symm.trans hbeforeId.symm, ?_⟩
      · rw [versionRow_writeTransition hrow, hnextId, if_pos ⟨rfl, hbeforeOrg⟩]
      · refine moved_canLead hcreated hmoved fun hdeprecated => ?_
        rw [hdeprecated] at hpublished
        exact absurd hpublished (by decide)
    · -- its replacement does
      cases hled.symm.trans hhead
      obtain ⟨other, hfound, hdifferent, hotherStandard, hactive⟩ := hother hnamed
      obtain ⟨led, hledRow, hledStandard, -⟩ := h.head before hbefore next.id hwas
      rw [hnextId] at hledRow
      have hsameRow : led = row := Option.some.inj
        ((versionRow_some hledRow).1.symm.trans (versionRow_some hrow).1)
      have hbeforeOrg : before.created.orgId = input.orgId := by
        rw [← (versionRow_some hledRow).2, hsameRow]
        exact horg
      refine ⟨other, hkept hdifferent (hbeforeOrg.symm ▸ hfound), ?_, .inr (.inl hactive)⟩
      rw [hotherStandard, ← hsameRow]
      exact hledStandard
    · rw [hstayed] at hhead
      obtain ⟨led, hled, hledStandard, hcan⟩ := h.head before hbefore headId hhead
      by_cases hself : headId = input.versionId
      · have hsameRow : led = row := Option.some.inj
          ((versionRow_some hled).1.symm.trans (hself.symm ▸ (versionRow_some hrow).1))
        have hbeforeOrg : before.created.orgId = input.orgId := by
          rw [← (versionRow_some hled).2, hsameRow]
          exact horg
        rw [hsameRow] at hledStandard
        refine ⟨row.moved next, ?_, hledStandard, ?_⟩
        · rw [versionRow_writeTransition hrow, if_pos ⟨hself, hbeforeOrg⟩]
        · refine moved_canLead hcreated hmoved
            (hunmoved (hledStandard.symm.trans hstandardId.symm) hbeforeOrg ?_)
          rw [hhead, hself, hnextId]
      · exact ⟨led, hkept hself hled, hledStandard, hcan⟩
  · intro orgId versionId
    obtain ⟨n, hn⟩ := h.ends orgId versionId
    refine iterate_ends_of_agree input.versionId ?_ ?_ n _ hn
    · cases hnext : (db.writeTransition input.orgId row.merged next
          standard.created.id).replacedBy orgId (some input.versionId) with
      | none => exact ⟨1, hnext⟩
      | some replacementId =>
        refine ⟨2, ?_⟩
        rw [Function.iterate_succ_apply, hnext, Function.iterate_one]
        rw [replacedBy, Option.bind_some, versionRow_writeTransition hrow] at hnext
        -- the row of the id is that of its one organisation
        by_cases hown : orgId = input.orgId
        · rw [if_pos ⟨rfl, hown⟩, Option.bind_some, moved_replacement hcreated] at hnext
          obtain ⟨other, hfound, hdifferent, -, hactive⟩ := hother hnext
          rw [replacedBy, Option.bind_some, hkept hdifferent (hown.symm ▸ hfound),
            Option.bind_some]
          exact h.unreplaced other (versionRow_iff.mp hfound).1 (by rw [hactive]; decide)
        · rw [if_neg fun hsame => hown hsame.2] at hnext
          cases hfound : db.versionRow orgId input.versionId with
          | none =>
            rw [hfound] at hnext
            cases hnext
          | some found =>
            have hsameRow : found = row := Option.some.inj
              ((versionRow_some hfound).1.symm.trans (versionRow_some hrow).1)
            exact absurd ((versionRow_some hfound).2.symm.trans (hsameRow.symm ▸ horg)) hown
    · intro other hdifferent
      rw [replacedBy, replacedBy, Option.bind_some, Option.bind_some,
        versionRow_writeTransition hrow, if_neg fun hsame => hdifferent hsame.1]

end Transitioned

end StandardTables

end Regenic.Standards
