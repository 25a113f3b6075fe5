import Regenic.Ingest.Reads

/-!
What inspection decides. The decision on one record is a function of the stores, and each kind
of decision is taken only where the head, the content and the attachments are as it needs them.
-/

namespace Regenic.Ingest

open Lib

variable (ids : UuidSupply) (sha256 : Sha256)

/-- The merged and canonical content of a record that is neither the head's own nor an echo. -/
structure NewContent (s : Stores) (orgId : String) (record : IngestRecord)
    (current : Option EventRecord) (merged : IngestRecord) (canonical : CanonicalContent) :
    Prop where
  merges : answer ids s (mergeRecordContent record current) = .ok merged
  canonicalizes : canonicalizeContent sha256 merged.parts = some canonical
  changed : ∀ event, current = some event → event.contentHash ≠ some canonical.hash
  noEcho : answer ids s (findEchoedOutbound sha256 orgId record) = .ok none

/-- What of the attachments of a head and of new content is resolved, where the new content
loses nothing. -/
structure KeepsAttachments (s : Stores) (event : EventRecord) (canonical : CanonicalContent)
    (existing incoming : AttachmentResolution) : Prop where
  resolved : answer ids s (existingResolution sha256 event) = .ok existing
  offered : resolutionFromCanonical sha256 canonical = .ok incoming
  keeps : incomingWorsensAttachments existing incoming = false

/-- A create that is taken for a revision of its head. -/
def ActsAsRevision (s : Stores) (event : EventRecord) (merged : IngestRecord)
    (existing incoming : AttachmentResolution) : Prop :=
  incomingImprovesAttachments existing incoming = true ∨
    (existing.unresolvedCount = 0 ∧ incoming.unresolvedCount = 0 ∧
      answer ids s (sameBodySurfaceCorrection event merged) = .ok true)

/-- The head that a create is persisted after already deleted. -/
def IsPendingTombstone (event : EventRecord) : Prop :=
  event.operation = .tombstone ∧ event.parentEventId = none

instance (event : EventRecord) : Decidable (IsPendingTombstone event) :=
  inferInstanceAs (Decidable (_ ∧ _))

inductive Decision (s : Stores) (orgId : String) (record : IngestRecord)
    (current : Option EventRecord) : InspectedRecord → Prop where
  | result {result : IngestRecordResult} (hstatus : result.status ≠ .accepted) :
      Decision s orgId record current (.result result)
  | tombstone (hop : record.operation = .tombstone)
      (hopen : ∀ event, current = some event → event.operation ≠ .tombstone) :
      Decision s orgId record current (.tombstone (record.identity orgId) record current)
  | create {merged : IngestRecord} {canonical : CanonicalContent}
      (hop : record.operation = .create) (hnone : current = none)
      (hcontent : NewContent ids sha256 s orgId record current merged canonical) :
      Decision s orgId record current (.create (record.identity orgId) merged canonical)
  | revise {event : EventRecord} {merged kept : IngestRecord} {canonical : CanonicalContent}
      {existing incoming : AttachmentResolution}
      (hop : record.operation ≠ .tombstone) (hcurrent : current = some event)
      (hown : event.externalId = record.externalId)
      (hcontent : NewContent ids sha256 s orgId record current merged canonical)
      (hkeeps : KeepsAttachments ids sha256 s event canonical existing incoming)
      (hacts : record.operation = .revise ∨
        ¬ IsPendingTombstone event ∧ ActsAsRevision ids s event merged existing incoming) :
      Decision s orgId record current (.revise (record.identity orgId) kept canonical event)
  | createAfterTombstone {event : EventRecord} {merged : IngestRecord}
      {canonical : CanonicalContent} (hop : record.operation = .create)
      (hcurrent : current = some event) (hpending : IsPendingTombstone event)
      (hcontent : NewContent ids sha256 s orgId record current merged canonical) :
      Decision s orgId record current
        (.createAfterTombstone (record.identity orgId) merged canonical event)

variable {ids sha256} {s : Stores} {orgId : String} {record : IngestRecord}

theorem answer_ite {α : Type} {c : Prop} {_ : Decidable c} {p q : IngestProg α} {a : α}
    (h : answer ids s (if c then p else q) = .ok a) :
    (c ∧ answer ids s p = .ok a) ∨ (¬c ∧ answer ids s q = .ok a) := by
  by_cases hc : c
  · rw [if_pos hc] at h
    exact Or.inl ⟨hc, h⟩
  · rw [if_neg hc] at h
    exact Or.inr ⟨hc, h⟩

theorem operation_create (hop : record.operation ≠ .tombstone) (hrevise : record.operation ≠ .revise) :
    record.operation = .create := by
  cases hoperation : record.operation with
  | create => rfl
  | revise => exact absurd hoperation hrevise
  | tombstone => exact absurd hoperation hop

theorem inspectExisting_decision {event : EventRecord} {merged : IngestRecord}
    {canonical : CanonicalContent} {i : InspectedRecord} (hop : record.operation ≠ .tombstone)
    (hown : event.externalId = record.externalId)
    (hcontent : NewContent ids sha256 s orgId record (some event) merged canonical)
    (h : answer ids s (inspectExisting sha256 (record.identity orgId) record.operation merged
      canonical event) = .ok i) : Decision ids sha256 s orgId record (some event) i := by
  obtain ⟨existing, hexisting, h⟩ :=
    answer_bind_ok ids (onlyReads_existingResolution sha256 event) h
  obtain ⟨incoming, hincoming, h⟩ := answer_bind_ok ids (onlyReads_liftResult _) h
  rw [answer_liftResult] at hincoming
  rcases answer_ite h with ⟨_, h⟩ | ⟨hworsens, h⟩
  · cases h
    exact .result nofun
  · have hkeeps : KeepsAttachments ids sha256 s event canonical existing incoming :=
      ⟨hexisting, hincoming, Bool.eq_false_iff.mpr hworsens⟩
    rcases answer_ite h with ⟨hrevise, h⟩ | ⟨hrevise, h⟩
    · cases h
      exact .revise hop rfl hown hcontent hkeeps (Or.inl hrevise)
    · rcases answer_ite h with ⟨hlive, h⟩ | ⟨hpending, h⟩
      · have hnot : ¬ IsPendingTombstone event := by
          intro hpending
          exact hlive.elim (fun hne => hne hpending.1) fun hne => hne hpending.2
        rcases answer_ite h with ⟨himproves, h⟩ | ⟨_, h⟩
        · cases h
          exact .revise hop rfl hown hcontent hkeeps (Or.inr ⟨hnot, Or.inl himproves⟩)
        · rcases answer_ite h with ⟨_, h⟩ | ⟨hresolved, h⟩
          · cases h
            exact .result nofun
          · obtain ⟨same, hsame, h⟩ :=
              answer_bind_ok ids (onlyReads_sameBodySurfaceCorrection event merged) h
            rcases answer_ite h with ⟨htrue, h⟩ | ⟨_, h⟩
            · cases h
              rw [htrue] at hsame
              refine .revise hop rfl hown hcontent hkeeps (Or.inr ⟨hnot, Or.inr ⟨?_, ?_, hsame⟩⟩)
              · omega
              · omega
            · cases h
              exact .result nofun
      · cases h
        have htombstone : IsPendingTombstone event := by
          constructor
          · by_contra hne
            exact hpending (Or.inl hne)
          · by_contra hne
            exact hpending (Or.inr hne)
        exact .createAfterTombstone (operation_create hop hrevise) rfl htombstone hcontent

theorem inspectContent_decision {overlay : PendingIngestOverlay} {current : Option EventRecord}
    {i : InspectedRecord} (hop : record.operation ≠ .tombstone)
    (hown : ∀ event, current = some event → event.externalId = record.externalId)
    (h : answer ids s (inspectContent sha256 orgId record overlay current) = .ok i) :
    Decision ids sha256 s orgId record current i := by
  obtain ⟨merged, hmerged, h⟩ := answer_bind_ok ids (onlyReads_mergeRecordContent record current) h
  cases hcanonical : canonicalizeContent sha256 merged.parts with
  | none =>
    simp only [hcanonical] at h
    cases h
    exact .result nofun
  | some canonical =>
    simp only [hcanonical] at h
    cases hsame : current.filter fun event => event.contentHash = some canonical.hash with
    | some event =>
      simp only [hsame] at h
      cases h
      exact .result nofun
    | none =>
      simp only [hsame] at h
      have hchanged : ∀ event, current = some event →
          event.contentHash ≠ some canonical.hash := by
        intro event hevent heq
        rw [hevent, Option.filter_some, if_pos (decide_eq_true heq)] at hsame
        cases hsame
      cases hecho : overlay.findEcho sha256 record with
      | some event =>
        simp only [hecho] at h
        cases h
        exact .result nofun
      | none =>
        simp only [hecho] at h
        obtain ⟨echoed, hechoed, h⟩ :=
          answer_bind_ok ids (onlyReads_findEchoedOutbound sha256 orgId record) h
        cases echoed with
        | some event =>
          cases h
          exact .result nofun
        | none =>
          have hcontent : NewContent ids sha256 s orgId record current merged canonical :=
            ⟨hmerged, hcanonical, hchanged, hechoed⟩
          cases current with
          | some event => exact inspectExisting_decision hop (hown event rfl) hcontent h
          | none =>
            rcases answer_ite h with ⟨_, h⟩ | ⟨hrevise, h⟩
            · cases h
              exact .result nofun
            · cases h
              exact .create (operation_create hop hrevise) rfl hcontent

/-- Every decision on a record is taken where it may be. -/
theorem inspectRecord_decision {overlay : PendingIngestOverlay} {i : InspectedRecord}
    (h : answer ids s (inspectRecord sha256 orgId record overlay) = .ok i) :
    ∃ current, answer ids s (findCurrent overlay (record.identity orgId)) = .ok current ∧
      Decision ids sha256 s orgId record current i := by
  obtain ⟨current, hcurrent, h⟩ := answer_bind_ok ids (onlyReads_findCurrent overlay _) h
  refine ⟨current, hcurrent, ?_⟩
  rcases answer_ite h with ⟨htombstone, h⟩ | ⟨hop, h⟩
  · cases hdeleted : current.filter fun event => event.operation = .tombstone with
    | some event =>
      simp only [hdeleted] at h
      cases h
      exact .result nofun
    | none =>
      simp only [hdeleted] at h
      cases h
      refine .tombstone htombstone ?_
      intro event hevent hoperation
      rw [hevent, Option.filter_some, if_pos (decide_eq_true hoperation)] at hdeleted
      cases hdeleted
  · cases halias : current.filter fun event => event.externalId ≠ record.externalId with
    | some event =>
      simp only [halias] at h
      cases h
      exact .result nofun
    | none =>
      simp only [halias] at h
      apply inspectContent_decision hop ?_ h
      intro event hevent
      by_contra hne
      rw [hevent, Option.filter_some, if_pos (decide_eq_true hne)] at halias
      cases halias

/-- Without pending creates the head is the stored one. -/
theorem inspectRecord_stored {i : InspectedRecord}
    (h : answer ids s (inspectRecord sha256 orgId record []) = .ok i) :
    Decision ids sha256 s orgId record
      (s.authority.findBySourceIdentity (record.identity orgId)) i := by
  obtain ⟨current, hcurrent, hdecision⟩ := inspectRecord_decision h
  cases hcurrent
  exact hdecision

end Regenic.Ingest
