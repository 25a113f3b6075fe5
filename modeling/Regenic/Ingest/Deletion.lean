import Regenic.Ingest.Writes
import Regenic.Lib.Run

/-!
When a deleted message stays deleted. A tombstone keeps the content hash of the message that it
deletes, so a create of the same content is a duplicate; but a create that fills an attachment
or corrects the surface of the same body goes on as a revision, and that revision becomes the
head of a deleted identity too.
-/

namespace Regenic.Ingest

open Lib

variable (ids : UuidSupply) (sha256 : Sha256)

/-- A record that is ingested for an organization. -/
abbrev Delivery : Type := String × IngestRecord

def Delivery.identity (e : Delivery) : SourceIdentity := e.2.identity e.1

def deliver (s : Stores) (e : Delivery) :
    Except IngestFailure (List (Option IngestRecordResult)) × Stores :=
  (ingest sha256 e.1 [e.2]).run (StoreCall.exec ids) s

def deliverStep (s : Stores) (e : Delivery) : Stores := (deliver ids sha256 s e).2

def isAccepted (s : Stores) (e : Delivery) : Bool :=
  match (deliver ids sha256 s e).1 with
  | .ok [some result] => result.status = .accepted
  | _ => false

/-- The head of the identity is a tombstone. -/
def Deleted (identity : SourceIdentity) (s : Stores) : Prop :=
  ∃ event ∈ s.authority.findBySourceIdentity identity, event.operation = .tombstone

instance (identity : SourceIdentity) (s : Stores) : Decidable (Deleted identity s) :=
  inferInstanceAs (Decidable (∃ event ∈ s.authority.findBySourceIdentity identity, _))

/-- Once a tombstone is accepted the identity is deleted after any further creates and
tombstones of it, whatever is ingested under other identities. -/
def StaysDeleted (s : Stores) (deliveries : List Delivery) : Prop :=
  ∀ before deletion after, deliveries = before ++ deletion :: after →
    deletion.2.operation = .tombstone →
    isAccepted ids sha256 (run (deliverStep ids sha256) s before) deletion = true →
    (∀ e ∈ after, e.identity = deletion.identity → e.2.operation ≠ .revise) →
    Deleted deletion.identity (run (deliverStep ids sha256) s deliveries)

/-! ## The condition -/

/-- What a record brings against a head: the merged record, its canonical content, and what is
resolved of the attachments before and after. -/
structure Redelivery where
  merged : IngestRecord
  canonical : CanonicalContent
  existing : AttachmentResolution
  incoming : AttachmentResolution

def redelivery (s : Stores) (e : Delivery) (event : EventRecord) : Option Redelivery := do
  let merged ← (answer ids s (mergeRecordContent e.2 (some event))).toOption
  let canonical ← canonicalizeContent sha256 merged.parts
  let existing ← (answer ids s (existingResolution sha256 event)).toOption
  let incoming ← (resolutionFromCanonical sha256 canonical).toOption
  some { merged, canonical, existing, incoming }

/-- A create of a deleted message that goes on as a revision: it has other content, is no echo,
loses no attachment, and either resolves a further one or, with all of them resolved, has the
same body text. -/
def Revives (s : Stores) (e : Delivery) : Prop :=
  e.2.operation = .create ∧ ∃ event ∈ s.head e.1 e.2,
    event.operation = .tombstone ∧ event.parentEventId ≠ none ∧
    event.externalId = e.2.externalId ∧
    ∃ r ∈ redelivery ids sha256 s e event,
      event.contentHash ≠ some r.canonical.hash ∧
      answer ids s (findEchoedOutbound sha256 e.1 e.2) = .ok none ∧
      incomingWorsensAttachments r.existing r.incoming = false ∧
      ActsAsRevision ids s event r.merged r.existing r.incoming

instance (event : EventRecord) (merged : IngestRecord) (existing incoming : AttachmentResolution)
    (s : Stores) : Decidable (ActsAsRevision ids s event merged existing incoming) :=
  inferInstanceAs (Decidable (_ ∨ _))

instance (s : Stores) (e : Delivery) : Decidable (Revives ids sha256 s e) :=
  inferInstanceAs (Decidable (_ ∧ ∃ event ∈ s.head e.1 e.2, _))

variable {ids sha256} {s : Stores} {e : Delivery}

theorem redelivery_eq_some {event : EventRecord} {merged : IngestRecord}
    {canonical : CanonicalContent} {existing incoming : AttachmentResolution}
    (hcontent : NewContent ids sha256 s e.1 e.2 (some event) merged canonical)
    (hkeeps : KeepsAttachments ids sha256 s event canonical existing incoming) :
    redelivery ids sha256 s e event = some ⟨merged, canonical, existing, incoming⟩ := by
  unfold redelivery
  rw [hcontent.merges, hkeeps.resolved]
  simp only [Except.toOption, Option.bind_eq_bind, Option.bind_some, hcontent.canonicalizes,
    hkeeps.offered]

/-! ## One delivery -/

theorem deleted_of_unwritten {identity : SourceIdentity} {s' : Stores} (h : Unwritten s s')
    (hdeleted : Deleted identity s) : Deleted identity s' := by
  unfold Deleted
  rw [h.authority]
  exact hdeleted

/-- An event of another identity, or a tombstone. -/
theorem Adds.deleted {input : InsertEventInput} {s' : Stores} (hadds : Adds ids s input s')
    (hsound : s.Sound ids) {identity : SourceIdentity}
    (hdeleted : input.toSourceIdentity ≠ identity → Deleted identity s)
    (htombstone : input.toSourceIdentity = identity → input.operation = .tombstone) :
    Deleted identity s' := by
  have hfind := hadds.findBySourceIdentity hsound identity
  by_cases hsame : input.toSourceIdentity = identity
  · rw [if_pos hsame] at hfind
    exact ⟨_, hfind, htombstone hsame⟩
  · rw [if_neg hsame] at hfind
    unfold Deleted
    rw [hfind]
    exact hdeleted hsame

/-- A decision on a record of a deleted identity: no create, and no revision but of a record
that is one. -/
theorem Decision.deleted {i : InspectedRecord} {orgId : String} {record : IngestRecord}
    (hdecision : Decision ids sha256 s orgId record (s.head orgId record) i)
    (hdeleted : Deleted (record.identity orgId) s) (hop : record.operation ≠ .revise)
    (hcond : ¬ Revives ids sha256 s (orgId, record)) :
    (∀ identity merged canonical, i ≠ .create identity merged canonical) ∧
      ∀ identity kept canonical event, i ≠ .revise identity kept canonical event := by
  obtain ⟨head, hhead, hoperation⟩ := hdeleted
  cases hdecision with
  | result _ => simp
  | tombstone _ _ => simp
  | createAfterTombstone _ _ _ _ => simp
  | create _ hnone _ =>
    rw [show s.head orgId record = some head from hhead] at hnone
    cases hnone
  | @revise event merged kept canonical existing incoming hne hcurrent hown hcontent hkeeps hacts =>
    obtain ⟨hnot, hacts⟩ := hacts.resolve_left hop
    have heq : head = event := Option.some.inj (hhead.symm.trans hcurrent)
    have hparent : event.parentEventId ≠ none := by
      intro hnone
      exact hnot ⟨heq ▸ hoperation, hnone⟩
    rw [hcurrent] at hcontent
    exact absurd ⟨operation_create hne hop, event, hcurrent, heq ▸ hoperation, hparent, hown,
      _, redelivery_eq_some hcontent hkeeps, hcontent.changed event rfl, hcontent.noEcho,
      hkeeps.keeps, hacts⟩ hcond

theorem deliver_ingested (ids : UuidSupply) (sha256 : Sha256) (e : Delivery)
    (hsound : s.Sound ids) :
    ∃ r, Ingested ids sha256 s e.1 e.2 r (deliverStep ids sha256 s e) ∧
      ∀ results, (deliver ids sha256 s e).1 = .ok results →
        ∃ result, r = .ok result ∧ results = [some result] := by
  have hrun : (ingest sha256 e.1 [e.2]).run (StoreCall.exec ids) s =
      ((deliver ids sha256 s e).1, deliverStep ids sha256 s e) := rfl
  exact run_ingest_one hsound hrun

theorem deliverStep_sound (e : Delivery) (hsound : s.Sound ids) :
    (deliverStep ids sha256 s e).Sound ids := by
  obtain ⟨r, hingested, _⟩ := deliver_ingested ids sha256 e hsound
  exact hingested.sound hsound

/-- A delivery keeps a deleted identity deleted. -/
theorem Ingested.keepsDeleted {r : Except IngestFailure IngestRecordResult} {s' : Stores}
    (hingested : Ingested ids sha256 s e.1 e.2 r s') (hsound : s.Sound ids)
    {identity : SourceIdentity} (hdeleted : Deleted identity s)
    (hop : e.identity = identity → e.2.operation ≠ .revise)
    (hcond : ¬ Revives ids sha256 s e) : Deleted identity s' := by
  rcases hingested with hrefused | ⟨i, hdecision, hpersisted⟩
  · exact deleted_of_unwritten hrefused.unwritten hdeleted
  · have hput : ∀ items, Deleted identity (s.putBlobs items) := fun items =>
      deleted_of_unwritten (unwritten_putBlobs s items) hdeleted
    have hnone : e.identity = identity →
        (∀ other merged canonical, i ≠ .create other merged canonical) ∧
          ∀ other kept canonical event, i ≠ .revise other kept canonical event := by
      intro hsame
      subst hsame
      exact hdecision.deleted hdeleted (hop rfl) hcond
    cases hpersisted with
    | result _ => exact hdeleted
    | refused h => exact deleted_of_unwritten h.unwritten hdeleted
    | tombstone hadds => exact hadds.deleted hsound (fun _ => hdeleted) fun _ => rfl
    | revise hadds =>
      apply hadds.deleted (hsound.putBlobs _) fun _ => hput _
      intro hsame
      cases hdecision with
      | revise _ _ _ _ _ _ => exact absurd rfl ((hnone hsame).2 _ _ _ _)
    | create hadds =>
      apply hadds.deleted (hsound.putBlobs _) fun _ => hput _
      intro hsame
      cases hdecision with
      | create _ _ _ => exact absurd rfl ((hnone hsame).1 _ _ _)
    | createAfterTombstone hadds htombstone =>
      have hmiddle := hadds.sound (hsound.putBlobs _)
      apply htombstone.deleted hmiddle ?_ fun _ => rfl
      intro hother
      have hfind := hadds.findBySourceIdentity (hsound.putBlobs _) identity
      unfold Deleted
      rw [hfind.trans (if_neg hother)]
      exact hput _

/-- A tombstone record is accepted only with its tombstone. -/
theorem Ingested.deleted {result : IngestRecordResult} {s' : Stores}
    (hingested : Ingested ids sha256 s e.1 e.2 (.ok result) s') (hsound : s.Sound ids)
    (hop : e.2.operation = .tombstone) (hstatus : result.status = .accepted) :
    Deleted e.identity s' := by
  rcases hingested with hrefused | ⟨i, hdecision, hpersisted⟩
  · exact absurd hstatus (hrefused.status result rfl)
  · cases hpersisted with
    | result hresult =>
      cases hdecision with
      | result hrefused =>
        cases hresult
        exact absurd hstatus hrefused
    | refused h => exact absurd hstatus (h.status result rfl)
    | tombstone hadds =>
      cases hdecision with
      | tombstone _ _ =>
        exact hadds.deleted hsound (fun hother => absurd rfl hother) fun _ => rfl
    | revise hadds =>
      cases hdecision with
      | revise hne _ _ _ _ _ => exact absurd hop hne
    | create hadds =>
      cases hdecision with
      | create hcreate _ _ =>
        rw [hop] at hcreate
        cases hcreate
    | createAfterTombstone hadds htombstone =>
      cases hdecision with
      | createAfterTombstone hcreate _ _ _ =>
        rw [hop] at hcreate
        cases hcreate

theorem deleted_of_accepted (hsound : s.Sound ids) (hop : e.2.operation = .tombstone)
    (haccepted : isAccepted ids sha256 s e = true) :
    Deleted e.identity (deliverStep ids sha256 s e) := by
  obtain ⟨r, hingested, hresult⟩ := deliver_ingested ids sha256 e hsound
  unfold isAccepted at haccepted
  split at haccepted
  · next result hrun =>
    obtain ⟨other, rfl, hsame⟩ := hresult _ hrun
    cases hsame
    exact hingested.deleted hsound hop (of_decide_eq_true haccepted)
  · cases haccepted

/-! ## Every sequence -/

theorem run_deleted {identity : SourceIdentity} (deliveries : List Delivery)
    (hsound : s.Sound ids) (hdeleted : Deleted identity s)
    (hops : ∀ e ∈ deliveries, e.identity = identity → e.2.operation ≠ .revise)
    (hcond : Along (deliverStep ids sha256) (fun s e => ¬ Revives ids sha256 s e) s deliveries) :
    Deleted identity (run (deliverStep ids sha256) s deliveries) := by
  induction deliveries generalizing s with
  | nil => exact hdeleted
  | cons e rest ih =>
    obtain ⟨r, hingested, _⟩ := deliver_ingested ids sha256 e hsound
    apply ih (hingested.sound hsound)
    · exact hingested.keepsDeleted hsound hdeleted (hops e List.mem_cons_self) hcond.1
    · intro other hother
      exact hops other (List.mem_cons_of_mem _ hother)
    · exact hcond.2

/-- Deleted messages stay deleted in every sequence of deliveries in which no create of a
deleted message goes on as a revision. -/
theorem deletion_stays (s : Stores) (hsound : s.Sound ids) (deliveries : List Delivery)
    (hcond : Along (deliverStep ids sha256) (fun s e => ¬ Revives ids sha256 s e) s deliveries) :
    StaysDeleted ids sha256 s deliveries := by
  intro before deletion after hsplit hop haccepted hafter
  have hbefore : (run (deliverStep ids sha256) s before).Sound ids :=
    run_invariant _ (fun s => s.Sound ids) (fun _ e h => deliverStep_sound e h) s hsound before
  rw [hsplit] at hcond ⊢
  obtain ⟨_, hrest⟩ := (along_append ..).mp hcond
  rw [run_append, run_cons]
  exact run_deleted after (deliverStep_sound deletion hbefore)
    (deleted_of_accepted hbefore hop haccepted) hafter hrest.2

section Greeting

def said (text : String) : Delivery :=
  ("acme",
    { operation := .create, source := "dsh", externalId := "room:1"
      content := some [{ role := .body, mediaType := "text/plain", content := .text text }] })

def unsaid : Delivery :=
  ("acme", { operation := .tombstone, source := "dsh", externalId := "room:1" })

def greetingDigest : Sha256 :=
  .ofDigests
    [(utf8Encode "hi", "8f434346648f6b96df89dda901c5176b10a6d83961dd3c1ac88b59b2dc327aa4"),
      (utf8Encode "hi ", "df103b54b5632163114d83b7d24b3f092c5a8eda7e2b79958bf7eb93d14c338a")]

theorem deletion_stays_same_content :
    StaysDeleted .counted greetingDigest {} [said "hi", unsaid, said "hi"] :=
  deletion_stays {} (Stores.sound_empty _) _ (by decide +kernel)

/-- A blank after the same text is a correction of the surface, and the message is back. -/
theorem deletion_revised :
    ¬ StaysDeleted .counted greetingDigest {} [said "hi", unsaid, said "hi "] := by
  intro hstays
  have hdeleted : Deleted unsaid.identity
      (run (deliverStep .counted greetingDigest) {} [said "hi", unsaid, said "hi "]) := by
    apply hstays [said "hi"] unsaid [said "hi "] rfl rfl
    · decide +kernel
    · decide +kernel
  revert hdeleted
  decide +kernel

end Greeting

end Regenic.Ingest
