import Regenic.Ingest.Calls
import Regenic.Lib.History

/-!
What a client of the service keeps to, whatever the stores answer: a create that it writes over
a head is followed by its tombstone at once, and a batch that it commits holds first events
only, under ids that it drew.
-/

namespace Regenic.Ingest

open Lib

variable (sha256 : Sha256)

abbrev IngestHistory : Type := History StoreCall.Response

/-- The event that was just created over a head and is to be deleted next. -/
def owed : IngestHistory → Option (SourceIdentity × String)
  | ⟨.append event, .ok stored⟩ :: _ =>
    event.expectedHeadId.map fun _ => (event.toSourceIdentity, stored.id)
  | _ => none

structure KeepsTo (h : IngestHistory) (c : StoreCall) : Prop where
  deletes : ∀ identity id, owed h = some (identity, id) → c = .markTombstone identity (some id)
  planned : ∀ appends, c = .commitIngest appends → ∀ input ∈ appends,
    input.expectedHeadId = none ∧ (⟨.randomUUID, input.id⟩ : Told StoreCall.Response) ∈ h

/-- The program keeps to the discipline and, however it ends, leaves nothing to delete. -/
abbrev Disciplined {α : Type} (h : IngestHistory) (p : IngestProg α) : Prop :=
  Follows (historyProtocol KeepsTo) (fun h' _ => h <:+ h' ∧ owed h' = none) h p

theorem keepsTo_of_settled {h : IngestHistory} {c : StoreCall} (hsettled : owed h = none)
    (hcommit : ∀ appends, c ≠ .commitIngest appends) : KeepsTo h c where
  deletes := by
    intro identity id howed
    rw [hsettled] at howed
    cases howed
  planned := fun appends h => absurd h (hcommit appends)

variable {h : IngestHistory} {α β : Type}

theorem disciplined_pure (hsettled : owed h = none) (a : α) :
    Disciplined h (pure a : IngestProg α) := Follows.done ⟨List.suffix_refl h, hsettled⟩

theorem disciplined_fail (hsettled : owed h = none) (error : IngestFailure) :
    Disciplined h (.fail error : IngestProg α) := Follows.fail ⟨List.suffix_refl h, hsettled⟩

theorem disciplined_longer {p : IngestProg α} {h' : IngestHistory} (hsuffix : h <:+ h')
    (hp : Disciplined h' p) :
    Follows (historyProtocol KeepsTo) (fun h'' _ => h <:+ h'' ∧ owed h'' = none) h' p :=
  Follows.mono hp fun _ _ hpost => ⟨hsuffix.trans hpost.1, hpost.2⟩

theorem disciplined_call {c : StoreCall} {next : c.Response → IngestProg α} (hc : KeepsTo h c)
    (hnext : ∀ r, Disciplined (⟨c, r⟩ :: h) (next r)) : Disciplined h (.call c next) :=
  Follows.call hc fun r _ => disciplined_longer (List.suffix_cons _ h) (hnext r)

theorem disciplined_bind {p : IngestProg α} {f : α → IngestProg β} (hp : Disciplined h p)
    (hf : ∀ h' a, h <:+ h' → owed h' = none → Disciplined h' (f a)) :
    Disciplined h (p >>= f) := by
  apply Follows.bind hp
  · intro h' a hpost
    exact disciplined_longer hpost.1 (hf h' a hpost.1 hpost.2)
  · intro h' error hpost
    exact hpost

theorem disciplined_onlyReads {p : IngestProg α} (hreads : OnlyReads p)
    (hsettled : owed h = none) : Disciplined h p := by
  obtain ⟨hcalls⟩ := hreads
  induction p generalizing h with
  | done a => exact disciplined_pure hsettled a
  | fail e => exact disciplined_fail hsettled e
  | call c next ih =>
    obtain ⟨hread, hnext⟩ := hcalls
    apply disciplined_call
    · apply keepsTo_of_settled hsettled
      rintro appends rfl
      exact hread
    · intro r
      apply ih r ?_ (hnext r)
      cases c with
      | append event => exact hread.elim
      | _ => rfl

theorem disciplined_putBlobs {items : List BlobObject} {f : Unit → IngestProg α}
    (hsettled : owed h = none)
    (hf : ∀ h', h <:+ h' → owed h' = none → Disciplined h' (f ())) :
    Disciplined h (Call.putBlobs items >>= f) := by
  apply disciplined_call
  · exact keepsTo_of_settled hsettled nofun
  · intro r
    exact hf _ (List.suffix_cons _ h) rfl

theorem disciplined_conflictResult (hsettled : owed h = none) (record : IngestRecord)
    (error : AuthorityError) : Disciplined h (conflictResult record error) := by
  cases error with
  | conflict => exact disciplined_pure hsettled _
  | failed message => exact disciplined_fail hsettled _

/-- A tombstone is written when nothing else is owed. -/
theorem disciplined_markTombstoned {identity : SourceIdentity} {expected : Option String}
    (howed : ∀ other id, owed h = some (other, id) → identity = other ∧ expected = some id)
    (record : IngestRecord) : Disciplined h (markTombstoned record identity expected) := by
  apply disciplined_call
  · constructor
    · intro other id hother
      obtain ⟨rfl, rfl⟩ := howed other id hother
      rfl
    · exact nofun
  · intro r
    cases r with
    | ok event => exact disciplined_pure rfl _
    | error error => exact disciplined_conflictResult rfl record error

theorem disciplined_persistInspected (hsettled : owed h = none) (inspected : InspectedRecord) :
    Disciplined h (persistInspected inspected) := by
  have hnone : ∀ {h' : IngestHistory}, owed h' = none → ∀ other id,
      owed h' = some (other, id) → False := by
    intro h' hsettled other id howed
    rw [hsettled] at howed
    cases howed
  cases inspected with
  | result result => exact disciplined_pure hsettled _
  | tombstone identity record current =>
    change Disciplined h (ingestTombstone identity record current)
    unfold ingestTombstone
    split
    · exact disciplined_pure hsettled _
    · apply disciplined_markTombstoned
      intro other id howed
      exact (hnone hsettled other id howed).elim
  | revise identity record canonical current =>
    apply disciplined_putBlobs hsettled
    intro h' _ hput
    apply disciplined_call
    · exact keepsTo_of_settled hput nofun
    · intro r
      cases r with
      | ok event => exact disciplined_pure rfl _
      | error error => exact disciplined_conflictResult rfl record error
  | create identity record canonical =>
    apply disciplined_putBlobs hsettled
    intro h' _ hput
    apply disciplined_call
    · exact keepsTo_of_settled hput nofun
    · intro r
      cases r with
      | ok event => exact disciplined_pure rfl _
      | error error => exact disciplined_conflictResult rfl record error
  | createAfterTombstone identity record canonical current =>
    apply disciplined_putBlobs hsettled
    intro h' _ hput
    apply disciplined_call
    · exact keepsTo_of_settled hput nofun
    · intro r
      cases r with
      | ok event =>
        apply disciplined_markTombstoned
        intro other id howed
        cases howed
        exact ⟨rfl, rfl⟩
      | error error => exact disciplined_conflictResult rfl record error

theorem disciplined_ingestRecord (hsettled : owed h = none) (orgId : String)
    (record : IngestRecord) : Disciplined h (ingestRecord sha256 orgId record) := by
  apply disciplined_bind
  · exact disciplined_onlyReads (onlyReads_inspectRecord sha256 orgId record []) hsettled
  · intro h' inspected _ hread
    exact disciplined_persistInspected hread inspected

/-! ## Batches -/

/-- The ids of the planned creates were drawn by the program itself. -/
def Drawn (h : IngestHistory) (creates : List PlannedCreate) : Prop :=
  ∀ item ∈ creates, (⟨.randomUUID, item.eventId⟩ : Told StoreCall.Response) ∈ h

theorem Drawn.mono {creates : List PlannedCreate} (hdrawn : Drawn h creates)
    {h' : IngestHistory} (hsuffix : h <:+ h') : Drawn h' creates :=
  fun item hmem => hsuffix.subset (hdrawn item hmem)

theorem drawn_nil (h : IngestHistory) : Drawn h [] := nofun

theorem disciplined_ingestPlanned (hsettled : owed h = none) (orgId : String)
    (creates : List PlannedCreate) (results : IndexedResults) :
    Disciplined h (ingestPlanned sha256 orgId creates results) := by
  induction creates generalizing h results with
  | nil => exact disciplined_pure hsettled results
  | cons item rest ih =>
    apply disciplined_bind (disciplined_ingestRecord sha256 hsettled orgId item.record)
    intro h' result _ hread
    exact ih hread _

theorem disciplined_commitCreates (hsettled : owed h = none) (orgId : String)
    {creates : List PlannedCreate} (hdrawn : Drawn h creates) (results : IndexedResults) :
    Disciplined h (commitCreates sha256 orgId creates results) := by
  apply disciplined_putBlobs hsettled
  intro h' hsuffix hput
  apply disciplined_call
  · constructor
    · intro identity id howed
      rw [hput] at howed
      cases howed
    · intro appends happends input hmem
      cases happends
      obtain ⟨item, hitem, rfl⟩ := List.mem_map.mp hmem
      exact ⟨rfl, hdrawn.mono hsuffix item hitem⟩
  · intro r
    cases r with
    | ok _ => exact disciplined_pure rfl _
    | error error =>
      cases error with
      | conflict => exact disciplined_ingestPlanned sha256 rfl orgId creates results
      | failed message => exact disciplined_fail rfl _

theorem disciplined_flushCreates (hsettled : owed h = none) (orgId : String)
    {creates : List PlannedCreate} (hdrawn : Drawn h creates) (results : IndexedResults) :
    Disciplined h (flushCreates sha256 orgId creates results) := by
  unfold flushCreates
  split
  · exact disciplined_pure hsettled results
  · exact disciplined_commitCreates sha256 hsettled orgId hdrawn results

theorem disciplined_ingestRecords (orgId : String) (records : List IngestRecord) (index : Nat)
    (overlay : PendingIngestOverlay) {pending : List PlannedCreate} (results : IndexedResults)
    (hsettled : owed h = none) (hdrawn : Drawn h pending) :
    Disciplined h (ingestRecords sha256 orgId records index overlay pending results) := by
  induction records generalizing h index overlay pending results with
  | nil => exact disciplined_flushCreates sha256 hsettled orgId hdrawn results
  | cons record rest ih =>
    -- A record that is written alone comes after the pending creates.
    have halone : ∀ h', h <:+ h' → owed h' = none → Disciplined h'
        (flushCreates sha256 orgId pending results >>= fun results =>
          ingestRecord sha256 orgId record >>= fun result =>
            ingestRecords sha256 orgId rest (index + 1) overlay [] ((index, result) :: results)) := by
      intro h' hsuffix hread
      apply disciplined_bind
      · exact disciplined_flushCreates sha256 hread orgId (hdrawn.mono hsuffix) results
      · intro h₁ flushed _ hflushed
        apply disciplined_bind (disciplined_ingestRecord sha256 hflushed orgId record)
        intro h₂ result _ hwritten
        exact ih _ _ _ hwritten (drawn_nil h₂)
    apply disciplined_bind
    · exact disciplined_onlyReads (onlyReads_inspectRecord sha256 orgId record overlay) hsettled
    · intro h' inspected hsuffix hread
      cases inspected with
      | result result => exact ih _ _ _ hread (hdrawn.mono hsuffix)
      | create identity merged canonical =>
        apply disciplined_call
        · exact keepsTo_of_settled hread nofun
        · intro eventId
          apply ih
          · rfl
          · intro item hmem
            rcases List.mem_append.mp hmem with hmem | hmem
            · exact List.mem_cons_of_mem _ (hdrawn.mono hsuffix item hmem)
            · rw [List.mem_singleton.mp hmem]
              exact List.mem_cons_self
      | revise identity merged canonical current => exact halone h' hsuffix hread
      | tombstone identity merged current => exact halone h' hsuffix hread
      | createAfterTombstone identity merged canonical current => exact halone h' hsuffix hread

/-- Every request keeps to the discipline and leaves nothing to delete. -/
theorem disciplined_ingest (orgId : String) (records : List IngestRecord) :
    Disciplined [] (ingest sha256 orgId records) := by
  apply disciplined_bind
  · exact disciplined_ingestRecords sha256 orgId records 0 [] [] rfl (drawn_nil [])
  · intro h' results _ hread
    exact disciplined_pure hread _

end Regenic.Ingest
