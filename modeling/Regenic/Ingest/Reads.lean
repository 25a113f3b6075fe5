import Regenic.Ingest.Service

/-!
The reading half of the service. Inspection only reads, so what it answers is a function
of the stores, and an answer of a composed program is composed of the answers.
-/

namespace Regenic.Ingest

open Lib

/-- The calls that leave the stores alone. -/
def StoreCall.IsRead : StoreCall → Prop
  | .findBySourceIdentity _ => True
  | .findBlob _ => True
  | .getBlob _ => True
  | .listEvents _ => True
  | _ => False

variable (ids : UuidSupply) (sha256 : Sha256)

theorem exec_of_isRead (c : StoreCall) (s : Stores) (h : c.IsRead) : (c.exec ids s).2 = s := by
  cases c with
  | findBySourceIdentity identity => rfl
  | findBlob hash => rfl
  | getBlob hash => rfl
  | listEvents orgId => rfl
  | _ => cases h

/-- What a program answers in these stores. -/
def answer {α : Type} (s : Stores) (p : IngestProg α) : Except IngestFailure α :=
  (p.run (StoreCall.exec ids) s).1

structure OnlyReads {α : Type} (p : IngestProg α) : Prop where
  calls : p.Calls StoreCall.IsRead

theorem run_of_onlyReads {α : Type} {p : IngestProg α} (h : OnlyReads p) (s : Stores) :
    p.run (StoreCall.exec ids) s = (answer ids s p, s) := by
  have hstate := h.calls.run_state (fun c t hc => exec_of_isRead ids c t hc) s
  exact Prod.ext rfl hstate

theorem answer_bind {α β : Type} {p : IngestProg α} (h : OnlyReads p) (f : α → IngestProg β)
    (s : Stores) : answer ids s (p >>= f) = match answer ids s p with
      | .ok a => answer ids s (f a)
      | .error e => .error e := by
  unfold answer
  rw [Prog.bind_eq, Prog.run_bind, run_of_onlyReads ids h]
  unfold answer
  cases (p.run (StoreCall.exec ids) s).1 with
  | ok a => rfl
  | error e => rfl

/-- A composed program answers only after its first part has. -/
theorem answer_bind_ok {α β : Type} {p : IngestProg α} (h : OnlyReads p)
    {f : α → IngestProg β} {s : Stores} {b : β} (hb : answer ids s (p >>= f) = .ok b) :
    ∃ a, answer ids s p = .ok a ∧ answer ids s (f a) = .ok b := by
  rw [answer_bind ids h] at hb
  cases hp : answer ids s p with
  | ok a =>
    rw [hp] at hb
    exact ⟨a, rfl, hb⟩
  | error e =>
    rw [hp] at hb
    cases hb

@[simp] theorem answer_pure {α : Type} (s : Stores) (a : α) :
    answer ids s (pure a) = .ok a := rfl

@[simp] theorem answer_liftResult {α : Type} (s : Stores) (result : Except IngestFailure α) :
    answer ids s (liftResult result) = result := by
  cases result with
  | ok a => rfl
  | error e => rfl

theorem onlyReads_pure {α : Type} (a : α) : OnlyReads (pure a : IngestProg α) := ⟨trivial⟩

theorem onlyReads_liftResult {α : Type} (result : Except IngestFailure α) :
    OnlyReads (liftResult result) := by
  cases result with
  | ok a => exact ⟨trivial⟩
  | error e => exact ⟨trivial⟩

theorem onlyReads_bind {α β : Type} {p : IngestProg α} {f : α → IngestProg β}
    (hp : OnlyReads p) (hf : ∀ a, OnlyReads (f a)) : OnlyReads (p >>= f) :=
  ⟨Prog.calls_bind hp.calls fun a => (hf a).calls⟩

theorem onlyReads_ite {α : Type} (c : Prop) {_ : Decidable c} {p q : IngestProg α}
    (hp : OnlyReads p) (hq : OnlyReads q) : OnlyReads (if c then p else q) := by
  by_cases hc : c
  · rwa [if_pos hc]
  · rwa [if_neg hc]

theorem onlyReads_findBlob (hash : String) : OnlyReads (Call.findBlob hash) :=
  ⟨Prog.calls_perform trivial⟩

theorem onlyReads_getBlob (hash : String) : OnlyReads (Call.getBlob hash) :=
  ⟨Prog.calls_perform trivial⟩

theorem onlyReads_findBySourceIdentity (identity : SourceIdentity) :
    OnlyReads (Call.findBySourceIdentity identity) :=
  ⟨Prog.calls_perform trivial⟩

theorem onlyReads_listEvents (orgId : String) : OnlyReads (Call.listEvents orgId) :=
  ⟨Prog.calls_perform trivial⟩

/-! ## Every reader only reads -/

theorem onlyReads_readEventBytes (event : EventRecord) : OnlyReads (readEventBytes event) := by
  unfold readEventBytes
  cases present event.contentHash with
  | none => exact onlyReads_pure _
  | some hash =>
    apply onlyReads_bind (onlyReads_findBlob hash)
    intro blob
    cases blob with
    | none => exact onlyReads_pure _
    | some blob => exact onlyReads_bind (onlyReads_getBlob hash) fun _ => onlyReads_pure _

theorem onlyReads_readEventText (event : EventRecord) : OnlyReads (readEventText event) := by
  apply onlyReads_bind (onlyReads_readEventBytes event)
  intro stored
  cases stored <;> exact onlyReads_pure _

theorem onlyReads_readEventAttachments (event : EventRecord) :
    OnlyReads (readEventAttachments sha256 event) := by
  apply onlyReads_bind (onlyReads_readEventBytes event)
  intro stored
  cases stored <;> exact onlyReads_pure _

theorem onlyReads_collectAvailableBlobs (hashes : List String) :
    OnlyReads (collectAvailableBlobs hashes) := by
  induction hashes with
  | nil => exact onlyReads_pure _
  | cons hash rest ih =>
    apply onlyReads_bind (onlyReads_getBlob hash)
    intro bytes
    exact onlyReads_bind ih fun _ => onlyReads_pure _

theorem onlyReads_existingResolution (event : EventRecord) :
    OnlyReads (existingResolution sha256 event) := by
  apply onlyReads_bind (onlyReads_readEventBytes event)
  intro stored
  cases stored with
  | none => exact onlyReads_pure _
  | some stored =>
    obtain ⟨bytes, mediaType⟩ := stored
    simp only
    split
    · exact onlyReads_liftResult _
    · split
      · exact onlyReads_liftResult _
      · apply onlyReads_bind (onlyReads_liftResult _)
        intro parts
        apply onlyReads_bind (onlyReads_collectAvailableBlobs _)
        intro sidecars
        exact onlyReads_liftResult _

theorem onlyReads_sameBodySurfaceCorrection (current : EventRecord) (incoming : IngestRecord) :
    OnlyReads (sameBodySurfaceCorrection current incoming) := by
  unfold sameBodySurfaceCorrection
  generalize normalizeUtterance (recordBodyText incoming) = incomingText
  refine onlyReads_ite (incomingText = "") ?_ ?_
  · exact onlyReads_pure _
  · exact onlyReads_bind (onlyReads_readEventText current) fun _ => onlyReads_pure _

theorem onlyReads_mergePart (existing : List StoredContentPart) (part : ContentPart) :
    OnlyReads (mergePart existing part) := by
  unfold mergePart
  cases part.externalLocator? with
  | none => exact onlyReads_pure _
  | some locator =>
    refine onlyReads_ite _ ?_ ?_
    · exact onlyReads_pure _
    · cases priorPart existing locator with
      | none => exact onlyReads_pure _
      | some prior =>
        apply onlyReads_bind (onlyReads_getBlob _)
        intro bytes
        cases bytes with
        | none => exact onlyReads_pure _
        | some bytes => exact onlyReads_ite _ (onlyReads_pure _) (onlyReads_pure _)

theorem onlyReads_mergeParts (existing : List StoredContentPart) (parts : List ContentPart) :
    OnlyReads (mergeParts existing parts) := by
  induction parts with
  | nil => exact onlyReads_pure _
  | cons part rest ih =>
    apply onlyReads_bind (onlyReads_mergePart existing part)
    intro merged
    exact onlyReads_bind ih fun _ => onlyReads_pure _

theorem onlyReads_preserveResolvedAttachments (incoming : List ContentPart)
    (stored : Option (Bytes × String)) :
    OnlyReads (preserveResolvedAttachments incoming stored) := by
  cases stored with
  | none => exact onlyReads_pure _
  | some stored =>
    refine onlyReads_ite _ ?_ ?_
    · exact onlyReads_bind (onlyReads_liftResult _) fun _ => onlyReads_mergeParts _ _
    · exact onlyReads_pure _

theorem onlyReads_mergeRecordContent (record : IngestRecord) (current : Option EventRecord) :
    OnlyReads (mergeRecordContent record current) := by
  unfold mergeRecordContent
  split
  · apply onlyReads_bind (onlyReads_readEventBytes _)
    intro stored
    exact onlyReads_bind (onlyReads_preserveResolvedAttachments _ _) fun _ => onlyReads_pure _
  · exact onlyReads_pure _

theorem onlyReads_matchesEvent (needle : EchoNeedle) (event : EventRecord) :
    OnlyReads (needle.matchesEvent sha256 event) := by
  refine onlyReads_ite _ ?_ ?_
  · apply onlyReads_bind (onlyReads_readEventText event)
    intro text
    refine onlyReads_ite _ ?_ ?_
    · exact onlyReads_pure _
    · exact onlyReads_bind (onlyReads_readEventAttachments sha256 event) fun _ => onlyReads_pure _
  · exact onlyReads_bind (onlyReads_readEventAttachments sha256 event) fun _ => onlyReads_pure _

theorem onlyReads_firstEcho (needle : EchoNeedle) (events : List EventRecord) :
    OnlyReads (firstEcho sha256 needle events) := by
  induction events with
  | nil => exact onlyReads_pure _
  | cons event rest ih =>
    apply onlyReads_bind (onlyReads_matchesEvent sha256 needle event)
    intro found
    exact onlyReads_ite _ (onlyReads_pure _) ih

theorem onlyReads_findEchoedOutbound (orgId : String) (record : IngestRecord) :
    OnlyReads (findEchoedOutbound sha256 orgId record) := by
  unfold findEchoedOutbound
  split
  · exact onlyReads_pure _
  · exact onlyReads_bind (onlyReads_listEvents orgId) fun _ => onlyReads_firstEcho sha256 _ _

theorem onlyReads_inspectExisting (identity : SourceIdentity) (operation : IngestOperation)
    (merged : IngestRecord) (canonical : CanonicalContent) (current : EventRecord) :
    OnlyReads (inspectExisting sha256 identity operation merged canonical current) := by
  apply onlyReads_bind (onlyReads_existingResolution sha256 current)
  intro existing
  apply onlyReads_bind (onlyReads_liftResult _)
  intro incoming
  refine onlyReads_ite _ (onlyReads_pure _) ?_
  refine onlyReads_ite _ (onlyReads_pure _) ?_
  refine onlyReads_ite _ ?_ (onlyReads_pure _)
  refine onlyReads_ite _ (onlyReads_pure _) ?_
  refine onlyReads_ite _ (onlyReads_pure _) ?_
  apply onlyReads_bind (onlyReads_sameBodySurfaceCorrection current merged)
  intro same
  exact onlyReads_ite _ (onlyReads_pure _) (onlyReads_pure _)

theorem onlyReads_inspectContent (orgId : String) (record : IngestRecord)
    (overlay : PendingIngestOverlay) (current : Option EventRecord) :
    OnlyReads (inspectContent sha256 orgId record overlay current) := by
  apply onlyReads_bind (onlyReads_mergeRecordContent record current)
  intro merged
  split
  · exact onlyReads_pure _
  · split
    · exact onlyReads_pure _
    · split
      · exact onlyReads_pure _
      · apply onlyReads_bind (onlyReads_findEchoedOutbound sha256 orgId record)
        intro echoed
        split
        · exact onlyReads_pure _
        · split
          · exact onlyReads_inspectExisting sha256 _ _ _ _ _
          · exact onlyReads_ite _ (onlyReads_pure _) (onlyReads_pure _)

theorem onlyReads_findCurrent (overlay : PendingIngestOverlay) (identity : SourceIdentity) :
    OnlyReads (findCurrent overlay identity) := by
  unfold findCurrent
  split
  · exact onlyReads_pure _
  · exact onlyReads_findBySourceIdentity identity

/-- Inspecting a record changes nothing. -/
theorem onlyReads_inspectRecord (orgId : String) (record : IngestRecord)
    (overlay : PendingIngestOverlay) : OnlyReads (inspectRecord sha256 orgId record overlay) := by
  apply onlyReads_bind (onlyReads_findCurrent overlay _)
  intro current
  refine onlyReads_ite _ ?_ ?_
  · split <;> exact onlyReads_pure _
  · split
    · exact onlyReads_pure _
    · exact onlyReads_inspectContent sha256 orgId record overlay current

end Regenic.Ingest
