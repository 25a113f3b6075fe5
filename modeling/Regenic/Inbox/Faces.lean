import Regenic.Inbox.Store
import Regenic.Lib.Run

/-!
When the materialised face of a thread is the computed one. A write moves the face of a thread
by what it takes from the current heads or from the decisions there; the row stays right when
that thread is the one the write refreshes.
-/

namespace Regenic.Inbox

open Lib Ingest

/-- A thread id that a refresh can name. -/
def Listed (threadId : String) : Prop := jsTrim threadId = threadId ∧ threadId ≠ ""

instance (threadId : String) : Decidable (Listed threadId) :=
  inferInstanceAs (Decidable (_ ∧ _))

namespace InboxTables

variable (db : InboxTables)

/-- Refreshing any thread would change no row of `thread_heads`. -/
def FacesCurrent : Prop :=
  ∀ orgId threadId key,
    (db.refreshThreadHeadWithinTransaction orgId threadId).threadHeads.get? key =
      db.threadHeads.get? key

/-- The foreign key of `message_dispositions`. -/
def Known : Prop :=
  ∀ id, (db.authority.dispositions.get? id).isSome = true →
    (db.authority.events.get? id).isSome = true

/-! ## The operations -/

inductive Op where
  | append (input : InsertEventInput)
  | appendRevision (input : InsertEventInput)
  | markTombstone (input : TombstoneEvent)
  | commitIngest (request : IngestCommitRequest)
  | putDisposition (decision : ArrangementDecision)
  | bindSourceIdentityAliases (input : SourceIdentityAliasBind)
  deriving DecidableEq, Repr

def apply : Op → Option InboxTables
  | .append input => (db.append input).toOption
  | .appendRevision input => (db.appendRevision input).toOption
  | .markTombstone input => (db.markTombstone input).toOption
  | .commitIngest request => (db.commitIngestUnlocked request).toOption
  | .putDisposition decision => (db.putDispositionWithinTransaction decision).toOption
  | .bindSourceIdentityAliases input => (db.bindSourceIdentityAliases input).toOption

/-- A call that throws rolls back. -/
def step (op : Op) : InboxTables := (db.apply op).getD db

/-! ## The condition -/

/-- An event that is decided and filed under a thread with this refresh among its own. -/
def RefreshedFor (orgId : String) (threadId : Option String) (eventId : String) : Prop :=
  (db.authority.dispositions.get? eventId).isSome = true →
    ∀ event ∈ db.authority.events.get? eventId, ∀ filing ∈ db.filings.get? eventId,
      Listed filing.threadId →
        event.orgId = orgId ∧ threadId.map jsTrim = some filing.threadId

/-- Some other identity has the event as its head. -/
def HeadElsewhere (identity : SourceIdentity) (eventId : String) : Prop :=
  ∃ head ∈ db.authority.heads.rows, head.identity ≠ identity ∧ head.currentEventId = eventId

/-- The event that an insert takes from the current heads is in the thread that the caller
names. -/
def InsertCovers (identity : SourceIdentity) (expectedHeadId threadId : Option String) : Prop :=
  ∀ old ∈ expectedHeadId,
    db.HeadElsewhere identity old ∨ db.RefreshedFor identity.orgId threadId old

/-- A decision is put under the organization of its event. -/
def DecisionCovers (decision : ArrangementDecision) : Prop :=
  ∀ event ∈ db.authority.events.get? decision.eventId,
    ∀ filing ∈ db.filings.get? decision.eventId,
      Listed filing.threadId → event.orgId = decision.orgId

/-- A bind gives no event back to the current heads that is listed in a thread. -/
def BindCovers (input : SourceIdentityAliasBind) : Prop :=
  db.isCurrentHead input.eventId = true ∨
    (db.authority.dispositions.get? input.eventId).isSome = false ∨
    (∀ filing ∈ db.filings.get? input.eventId, ¬ Listed filing.threadId) ∨
    ∀ item ∈ input.aliases, jsTrim item.source = "" ∨ jsTrim item.externalId = "" ∨
      (db.authority.headId ⟨input.orgId, item.source, jsTrim item.externalId⟩).isSome = true

def AppendCovers (input : InsertEventInput) : Prop :=
  db.InsertCovers input.toSourceIdentity input.expectedHeadId input.threadId

/-- The decisions of a batch, once its events are in. -/
def DispositionsCover (dispositions : List ArrangementDecision) :
    Except AuthorityError InboxTables → Prop
  | .ok appended => AlongM putDispositionWithinTransaction DecisionCovers appended dispositions
  | .error _ => True

/-- Every write refreshes the thread whose face it can move. -/
def Covers : Op → Prop
  | .append input => db.AppendCovers input
  | .appendRevision input => db.AppendCovers input
  | .markTombstone input =>
    db.InsertCovers input.toSourceIdentity input.expectedHeadId input.threadId
  | .commitIngest request =>
    AlongM append AppendCovers db request.appends ∧
      DispositionsCover request.dispositions (request.appends.foldlM append db)
  | .putDisposition decision => db.DecisionCovers decision
  | .bindSourceIdentityAliases input => db.BindCovers input

instance (orgId : String) (threadId : Option String) (eventId : String) :
    Decidable (db.RefreshedFor orgId threadId eventId) :=
  inferInstanceAs (Decidable (_ → ∀ event ∈ db.authority.events.get? eventId,
    ∀ filing ∈ db.filings.get? eventId, _))

instance (identity : SourceIdentity) (eventId : String) :
    Decidable (db.HeadElsewhere identity eventId) :=
  inferInstanceAs (Decidable (∃ head ∈ db.authority.heads.rows, _))

instance (identity : SourceIdentity) (expectedHeadId threadId : Option String) :
    Decidable (db.InsertCovers identity expectedHeadId threadId) :=
  inferInstanceAs (Decidable (∀ old ∈ expectedHeadId, _ ∨ _))

instance (input : InsertEventInput) : Decidable (db.AppendCovers input) :=
  inferInstanceAs (Decidable (db.InsertCovers _ _ _))

instance (decision : ArrangementDecision) : Decidable (db.DecisionCovers decision) :=
  inferInstanceAs (Decidable (∀ event ∈ db.authority.events.get? decision.eventId,
    ∀ filing ∈ db.filings.get? decision.eventId, _))

instance (input : SourceIdentityAliasBind) : Decidable (db.BindCovers input) :=
  inferInstanceAs (Decidable (_ ∨ _ ∨ (∀ filing ∈ db.filings.get? input.eventId, _) ∨
    ∀ item ∈ input.aliases, _))

instance (dispositions : List ArrangementDecision) :
    (appended : Except AuthorityError InboxTables) →
      Decidable (DispositionsCover dispositions appended)
  | .ok appended => inferInstanceAs (Decidable
      (AlongM putDispositionWithinTransaction DecisionCovers appended dispositions))
  | .error _ => isTrue trivial

instance : (op : Op) → Decidable (db.Covers op)
  | .append input => inferInstanceAs (Decidable (db.AppendCovers input))
  | .appendRevision input => inferInstanceAs (Decidable (db.AppendCovers input))
  | .markTombstone input => inferInstanceAs (Decidable (db.InsertCovers
      input.toSourceIdentity input.expectedHeadId input.threadId))
  | .commitIngest request => inferInstanceAs (Decidable
      (AlongM append AppendCovers db request.appends ∧ DispositionsCover _ _))
  | .putDisposition decision => inferInstanceAs (Decidable (db.DecisionCovers decision))
  | .bindSourceIdentityAliases input => inferInstanceAs (Decidable (db.BindCovers input))

/-! ## What a refresh writes -/

variable {db} {db' : InboxTables}

theorem refresh_authority (orgId : String) (threadId : Option String) :
    (db.refreshThreadHeadWithinTransaction orgId threadId).authority = db.authority := by
  unfold refreshThreadHeadWithinTransaction
  split
  · rfl
  · split <;> rfl

/-- The face is computed from the other tables. -/
theorem refresh_computedHead (orgId : String) (threadId : Option String) (org id : String) :
    (db.refreshThreadHeadWithinTransaction orgId threadId).computedHead org id =
      db.computedHead org id := by
  unfold refreshThreadHeadWithinTransaction
  split
  · rfl
  · split <;> rfl

theorem computedHead_key {orgId threadId : String} {head : ThreadHead}
    (h : db.computedHead orgId threadId = some head) : head.toThreadKey = ⟨orgId, threadId⟩ := by
  obtain ⟨event, _, rfl⟩ := Option.map_eq_some_iff.mp h
  rfl

theorem listed_of_named {threadId : Option String} {id : String}
    (h : (threadId.map jsTrim).filter (· ≠ "") = some id) :
    Listed id ∧ threadId.map jsTrim = some id := by
  obtain ⟨hmap, hne⟩ := Option.filter_eq_some_iff.mp h
  obtain ⟨raw, _, rfl⟩ := Option.map_eq_some_iff.mp hmap
  exact ⟨⟨jsTrim_jsTrim raw, by simpa using hne⟩, hmap⟩

theorem named_of_listed {threadId : Option String} {id : String} (hlisted : Listed id)
    (h : threadId.map jsTrim = some id) : (threadId.map jsTrim).filter (· ≠ "") = some id := by
  rw [h]
  simp [hlisted.2]

/-- The row of the named thread becomes the computed one; the other rows stay. -/
theorem refresh_get? {orgId : String} {threadId : Option String} {id : String}
    (h : (threadId.map jsTrim).filter (· ≠ "") = some id) (key : ThreadKey) :
    (db.refreshThreadHeadWithinTransaction orgId threadId).threadHeads.get? key =
      if key = ⟨orgId, id⟩ then db.computedHead orgId id else db.threadHeads.get? key := by
  unfold refreshThreadHeadWithinTransaction
  rw [h]
  simp only
  cases hhead : db.computedHead orgId id with
  | none =>
    simp only
    rw [Table.get?_filter]
    cases hget : db.threadHeads.get? key with
    | none => simp
    | some row =>
      have hkey := (Table.get?_eq_some.mp hget).2
      by_cases hsame : key = ⟨orgId, id⟩
      · simp [hsame, hkey.trans hsame]
      · simp [hsame, hkey]
  | some head =>
    have hkey := computedHead_key hhead
    simp only
    rw [Table.get?_put, hkey]
    by_cases hsame : key = ⟨orgId, id⟩
    · simp [hsame]
    · simp [hsame, Ne.symm hsame]

theorem refresh_none {orgId : String} {threadId : Option String}
    (h : (threadId.map jsTrim).filter (· ≠ "") = none) :
    db.refreshThreadHeadWithinTransaction orgId threadId = db := by
  unfold refreshThreadHeadWithinTransaction
  rw [h]

/-- The rows are current when each is the computed row of its thread. -/
theorem facesCurrent_iff : db.FacesCurrent ↔ ∀ orgId threadId, Listed threadId →
    db.threadHeads.get? ⟨orgId, threadId⟩ = db.computedHead orgId threadId := by
  constructor
  · intro hcurrent orgId threadId hlisted
    have hnamed := @named_of_listed (some threadId) threadId hlisted
      (congrArg some hlisted.1)
    have hrow := hcurrent orgId (some threadId) ⟨orgId, threadId⟩
    rw [refresh_get? hnamed, if_pos rfl] at hrow
    exact hrow.symm
  · intro hrows orgId threadId key
    cases hnamed : (threadId.map jsTrim).filter (· ≠ "") with
    | none => rw [refresh_none hnamed]
    | some id =>
      rw [refresh_get? hnamed]
      split
      · next hkey =>
        rw [hkey]
        exact (hrows orgId id (listed_of_named hnamed).1).symm
      · rfl

/-! ## What the face depends on -/

/-- The tables tell the same of a decided event. -/
structure SameEvent (db db' : InboxTables) (eventId : String) : Prop where
  current : db'.isCurrentHead eventId = db.isCurrentHead eventId
  occurredAt : db'.occurredAt eventId = db.occurredAt eventId
  reasonCodes : db'.reasonCodes eventId = db.reasonCodes eventId
  disposition : db'.authority.dispositions.get? eventId = db.authority.dispositions.get? eventId

structure SameThread (db db' : InboxTables) (orgId threadId : String) : Prop where
  decided : db'.decided orgId threadId = db.decided orgId threadId
  events : ∀ event ∈ db.decided orgId threadId, SameEvent db db' event.id

theorem comesBefore_congr {event other : EventRecord} (h : SameEvent db db' event.id)
    (h' : SameEvent db db' other.id) : db'.comesBefore event other = db.comesBefore event other := by
  unfold comesBefore
  rw [h.current, h'.current, h.occurredAt, h'.occurredAt]

theorem foldl_firstOf_congr (events : List EventRecord) (best : Option EventRecord)
    (hevents : ∀ event ∈ events, SameEvent db db' event.id)
    (hbest : ∀ event ∈ best, SameEvent db db' event.id) :
    events.foldl db'.firstOf best = events.foldl db.firstOf best := by
  induction events generalizing best with
  | nil => rfl
  | cons event rest ih =>
    have hevent := hevents event List.mem_cons_self
    have hfirst : db'.firstOf best event = db.firstOf best event := by
      cases best with
      | none => rfl
      | some found =>
        unfold firstOf
        simp only [comesBefore_congr hevent (hbest found rfl)]
    rw [List.foldl_cons, List.foldl_cons, hfirst]
    apply ih _ fun other hother => hevents other (List.mem_cons_of_mem _ hother)
    intro other hother
    cases best with
    | none =>
      cases hother
      exact hevent
    | some found =>
      change other ∈ (if db.comesBefore event found then some event else some found) at hother
      split at hother
      · cases hother
        exact hevent
      · exact hbest other hother

theorem foldl_firstOf_mem (events : List EventRecord) (best : Option EventRecord)
    {found : EventRecord} (h : events.foldl db.firstOf best = some found) :
    found ∈ events ∨ best = some found := by
  induction events generalizing best with
  | nil => exact Or.inr h
  | cons event rest ih =>
    rw [List.foldl_cons] at h
    rcases ih _ h with hmem | hfirst
    · exact Or.inl (List.mem_cons_of_mem _ hmem)
    · cases best with
      | none =>
        cases hfirst
        exact Or.inl List.mem_cons_self
      | some other =>
        change (if db.comesBefore event other then some event else some other) = some found
          at hfirst
        split at hfirst
        · cases hfirst
          exact Or.inl List.mem_cons_self
        · exact Or.inr hfirst

theorem face_congr {orgId threadId : String} (h : SameThread db db' orgId threadId) :
    db'.face orgId threadId = db.face orgId threadId := by
  have hcandidates : ((db'.decided orgId threadId).filter fun event =>
        event.operation ≠ .tombstone && !isThreadStatus (db'.reasonCodes event.id)) =
      (db.decided orgId threadId).filter fun event =>
        event.operation ≠ .tombstone && !isThreadStatus (db.reasonCodes event.id) := by
    rw [h.decided]
    apply List.filter_congr
    intro event hevent
    rw [(h.events event hevent).reasonCodes]
  unfold face
  rw [hcandidates]
  apply foldl_firstOf_congr
  · intro event hevent
    exact h.events event (List.mem_filter.mp hevent).1
  · intro event hevent
    cases hevent

theorem hasCurrentWork_congr {orgId threadId : String} (h : SameThread db db' orgId threadId) :
    db'.hasCurrentWork orgId threadId = db.hasCurrentWork orgId threadId := by
  unfold hasCurrentWork
  rw [h.decided, Bool.eq_iff_iff]
  simp only [List.any_eq_true]
  constructor
  · rintro ⟨event, hevent, hwork⟩
    have hsame := h.events event hevent
    rw [hsame.disposition, hsame.current] at hwork
    exact ⟨event, hevent, hwork⟩
  · rintro ⟨event, hevent, hwork⟩
    have hsame := h.events event hevent
    rw [← hsame.disposition, ← hsame.current] at hwork
    exact ⟨event, hevent, hwork⟩

theorem computedHead_congr {orgId threadId : String} (h : SameThread db db' orgId threadId) :
    db'.computedHead orgId threadId = db.computedHead orgId threadId := by
  unfold computedHead
  rw [face_congr h, hasCurrentWork_congr h]
  cases hface : db.face orgId threadId with
  | none => rfl
  | some event =>
    have hmem := (foldl_firstOf_mem _ _ hface).resolve_right nofun
    have hsame := h.events event (List.mem_filter.mp hmem).1
    simp only [Option.map_some, hsame.occurredAt]

/-- A write that leaves every listed thread alone but the one that it refreshes. -/
theorem facesCurrent_refresh (hcurrent : db.FacesCurrent)
    (hheads : db'.threadHeads = db.threadHeads) {orgId : String} {threadId : Option String}
    (hsame : ∀ org id, Listed id → (org = orgId → threadId.map jsTrim ≠ some id) →
      SameThread db db' org id) :
    (db'.refreshThreadHeadWithinTransaction orgId threadId).FacesCurrent := by
  rw [facesCurrent_iff] at hcurrent ⊢
  intro org id hlisted
  rw [refresh_computedHead]
  have hkept : (org = orgId → threadId.map jsTrim ≠ some id) →
      db'.threadHeads.get? ⟨org, id⟩ = db'.computedHead org id := by
    intro hother
    rw [hheads, computedHead_congr (hsame org id hlisted hother)]
    exact hcurrent org id hlisted
  cases hnamed : (threadId.map jsTrim).filter (· ≠ "") with
  | none =>
    rw [refresh_none hnamed]
    apply hkept
    intro _ hid
    rw [named_of_listed hlisted hid] at hnamed
    cases hnamed
  | some named =>
    rw [refresh_get? hnamed]
    split
    · next hkey =>
      cases hkey
      rfl
    · next hkey =>
      apply hkept
      rintro rfl hid
      have hid' := (listed_of_named hnamed).2
      rw [hid] at hid'
      cases hid'
      exact hkey rfl

/-! ## Inserts -/

theorem isCurrentHead_iff {eventId : String} : db.isCurrentHead eventId = true ↔
    ∃ identity, db.authority.headId identity = some eventId := by
  unfold isCurrentHead
  rw [List.any_eq_true]
  constructor
  · rintro ⟨head, hmem, hid⟩
    refine ⟨head.identity, ?_⟩
    unfold AuthorityTables.headId
    rw [Table.get?_key hmem, Option.map_some, of_decide_eq_true hid]
  · rintro ⟨identity, hhead⟩
    obtain ⟨head, hget, hid⟩ := Option.map_eq_some_iff.mp hhead
    exact ⟨head, (Table.get?_eq_some.mp hget).1, decide_eq_true hid⟩

theorem headId_of_elsewhere {identity : SourceIdentity} {eventId : String}
    (h : db.HeadElsewhere identity eventId) :
    ∃ other, identity ≠ other ∧ db.authority.headId other = some eventId := by
  obtain ⟨head, hmem, hne, hid⟩ := h
  refine ⟨head.identity, hne.symm, ?_⟩
  unfold AuthorityTables.headId
  rw [Table.get?_key hmem, Option.map_some, hid]

theorem mem_decided {orgId threadId : String} {event : EventRecord} :
    event ∈ db.decided orgId threadId ↔ event ∈ db.authority.events.rows ∧ event.orgId = orgId ∧
      (∃ filing ∈ db.filings.get? event.id, filing.threadId = threadId) ∧
      (db.authority.dispositions.get? event.id).isSome = true := by
  unfold decided
  rw [List.mem_filter]
  simp [Option.any_eq_true, and_assoc]

/-- What an insert has filed before it refreshes. -/
structure FiledAs (db : InboxTables) (input : InsertEventInput) (filed : InboxTables) : Prop where
  inserted : AuthorityTables.Inserted db.authority input.toInsertEventInput filed.authority
  filings : filed.filings = db.filings.put (filingOf input)
  reasons : filed.reasons = db.reasons
  threadHeads : filed.threadHeads = db.threadHeads

theorem insert_ok {input : InsertEventInput} (h : db.insert input = .ok db') :
    ∃ filed, FiledAs db input filed ∧
      db' = filed.refreshThreadHeadWithinTransaction input.orgId input.threadId := by
  unfold insert insertWithinTransaction at h
  cases hinsert : db.authority.insertWithinTransaction input.toInsertEventInput with
  | error error =>
    rw [hinsert] at h
    cases h
  | ok result =>
    obtain ⟨authority, event⟩ := result
    rw [hinsert] at h
    obtain ⟨hinserted, rfl⟩ := AuthorityTables.insertWithinTransaction_ok db.authority hinsert
    cases h
    exact ⟨{ db with authority, filings := db.filings.put (filingOf input) },
      ⟨hinserted, rfl, rfl, rfl⟩, rfl⟩

section Filed

variable {input : InsertEventInput} {filed : InboxTables}

theorem FiledAs.known (h : FiledAs db input filed) (hknown : db.Known) : filed.Known := by
  intro id hid
  rw [h.inserted.dispositions] at hid
  rw [h.inserted.events]
  split
  · rfl
  · exact hknown id hid

/-- The new event has no decision yet. -/
theorem FiledAs.undecided (h : FiledAs db input filed) (hknown : db.Known) :
    db.authority.dispositions.get? input.id = none := by
  cases hget : db.authority.dispositions.get? input.id with
  | none => rfl
  | some decision =>
    have hevent := hknown input.id (by rw [hget]; rfl)
    rw [h.inserted.fresh] at hevent
    cases hevent

theorem FiledAs.filing (h : FiledAs db input filed) {id : String} (hne : input.id ≠ id) :
    filed.filings.get? id = db.filings.get? id := by
  rw [h.filings, Table.get?_put]
  exact if_neg hne

theorem FiledAs.ne_of_mem (h : FiledAs db input filed) {event : EventRecord}
    (hmem : event ∈ db.authority.events.rows) : input.id ≠ event.id := by
  intro hid
  have hfresh := h.inserted.fresh
  rw [hid, Table.get?_key hmem] at hfresh
  cases hfresh

theorem FiledAs.decided (h : FiledAs db input filed) (hknown : db.Known)
    (orgId threadId : String) : filed.decided orgId threadId = db.decided orgId threadId := by
  have hnew : ((filed.authority.dispositions.get? input.id).isSome) = false := by
    rw [h.inserted.dispositions, h.undecided hknown]
    rfl
  unfold InboxTables.decided
  rw [h.inserted.rows, List.filter_append]
  simp only [List.filter_cons, Ingest.InsertEventInput.toEvent_id, hnew, Bool.and_false,
    Bool.false_eq_true, if_false, List.filter_nil, List.append_nil]
  apply List.filter_congr
  intro event hevent
  rw [h.filing (h.ne_of_mem hevent), h.inserted.dispositions]

theorem FiledAs.isCurrentHead (h : FiledAs db input filed) {id : String} (hne : input.id ≠ id)
    (hkept : input.expectedHeadId = some id → db.HeadElsewhere input.toSourceIdentity id) :
    filed.isCurrentHead id = db.isCurrentHead id := by
  rw [Bool.eq_iff_iff, isCurrentHead_iff, isCurrentHead_iff]
  constructor
  · rintro ⟨identity, hhead⟩
    rw [h.inserted.heads] at hhead
    split at hhead
    · exact absurd (Option.some.inj hhead) hne
    · exact ⟨identity, hhead⟩
  · rintro ⟨identity, hhead⟩
    by_cases hown : input.toSourceIdentity = identity
    · -- The head that the insert takes the place of.
      subst hown
      have hexpected := h.inserted.expected.symm.trans hhead
      obtain ⟨other, hother, helsewhere⟩ := headId_of_elsewhere (hkept hexpected)
      refine ⟨other, ?_⟩
      rw [h.inserted.heads, if_neg hother]
      exact helsewhere
    · refine ⟨identity, ?_⟩
      rw [h.inserted.heads, if_neg hown]
      exact hhead

theorem FiledAs.sameThread (h : FiledAs db input filed) (hknown : db.Known)
    (hcovers : db.AppendCovers input) {org id : String} (hlisted : Listed id)
    (hother : org = input.orgId → input.threadId.map jsTrim ≠ some id) :
    SameThread db filed org id where
  decided := h.decided hknown org id
  events := by
    intro event hevent
    obtain ⟨hmem, horg, ⟨filing, hfiling, hthread⟩, hdecided⟩ := mem_decided.mp hevent
    have hne := h.ne_of_mem hmem
    have hkept : input.expectedHeadId = some event.id →
        db.HeadElsewhere input.toSourceIdentity event.id := by
      intro hexpected
      rcases hcovers event.id hexpected with helsewhere | hrefreshed
      · exact helsewhere
      · obtain ⟨hsame, hnamed⟩ := hrefreshed hdecided event (Table.get?_key hmem) filing hfiling
          (by rw [hthread]; exact hlisted)
        rw [hthread] at hnamed
        exact absurd hnamed (hother (horg.symm.trans hsame))
    refine ⟨h.isCurrentHead hne hkept, ?_, ?_, ?_⟩
    · unfold occurredAt
      rw [h.filing hne]
    · unfold reasonCodes
      rw [h.reasons]
    · rw [h.inserted.dispositions]

end Filed

/-- Rows that are current over decisions that are about known events. -/
structure Current (db : InboxTables) : Prop where
  known : db.Known
  faces : db.FacesCurrent

theorem refresh_known {orgId : String} {threadId : Option String} (h : db.Known) :
    (db.refreshThreadHeadWithinTransaction orgId threadId).Known := by
  intro id hid
  rw [refresh_authority] at hid ⊢
  exact h id hid

theorem insert_current {input : InsertEventInput} (hcurrent : db.Current)
    (hcovers : db.AppendCovers input) (h : db.insert input = .ok db') : db'.Current := by
  obtain ⟨filed, hfiled, rfl⟩ := insert_ok h
  refine ⟨refresh_known (hfiled.known hcurrent.known), ?_⟩
  apply facesCurrent_refresh hcurrent.faces hfiled.threadHeads
  intro org id hlisted hother
  exact hfiled.sameThread hcurrent.known hcovers hlisted hother

/-! ## Decisions and binds -/

/-- What a decision has put before it refreshes. -/
structure DecidedAs (db : InboxTables) (decision : ArrangementDecision) (put : InboxTables) :
    Prop where
  event : (db.authority.events.get? decision.eventId).isSome = true
  events : put.authority.events = db.authority.events
  heads : put.authority.heads = db.authority.heads
  dispositions : put.authority.dispositions =
    db.authority.dispositions.put decision.toArrangementDecision
  filings : put.filings = db.filings
  reasons : put.reasons = db.reasons.put ⟨decision.eventId, decision.reasonCodes⟩
  threadHeads : put.threadHeads = db.threadHeads

theorem putDisposition_ok {decision : ArrangementDecision}
    (h : db.putDispositionWithinTransaction decision = .ok db') :
    ∃ put, DecidedAs db decision put ∧
      db' = put.refreshThreadHeadWithinTransaction decision.orgId
        ((db.filings.get? decision.eventId).map (·.threadId)) := by
  unfold putDispositionWithinTransaction at h
  cases hput : db.authority.putDispositionWithinTransaction decision.toArrangementDecision with
  | error error =>
    rw [hput] at h
    cases h
  | ok authority =>
    rw [hput] at h
    cases h
    unfold AuthorityTables.putDispositionWithinTransaction at hput
    split at hput
    · next hknown =>
      cases hput
      refine ⟨{ db with
        authority := { db.authority with
          dispositions := db.authority.dispositions.put decision.toArrangementDecision }
        reasons := db.reasons.put ⟨decision.eventId, decision.reasonCodes⟩ },
        ⟨?_, rfl, rfl, rfl, rfl, rfl, rfl⟩, rfl⟩
      simpa [AuthorityTables.references] using hknown
    · cases hput

section Decided

variable {decision : ArrangementDecision} {put : InboxTables}

theorem DecidedAs.disposition (h : DecidedAs db decision put) {id : String}
    (hne : decision.eventId ≠ id) :
    put.authority.dispositions.get? id = db.authority.dispositions.get? id := by
  rw [h.dispositions, Table.get?_put]
  exact if_neg hne

theorem DecidedAs.known (h : DecidedAs db decision put) (hknown : db.Known) : put.Known := by
  intro id hid
  rw [h.events]
  by_cases hsame : decision.eventId = id
  · rw [← hsame]
    exact h.event
  · rw [h.disposition hsame] at hid
    exact hknown id hid

/-- The decided event is in no other thread than the refreshed one. -/
theorem DecidedAs.ne_of_thread (hcovers : db.DecisionCovers decision) {org id : String}
    (hlisted : Listed id)
    (hother : org = decision.orgId →
      ((db.filings.get? decision.eventId).map (·.threadId)).map jsTrim ≠ some id)
    {event : EventRecord} (hmem : event ∈ db.authority.events.rows) (horg : event.orgId = org)
    (hfiling : ∃ filing ∈ db.filings.get? event.id, filing.threadId = id) :
    decision.eventId ≠ event.id := by
  intro hsame
  obtain ⟨filing, hfiling, rfl⟩ := hfiling
  rw [← hsame] at hfiling
  have hevent : event ∈ db.authority.events.get? decision.eventId := by
    rw [hsame]
    exact Table.get?_key hmem
  have hcovered := hcovers event hevent filing hfiling hlisted
  apply hother (horg.symm.trans hcovered)
  rw [show db.filings.get? decision.eventId = some filing from hfiling, Option.map_some,
    Option.map_some, hlisted.1]

theorem DecidedAs.sameThread (h : DecidedAs db decision put)
    (hcovers : db.DecisionCovers decision) {org id : String} (hlisted : Listed id)
    (hother : org = decision.orgId →
      ((db.filings.get? decision.eventId).map (·.threadId)).map jsTrim ≠ some id) :
    SameThread db put org id where
  decided := by
    unfold InboxTables.decided
    rw [h.events, h.filings]
    apply List.filter_congr
    intro event hmem
    by_cases hthread : event.orgId = org ∧ ∃ filing ∈ db.filings.get? event.id, filing.threadId = id
    · rw [h.disposition (DecidedAs.ne_of_thread hcovers hlisted hother hmem hthread.1 hthread.2)]
    · rw [not_and_or] at hthread
      rcases hthread with horg | hfiling
      · simp [horg]
      · have hnone : (db.filings.get? event.id).any (·.threadId = id) = false := by
          simpa [Option.any_eq_false] using hfiling
        simp [hnone]
  events := by
    intro event hevent
    obtain ⟨hmem, horg, hfiling, _⟩ := mem_decided.mp hevent
    have hne := DecidedAs.ne_of_thread hcovers hlisted hother hmem horg hfiling
    refine ⟨?_, ?_, ?_, h.disposition hne⟩
    · unfold InboxTables.isCurrentHead
      rw [h.heads]
    · unfold InboxTables.occurredAt
      rw [h.filings]
    · unfold InboxTables.reasonCodes
      rw [h.reasons, Table.get?_put, if_neg hne]

end Decided

theorem putDisposition_current {decision : ArrangementDecision} (hcurrent : db.Current)
    (hcovers : db.DecisionCovers decision)
    (h : db.putDispositionWithinTransaction decision = .ok db') : db'.Current := by
  obtain ⟨put, hdecided, rfl⟩ := putDisposition_ok h
  refine ⟨refresh_known (hdecided.known hcurrent.known), ?_⟩
  apply facesCurrent_refresh hcurrent.faces hdecided.threadHeads
  intro org id hlisted hother
  exact hdecided.sameThread hcovers hlisted hother

/-- The authority tables that a bind leaves. -/
abbrev boundAuthority (db : InboxTables) (input : SourceIdentityAliasBind) : AuthorityTables :=
  input.aliases.foldl (AuthorityTables.bindAlias input.orgId input.eventId) db.authority

theorem bind_ok {input : SourceIdentityAliasBind} (h : db.bindSourceIdentityAliases input = .ok db') :
    db' = { db with authority := db.boundAuthority input } := by
  unfold bindSourceIdentityAliases AuthorityTables.bindSourceIdentityAliases at h
  cases hevent : db.authority.getEvent input.orgId input.eventId with
  | none =>
    rw [hevent] at h
    cases h
  | some event =>
    rw [hevent] at h
    cases h
    rfl

section Bound

variable {input : SourceIdentityAliasBind} {authority : AuthorityTables}

theorem bound_isCurrentHead (h : BindsOnly db.authority input.eventId authority) {id : String}
    (hkept : id = input.eventId → db.isCurrentHead id = true) :
    ({ db with authority } : InboxTables).isCurrentHead id = db.isCurrentHead id := by
  rw [Bool.eq_iff_iff]
  constructor
  · intro hcurrent
    obtain ⟨identity, hhead⟩ := isCurrentHead_iff.mp hcurrent
    rcases h.heads identity with hsame | ⟨_, hbound⟩
    · exact isCurrentHead_iff.mpr ⟨identity, hsame.symm.trans hhead⟩
    · exact hkept (Option.some.inj (hhead.symm.trans hbound))
  · intro hcurrent
    obtain ⟨identity, hhead⟩ := isCurrentHead_iff.mp hcurrent
    rcases h.heads identity with hsame | ⟨hnone, _⟩
    · exact isCurrentHead_iff.mpr ⟨identity, hsame.trans hhead⟩
    · rw [hnone] at hhead
      cases hhead

theorem bound_sameThread (h : BindsOnly db.authority input.eventId authority)
    (hcovers : ∀ filing ∈ db.filings.get? input.eventId, Listed filing.threadId →
      (db.authority.dispositions.get? input.eventId).isSome = true →
        db.isCurrentHead input.eventId = true)
    {org id : String} (hlisted : Listed id) :
    SameThread db { db with authority } org id where
  decided := by
    unfold decided
    simp only [h.events, h.dispositions]
  events := by
    intro event hevent
    obtain ⟨_, _, ⟨filing, hfiling, rfl⟩, hdecided⟩ := mem_decided.mp hevent
    refine ⟨?_, rfl, rfl, ?_⟩
    · apply bound_isCurrentHead h
      intro hsame
      rw [hsame] at hfiling hdecided ⊢
      exact hcovers filing hfiling hlisted hdecided
    · simp only [h.dispositions]

end Bound

/-- A bind refreshes nothing. -/
theorem bind_current {input : SourceIdentityAliasBind} (hcurrent : db.Current)
    (hcovers : db.BindCovers input) (h : db.bindSourceIdentityAliases input = .ok db') :
    db'.Current := by
  have hbinds := foldl_bindAlias_bindsOnly input.orgId input.eventId input.aliases db.authority
  rw [bind_ok h]
  refine ⟨?_, ?_⟩
  · intro id hid
    rw [hbinds.dispositions] at hid
    rw [hbinds.events]
    exact hcurrent.known id hid
  · -- Either no row is written, or the event gains no face.
    have hkept : (∀ filing ∈ db.filings.get? input.eventId, Listed filing.threadId →
          (db.authority.dispositions.get? input.eventId).isSome = true →
            db.isCurrentHead input.eventId = true) ∨
        db.boundAuthority input = db.authority := by
      rcases hcovers with hhead | hundecided | hunlisted | htaken
      · exact Or.inl fun _ _ _ _ => hhead
      · apply Or.inl
        intro _ _ _ hdecided
        rw [hundecided] at hdecided
        cases hdecided
      · exact Or.inl fun filing hfiling hlisted _ => absurd hlisted (hunlisted filing hfiling)
      · exact Or.inr (foldl_bindAlias_taken htaken)
    rcases hkept with hkept | hsame
    · rw [facesCurrent_iff]
      intro org id hlisted
      rw [computedHead_congr (bound_sameThread hbinds hkept hlisted)]
      exact facesCurrent_iff.mp hcurrent.faces org id hlisted
    · rw [hsame]
      exact hcurrent.faces

/-! ## Every run -/

theorem commitIngest_current {request : IngestCommitRequest} (hcurrent : db.Current)
    (hcovers : db.Covers (.commitIngest request))
    (h : db.commitIngestUnlocked request = .ok db') : db'.Current := by
  obtain ⟨happends, hdecisions⟩ := hcovers
  unfold commitIngestUnlocked at h
  cases hfold : request.appends.foldlM append db with
  | error error =>
    rw [hfold] at h
    cases h
  | ok appended =>
    rw [hfold] at h hdecisions
    have happended : appended.Current := by
      apply alongM_invariant Current ?_ request.appends db appended hcurrent happends hfold
      intro db input db' hcurrent hcovers hok
      exact @insert_current db db' { input with operation := .create } hcurrent hcovers hok
    apply alongM_invariant Current ?_ request.dispositions appended db' happended hdecisions h
    intro db decision db' hcurrent hcovers hok
    exact putDisposition_current hcurrent hcovers hok

theorem apply_current {op : Op} (hcurrent : db.Current) (hcovers : db.Covers op)
    (h : db.apply op = some db') : db'.Current := by
  have hok : ∀ {ε : Type} {r : Except ε InboxTables}, r.toOption = some db' → r = .ok db' := by
    intro ε r hr
    cases r with
    | ok a =>
      cases hr
      rfl
    | error e => cases hr
  cases op with
  | append input =>
    exact @insert_current db db' { input with operation := .create } hcurrent hcovers (hok h)
  | appendRevision input =>
    exact @insert_current db db' { input with operation := .revise } hcurrent hcovers (hok h)
  | markTombstone input =>
    have hinsert := hok h
    unfold markTombstone at hinsert
    exact insert_current hcurrent (by exact hcovers) hinsert
  | commitIngest request => exact commitIngest_current hcurrent hcovers (hok h)
  | putDisposition decision => exact putDisposition_current hcurrent hcovers (hok h)
  | bindSourceIdentityAliases input => exact bind_current hcurrent hcovers (hok h)

theorem step_current {op : Op} (hcurrent : db.Current) (hcovers : db.Covers op) :
    (db.step op).Current := by
  unfold step
  cases happly : db.apply op with
  | none => exact hcurrent
  | some db' => exact apply_current hcurrent hcovers happly

theorem current_empty : ({} : InboxTables).Current where
  known _ h := nomatch h
  faces := by
    rw [facesCurrent_iff]
    intro orgId threadId _
    rfl

/-- The faces are current after every run whose writes refresh the threads that they move. -/
theorem facesCurrent_run (db : InboxTables) (hcurrent : db.Current) (ops : List Op)
    (hcovers : Along step Covers db ops) : (run step db ops).FacesCurrent :=
  (along_invariant step Current (fun _ _ => step_current) db hcurrent ops hcovers).faces

section Room

/-- A message of a room, decided as current work, and its revision. -/
def roomMessage : InsertEventInput :=
  { orgId := "acme", source := "dsh", externalId := "room:1", id := "a", operation := .create
    expectedHeadId := none, threadId := some "dsh:room", occurredAt := "1" }

def roomWork : ArrangementDecision :=
  { eventId := "a", orgId := "acme", disposition := .currentWork }

def roomRevision (threadId : Option String) : InsertEventInput :=
  { orgId := "acme", source := "dsh", externalId := "room:1", id := "b", operation := .revise
    expectedHeadId := some "a", threadId, occurredAt := "2" }

def roomRun (threadId : Option String) : List Op :=
  [.append roomMessage, .putDisposition roomWork, .appendRevision (roomRevision threadId)]

theorem facesCurrent_named : (run step {} (roomRun (some "dsh:room"))).FacesCurrent :=
  facesCurrent_run {} current_empty _ (by decide +kernel)

/-- The revision is filed under the derived thread id and refreshes no thread: its row still
tells of current work. -/
theorem facesCurrent_derived : ¬ (run step {} (roomRun none)).FacesCurrent := by
  intro hcurrent
  have hrow := facesCurrent_iff.mp hcurrent "acme" "dsh:room" (by decide +kernel)
  revert hrow
  decide +kernel

end Room

end InboxTables

end Regenic.Inbox
