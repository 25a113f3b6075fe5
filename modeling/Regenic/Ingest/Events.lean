import Regenic.Ingest.Contracts
import Regenic.Lib.Table

/-!
The event tables of the SQLite authority store. An event is written together with the
media type of its content and the head of its source identity; the head moves by
compare-and-swap, and a write that loses leaves the tables as they were.
-/

namespace Regenic.Ingest

open Lib

inductive IngestOperation where
  | create
  | revise
  | tombstone
  deriving DecidableEq, Repr

structure SourceIdentity where
  orgId : String
  source : String
  externalId : String
  deriving DecidableEq, Repr

structure EventRecord extends SourceIdentity where
  id : String
  operation : IngestOperation
  contentHash : Option String := none
  parentEventId : Option String := none
  deriving DecidableEq, Repr

structure BlobMetaInput where
  contentHash : String
  mediaType : String
  byteSize : Nat
  deriving DecidableEq, Repr

structure BlobRecord where
  contentHash : String
  mediaType : String
  byteSize : Nat
  deriving DecidableEq, Repr

structure InsertEventInput extends SourceIdentity where
  id : String
  operation : IngestOperation
  contentHash : Option String := none
  contentMediaType : Option String := none
  contentByteSize : Option Nat := none
  extraBlobs : List BlobMetaInput := []
  parentEventId : Option String := none
  expectedHeadId : Option String
  deriving DecidableEq, Repr

structure SourceHead where
  identity : SourceIdentity
  currentEventId : String
  deriving DecidableEq, Repr

inductive MessageDisposition where
  | currentWork
  | outsideCurrentWork
  | pending
  deriving DecidableEq, Repr

structure ArrangementDecision where
  eventId : String
  orgId : String
  disposition : MessageDisposition
  deriving DecidableEq, Repr

structure IngestCommitRequest where
  appends : List InsertEventInput := []
  dispositions : List ArrangementDecision := []
  deriving DecidableEq, Repr

structure AuthorityTables where
  events : Table EventRecord.id := ∅
  heads : Table SourceHead.identity := ∅
  blobs : Table BlobRecord.contentHash := ∅
  dispositions : Table ArrangementDecision.eventId := ∅

/-- `conflict` is the `AuthorityConflictError` of a lost compare-and-swap. -/
inductive AuthorityError where
  | conflict
  | failed (message : String)
  deriving DecidableEq, Repr

def InsertEventInput.toEvent (input : InsertEventInput) : EventRecord where
  toSourceIdentity := input.toSourceIdentity
  id := input.id
  operation := input.operation
  contentHash := input.contentHash
  parentEventId := input.parentEventId

@[simp] theorem InsertEventInput.toEvent_id (input : InsertEventInput) :
    input.toEvent.id = input.id := rfl

namespace AuthorityTables

variable (db : AuthorityTables)

def headId (identity : SourceIdentity) : Option String :=
  (db.heads.get? identity).map (·.currentEventId)

/-- `findCurrent`: the head joined with its event. -/
def findBySourceIdentity (identity : SourceIdentity) : Option EventRecord :=
  (db.headId identity).bind db.events.get?

def findBlob (contentHash : String) : Option BlobRecord :=
  if contentHash = "" then none else db.blobs.get? contentHash

def insertBlobRow (contentHash : String) (mediaType : Option String) (byteSize : Option Nat) :
    AuthorityTables :=
  if free : db.blobs.get? contentHash = none then
    let row : BlobRecord :=
      { contentHash
        mediaType := mediaType.getD "application/octet-stream"
        byteSize := byteSize.getD 0 }
    { db with blobs := db.blobs.insert row free }
  else db

def insertBlobMeta (blob : BlobMetaInput) : AuthorityTables :=
  db.insertBlobRow blob.contentHash (some blob.mediaType) (some blob.byteSize)

/-- The media types an event registers: its content's, then its sidecars'. -/
def registerBlobs (input : InsertEventInput) : AuthorityTables :=
  let content := match input.contentHash with
    | some hash =>
      if hash = "" then db
      else db.insertBlobRow hash input.contentMediaType input.contentByteSize
    | none => db
  input.extraBlobs.foldl insertBlobMeta content

/-- `INSERT OR IGNORE` when no head is expected, else `UPDATE … WHERE current_event_id = ?`;
none when no row changed. -/
def moveHead (identity : SourceIdentity) (expected : Option String) (id : String) :
    Option (Table SourceHead.identity) :=
  match expected with
  | none =>
    if free : db.heads.get? identity = none then
      some (db.heads.insert { identity, currentEventId := id } free)
    else none
  | some head =>
    if db.headId identity = some head then
      some (db.heads.update identity (fun row => { row with currentEventId := id })
        fun _ => rfl)
    else none

def references (db : AuthorityTables) (eventId : Option String) : Bool :=
  eventId.all fun id => (db.events.get? id).isSome

def foreignKeyFailed : String := "FOREIGN KEY constraint failed"

def insertWithinTransaction (input : InsertEventInput) :
    Except AuthorityError (AuthorityTables × EventRecord) :=
  let registered := db.registerBlobs input
  let event := input.toEvent
  if free : registered.events.get? event.id = none then
    if event.contentHash.any fun hash => (registered.blobs.get? hash).isNone then
      .error (.failed foreignKeyFailed)
    else if ¬ registered.references event.parentEventId then
      .error (.failed foreignKeyFailed)
    else
      match registered.moveHead input.toSourceIdentity input.expectedHeadId event.id with
      | some heads =>
        .ok ({ registered with events := registered.events.insert event free, heads }, event)
      | none => .error .conflict
  else .error (.failed "UNIQUE constraint failed: events.id")

def append (input : InsertEventInput) : Except AuthorityError (AuthorityTables × EventRecord) :=
  db.insertWithinTransaction { input with operation := .create }

def appendRevision (input : InsertEventInput) :
    Except AuthorityError (AuthorityTables × EventRecord) :=
  db.insertWithinTransaction { input with operation := .revise }

structure TombstoneEvent extends SourceIdentity where
  id : String
  expectedHeadId : Option String
  deriving DecidableEq, Repr

/-- A tombstone keeps the content hash of the head it deletes, as its child. -/
def markTombstone (input : TombstoneEvent) :
    Except AuthorityError (AuthorityTables × EventRecord) :=
  let current := db.findBySourceIdentity input.toSourceIdentity
  db.insertWithinTransaction
    { toSourceIdentity := input.toSourceIdentity
      id := input.id
      operation := .tombstone
      contentHash := current.bind (·.contentHash)
      parentEventId := current.map (·.id)
      expectedHeadId := input.expectedHeadId }

def putDispositionWithinTransaction (decision : ArrangementDecision) :
    Except AuthorityError AuthorityTables :=
  if db.references (some decision.eventId) then
    .ok { db with dispositions := db.dispositions.put decision }
  else .error (.failed foreignKeyFailed)

def appendCreate (input : InsertEventInput) : Except AuthorityError AuthorityTables :=
  (db.append input).map Prod.fst

def commitIngestUnlocked (request : IngestCommitRequest) :
    Except AuthorityError AuthorityTables := do
  let appended ← request.appends.foldlM appendCreate db
  request.dispositions.foldlM putDispositionWithinTransaction appended

/-! ## What one insert does -/

@[simp] theorem insertBlobRow_events (hash : String) (mediaType : Option String)
    (byteSize : Option Nat) : (db.insertBlobRow hash mediaType byteSize).events = db.events := by
  unfold insertBlobRow
  split <;> rfl

@[simp] theorem insertBlobRow_heads (hash : String) (mediaType : Option String)
    (byteSize : Option Nat) : (db.insertBlobRow hash mediaType byteSize).heads = db.heads := by
  unfold insertBlobRow
  split <;> rfl

@[simp] theorem insertBlobRow_dispositions (hash : String) (mediaType : Option String)
    (byteSize : Option Nat) :
    (db.insertBlobRow hash mediaType byteSize).dispositions = db.dispositions := by
  unfold insertBlobRow
  split <;> rfl

/-- `INSERT OR IGNORE`: the first media type registered for a hash stays. -/
theorem get?_insertBlobRow (hash : String) (mediaType : Option String) (byteSize : Option Nat)
    (k : String) :
    (db.insertBlobRow hash mediaType byteSize).blobs.get? k =
      (db.blobs.get? k <|> if hash = k then
        some ⟨hash, mediaType.getD "application/octet-stream", byteSize.getD 0⟩ else none) := by
  unfold insertBlobRow
  split
  · next free =>
    rw [Table.get?_insert]
    by_cases hk : hash = k
    · subst hk
      simp [free]
    · simp [hk]
  · next taken =>
    by_cases hk : hash = k
    · subst hk
      obtain ⟨row, hrow⟩ := Option.ne_none_iff_exists'.mp taken
      simp [hrow]
    · simp [hk]

/-- Registering blobs writes the blob table only, and only under free hashes. -/
structure RegistersOnly (db db' : AuthorityTables) : Prop where
  events : db'.events = db.events
  heads : db'.heads = db.heads
  dispositions : db'.dispositions = db.dispositions
  blobs : ∀ hash row, db.blobs.get? hash = some row → db'.blobs.get? hash = some row

theorem RegistersOnly.refl : RegistersOnly db db := ⟨rfl, rfl, rfl, fun _ _ h => h⟩

theorem RegistersOnly.trans {db db' db'' : AuthorityTables} (h : RegistersOnly db db')
    (h' : RegistersOnly db' db'') : RegistersOnly db db'' where
  events := h'.events.trans h.events
  heads := h'.heads.trans h.heads
  dispositions := h'.dispositions.trans h.dispositions
  blobs hash row hrow := h'.blobs hash row (h.blobs hash row hrow)

theorem insertBlobRow_registersOnly (hash : String) (mediaType : Option String)
    (byteSize : Option Nat) : RegistersOnly db (db.insertBlobRow hash mediaType byteSize) where
  events := insertBlobRow_events db hash mediaType byteSize
  heads := insertBlobRow_heads db hash mediaType byteSize
  dispositions := insertBlobRow_dispositions db hash mediaType byteSize
  blobs k row hrow := by
    rw [get?_insertBlobRow, hrow]
    rfl

theorem foldl_insertBlobMeta_registersOnly (blobs : List BlobMetaInput) :
    RegistersOnly db (blobs.foldl insertBlobMeta db) := by
  induction blobs generalizing db with
  | nil => exact RegistersOnly.refl db
  | cons blob rest ih => exact (insertBlobRow_registersOnly db _ _ _).trans (ih _)

theorem registerBlobs_registersOnly (input : InsertEventInput) :
    RegistersOnly db (db.registerBlobs input) := by
  unfold registerBlobs
  refine RegistersOnly.trans ?_ (foldl_insertBlobMeta_registersOnly _ _)
  split
  · split
    · exact RegistersOnly.refl db
    · exact insertBlobRow_registersOnly db _ _ _
  · exact RegistersOnly.refl db

@[simp] theorem registerBlobs_events (input : InsertEventInput) :
    (db.registerBlobs input).events = db.events :=
  (registerBlobs_registersOnly db input).events

@[simp] theorem registerBlobs_heads (input : InsertEventInput) :
    (db.registerBlobs input).heads = db.heads :=
  (registerBlobs_registersOnly db input).heads

@[simp] theorem registerBlobs_headId (input : InsertEventInput) (identity : SourceIdentity) :
    (db.registerBlobs input).headId identity = db.headId identity := by
  simp [headId]

theorem moveHead_eq_some {identity : SourceIdentity} {expected : Option String} {id : String}
    {heads : Table SourceHead.identity} (h : db.moveHead identity expected id = some heads) :
    db.headId identity = expected ∧ ∀ other, heads.get? other =
      if identity = other then some ⟨identity, id⟩ else db.heads.get? other := by
  cases expected with
  | none =>
    simp only [moveHead] at h
    split at h
    · next free =>
      cases h
      have hhead : db.headId identity = none := by simp [headId, free]
      exact ⟨hhead, fun other => Table.get?_insert db.heads _ free other⟩
    · cases h
  | some head =>
    simp only [moveHead] at h
    split at h
    · next hhead =>
      cases h
      refine ⟨hhead, fun other => ?_⟩
      rw [Table.get?_update]
      obtain ⟨row, hrow, _⟩ := Option.map_eq_some_iff.mp hhead
      have hkey := (Table.get?_eq_some.mp hrow).2
      by_cases hother : identity = other
      · subst hother
        simp [hrow, hkey]
      · simp [hother, Ne.symm hother]
    · cases h

theorem moveHead_isSome (identity : SourceIdentity) (expected : Option String) (id : String)
    (h : db.headId identity = expected) : (db.moveHead identity expected id).isSome := by
  cases expected with
  | none =>
    have hfree : db.heads.get? identity = none := by simpa [headId] using h
    simp [moveHead, hfree]
  | some head => simp [moveHead, h]

/-- What a successful insert has checked and what it leaves. -/
structure Inserted (db : AuthorityTables) (input : InsertEventInput) (db' : AuthorityTables) :
    Prop where
  fresh : db.events.get? input.id = none
  expected : db.headId input.toSourceIdentity = input.expectedHeadId
  content : ∀ hash, input.contentHash = some hash → (db'.blobs.get? hash).isSome
  events : ∀ id, db'.events.get? id =
    if input.id = id then some input.toEvent else db.events.get? id
  rows : db'.events.rows = db.events.rows ++ [input.toEvent]
  heads : ∀ identity, db'.headId identity =
    if input.toSourceIdentity = identity then some input.id else db.headId identity
  blobs : db'.blobs = (db.registerBlobs input).blobs
  dispositions : db'.dispositions = db.dispositions

theorem insertWithinTransaction_ok {input : InsertEventInput} {db' : AuthorityTables}
    {event : EventRecord} (h : db.insertWithinTransaction input = .ok (db', event)) :
    Inserted db input db' ∧ event = input.toEvent := by
  unfold insertWithinTransaction at h
  simp only at h
  split at h
  · next free =>
    split at h
    · cases h
    · next hcontent =>
      split at h
      · cases h
      · split at h
        · next heads hheads =>
          cases h
          obtain ⟨hexpected, hget⟩ := moveHead_eq_some (db.registerBlobs input) hheads
          have hfree : db.events.get? input.id = none := by simpa using free
          have hevents : ∀ id, ((db.registerBlobs input).events.insert input.toEvent free).get? id
              = if input.id = id then some input.toEvent else db.events.get? id := by
            intro id
            rw [Table.get?_insert, registerBlobs_events]
            rfl
          refine ⟨{
            fresh := hfree
            expected := by simpa using hexpected
            content := ?_
            events := hevents
            rows := by simp
            heads := ?_
            blobs := rfl
            dispositions := (registerBlobs_registersOnly db input).dispositions }, rfl⟩
          · intro hash hhash
            have hevent : input.toEvent.contentHash = some hash := hhash
            simp only [hevent, Option.any_some, Bool.not_eq_true, Option.isNone_eq_false_iff]
              at hcontent
            exact hcontent
          · intro identity
            simp only [headId, hget]
            split
            · rfl
            · simp
        · cases h
  · cases h

/-- An insert with a fresh id, registered content, a known parent and the right head
goes through. -/
theorem insertWithinTransaction_isOk {input : InsertEventInput}
    (hfresh : db.events.get? input.id = none)
    (hcontent : input.contentHash.all fun hash =>
      ((db.registerBlobs input).blobs.get? hash).isSome)
    (hparent : db.references input.parentEventId)
    (hexpected : db.headId input.toSourceIdentity = input.expectedHeadId) :
    ∃ db', db.insertWithinTransaction input = .ok (db', input.toEvent) := by
  have hfree : (db.registerBlobs input).events.get? input.toEvent.id = none := by
    simpa using hfresh
  have hmissing : ¬ (input.toEvent.contentHash.any fun hash =>
      ((db.registerBlobs input).blobs.get? hash).isNone) = true := by
    change ¬ (input.contentHash.any fun hash => _) = true
    cases hhash : input.contentHash with
    | none => simp
    | some hash =>
      rw [hhash] at hcontent
      simpa [Option.isSome_iff_ne_none] using hcontent
  have hknown : (db.registerBlobs input).references input.toEvent.parentEventId = true := by
    simpa [references, InsertEventInput.toEvent] using hparent
  have hmoved := moveHead_isSome (db.registerBlobs input) input.toSourceIdentity
    input.expectedHeadId input.toEvent.id (by simpa using hexpected)
  obtain ⟨heads, hheads⟩ := Option.isSome_iff_exists.mp hmoved
  refine ⟨{ db.registerBlobs input with
    events := (db.registerBlobs input).events.insert input.toEvent hfree, heads }, ?_⟩
  unfold insertWithinTransaction
  simp only [hfree, dif_pos, hmissing, if_false, hknown, not_true_eq_false, hheads]
  rfl

theorem Inserted.findBySourceIdentity {db db' : AuthorityTables} {input : InsertEventInput}
    (h : Inserted db input db') (identity : SourceIdentity)
    (hknown : ∀ id, db.headId identity = some id → (db.events.get? id).isSome) :
    db'.findBySourceIdentity identity =
      if input.toSourceIdentity = identity then some input.toEvent
      else db.findBySourceIdentity identity := by
  unfold AuthorityTables.findBySourceIdentity
  rw [h.heads]
  split
  · simp [h.events]
  · cases hhead : db.headId identity with
    | none => rfl
    | some id =>
      have hne : input.id ≠ id := by
        rintro rfl
        have hsome := hknown input.id hhead
        rw [h.fresh] at hsome
        cases hsome
      simp [h.events, hne]

end AuthorityTables

end Regenic.Ingest
