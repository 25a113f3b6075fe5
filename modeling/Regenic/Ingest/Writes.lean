import Regenic.Ingest.Decisions

/-!
The writing half of the service. A write adds one event and moves one head, or it leaves the
tables as they were; ingesting one record writes what was decided on it, and a create that
comes after its tombstone is followed by a second tombstone at once.
-/

namespace Regenic.Ingest

open Lib

variable (ids : UuidSupply) (sha256 : Sha256)

/-! ## Sound stores -/

/-- Heads point at stored events, and every stored event has an id that was issued. -/
structure Stores.Sound (s : Stores) : Prop where
  heads : ∀ identity id, s.authority.headId identity = some id →
    (s.authority.events.get? id).isSome = true
  issued : ∀ id, (s.authority.events.get? id).isSome = true →
    ∃ n, n < s.issued ∧ ids.uuid n = id

theorem Stores.sound_empty : ({} : Stores).Sound ids where
  heads _ _ h := nomatch h
  issued _ h := nomatch h

variable {ids sha256} {s s' : Stores}

theorem Stores.Sound.fresh (h : s.Sound ids) : s.authority.events.get? (ids.uuid s.issued) = none := by
  cases hget : s.authority.events.get? (ids.uuid s.issued) with
  | none => rfl
  | some event =>
    obtain ⟨n, hlt, heq⟩ := h.issued (ids.uuid s.issued) (by rw [hget]; rfl)
    have hn := ids.injective heq
    omega

/-- The same tables, with as many ids issued or more. -/
theorem Stores.Sound.of_authority (h : s.Sound ids) (hauthority : s'.authority = s.authority)
    (hissued : s.issued ≤ s'.issued) : s'.Sound ids where
  heads := by
    rw [hauthority]
    exact h.heads
  issued := by
    rw [hauthority]
    intro id hid
    obtain ⟨n, hlt, heq⟩ := h.issued id hid
    exact ⟨n, by omega, heq⟩

theorem Stores.Sound.headId_none (h : s.Sound ids) {identity : SourceIdentity}
    (hnone : s.authority.findBySourceIdentity identity = none) :
    s.authority.headId identity = none := by
  cases hhead : s.authority.headId identity with
  | none => rfl
  | some id =>
    have hsome := h.heads identity id hhead
    unfold AuthorityTables.findBySourceIdentity at hnone
    rw [hhead, Option.bind_some] at hnone
    rw [hnone] at hsome
    cases hsome

/-! ## Blobs -/

theorem putBlob_authority (item : BlobObject) : (s.putBlob item).authority = s.authority := by
  unfold Stores.putBlob
  split
  · rfl
  · rfl

theorem putBlob_issued (item : BlobObject) : (s.putBlob item).issued = s.issued := by
  unfold Stores.putBlob
  split
  · rfl
  · rfl

/-- The first bytes that are put under a hash stay. -/
theorem get?_putBlob (item : BlobObject) (hash : String) :
    (s.putBlob item).blobs.get? hash =
      (s.blobs.get? hash <|> if item.hash = hash then some item else none) := by
  unfold Stores.putBlob
  split
  · next free =>
    rw [Table.get?_insert]
    by_cases hhash : item.hash = hash
    · subst hhash
      simp [free]
    · simp [hhash]
  · next taken =>
    by_cases hhash : item.hash = hash
    · subst hhash
      obtain ⟨row, hrow⟩ := Option.ne_none_iff_exists'.mp taken
      simp [hrow]
    · simp [hhash]

theorem foldl_putBlob (items : List BlobObject) :
    (items.foldl Stores.putBlob s).authority = s.authority ∧
      (items.foldl Stores.putBlob s).issued = s.issued := by
  induction items generalizing s with
  | nil => exact ⟨rfl, rfl⟩
  | cons item rest ih =>
    obtain ⟨hauthority, hissued⟩ := ih (s := s.putBlob item)
    exact ⟨hauthority.trans (putBlob_authority item), hissued.trans (putBlob_issued item)⟩

@[simp] theorem putBlobs_authority (items : List BlobObject) :
    (s.putBlobs items).authority = s.authority := (foldl_putBlob _).1

@[simp] theorem putBlobs_issued (items : List BlobObject) :
    (s.putBlobs items).issued = s.issued := (foldl_putBlob _).2

theorem Stores.Sound.putBlobs (h : s.Sound ids) (items : List BlobObject) :
    (s.putBlobs items).Sound ids :=
  h.of_authority (putBlobs_authority items) (Nat.le_of_eq (putBlobs_issued items).symm)

/-! ## One event -/

/-- What a write that goes through adds. -/
structure Adds (ids : UuidSupply) (s : Stores) (input : InsertEventInput) (s' : Stores) :
    Prop where
  inserted : AuthorityTables.Inserted s.authority input s'.authority
  blobs : s'.blobs = s.blobs
  issued : s'.issued = s.issued + 1
  id : input.id = ids.uuid s.issued

theorem Adds.sound {input : InsertEventInput} (hadds : Adds ids s input s') (h : s.Sound ids) :
    s'.Sound ids where
  heads := by
    intro identity id hhead
    rw [hadds.inserted.heads] at hhead
    rw [hadds.inserted.events]
    split at hhead
    · rw [if_pos (Option.some.inj hhead)]
      rfl
    · split
      · rfl
      · exact h.heads identity id hhead
  issued := by
    intro id hid
    rw [hadds.inserted.events] at hid
    rw [hadds.issued]
    split at hid
    · next heq => exact ⟨s.issued, Nat.lt_succ_self _, hadds.id.symm.trans heq⟩
    · obtain ⟨n, hlt, heq⟩ := h.issued id hid
      exact ⟨n, by omega, heq⟩

theorem Adds.findBySourceIdentity {input : InsertEventInput} (hadds : Adds ids s input s')
    (h : s.Sound ids) (identity : SourceIdentity) :
    s'.authority.findBySourceIdentity identity =
      if input.toSourceIdentity = identity then some input.toEvent
      else s.authority.findBySourceIdentity identity :=
  hadds.inserted.findBySourceIdentity identity fun id => h.heads identity id

theorem write_ok {input : InsertEventInput} {event : EventRecord}
    (hid : input.id = ids.uuid s.issued)
    (h : s.write (s.authority.insertWithinTransaction input) = (.ok event, s')) :
    Adds ids s input s' ∧ event = input.toEvent := by
  unfold Stores.write at h
  cases hinsert : s.authority.insertWithinTransaction input with
  | error error => simp [hinsert] at h
  | ok result =>
    obtain ⟨authority, added⟩ := result
    simp only [hinsert, Prod.mk.injEq, Except.ok.injEq] at h
    obtain ⟨rfl, rfl⟩ := h
    obtain ⟨hinserted, hevent⟩ := AuthorityTables.insertWithinTransaction_ok _ hinsert
    exact ⟨⟨hinserted, rfl, rfl, hid⟩, hevent⟩

/-- A write that is refused only spends its id. -/
theorem write_error {result : Except AuthorityError (AuthorityTables × EventRecord)}
    {error : AuthorityError} (h : s.write result = (.error error, s')) :
    result = .error error ∧ s' = { s with issued := s.issued + 1 } := by
  unfold Stores.write at h
  cases result with
  | ok added => simp at h
  | error other =>
    simp only [Prod.mk.injEq, Except.error.injEq] at h
    exact ⟨by rw [h.1], h.2.symm⟩

/-- Tables that a refused write, or none, leaves. -/
structure Unwritten (s s' : Stores) : Prop where
  authority : s'.authority = s.authority
  issued : s.issued ≤ s'.issued

theorem Unwritten.refl (s : Stores) : Unwritten s s := ⟨rfl, Nat.le_refl _⟩

theorem unwritten_spent (s : Stores) : Unwritten s { s with issued := s.issued + 1 } :=
  ⟨rfl, Nat.le_succ _⟩

theorem Unwritten.trans {s₁ s₂ s₃ : Stores} (h : Unwritten s₁ s₂) (h' : Unwritten s₂ s₃) :
    Unwritten s₁ s₃ := ⟨h'.authority.trans h.authority, Nat.le_trans h.issued h'.issued⟩

theorem unwritten_putBlobs (s : Stores) (items : List BlobObject) :
    Unwritten s (s.putBlobs items) :=
  ⟨putBlobs_authority items, Nat.le_of_eq (putBlobs_issued items).symm⟩

theorem Unwritten.sound (h : Unwritten s s') (hsound : s.Sound ids) : s'.Sound ids :=
  hsound.of_authority h.authority h.issued

/-! ## Writing a decision -/

/-- The event that `markTombstone` inserts. -/
def tombstoneInput (db : AuthorityTables) (identity : SourceIdentity)
    (expectedHeadId : Option String) (id : String) : InsertEventInput :=
  let current := db.findBySourceIdentity identity
  { toSourceIdentity := identity
    id
    operation := .tombstone
    contentHash := current.bind (·.contentHash)
    parentEventId := current.map (·.id)
    expectedHeadId }

/-- The event that new content is inserted as. -/
def contentInput (identity : SourceIdentity) (canonical : CanonicalContent)
    (expectedHeadId parentEventId : Option String) (id : String) (operation : IngestOperation) :
    InsertEventInput :=
  (newEvent identity canonical expectedHeadId parentEventId).withId id operation

/-- Nothing is written, and nothing is reported as accepted. -/
structure Refused (s : Stores) (r : Except IngestFailure IngestRecordResult) (s' : Stores) :
    Prop where
  unwritten : Unwritten s s'
  status : ∀ result, r = .ok result → result.status ≠ .accepted

theorem Refused.of_unwritten {s₁ s₂ s₃ : Stores} {r : Except IngestFailure IngestRecordResult}
    (h : Unwritten s₁ s₂) (hrefused : Refused s₂ r s₃) : Refused s₁ r s₃ :=
  ⟨h.trans hrefused.unwritten, hrefused.status⟩

/-- What of a decision is written. -/
inductive Persisted (ids : UuidSupply) (s : Stores) (r : Except IngestFailure IngestRecordResult) :
    InspectedRecord → Stores → Prop where
  | result {result : IngestRecordResult} (hr : r = .ok result) : Persisted ids s r (.result result) s
  | refused {i : InspectedRecord} {s' : Stores} (h : Refused s r s') : Persisted ids s r i s'
  | tombstone {identity : SourceIdentity} {record : IngestRecord} {current : Option EventRecord}
      {s' : Stores} (hadds : Adds ids s (tombstoneInput s.authority identity
        (current.map (·.id)) (ids.uuid s.issued)) s') :
      Persisted ids s r (.tombstone identity record current) s'
  | revise {identity : SourceIdentity} {record : IngestRecord} {canonical : CanonicalContent}
      {current : EventRecord} {s' : Stores}
      (hadds : Adds ids (s.putBlobs (blobsForCanonical canonical)) (contentInput identity canonical
        (some current.id) (some current.id) (ids.uuid s.issued) .revise) s') :
      Persisted ids s r (.revise identity record canonical current) s'
  | create {identity : SourceIdentity} {record : IngestRecord} {canonical : CanonicalContent}
      {s' : Stores}
      (hadds : Adds ids (s.putBlobs (blobsForCanonical canonical)) (contentInput identity canonical
        none none (ids.uuid s.issued) .create) s') :
      Persisted ids s r (.create identity record canonical) s'
  | createAfterTombstone {identity : SourceIdentity} {record : IngestRecord}
      {canonical : CanonicalContent} {current : EventRecord} {middle s' : Stores}
      (hadds : Adds ids (s.putBlobs (blobsForCanonical canonical)) (contentInput identity canonical
        (some current.id) none (ids.uuid s.issued) .create) middle)
      (hdeleted : Adds ids middle (tombstoneInput middle.authority identity
        (some (ids.uuid s.issued)) (ids.uuid middle.issued)) s') :
      Persisted ids s r (.createAfterTombstone identity record canonical current) s'

section Persisting

variable {identity : SourceIdentity} {record : IngestRecord} {canonical : CanonicalContent}
  {r : Except IngestFailure IngestRecordResult}

theorem run_conflictResult {error : AuthorityError} {middle : Stores}
    (h : (conflictResult record error).run (StoreCall.exec ids) middle = (r, s')) :
    Refused middle r s' := by
  cases error with
  | conflict =>
    cases h
    refine ⟨Unwritten.refl _, ?_⟩
    intro result hresult
    cases hresult
    nofun
  | failed message =>
    cases h
    exact ⟨Unwritten.refl _, nofun⟩

/-- A write whose refusal is reported or thrown. -/
theorem run_write (c : StoreCall) (answer : c.Response → Except AuthorityError EventRecord)
    (ok : EventRecord → IngestProg IngestRecordResult) (input : InsertEventInput)
    (hid : input.id = ids.uuid s.issued)
    (hexec : (answer (c.exec ids s).1, (c.exec ids s).2) =
      s.write (s.authority.insertWithinTransaction input))
    (h : ((Prog.call c fun result => match answer result with
      | .ok event => ok event
      | .error error => conflictResult record error).run (StoreCall.exec ids) s) = (r, s')) :
    Refused s r s' ∨ ∃ middle, Adds ids s input middle ∧
      (ok input.toEvent).run (StoreCall.exec ids) middle = (r, s') := by
  rw [Prog.run_call] at h
  cases hanswer : answer (c.exec ids s).1 with
  | ok event =>
    rw [hanswer] at h hexec
    obtain ⟨hadds, rfl⟩ := write_ok hid hexec.symm
    exact Or.inr ⟨_, hadds, h⟩
  | error error =>
    rw [hanswer] at h hexec
    obtain ⟨_, hspent⟩ := write_error hexec.symm
    rw [hspent] at h
    exact Or.inl ((run_conflictResult h).of_unwritten (unwritten_spent s))

theorem run_markTombstoned {expected : Option String}
    (h : (markTombstoned record identity expected).run (StoreCall.exec ids) s = (r, s')) :
    Refused s r s' ∨
      Adds ids s (tombstoneInput s.authority identity expected (ids.uuid s.issued)) s' := by
  rcases run_write (.markTombstone identity expected) (fun result => result)
      (fun event => pure (accepted record event.id))
      (tombstoneInput s.authority identity expected (ids.uuid s.issued)) rfl rfl h with
    hrefused | ⟨middle, hadds, hrest⟩
  · exact Or.inl hrefused
  · cases hrest
    exact Or.inr hadds

/-- The head of the identity is `event`. -/
structure Stores.HeadIs (s : Stores) (identity : SourceIdentity) (event : EventRecord) : Prop where
  id : s.authority.headId identity = some event.id
  find : s.authority.findBySourceIdentity identity = some event

theorem Adds.headIs_self {input : InsertEventInput} (hadds : Adds ids s input s')
    (hsound : s.Sound ids) : s'.HeadIs input.toSourceIdentity input.toEvent where
  id := by
    rw [hadds.inserted.heads, if_pos rfl]
    rfl
  find := by rw [hadds.findBySourceIdentity hsound, if_pos rfl]

/-- A tombstone on the present head goes through. -/
theorem exec_markTombstone_head (hsound : s.Sound ids) {event : EventRecord}
    (hhead : s.HeadIs identity event)
    (hregistered : ∀ hash, event.contentHash = some hash →
      (s.authority.blobs.get? hash).isSome = true) :
    ∃ s', StoreCall.exec ids (.markTombstone identity (some event.id)) s =
      (.ok (tombstoneInput s.authority identity (some event.id) (ids.uuid s.issued)).toEvent, s') ∧
      Adds ids s (tombstoneInput s.authority identity (some event.id) (ids.uuid s.issued)) s' := by
  let tombstone := tombstoneInput s.authority identity (some event.id) (ids.uuid s.issued)
  have hget : s.authority.events.get? event.id = some event := by
    have hfind := hhead.find
    unfold AuthorityTables.findBySourceIdentity at hfind
    rwa [hhead.id, Option.bind_some] at hfind
  have hcontent : tombstone.contentHash.all fun hash =>
      ((s.authority.registerBlobs tombstone).blobs.get? hash).isSome := by
    rw [show tombstone.contentHash = event.contentHash by
      simp only [tombstone, tombstoneInput, hhead.find, Option.bind_some]]
    cases hhash : event.contentHash with
    | none => rfl
    | some hash =>
      obtain ⟨row, hrow⟩ := Option.isSome_iff_exists.mp (hregistered hash hhash)
      have hkept := (AuthorityTables.registerBlobs_registersOnly s.authority tombstone).blobs
        hash row hrow
      simp [hkept]
  have hparent : s.authority.references tombstone.parentEventId := by
    rw [show tombstone.parentEventId = some event.id by
      simp only [tombstone, tombstoneInput, hhead.find, Option.map_some]]
    simp [AuthorityTables.references, hget]
  have hfresh : s.authority.events.get? tombstone.id = none := hsound.fresh
  obtain ⟨authority, hinsert⟩ := AuthorityTables.insertWithinTransaction_isOk s.authority
    hfresh hcontent hparent hhead.id
  have hwrite : StoreCall.exec ids (.markTombstone identity (some event.id)) s =
      (.ok tombstone.toEvent, { s with authority, issued := s.issued + 1 }) := by
    change s.write (s.authority.insertWithinTransaction tombstone) = _
    rw [hinsert]
    rfl
  obtain ⟨hinserted, _⟩ := AuthorityTables.insertWithinTransaction_ok _ hinsert
  exact ⟨_, hwrite, hinserted, rfl, rfl, rfl⟩

/-- A tombstone on the head that was just inserted goes through. -/
theorem run_markTombstoned_fresh {input : InsertEventInput} {middle : Stores}
    (hsound : s.Sound ids) (hadds : Adds ids s input middle)
    (h : (markTombstoned record input.toSourceIdentity (some input.id)).run (StoreCall.exec ids)
      middle = (r, s')) :
    Adds ids middle (tombstoneInput middle.authority input.toSourceIdentity (some input.id)
      (ids.uuid middle.issued)) s' := by
  have hmiddle := hadds.sound hsound
  have hhead := hadds.headIs_self hsound
  obtain ⟨s'', hwrite, htombstone⟩ := exec_markTombstone_head hmiddle hhead hadds.inserted.content
  change StoreCall.exec ids (.markTombstone input.toSourceIdentity (some input.id)) middle = _
    at hwrite
  change ((Prog.call (StoreCall.markTombstone input.toSourceIdentity (some input.id)) _).run
    (StoreCall.exec ids) middle) = _ at h
  rw [Prog.run_call, hwrite] at h
  cases h
  exact htombstone

theorem run_persist (hsound : s.Sound ids) {i : InspectedRecord}
    (h : (persistInspected i).run (StoreCall.exec ids) s = (r, s')) : Persisted ids s r i s' := by
  cases i with
  | result result =>
    cases h
    exact .result rfl
  | tombstone identity record current =>
    change ((ingestTombstone identity record current).run (StoreCall.exec ids) s) = _ at h
    unfold ingestTombstone at h
    split at h
    · cases h
      refine .refused ⟨Unwritten.refl s, ?_⟩
      intro result hresult
      cases hresult
      nofun
    · exact (run_markTombstoned h).elim .refused .tombstone
  | revise identity record canonical current =>
    let items := blobsForCanonical canonical
    have hput := unwritten_putBlobs s items
    rcases run_write (.appendRevision (newEvent identity canonical (some current.id)
        (some current.id))) (fun result => result) (fun event => pure (accepted record event.id))
        (contentInput identity canonical (some current.id) (some current.id)
          (ids.uuid (s.putBlobs items).issued) .revise) rfl rfl h with
      hrefused | ⟨middle, hadds, hrest⟩
    · exact .refused (hrefused.of_unwritten hput)
    · cases hrest
      rw [putBlobs_issued] at hadds
      exact .revise hadds
  | create identity record canonical =>
    let items := blobsForCanonical canonical
    have hput := unwritten_putBlobs s items
    rcases run_write (.append (newEvent identity canonical none none)) (fun result => result)
        (fun event => pure (accepted record event.id))
        (contentInput identity canonical none none (ids.uuid (s.putBlobs items).issued) .create)
        rfl rfl h with
      hrefused | ⟨middle, hadds, hrest⟩
    · exact .refused (hrefused.of_unwritten hput)
    · cases hrest
      rw [putBlobs_issued] at hadds
      exact .create hadds
  | createAfterTombstone identity record canonical current =>
    let items := blobsForCanonical canonical
    have hput := unwritten_putBlobs s items
    rcases run_write (.append (newEvent identity canonical (some current.id) none))
        (fun result => result)
        (fun event => markTombstoned record identity (some event.id))
        (contentInput identity canonical (some current.id) none
          (ids.uuid (s.putBlobs items).issued) .create) rfl rfl h with
      hrefused | ⟨middle, hadds, hrest⟩
    · exact .refused (hrefused.of_unwritten hput)
    · have hdeleted := run_markTombstoned_fresh (hsound.putBlobs items) hadds hrest
      rw [putBlobs_issued] at hadds hdeleted
      exact .createAfterTombstone hadds hdeleted

end Persisting

/-! ## Ingesting one record -/

section OneRecord

variable {orgId : String} {record : IngestRecord}

/-- The stored head of the record's identity. -/
abbrev Stores.head (s : Stores) (orgId : String) (record : IngestRecord) : Option EventRecord :=
  s.authority.findBySourceIdentity (record.identity orgId)

theorem run_inspectRecord {overlay : PendingIngestOverlay} {α : Type}
    {f : InspectedRecord → IngestProg α} {r : Except IngestFailure α}
    (h : (inspectRecord sha256 orgId record overlay >>= f).run (StoreCall.exec ids) s = (r, s')) :
    (∃ error, r = .error error ∧ s' = s) ∨
      ∃ i, answer ids s (inspectRecord sha256 orgId record overlay) = .ok i ∧
        (f i).run (StoreCall.exec ids) s = (r, s') := by
  rw [Prog.bind_eq, Prog.run_bind,
    run_of_onlyReads ids (onlyReads_inspectRecord sha256 orgId record overlay)] at h
  cases hanswer : answer ids s (inspectRecord sha256 orgId record overlay) with
  | ok i =>
    rw [hanswer] at h
    exact Or.inr ⟨i, rfl, h⟩
  | error error =>
    rw [hanswer] at h
    cases h
    exact Or.inl ⟨error, rfl, rfl⟩

/-- One record is decided on by the stored head, and written as decided. -/
def Ingested (ids : UuidSupply) (sha256 : Sha256) (s : Stores) (orgId : String)
    (record : IngestRecord) (r : Except IngestFailure IngestRecordResult) (s' : Stores) : Prop :=
  Refused s r s' ∨ ∃ i, Decision ids sha256 s orgId record (s.head orgId record) i ∧
    Persisted ids s r i s'

theorem run_ingestRecord (hsound : s.Sound ids) {r : Except IngestFailure IngestRecordResult}
    (h : (ingestRecord sha256 orgId record).run (StoreCall.exec ids) s = (r, s')) :
    Ingested ids sha256 s orgId record r s' := by
  rcases run_inspectRecord h with ⟨error, rfl, rfl⟩ | ⟨i, hanswer, hrest⟩
  · exact Or.inl ⟨Unwritten.refl _, nofun⟩
  · exact Or.inr ⟨i, inspectRecord_stored hanswer, run_persist hsound hrest⟩

theorem putBlob_issue (n : Nat) (item : BlobObject) :
    ({ s with issued := n } : Stores).putBlob item = { s.putBlob item with issued := n } := by
  unfold Stores.putBlob
  split
  · rfl
  · rfl

theorem foldl_putBlob_issue (n : Nat) (items : List BlobObject) :
    items.foldl Stores.putBlob { s with issued := n } =
      { items.foldl Stores.putBlob s with issued := n } := by
  induction items generalizing s with
  | nil => rfl
  | cons item rest ih =>
    rw [List.foldl_cons, List.foldl_cons, putBlob_issue]
    exact ih

theorem putBlobs_issue (n : Nat) (items : List BlobObject) :
    ({ s with issued := n } : Stores).putBlobs items = { s.putBlobs items with issued := n } :=
  foldl_putBlob_issue n _

/-- A first event is refused for other reasons than its head. -/
theorem insert_first_error {db : AuthorityTables} {input : InsertEventInput}
    {error : AuthorityError} (hhead : db.headId input.toSourceIdentity = input.expectedHeadId)
    (h : db.insertWithinTransaction input = .error error) : error ≠ .conflict := by
  unfold AuthorityTables.insertWithinTransaction at h
  simp only at h
  split at h
  · split at h
    · cases h
      intro heq
      cases heq
    · split at h
      · cases h
        intro heq
        cases heq
      · split at h
        · cases h
        · next hmoved =>
          have hsome := AuthorityTables.moveHead_isSome (db.registerBlobs input)
            input.toSourceIdentity input.expectedHeadId input.toEvent.id (by simpa using hhead)
          rw [hmoved] at hsome
          cases hsome
  · cases h
    intro heq
    cases heq

theorem commitIngest_one (db : AuthorityTables) (input : InsertEventInput) :
    db.commitIngestUnlocked { appends := [input] } = (db.append input).map Prod.fst := by
  unfold AuthorityTables.commitIngestUnlocked
  simp only [List.foldlM_cons, List.foldlM_nil, AuthorityTables.appendCreate, bind, Except.bind,
    pure, Except.pure]
  cases db.append input with
  | ok added => rfl
  | error error => rfl

theorem run_putBlobs_commit {α : Type} (items : List BlobObject) (appends : List InsertEventInput)
    (f : Except AuthorityError Unit → IngestProg α) (s : Stores) :
    (Call.putBlobs items >>= fun _ => Call.commitIngest appends >>= f).run (StoreCall.exec ids) s =
      (f (StoreCall.exec ids (.commitIngest appends) (s.putBlobs items)).1).run (StoreCall.exec ids)
        (StoreCall.exec ids (.commitIngest appends) (s.putBlobs items)).2 := rfl

/-- A create that is committed as a batch of its own. -/
theorem run_commitCreates (hsound : s.Sound ids) {merged : IngestRecord}
    {canonical : CanonicalContent} {q : Except IngestFailure IndexedResults}
    (hnone : s.head orgId record = none)
    (h : (commitCreates sha256 orgId [⟨0, ids.uuid s.issued, record.identity orgId, merged,
        canonical⟩] []).run (StoreCall.exec ids) { s with issued := s.issued + 1 } = (q, s')) :
    (∃ error, q = .error error ∧ Unwritten s s') ∨
      (q = .ok [(0, accepted merged (ids.uuid s.issued))] ∧
        Adds ids (s.putBlobs (blobsForCanonical canonical)) (contentInput (record.identity orgId)
          canonical none none (ids.uuid s.issued) .create) s') := by
  let items := blobsForCanonical canonical
  let input := contentInput (record.identity orgId) canonical none none (ids.uuid s.issued) .create
  let put : Stores := { s.putBlobs items with issued := s.issued + 1 }
  have hput : ({ s with issued := s.issued + 1 } : Stores).putBlobs
      ([(⟨0, ids.uuid s.issued, record.identity orgId, merged, canonical⟩ : PlannedCreate)].flatMap
        fun item => blobsForCanonical item.canonical) = put := by
    rw [List.flatMap_singleton]
    exact putBlobs_issue _ _
  have hunwritten : Unwritten s put :=
    (unwritten_putBlobs s items).trans ⟨rfl, by
      rw [putBlobs_issued]
      exact Nat.le_succ _⟩
  have happends : ([(⟨0, ids.uuid s.issued, record.identity orgId, merged, canonical⟩ :
      PlannedCreate)].map (·.append)) = [input] := rfl
  unfold commitCreates at h
  rw [run_putBlobs_commit, hput, happends] at h
  have hone : put.authority.commitIngestUnlocked { appends := [input] } =
      (put.authority.insertWithinTransaction input).map Prod.fst := commitIngest_one _ _
  cases hinsert : put.authority.insertWithinTransaction input with
  | ok added =>
    obtain ⟨authority, event⟩ := added
    rw [hinsert] at hone
    have hexec : StoreCall.exec ids (.commitIngest [input]) put =
        (.ok (), { put with authority }) := by
      unfold StoreCall.exec
      simp only [hone, Except.map]
    rw [hexec] at h
    cases h
    obtain ⟨hinserted, _⟩ := AuthorityTables.insertWithinTransaction_ok _ hinsert
    refine Or.inr ⟨rfl, hinserted, rfl, ?_, ?_⟩
    · rw [putBlobs_issued]
    · rw [putBlobs_issued]
      rfl
  | error error =>
    have hhead : put.authority.headId input.toSourceIdentity = input.expectedHeadId := by
      rw [show put.authority = s.authority from hunwritten.authority]
      exact hsound.headId_none hnone
    have hconflict := insert_first_error hhead hinsert
    rw [hinsert] at hone
    have hexec : StoreCall.exec ids (.commitIngest [input]) put = (.error error, put) := by
      unfold StoreCall.exec
      simp only [hone, Except.map]
    rw [hexec] at h
    cases error with
    | conflict => exact absurd rfl hconflict
    | failed message =>
      cases h
      exact Or.inl ⟨_, rfl, hunwritten⟩

theorem run_bind_cases {α β : Type} {p : IngestProg α} {f : α → IngestProg β}
    {r : Except IngestFailure β} (h : (p.bind f).run (StoreCall.exec ids) s = (r, s')) :
    (∃ error, p.run (StoreCall.exec ids) s = (.error error, s') ∧ r = .error error) ∨
      ∃ a middle, p.run (StoreCall.exec ids) s = (.ok a, middle) ∧
        (f a).run (StoreCall.exec ids) middle = (r, s') := by
  rw [Prog.run_bind] at h
  cases hp : p.run (StoreCall.exec ids) s with
  | mk q middle =>
    rw [hp] at h
    cases q with
    | ok a => exact Or.inr ⟨a, middle, rfl, h⟩
    | error error =>
      cases h
      exact Or.inl ⟨error, rfl, rfl⟩

/-- A record that is not created first is ingested on its own. -/
theorem run_ingestAlone (hsound : s.Sound ids) {q : Except IngestFailure IndexedResults}
    (h : ((ingestRecord sha256 orgId record).bind fun result =>
      ingestRecords sha256 orgId [] 1 [] [] [(0, result)]).run (StoreCall.exec ids) s = (q, s')) :
    ∃ r, Ingested ids sha256 s orgId record r s' ∧
      ∀ results, q = .ok results → ∃ result, r = .ok result ∧ results = [(0, result)] := by
  rcases run_bind_cases h with ⟨error, hrun, rfl⟩ | ⟨result, middle, hrun, hrest⟩
  · exact ⟨_, run_ingestRecord hsound hrun, nofun⟩
  · cases hrest
    refine ⟨_, run_ingestRecord hsound hrun, ?_⟩
    intro results hresults
    cases hresults
    exact ⟨result, rfl, rfl⟩

theorem run_ingestRecords_one (hsound : s.Sound ids) {q : Except IngestFailure IndexedResults}
    (h : (ingestRecords sha256 orgId [record] 0 [] [] []).run (StoreCall.exec ids) s = (q, s')) :
    ∃ r, Ingested ids sha256 s orgId record r s' ∧
      ∀ results, q = .ok results → ∃ result, r = .ok result ∧ results = [(0, result)] := by
  rcases run_inspectRecord h with ⟨error, rfl, rfl⟩ | ⟨i, hanswer, hrest⟩
  · exact ⟨.error error, Or.inl ⟨Unwritten.refl _, nofun⟩, nofun⟩
  · have hdecision := inspectRecord_stored hanswer
    cases i with
    | result result =>
      cases hrest
      refine ⟨.ok result, Or.inr ⟨_, hdecision, .result rfl⟩, ?_⟩
      intro results hresults
      cases hresults
      exact ⟨result, rfl, rfl⟩
    | create identity merged canonical =>
      cases hdecision with
      | create hop hnone hcontent =>
        rcases run_commitCreates hsound hnone hrest with ⟨error, rfl, hunwritten⟩ | ⟨rfl, hadds⟩
        · exact ⟨.error error, Or.inl ⟨hunwritten, nofun⟩, nofun⟩
        · refine ⟨.ok (accepted merged (ids.uuid s.issued)),
            Or.inr ⟨_, .create hop hnone hcontent, .create hadds⟩, ?_⟩
          intro results hresults
          cases hresults
          exact ⟨_, rfl, rfl⟩
    | revise identity merged canonical current => exact run_ingestAlone hsound hrest
    | tombstone identity merged current => exact run_ingestAlone hsound hrest
    | createAfterTombstone identity merged canonical current => exact run_ingestAlone hsound hrest

/-- A batch of one record. -/
theorem run_ingest_one (hsound : s.Sound ids)
    {q : Except IngestFailure (List (Option IngestRecordResult))}
    (h : (ingest sha256 orgId [record]).run (StoreCall.exec ids) s = (q, s')) :
    ∃ r, Ingested ids sha256 s orgId record r s' ∧
      ∀ results, q = .ok results → ∃ result, r = .ok result ∧ results = [some result] := by
  rcases run_bind_cases h with ⟨error, hrun, rfl⟩ | ⟨indexed, middle, hrun, hrest⟩
  · obtain ⟨r, hingested, _⟩ := run_ingestRecords_one hsound hrun
    exact ⟨r, hingested, nofun⟩
  · cases hrest
    obtain ⟨r, hingested, hresult⟩ := run_ingestRecords_one hsound hrun
    obtain ⟨result, hr, rfl⟩ := hresult indexed rfl
    refine ⟨r, hingested, ?_⟩
    intro results hresults
    cases hresults
    exact ⟨result, hr, rfl⟩

/-! ## What it leaves -/

theorem Refused.sound {r : Except IngestFailure IngestRecordResult} (h : Refused s r s')
    (hsound : s.Sound ids) : s'.Sound ids := h.unwritten.sound hsound

theorem Persisted.sound {r : Except IngestFailure IngestRecordResult} {i : InspectedRecord}
    (h : Persisted ids s r i s') (hsound : s.Sound ids) : s'.Sound ids := by
  cases h with
  | result hr => exact hsound
  | refused h => exact h.sound hsound
  | tombstone hadds => exact hadds.sound hsound
  | revise hadds => exact hadds.sound (hsound.putBlobs _)
  | create hadds => exact hadds.sound (hsound.putBlobs _)
  | createAfterTombstone hadds hdeleted => exact hdeleted.sound (hadds.sound (hsound.putBlobs _))

theorem Ingested.sound {r : Except IngestFailure IngestRecordResult}
    (h : Ingested ids sha256 s orgId record r s') (hsound : s.Sound ids) : s'.Sound ids := by
  rcases h with hrefused | ⟨i, _, hpersisted⟩
  · exact hrefused.sound hsound
  · exact hpersisted.sound hsound

end OneRecord

end Regenic.Ingest
