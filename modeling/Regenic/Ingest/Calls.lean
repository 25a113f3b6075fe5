import Regenic.Ingest.Writes

/-!
What one store call changes, whoever makes it. A call inserts one event, commits a batch of
first events, or leaves the tables as they were; an identity that has a head keeps it unless a
call inserts over that very head.
-/

namespace Regenic.Ingest

open Lib

variable (ids : UuidSupply)

/-- Sound stores in which the content of every event is registered. -/
structure Stores.Linked (s : Stores) : Prop extends s.Sound ids where
  content : ∀ id event hash, s.authority.events.get? id = some event →
    event.contentHash = some hash → (s.authority.blobs.get? hash).isSome = true

theorem Stores.linked_empty : ({} : Stores).Linked ids where
  toSound := Stores.sound_empty ids
  content _ _ _ h := nomatch h

/-- The event that a call inserts when it goes through. -/
def StoreCall.input (c : StoreCall) (s : Stores) : Option InsertEventInput :=
  match c with
  | .append event => some (event.withId (ids.uuid s.issued) .create)
  | .appendRevision event => some (event.withId (ids.uuid s.issued) .revise)
  | .markTombstone identity expectedHeadId =>
    some (tombstoneInput s.authority identity expectedHeadId (ids.uuid s.issued))
  | _ => none

variable {ids} {s s' : Stores}

/-! ## What inserting keeps -/

/-- An event that is inserted under an id that was issued. -/
theorem Stores.Linked.inserted (h : s.Linked ids) {input : InsertEventInput}
    {db : AuthorityTables} (hinserted : AuthorityTables.Inserted s.authority input db)
    (hauthority : s'.authority = db) (hissued : s.issued ≤ s'.issued)
    (hid : ∃ n, n < s'.issued ∧ ids.uuid n = input.id) : s'.Linked ids where
  heads := by
    intro identity id hhead
    rw [hauthority] at hhead ⊢
    rw [hinserted.heads] at hhead
    rw [hinserted.events]
    split at hhead
    · rw [if_pos (Option.some.inj hhead)]
      rfl
    · split
      · rfl
      · exact h.heads identity id hhead
  issued := by
    intro id hget
    rw [hauthority, hinserted.events] at hget
    split at hget
    · next heq =>
      rw [← heq]
      exact hid
    · obtain ⟨n, hlt, heq⟩ := h.issued id hget
      exact ⟨n, by omega, heq⟩
  content := by
    intro id event hash hget hhash
    rw [hauthority] at hget ⊢
    rw [hinserted.events] at hget
    split at hget
    · cases hget
      exact hinserted.content hash hhash
    · have hrow := h.content id event hash hget hhash
      obtain ⟨row, hrow⟩ := Option.isSome_iff_exists.mp hrow
      rw [hinserted.blobs, (AuthorityTables.registerBlobs_registersOnly _ input).blobs hash row hrow]
      rfl

theorem Adds.linked {input : InsertEventInput} (hadds : Adds ids s input s')
    (h : s.Linked ids) : s'.Linked ids := by
  have hissued := hadds.issued
  apply h.inserted hadds.inserted rfl
  · omega
  · exact ⟨s.issued, by omega, hadds.id.symm⟩

theorem Unwritten.linked (h : Unwritten s s') (hlinked : s.Linked ids) : s'.Linked ids where
  toSound := h.sound hlinked.toSound
  content := by
    rw [h.authority]
    exact hlinked.content

/-! ## One call -/

/-- A call that inserts is answered with the event, or it is refused. -/
theorem exec_input {c : StoreCall} {input : InsertEventInput} (hinput : c.input ids s = some input) :
    Adds ids s input (c.exec ids s).2 ∨ Unwritten s (c.exec ids s).2 := by
  have hwrite : (c.exec ids s).2 =
      (s.write (s.authority.insertWithinTransaction input)).2 ∧ input.id = ids.uuid s.issued := by
    cases c with
    | append event =>
      cases hinput
      exact ⟨rfl, rfl⟩
    | appendRevision event =>
      cases hinput
      exact ⟨rfl, rfl⟩
    | markTombstone identity expectedHeadId =>
      cases hinput
      exact ⟨rfl, rfl⟩
    | _ => cases hinput
  obtain ⟨hexec, hid⟩ := hwrite
  rw [hexec]
  cases hresult : s.write (s.authority.insertWithinTransaction input) with
  | mk result s' =>
    cases result with
    | ok event => exact Or.inl (write_ok hid hresult).1
    | error error =>
      rw [(write_error hresult).2]
      exact Or.inr (unwritten_spent s)

/-- What every single insert of a batch keeps, the batch keeps. -/
theorem commitIngest_invariant {appends : List InsertEventInput} (inv : AuthorityTables → Prop)
    (hstep : ∀ db db' input, input ∈ appends → inv db →
      AuthorityTables.Inserted db { input with operation := .create } db' → inv db')
    {db db' : AuthorityTables} (hinv : inv db)
    (h : db.commitIngestUnlocked { appends } = .ok db') : inv db' := by
  have hfold : appends.foldlM AuthorityTables.appendCreate db = .ok db' := by
    unfold AuthorityTables.commitIngestUnlocked at h
    cases hfold : appends.foldlM AuthorityTables.appendCreate db with
    | error error =>
      rw [hfold] at h
      cases h
    | ok appended =>
      rw [hfold] at h
      exact h
  clear h
  induction appends generalizing db with
  | nil =>
    cases hfold
    exact hinv
  | cons input rest ih =>
    rw [List.foldlM_cons] at hfold
    cases happend : db.appendCreate input with
    | error error =>
      rw [happend] at hfold
      cases hfold
    | ok middle =>
      rw [happend] at hfold
      unfold AuthorityTables.appendCreate at happend
      cases hinsert : db.append input with
      | error error =>
        rw [hinsert] at happend
        cases happend
      | ok added =>
        obtain ⟨tables, event⟩ := added
        rw [hinsert] at happend
        cases happend
        have hinserted := (AuthorityTables.insertWithinTransaction_ok db hinsert).1
        apply ih (fun db db' input hmem => hstep db db' input (List.mem_cons_of_mem _ hmem))
          (hstep db tables input List.mem_cons_self hinv hinserted) hfold

/-- A batch is committed as a whole or not at all. -/
theorem exec_commitIngest (appends : List InsertEventInput) :
    (StoreCall.exec ids (.commitIngest appends) s).2 = s ∨
      ∃ db, s.authority.commitIngestUnlocked { appends } = .ok db ∧
        (StoreCall.exec ids (.commitIngest appends) s).2 = { s with authority := db } := by
  unfold StoreCall.exec
  simp only
  cases hcommit : s.authority.commitIngestUnlocked { appends } with
  | error error => exact Or.inl rfl
  | ok db => exact Or.inr ⟨db, rfl, rfl⟩

/-- Every other call leaves the tables as they were. -/
theorem exec_unwritten {c : StoreCall} (hinput : c.input ids s = none)
    (hcommit : ∀ appends, c ≠ .commitIngest appends) : Unwritten s (c.exec ids s).2 := by
  cases c with
  | randomUUID => exact ⟨rfl, Nat.le_succ _⟩
  | putBlobs items => exact unwritten_putBlobs s items
  | commitIngest appends => exact absurd rfl (hcommit appends)
  | append event => cases hinput
  | appendRevision event => cases hinput
  | markTombstone identity expectedHeadId => cases hinput
  | _ => exact Unwritten.refl s

/-- Ids are spent and never given back. -/
theorem exec_issued (c : StoreCall) : s.issued ≤ (c.exec ids s).2.issued := by
  cases hinput : c.input ids s with
  | some input =>
    rcases exec_input hinput with hadds | hunwritten
    · have hissued := hadds.issued
      omega
    · exact hunwritten.issued
  | none =>
    by_cases hcommit : ∃ appends, c = .commitIngest appends
    · obtain ⟨appends, rfl⟩ := hcommit
      have hissued : (StoreCall.exec ids (.commitIngest appends) s).2.issued = s.issued := by
        rcases exec_commitIngest appends with hsame | ⟨db, _, hdb⟩
        · rw [hsame]
        · rw [hdb]
      exact Nat.le_of_eq hissued.symm
    · exact (exec_unwritten hinput fun appends h => hcommit ⟨appends, h⟩).issued

/-- Who is answered that its event was created has created it. -/
theorem exec_append_ok {event : NewEvent} {input : InsertEventInput}
    (hadds : Adds ids s input (StoreCall.exec ids (.append event) s).2) :
    (StoreCall.exec ids (.append event) s).1 =
      .ok (event.withId (ids.uuid s.issued) .create).toEvent := by
  have hexec : StoreCall.exec ids (.append event) s =
      s.write (s.authority.insertWithinTransaction (event.withId (ids.uuid s.issued) .create)) := rfl
  cases hresult :
      s.write (s.authority.insertWithinTransaction (event.withId (ids.uuid s.issued) .create)) with
  | mk result s' =>
    rw [hexec, hresult] at hadds ⊢
    cases result with
    | ok stored =>
      have hstored := (write_ok rfl hresult).2
      rw [hstored]
    | error error =>
      -- A refused write adds nothing.
      obtain ⟨_, rfl⟩ := write_error hresult
      have hfresh := hadds.inserted.fresh
      have hevents := hadds.inserted.events input.id
      rw [if_pos rfl] at hevents
      rw [hfresh] at hevents
      cases hevents

/-! ## The head of one identity -/

/-- First events only, under ids that were issued. -/
def PlannedIn (ids : UuidSupply) (s : Stores) : StoreCall → Prop
  | .commitIngest appends => ∀ input ∈ appends, input.expectedHeadId = none ∧
      ∃ n, n < s.issued ∧ ids.uuid n = input.id
  | _ => True

theorem exec_linked (h : s.Linked ids) (c : StoreCall) (hplanned : PlannedIn ids s c) :
    (c.exec ids s).2.Linked ids := by
  cases hinput : c.input ids s with
  | some input =>
    rcases exec_input hinput with hadds | hunwritten
    · exact hadds.linked h
    · exact hunwritten.linked h
  | none =>
    by_cases hcommit : ∃ appends, c = .commitIngest appends
    · obtain ⟨appends, rfl⟩ := hcommit
      rcases exec_commitIngest appends with hsame | ⟨db, hok, hdb⟩
      · rw [hsame]
        exact h
      · rw [hdb]
        apply commitIngest_invariant (fun db => ({ s with authority := db } : Stores).Linked ids)
          ?_ h hok
        intro db db' input hmem hlinked hinserted
        exact hlinked.inserted hinserted rfl (Nat.le_refl _) (hplanned input hmem).2
    · exact (exec_unwritten hinput fun appends h => hcommit ⟨appends, h⟩).linked h

theorem Unwritten.headIs (h : Unwritten s s') {identity : SourceIdentity} {event : EventRecord}
    (hhead : s.HeadIs identity event) : s'.HeadIs identity event := by
  obtain ⟨hid, hfind⟩ := hhead
  rw [← h.authority] at hid hfind
  exact ⟨hid, hfind⟩

theorem Adds.headIs {input : InsertEventInput} (hadds : Adds ids s input s')
    (h : s.Linked ids) (identity : SourceIdentity) {event : EventRecord}
    (hhead : s.HeadIs identity event) :
    (input.toSourceIdentity = identity ∧ input.expectedHeadId = some event.id ∧
        s'.HeadIs identity input.toEvent) ∨
      (input.toSourceIdentity ≠ identity ∧ s'.HeadIs identity event) := by
  have hfind := hadds.findBySourceIdentity h.toSound identity
  have hheads := hadds.inserted.heads identity
  by_cases hsame : input.toSourceIdentity = identity
  · rw [if_pos hsame] at hfind hheads
    have hexpected := hadds.inserted.expected
    rw [hsame, hhead.id] at hexpected
    exact Or.inl ⟨hsame, hexpected.symm, hheads, hfind⟩
  · rw [if_neg hsame] at hfind hheads
    exact Or.inr ⟨hsame, hheads.trans hhead.id, hfind.trans hhead.find⟩

/-- A call moves a head only by an insert that expects it. -/
theorem exec_headIs (h : s.Linked ids) (c : StoreCall) (hplanned : PlannedIn ids s c)
    {identity : SourceIdentity} {event : EventRecord} (hhead : s.HeadIs identity event) :
    (c.exec ids s).2.HeadIs identity event ∨
      ∃ input, c.input ids s = some input ∧ input.toSourceIdentity = identity ∧
        input.expectedHeadId = some event.id ∧ Adds ids s input (c.exec ids s).2 ∧
        (c.exec ids s).2.HeadIs identity input.toEvent := by
  cases hinput : c.input ids s with
  | some input =>
    rcases exec_input hinput with hadds | hunwritten
    · rcases hadds.headIs h identity hhead with ⟨hsame, hexpected, hmoved⟩ | ⟨_, hkept⟩
      · exact Or.inr ⟨input, rfl, hsame, hexpected, hadds, hmoved⟩
      · exact Or.inl hkept
    · exact Or.inl (hunwritten.headIs hhead)
  | none =>
    apply Or.inl
    by_cases hcommit : ∃ appends, c = .commitIngest appends
    · obtain ⟨appends, rfl⟩ := hcommit
      rcases exec_commitIngest appends with hsame | ⟨db, hok, hdb⟩
      · rw [hsame]
        exact hhead
      · rw [hdb]
        have hboth := commitIngest_invariant
          (fun db => ({ s with authority := db } : Stores).Linked ids ∧
            ({ s with authority := db } : Stores).HeadIs identity event) ?_ ⟨h, hhead⟩ hok
        · exact hboth.2
        · intro db db' input hmem ⟨hlinked, hkept⟩ hinserted
          obtain ⟨hfirst, hid⟩ := hplanned input hmem
          have hheads := hinserted.heads identity
          have hfind := hinserted.findBySourceIdentity identity fun id =>
            hlinked.heads identity id
          have hother : input.toSourceIdentity ≠ identity := by
            intro hsame
            have hexpected := hinserted.expected
            change db.headId input.toSourceIdentity = input.expectedHeadId at hexpected
            rw [hsame, hfirst, hkept.id] at hexpected
            cases hexpected
          refine ⟨hlinked.inserted hinserted rfl (Nat.le_refl _) hid, ?_, ?_⟩
          · exact (hheads.trans (if_neg hother)).trans hkept.id
          · exact (hfind.trans (if_neg hother)).trans hkept.find
    · exact (exec_unwritten hinput fun appends h => hcommit ⟨appends, h⟩).headIs hhead

end Regenic.Ingest
