import Regenic.Ingest.LostDelete

/-!
Source identities that are bound to the event of another one. An alias is one more head row
that points at the event; a tombstone of the alias moves that row and no other, so the event
stays the head of the identity it was stored under.
-/

namespace Regenic.Ingest

open Lib

structure SourceIdentityAlias where
  source : String
  externalId : String
  deriving DecidableEq, Repr

structure SourceIdentityAliasBind where
  orgId : String
  eventId : String
  aliases : List SourceIdentityAlias
  deriving DecidableEq, Repr

namespace AuthorityTables

variable (db : AuthorityTables)

def getEvent (orgId eventId : String) : Option EventRecord :=
  (db.events.get? eventId).filter fun event => event.orgId = orgId

/-- `INSERT OR IGNORE`: an identity that has a head keeps it. -/
def bindAlias (orgId eventId : String) (db : AuthorityTables) (item : SourceIdentityAlias) :
    AuthorityTables :=
  let externalId := jsTrim item.externalId
  if jsTrim item.source = "" ∨ externalId = "" then db
  else
    match db.moveHead { orgId, source := item.source, externalId } none eventId with
    | some heads => { db with heads }
    | none => db

def bindSourceIdentityAliases (input : SourceIdentityAliasBind) :
    Except String AuthorityTables :=
  match db.getEvent input.orgId input.eventId with
  | none => .error ("Unknown event for identity alias: " ++ input.eventId)
  | some _ => .ok (input.aliases.foldl (bindAlias input.orgId input.eventId) db)

end AuthorityTables

/-! ## Clients -/

/-- The calls of the ingestion service, and the binding of aliases. -/
inductive AliasCall where
  | store (c : StoreCall)
  | bindSourceIdentityAliases (input : SourceIdentityAliasBind)
  deriving DecidableEq, Repr

def AliasCall.Answer : AliasCall → Type
  | .store c => c.Response
  | .bindSourceIdentityAliases _ => Except String Unit

def Stores.bindSourceIdentityAliases (s : Stores) (input : SourceIdentityAliasBind) :
    Except String Unit × Stores :=
  match s.authority.bindSourceIdentityAliases input with
  | .ok authority => (.ok (), { s with authority })
  | .error message => (.error message, s)

def AliasCall.exec (ids : UuidSupply) : (c : AliasCall) → Unit → Stores → c.Answer × Stores
  | .store c, _, s => c.exec ids s
  | .bindSourceIdentityAliases input, _, s => s.bindSourceIdentityAliases input

abbrev AliasProg (α : Type) : Type := Prog AliasCall.Answer IngestFailure α

def liftIngest {α : Type} : IngestProg α → AliasProg α
  | .done a => .done a
  | .fail error => .fail error
  | .call c next => .call (.store c) fun r => liftIngest (next r)

/-- A batch of records, or the aliases of one event. -/
inductive AliasRequest where
  | ingest (orgId : String) (records : List IngestRecord)
  | bind (input : SourceIdentityAliasBind)

def bindRequest (input : SourceIdentityAliasBind) : AliasProg (List (Option IngestRecordResult)) :=
  .call (.bindSourceIdentityAliases input) fun
    | .ok _ => .done []
    | .error message => .fail (.authority message)

def AliasRequest.program (sha256 : Sha256) :
    AliasRequest → AliasProg (List (Option IngestRecordResult))
  | .ingest orgId records => liftIngest (Ingest.ingest sha256 orgId records)
  | .bind input => bindRequest input

abbrev AliasPool : Type :=
  Pool AliasCall.Answer IngestFailure (List (Option IngestRecordResult)) Stores

def aliasFork (c : AliasCall) (_ : c.Answer) :
    Option (AliasProg (List (Option IngestRecordResult))) := none

def AliasPool.step (ids : UuidSupply) : AliasPool → Nat × Unit → AliasPool :=
  Pool.step (AliasCall.exec ids) aliasFork

def AliasPool.start (sha256 : Sha256) (s : Stores) (requests : List AliasRequest) : AliasPool where
  procs := requests.map (AliasRequest.program sha256)
  state := s

/-! ## The heads after a call

Events are kept, and a head that is new is an event that is new or the target of a bind. -/

/-- Calls other than binds: every head was one before, or its event is new. -/
structure FreshHeads (db db' : AuthorityTables) : Prop where
  kept : ∀ id, (db.events.get? id).isSome = true → (db'.events.get? id).isSome = true
  fresh : ∀ identity id, db'.headId identity = some id →
    db.headId identity = some id ∨ db.events.get? id = none

theorem FreshHeads.refl (db : AuthorityTables) : FreshHeads db db where
  kept _ h := h
  fresh _ _ h := Or.inl h

theorem FreshHeads.trans {db db' db'' : AuthorityTables} (h : FreshHeads db db')
    (h' : FreshHeads db' db'') : FreshHeads db db'' where
  kept id hid := h'.kept id (h.kept id hid)
  fresh := by
    intro identity id hhead
    rcases h'.fresh identity id hhead with hmiddle | hnew
    · exact h.fresh identity id hmiddle
    · apply Or.inr
      cases hget : db.events.get? id with
      | none => rfl
      | some event =>
        have hkept := h.kept id (by rw [hget]; rfl)
        rw [hnew] at hkept
        cases hkept

theorem AuthorityTables.Inserted.freshHeads {db db' : AuthorityTables} {input : InsertEventInput}
    (h : AuthorityTables.Inserted db input db') : FreshHeads db db' where
  kept := by
    intro id hid
    rw [h.events]
    split
    · rfl
    · exact hid
  fresh := by
    intro identity id hhead
    rw [h.heads] at hhead
    split at hhead
    · cases hhead
      exact Or.inr h.fresh
    · exact Or.inl hhead

variable {ids : UuidSupply} {sha256 : Sha256} {s : Stores}

theorem Unwritten.freshHeads {s' : Stores} (h : Unwritten s s') :
    FreshHeads s.authority s'.authority := by
  rw [h.authority]
  exact FreshHeads.refl s.authority

theorem exec_freshHeads (c : StoreCall) : FreshHeads s.authority (c.exec ids s).2.authority := by
  cases hinput : c.input ids s with
  | some input =>
    rcases exec_input hinput with hadds | hunwritten
    · exact hadds.inserted.freshHeads
    · exact hunwritten.freshHeads
  | none =>
    by_cases hcommit : ∃ appends, c = .commitIngest appends
    · obtain ⟨appends, rfl⟩ := hcommit
      rcases exec_commitIngest appends with hsame | ⟨db, hok, hdb⟩
      · rw [hsame]
        exact FreshHeads.refl s.authority
      · rw [hdb]
        apply commitIngest_invariant (FreshHeads s.authority) ?_ (FreshHeads.refl _) hok
        intro db db' input _ hfresh hinserted
        exact hfresh.trans hinserted.freshHeads
    · exact (exec_unwritten hinput fun appends h => hcommit ⟨appends, h⟩).freshHeads

/-- A bind writes head rows, for identities without one. -/
structure BindsOnly (db : AuthorityTables) (eventId : String) (db' : AuthorityTables) : Prop where
  events : db'.events = db.events
  dispositions : db'.dispositions = db.dispositions
  heads : ∀ identity, db'.headId identity = db.headId identity ∨
    db.headId identity = none ∧ db'.headId identity = some eventId

theorem bindAlias_bindsOnly (db : AuthorityTables) (orgId eventId : String)
    (item : SourceIdentityAlias) : BindsOnly db eventId (db.bindAlias orgId eventId item) := by
  have hrefl : BindsOnly db eventId db := ⟨rfl, rfl, fun _ => Or.inl rfl⟩
  unfold AuthorityTables.bindAlias
  simp only
  split
  · exact hrefl
  · split
    · next heads hheads =>
      obtain ⟨hnone, hget⟩ := AuthorityTables.moveHead_eq_some db hheads
      refine ⟨rfl, rfl, fun identity => ?_⟩
      simp only [AuthorityTables.headId, hget]
      split
      · next hsame =>
        rw [← hsame]
        exact Or.inr ⟨hnone, rfl⟩
      · exact Or.inl rfl
    · exact hrefl

theorem BindsOnly.trans {db db' db'' : AuthorityTables} {eventId : String}
    (h : BindsOnly db eventId db') (h' : BindsOnly db' eventId db'') :
    BindsOnly db eventId db'' where
  events := h'.events.trans h.events
  dispositions := h'.dispositions.trans h.dispositions
  heads := by
    intro identity
    rcases h'.heads identity with hsame | ⟨hnone, hbound⟩
    · rw [hsame]
      exact h.heads identity
    · rcases h.heads identity with hsame | ⟨_, hother⟩
      · exact Or.inr ⟨hsame.symm.trans hnone, hbound⟩
      · rw [hother] at hnone
        cases hnone

theorem foldl_bindAlias_bindsOnly (orgId eventId : String) (items : List SourceIdentityAlias)
    (db : AuthorityTables) :
    BindsOnly db eventId (items.foldl (AuthorityTables.bindAlias orgId eventId) db) := by
  induction items generalizing db with
  | nil => exact ⟨rfl, rfl, fun _ => Or.inl rfl⟩
  | cons item rest ih => exact (bindAlias_bindsOnly db orgId eventId item).trans (ih _)

/-- Nothing is written where every alias is blank or has a head. -/
theorem foldl_bindAlias_taken {orgId eventId : String} {items : List SourceIdentityAlias}
    {db : AuthorityTables}
    (h : ∀ item ∈ items, jsTrim item.source = "" ∨ jsTrim item.externalId = "" ∨
      (db.headId ⟨orgId, item.source, jsTrim item.externalId⟩).isSome = true) :
    items.foldl (AuthorityTables.bindAlias orgId eventId) db = db := by
  induction items with
  | nil => rfl
  | cons item rest ih =>
    have hitem : db.bindAlias orgId eventId item = db := by
      unfold AuthorityTables.bindAlias
      simp only
      split
      · rfl
      · next hfilled =>
        rw [not_or] at hfilled
        rcases h item List.mem_cons_self with hblank | hblank | htaken
        · exact absurd hblank hfilled.1
        · exact absurd hblank hfilled.2
        · split
          · next heads hheads =>
            rw [(AuthorityTables.moveHead_eq_some db hheads).1] at htaken
            cases htaken
          · rfl
    rw [List.foldl_cons, hitem]
    exact ih fun other hother => h other (List.mem_cons_of_mem _ hother)

/-- What binding does when it goes through: the event is known, and the aliases point at it. -/
theorem bindSourceIdentityAliases_bindsOnly (input : SourceIdentityAliasBind) :
    BindsOnly s.authority input.eventId (s.bindSourceIdentityAliases input).2.authority := by
  unfold Stores.bindSourceIdentityAliases AuthorityTables.bindSourceIdentityAliases
  cases s.authority.getEvent input.orgId input.eventId with
  | none => exact ⟨rfl, rfl, fun _ => Or.inl rfl⟩
  | some event => exact foldl_bindAlias_bindsOnly _ _ _ _

theorem bindSourceIdentityAliases_known {input : SourceIdentityAliasBind}
    (hok : (s.bindSourceIdentityAliases input).1 = .ok ()) :
    (s.authority.events.get? input.eventId).isSome = true := by
  unfold Stores.bindSourceIdentityAliases AuthorityTables.bindSourceIdentityAliases at hok
  cases hevent : s.authority.getEvent input.orgId input.eventId with
  | none =>
    rw [hevent] at hok
    cases hok
  | some event =>
    rw [(Option.filter_eq_some_iff.mp hevent).1]
    rfl

end Regenic.Ingest
