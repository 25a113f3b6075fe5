import Regenic.Ingest.Aliases

/-!
A deletion that comes in under an alias. The tombstone takes the place of the event under the
bound identity; under every other identity that points at the event it stays the head. So the
message is gone exactly when nothing else pointed at it any more.
-/

namespace Regenic.Ingest

open Lib

variable (ids : UuidSupply) (sha256 : Sha256)

/-- The event is the head of its own identity. -/
def OwnHead (s : Stores) (eventId : String) : Prop :=
  ∃ event ∈ s.authority.events.get? eventId,
    s.authority.headId event.toSourceIdentity = some eventId

/-- The step binds an identity without a head to a local outbound that is the head of its
own. -/
structure BindsAlias (pool : AliasPool) (e : Nat × Unit) (identity : SourceIdentity)
    (eventId : String) : Prop where
  asked : ∃ input, pool.asks e.1 = some (.bindSourceIdentityAliases input) ∧
    input.eventId = eventId ∧ (pool.state.bindSourceIdentityAliases input).1 = .ok ()
  outbound : ∃ event ∈ pool.state.authority.events.get? eventId,
    isLocalOutboundId event.externalId = true
  own : OwnHead pool.state eventId
  free : pool.state.authority.headId identity = none
  bound : (AliasPool.step ids pool e).state.authority.headId identity = some eventId

/-- The step writes the tombstone of a batch that brings one for the identity. -/
structure TombstonesAlias (requests : List AliasRequest) (pool : AliasPool) (e : Nat × Unit)
    (identity : SourceIdentity) : Prop where
  brought : ∃ orgId records, requests[e.1]? = some (.ingest orgId records) ∧
    ∃ record ∈ records, record.operation = .tombstone ∧ record.identity orgId = identity
  accepted : ∃ expected event,
    pool.asks e.1 = some (.store (.markTombstone identity expected)) ∧
      (StoreCall.exec ids (.markTombstone identity expected) pool.state).1 = .ok event

/-- The call binds nothing to the event. -/
def BindsOther (eventId : String) : AliasCall → Unit → Stores → Prop
  | .bindSourceIdentityAliases input, _, _ => input.eventId ≠ eventId
  | .store _, _, _ => True

/-- A point of a run: an alias was bound to the event, and now its tombstone is written. -/
structure AliasDeletion (requests : List AliasRequest) (start : AliasPool)
    (before : List (Nat × Unit)) (b : Nat × Unit) (middle : List (Nat × Unit)) (t : Nat × Unit)
    (identity : SourceIdentity) (eventId : String) : Prop where
  binds : BindsAlias ids (run (AliasPool.step ids) start before) b identity eventId
  deletes : TombstonesAlias ids requests
    (run (AliasPool.step ids) start (before ++ b :: middle)) t identity

/-- No identity has the event as its head. -/
structure Gone (s : Stores) (eventId : String) : Prop where
  known : (s.authority.events.get? eventId).isSome = true
  nowhere : ∀ identity, s.authority.headId identity ≠ some eventId

/-- After a tombstone through an alias the event is nobody's head, in every state until an
alias is bound to it again. -/
def DeletesThroughAlias (requests : List AliasRequest) (start : AliasPool)
    (events : List (Nat × Unit)) : Prop :=
  ∀ before b middle t after rest,
    events = (before ++ b :: middle) ++ t :: after ++ rest →
    ∀ identity eventId, AliasDeletion ids requests start before b middle t identity eventId →
      Along (AliasPool.step ids) (Pool.Meets (BindsOther eventId))
        (run (AliasPool.step ids) start ((before ++ b :: middle) ++ [t])) after →
      ∀ other, (run (AliasPool.step ids) start
        ((before ++ b :: middle) ++ t :: after)).state.authority.headId other ≠ some eventId

/-- At every tombstone through an alias no other identity has the event as its head: its own
has moved on, and no further alias points at it. -/
def OnlyAliases (requests : List AliasRequest) (start : AliasPool)
    (events : List (Nat × Unit)) : Prop :=
  ∀ before b middle t rest, events = (before ++ b :: middle) ++ t :: rest →
    ∀ identity eventId, AliasDeletion ids requests start before b middle t identity eventId →
      ∀ other, other ≠ identity → (run (AliasPool.step ids) start
        (before ++ b :: middle)).state.authority.headId other ≠ some eventId

/-! ## One step -/

variable {ids sha256} {requests : List AliasRequest} {pool : AliasPool} {e : Nat × Unit}

theorem aliasStep_state {c : AliasCall} (hasks : pool.asks e.1 = some c) :
    (AliasPool.step ids pool e).state = (c.exec ids e.2 pool.state).2 := by
  obtain ⟨next, hnext⟩ := Pool.asks_eq_some hasks
  unfold AliasPool.step
  rw [Pool.step_of_asks hnext]

theorem aliasExec_known (c : AliasCall) (w : Unit) (s : Stores) {eventId : String}
    (hknown : (s.authority.events.get? eventId).isSome = true) :
    ((c.exec ids w s).2.authority.events.get? eventId).isSome = true := by
  cases c with
  | store c => exact (exec_freshHeads c).kept eventId hknown
  | bindSourceIdentityAliases input =>
    have hevents := (bindSourceIdentityAliases_bindsOnly (s := s) input).events
    change ((s.bindSourceIdentityAliases input).2.authority.events.get? eventId).isSome = true
    rw [hevents]
    exact hknown

/-- An event that is nobody's head becomes one only by a bind. -/
theorem aliasExec_gone {c : AliasCall} {w : Unit} {s : Stores} {eventId : String}
    (hgone : Gone s eventId) (hother : BindsOther eventId c w s) :
    Gone (c.exec ids w s).2 eventId where
  known := aliasExec_known c w s hgone.known
  nowhere := by
    intro identity hhead
    cases c with
    | store c =>
      rcases (exec_freshHeads c).fresh identity eventId hhead with hold | hnew
      · exact hgone.nowhere identity hold
      · have hknown := hgone.known
        rw [hnew] at hknown
        cases hknown
    | bindSourceIdentityAliases input =>
      rcases (bindSourceIdentityAliases_bindsOnly (s := s) input).heads identity with
        hsame | ⟨_, hbound⟩
      · exact hgone.nowhere identity (hsame.symm.trans hhead)
      · exact hother (Option.some.inj (hbound.symm.trans hhead))

theorem aliasStep_known (pool : AliasPool) (e : Nat × Unit) {eventId : String}
    (hknown : (pool.state.authority.events.get? eventId).isSome = true) :
    ((AliasPool.step ids pool e).state.authority.events.get? eventId).isSome = true :=
  Pool.step_state (fun s => (s.authority.events.get? eventId).isSome = true)
    (fun c w s hs => aliasExec_known c w s hs) pool e hknown

theorem aliasStep_gone {eventId : String} (hgone : Gone pool.state eventId)
    (hmeets : Pool.Meets (BindsOther eventId) pool e) :
    Gone (AliasPool.step ids pool e).state eventId := by
  cases hasks : pool.asks e.1 with
  | none =>
    have hsame : AliasPool.step ids pool e = pool := Pool.step_of_asks_none hasks
    rw [hsame]
    exact hgone
  | some c =>
    rw [aliasStep_state hasks]
    exact aliasExec_gone hgone (hmeets c hasks)

/-- What the tombstone leaves: a new event under the bound identity, and every other head. -/
theorem tombstonesAlias_heads {identity : SourceIdentity}
    (hdeletes : TombstonesAlias ids requests pool e identity) :
    ∃ id, pool.state.authority.events.get? id = none ∧
      ∀ other, (AliasPool.step ids pool e).state.authority.headId other =
        if identity = other then some id else pool.state.authority.headId other := by
  obtain ⟨expected, event, hasks, hok⟩ := hdeletes.accepted
  rw [aliasStep_state hasks]
  change ∃ id, _ ∧ ∀ other,
    (StoreCall.exec ids (.markTombstone identity expected) pool.state).2.authority.headId other = _
  cases hexec : StoreCall.exec ids (.markTombstone identity expected) pool.state with
  | mk answer s' =>
    rw [hexec] at hok
    have hwrite : pool.state.write (pool.state.authority.insertWithinTransaction
        (tombstoneInput pool.state.authority identity expected
          (ids.uuid pool.state.issued))) = (.ok event, s') := by
      rw [← hok]
      exact hexec
    have hinserted := (@write_ok ids _ _ _ _ rfl hwrite).1.inserted
    exact ⟨_, hinserted.fresh, hinserted.heads⟩

/-! ## Every run -/

theorem aliasDeletion_known {start : AliasPool} {before middle : List (Nat × Unit)}
    {b t : Nat × Unit} {identity : SourceIdentity} {eventId : String}
    (h : AliasDeletion ids requests start before b middle t identity eventId) :
    ((run (AliasPool.step ids) start
      (before ++ b :: middle)).state.authority.events.get? eventId).isSome = true := by
  obtain ⟨input, _, rfl, hok⟩ := h.binds.asked
  rw [run_append]
  exact run_invariant (AliasPool.step ids)
    (fun pool => (pool.state.authority.events.get? input.eventId).isSome = true)
    (fun pool e hknown => aliasStep_known pool e hknown) _
    (bindSourceIdentityAliases_known hok) (b :: middle)

/-- The step that writes the tombstone. -/
theorem aliasDeletion_gone_iff {start : AliasPool} {before middle : List (Nat × Unit)}
    {b t : Nat × Unit} {identity : SourceIdentity} {eventId : String}
    (h : AliasDeletion ids requests start before b middle t identity eventId) :
    (∀ other, (run (AliasPool.step ids) start
        ((before ++ b :: middle) ++ [t])).state.authority.headId other ≠ some eventId) ↔
      ∀ other, other ≠ identity → (run (AliasPool.step ids) start
        (before ++ b :: middle)).state.authority.headId other ≠ some eventId := by
  obtain ⟨id, hnew, hheads⟩ := tombstonesAlias_heads h.deletes
  have hknown := aliasDeletion_known h
  have hne : id ≠ eventId := by
    rintro rfl
    rw [hnew] at hknown
    cases hknown
  rw [run_append, run_cons, run_nil]
  constructor
  · intro hgone other hother
    have hhead := hgone other
    rw [hheads other, if_neg (Ne.symm hother)] at hhead
    exact hhead
  · intro honly other
    rw [hheads other]
    split
    · intro hid
      exact hne (Option.some.inj hid)
    · next hother => exact honly other (Ne.symm hother)

/-- Deleting through an alias deletes the message exactly in the runs in which, at every such
tombstone, no other identity has the event as its head. -/
theorem deletesThroughAlias_iff (s : Stores) (requests : List AliasRequest)
    (events : List (Nat × Unit)) :
    DeletesThroughAlias ids requests (.start sha256 s requests) events ↔
      OnlyAliases ids requests (.start sha256 s requests) events := by
  constructor
  · intro hdeletes before b middle t rest hsplit identity eventId h
    apply (aliasDeletion_gone_iff h).mp
    apply hdeletes before b middle t [] rest ?_ identity eventId h trivial
    rw [hsplit]
    simp
  · intro honly before b middle t after rest hsplit identity eventId h hunbound other
    have hfirst := honly before b middle t (after ++ rest) (by
      rw [hsplit, List.append_assoc]
      rfl) identity eventId h
    have hgone : Gone (run (AliasPool.step ids) (.start sha256 s requests)
        ((before ++ b :: middle) ++ [t])).state eventId := by
      refine ⟨?_, (aliasDeletion_gone_iff h).mpr hfirst⟩
      rw [run_append]
      exact aliasStep_known _ t (aliasDeletion_known h)
    have hafter := along_invariant (AliasPool.step ids) (fun pool => Gone pool.state eventId)
      (fun _ _ hgone hmeets => aliasStep_gone hgone hmeets) _ hgone after hunbound
    rw [← run_append, List.append_assoc] at hafter
    exact hafter.nowhere other

theorem exists_ok_of_isOk {ε α : Type} {r : Except ε α} (h : r.isOk = true) :
    ∃ a, r = .ok a := by
  cases r with
  | ok a => exact ⟨a, rfl⟩
  | error e => cases h

section Greeting

/-- A reply sent from here, the channel's own name for it, and the channel's deletion. -/
def replySent : IngestRecord :=
  { operation := .create, source := "dsh", externalId := "room:out:1"
    content := some [{ role := .body, mediaType := "text/plain", content := .text "hi" }] }

def channelName : SourceIdentity := { orgId := "acme", source := "dsh", externalId := "room:7" }

def replyUnsaid : IngestRecord :=
  { operation := .tombstone, source := "dsh", externalId := "room:7" }

def replyRequests : List AliasRequest :=
  [.ingest "acme" [replySent], .bind ⟨"acme", "i", [⟨"dsh", "room:7"⟩]⟩,
    .ingest "acme" [replyUnsaid]]

def sendsReply : List (Nat × Unit) := List.replicate 5 (0, ())

/-- The tombstone takes the channel's name, and the reply stays the head of its own. -/
theorem reply_notDeleted :
    ¬ DeletesThroughAlias .counted replyRequests (.start greetingDigest {} replyRequests)
      (sendsReply ++ (1, ()) :: List.replicate 3 (2, ())) := by
  intro hdeletes
  have hown := hdeletes sendsReply (1, ()) (List.replicate 2 (2, ())) (2, ()) [] [] rfl
    channelName "i" ?_ trivial { orgId := "acme", source := "dsh", externalId := "room:out:1" }
  · revert hown
    decide +kernel
  · exact {
      binds := {
        asked := ⟨⟨"acme", "i", [⟨"dsh", "room:7"⟩]⟩, by decide +kernel, rfl, by decide +kernel⟩
        outbound := by decide +kernel
        own := by
          unfold OwnHead
          decide +kernel
        free := by decide +kernel
        bound := by decide +kernel }
      deletes := {
        brought := ⟨"acme", [replyUnsaid], rfl, replyUnsaid, List.mem_singleton_self _, rfl, rfl⟩
        accepted := by
          obtain ⟨event, hok⟩ := exists_ok_of_isOk (show Except.isOk (StoreCall.exec .counted
            (.markTombstone channelName (some "i")) (run (AliasPool.step .counted)
              (.start greetingDigest {} replyRequests)
              (sendsReply ++ (1, ()) :: List.replicate 2 (2, ()))).state).1 = true by
            decide +kernel)
          exact ⟨some "i", event, by decide +kernel, hok⟩ } }

end Greeting

end Regenic.Ingest
