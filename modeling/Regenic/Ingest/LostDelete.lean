import Regenic.Ingest.Clients
import Regenic.Ingest.Deletion

/-!
Deletion while several clients work on the same identity. A create that comes after its
tombstone is two writes, the event and its tombstone; between them the message is there. Unless
a revision is written over that head or the client stops right there, the second write
goes through, and no other write can reach the head of a deleted identity.
-/

namespace Regenic.Ingest

open Lib

/-- A batch of one client. A client that ingests several batches makes several requests. -/
structure IngestRequest where
  orgId : String
  records : List IngestRecord

abbrev IngestPool : Type :=
  Pool StoreCall.Response IngestFailure (List (Option IngestRecordResult)) Stores

variable (ids : UuidSupply) (sha256 : Sha256) (identity : SourceIdentity)

def StoreCall.exec' (c : StoreCall) (_ : Unit) (s : Stores) : c.Response × Stores := c.exec ids s

/-- No request starts another one. -/
def ingestFork (c : StoreCall) (_ : c.Response) :
    Option (IngestProg (List (Option IngestRecordResult))) := none

/-- The client makes its next call. -/
def IngestPool.step : IngestPool → Nat × Unit → IngestPool :=
  Pool.step (StoreCall.exec' ids) ingestFork

def IngestPool.start (s : Stores) (requests : List IngestRequest) : IngestPool where
  procs := requests.map fun request => ingest sha256 request.orgId request.records
  state := s

/-- The next call of the client is to delete the present head. -/
def AboutToDelete (pool : IngestPool) (i : Nat) : Prop :=
  ∃ event ∈ pool.state.authority.findBySourceIdentity identity,
    pool.asks i = some (.markTombstone identity (some event.id))

/-- Between two calls of a request is who has begun and has a call left, unless it stopped. -/
def Rests (start : IngestPool) (events : List (Nat × Unit)) (stopped : List Nat) (i : Nat) : Prop :=
  i ∈ stopped ∨ i ∉ events.map Prod.fst ∨
    (run (IngestPool.step ids) start events).asks i = none

/-- The identity is deleted whenever no request is on the way. -/
def DeleteNotLost (start : IngestPool) (events : List (Nat × Unit)) (stopped : List Nat) : Prop :=
  (∀ i, Rests ids start events stopped i) →
    Deleted identity (run (IngestPool.step ids) start events).state

/-- A revision that is written over the present head of the identity. -/
def RevisesHead : StoreCall → Unit → Stores → Prop
  | .appendRevision event, _, s =>
    event.toSourceIdentity = identity ∧ event.expectedHeadId = s.authority.headId identity
  | _, _, _ => False

instance (c : StoreCall) (w : Unit) (s : Stores) : Decidable (RevisesHead identity c w s) :=
  match c with
  | .appendRevision _ => inferInstanceAs (Decidable (_ ∧ _))
  | .randomUUID => inferInstanceAs (Decidable False)
  | .findBySourceIdentity _ => inferInstanceAs (Decidable False)
  | .findBlob _ => inferInstanceAs (Decidable False)
  | .getBlob _ => inferInstanceAs (Decidable False)
  | .listEvents _ => inferInstanceAs (Decidable False)
  | .putBlobs _ => inferInstanceAs (Decidable False)
  | .append _ => inferInstanceAs (Decidable False)
  | .markTombstone _ _ => inferInstanceAs (Decidable False)
  | .commitIngest _ => inferInstanceAs (Decidable False)

def NoRevision (c : StoreCall) (w : Unit) (s : Stores) : Prop := ¬ RevisesHead identity c w s

instance (c : StoreCall) (w : Unit) (s : Stores) : Decidable (NoRevision identity c w s) :=
  inferInstanceAs (Decidable (¬ _))

/-! ## What stays true -/

variable {ids sha256 identity}

/-- Every id a request drew was issued. -/
def DrawnStands (ids : UuidSupply) : Told StoreCall.Response → Stores → Prop
  | ⟨.randomUUID, id⟩, s => ∃ n, n < s.issued ∧ ids.uuid n = id
  | _, _ => True

theorem drawnStands_exec {told : Told StoreCall.Response} {s : Stores} (c : StoreCall)
    (h : DrawnStands ids told s) : DrawnStands ids told (c.exec ids s).2 := by
  obtain ⟨call, r⟩ := told
  cases call with
  | randomUUID =>
    obtain ⟨n, hlt, heq⟩ := h
    exact ⟨n, Nat.lt_of_lt_of_le hlt (exec_issued c), heq⟩
  | _ => trivial

theorem drawnStands_answer (s : Stores) (c : StoreCall) :
    DrawnStands ids ⟨c, (c.exec ids s).1⟩ (c.exec ids s).2 := by
  cases c with
  | randomUUID => exact ⟨s.issued, Nat.lt_succ_self _, rfl⟩
  | _ => trivial

theorem KeepsTo.plannedIn {h : IngestHistory} {c : StoreCall} (hc : KeepsTo h c) {s : Stores}
    (hdrawn : AllStand (DrawnStands ids) h s) : PlannedIn ids s c := by
  cases c with
  | commitIngest appends =>
    intro input hmem
    obtain ⟨hfirst, htold⟩ := hc.planned appends rfl input hmem
    exact ⟨hfirst, hdrawn _ htold⟩
  | _ => trivial

theorem ingest_keeps (identity : SourceIdentity) :
    Pool.Keeps (historyProtocol KeepsTo) startHistory (StoreCall.exec' ids) ingestFork
      (NoRevision identity)
      fun modes s => s.Linked ids ∧ ∀ i, AllStand (DrawnStands ids) (modes i) s := by
  apply Pool.Keeps.of_standing
  · intro h s c w hlinked hdrawn hc _
    refine ⟨exec_linked hlinked c (hc.plannedIn hdrawn), drawnStands_answer s c, ?_⟩
    intro told htold
    exact drawnStands_exec c htold
  · intro h c r p _ hfork
    cases hfork

/-! ## One step -/

/-- The requests, of which there are `count`, end without owing a tombstone. -/
def EndsSettled (count i : Nat) (h : IngestHistory)
    (_ : Except IngestFailure (List (Option IngestRecordResult))) : Prop :=
  i < count → owed h = none

/-- The head of the identity is deleted, or the next call of some request deletes it. -/
structure Good (ids : UuidSupply) (identity : SourceIdentity) (pool : IngestPool) : Prop where
  follows : ∃ modes, pool.Follow (historyProtocol KeepsTo) (EndsSettled pool.procs.length) modes ∧
    pool.state.Linked ids ∧ ∀ i, AllStand (DrawnStands ids) (modes i) pool.state
  present : ∃ event, pool.state.HeadIs identity event
  deleted : Deleted identity pool.state ∨ ∃ i, AboutToDelete identity pool i

theorem deleted_iff {s : Stores} {event : EventRecord} (hhead : s.HeadIs identity event) :
    Deleted identity s ↔ event.operation = .tombstone := by
  constructor
  · rintro ⟨other, hother, hoperation⟩
    rw [hhead.2] at hother
    cases hother
    exact hoperation
  · intro hoperation
    exact ⟨event, hhead.find, hoperation⟩

theorem start_good {s : Stores} (hlinked : s.Linked ids) (hdeleted : Deleted identity s)
    (requests : List IngestRequest) : Good ids identity (.start sha256 s requests) where
  follows := by
    refine ⟨fun _ => [], ?_, hlinked, fun _ _ hmem => nomatch hmem⟩
    intro i p hp
    obtain ⟨request, _, rfl⟩ := List.mem_map.mp (List.mem_of_getElem? hp)
    exact Follows.mono (disciplined_ingest sha256 request.orgId request.records)
      fun _ _ hpost _ => hpost.2
  present := by
    obtain ⟨event, hfind, _⟩ := hdeleted
    refine ⟨event, ?_, hfind⟩
    obtain ⟨id, hid, hget⟩ := Option.bind_eq_some_iff.mp hfind
    rw [(Table.get?_eq_some.mp hget).2]
    exact hid
  deleted := Or.inl hdeleted

/-- What a request that just created over a head does next. -/
theorem next_owed {count i : Nat} {h : IngestHistory}
    {p : IngestProg (List (Option IngestRecordResult))} (hlt : i < count)
    (hp : Follows (historyProtocol KeepsTo) (EndsSettled count i) h p) {id : String}
    (howed : owed h = some (identity, id)) :
    ∃ next, p = .call (.markTombstone identity (some id)) next := by
  cases hp with
  | done hsettled => exact absurd ((hsettled hlt).symm.trans howed) nofun
  | fail hsettled => exact absurd ((hsettled hlt).symm.trans howed) nofun
  | @call _ c next hc _ =>
    obtain rfl := hc.deletes identity id howed
    exact ⟨next, rfl⟩

theorem aboutToDelete_iff {pool : IngestPool} {event : EventRecord}
    (hhead : pool.state.HeadIs identity event) (i : Nat) :
    AboutToDelete identity pool i ↔
      pool.asks i = some (.markTombstone identity (some event.id)) := by
  constructor
  · rintro ⟨other, hother, hasks⟩
    rw [hhead.find] at hother
    cases hother
    exact hasks
  · intro hasks
    exact ⟨event, hhead.find, hasks⟩

section OneStep

variable {pool : IngestPool} {e : Nat × Unit} {c : StoreCall}
  {next : c.Response → IngestProg (List (Option IngestRecordResult))}

theorem step_call (hnext : pool.procs[e.1]? = some (.call c next)) :
    IngestPool.step ids pool e =
      { procs := pool.procs.set e.1 (next (c.exec ids pool.state).1)
        state := (c.exec ids pool.state).2 } := by
  change Pool.step (StoreCall.exec' ids) ingestFork pool e = _
  rw [Pool.step_of_asks hnext]
  simp only [ingestFork, Option.toList_none, List.append_nil]
  rfl

/-- Another request asks what it asked before. -/
theorem asks_other (hnext : pool.procs[e.1]? = some (.call c next)) {j : Nat} (hj : j ≠ e.1) :
    (IngestPool.step ids pool e).asks j = pool.asks j := by
  rw [step_call hnext]
  unfold Pool.asks
  rw [List.getElem?_set_ne hj.symm]

theorem asks_self (hnext : pool.procs[e.1]? = some (.call c next)) {c' : StoreCall}
    {rest : c'.Response → IngestProg (List (Option IngestRecordResult))}
    (hrest : next (c.exec ids pool.state).1 = .call c' rest) :
    (IngestPool.step ids pool e).asks e.1 = some c' := by
  have hlt : e.1 < pool.procs.length := (List.getElem?_eq_some_iff.mp hnext).1
  rw [step_call hnext]
  unfold Pool.asks
  rw [List.getElem?_set_self hlt, hrest]

/-- The call that a step makes leaves the identity deleted, or about to be. -/
theorem step_deleted (hgood : Good ids identity pool)
    (hnext : pool.procs[e.1]? = some (.call c next))
    (hcond : NoRevision identity c e.2 pool.state) :
    (∃ event, (c.exec ids pool.state).2.HeadIs identity event) ∧
      (Deleted identity (c.exec ids pool.state).2 ∨
        ∃ i, AboutToDelete identity (IngestPool.step ids pool e) i) := by
  obtain ⟨⟨modes, hfollow, hlinked, hdrawn⟩, ⟨event, hhead⟩, hdeleted⟩ := hgood
  have hfollows := hfollow e.1 _ hnext
  have hlt : e.1 < pool.procs.length := (List.getElem?_eq_some_iff.mp hnext).1
  have hstate : (IngestPool.step ids pool e).state = (c.exec ids pool.state).2 := by
    rw [step_call hnext]
  cases hfollows with
  | call hc hfollows =>
    rcases exec_headIs hlinked c (hc.plannedIn (hdrawn e.1)) hhead with
      hkept | ⟨input, hinput, hsame, hexpected, hadds, hmoved⟩
    · refine ⟨⟨event, hkept⟩, ?_⟩
      rcases hdeleted with hdeleted | ⟨i, habout⟩
      · exact Or.inl ((deleted_iff hkept).mpr ((deleted_iff hhead).mp hdeleted))
      · have hasks := (aboutToDelete_iff hhead i).mp habout
        by_cases hi : i = e.1
        · -- The tombstone on the present head goes through.
          subst hi
          have hown : pool.asks e.1 = some c := by
            unfold Pool.asks
            rw [hnext]
          rw [hown] at hasks
          cases hasks
          obtain ⟨s', hexec, hadds⟩ := exec_markTombstone_head hlinked.toSound hhead
            fun hash => hlinked.content event.id event hash (by
              have hfind := hhead.find
              unfold AuthorityTables.findBySourceIdentity at hfind
              rwa [hhead.id, Option.bind_some] at hfind)
          have hmoved := hadds.headIs_self hlinked.toSound
          rw [hexec]
          exact Or.inl ((deleted_iff hmoved).mpr rfl)
        · apply Or.inr
          refine ⟨i, event, ?_, ?_⟩
          · rw [hstate]
            exact hkept.find
          · rw [asks_other hnext hi]
            exact hasks
    · refine ⟨⟨_, hmoved⟩, ?_⟩
      cases c with
      | append event' =>
        cases hinput
        have hanswer := exec_append_ok hadds
        apply Or.inr
        have howed : owed ((historyProtocol KeepsTo).after (modes e.1) (.append event')
            (StoreCall.exec ids (.append event') pool.state).1) =
            some (identity, ids.uuid pool.state.issued) := by
          rw [hanswer]
          change event'.expectedHeadId.map _ = _
          rw [show event'.expectedHeadId = some event.id from hexpected, Option.map_some, ← hsame]
          rfl
        obtain ⟨rest, hrest⟩ := next_owed hlt (hfollows _ trivial) howed
        refine ⟨e.1, (event'.withId (ids.uuid pool.state.issued) .create).toEvent, ?_, ?_⟩
        · rw [hstate]
          exact hmoved.find
        · exact asks_self hnext hrest
      | appendRevision event' =>
        cases hinput
        exact absurd ⟨hsame, hexpected.trans hhead.id.symm⟩ hcond
      | markTombstone other expected =>
        cases hinput
        exact Or.inl ((deleted_iff hmoved).mpr rfl)
      | _ => cases hinput

theorem freeEnds_settled (pool : IngestPool) :
    pool.FreeEnds (EndsSettled pool.procs.length) := by
  intro n hn h r hlt
  omega

theorem good_step (hgood : Good ids identity pool)
    (hmeets : Pool.Meets (NoRevision identity) pool e) :
    Good ids identity (IngestPool.step ids pool e) := by
  cases hasks : pool.asks e.1 with
  | none =>
    rw [show IngestPool.step ids pool e = pool from Pool.step_of_asks_none hasks]
    exact hgood
  | some c =>
    obtain ⟨next, hnext⟩ := Pool.asks_eq_some hasks
    obtain ⟨hpresent, hdeleted⟩ := step_deleted hgood hnext (hmeets c hasks)
    have hstate : (IngestPool.step ids pool e).state = (c.exec ids pool.state).2 := by
      rw [step_call hnext]
    have hsize : (IngestPool.step ids pool e).procs.length = pool.procs.length := by
      rw [step_call hnext, List.length_set]
    obtain ⟨modes, hfollow, hinv⟩ := hgood.follows
    rw [← hstate] at hpresent hdeleted
    refine ⟨?_, hpresent, hdeleted⟩
    rw [hsize]
    exact (ingest_keeps identity).step (freeEnds_settled pool) hfollow hinv e hmeets

end OneStep

/-! ## One request alone -/

theorem deliverStep_linked {s : Stores} (e : Delivery) (hlinked : s.Linked ids) :
    (deliverStep ids sha256 s e).Linked ids := by
  obtain ⟨r, hingested, _⟩ := deliver_ingested ids sha256 e hlinked.toSound
  have hput : ∀ items, (s.putBlobs items).Linked ids := fun items =>
    (unwritten_putBlobs s items).linked hlinked
  generalize deliverStep ids sha256 s e = s' at hingested
  rcases hingested with hrefused | ⟨i, _, hpersisted⟩
  · exact hrefused.unwritten.linked hlinked
  · cases hpersisted with
    | result _ => exact hlinked
    | refused h => exact h.unwritten.linked hlinked
    | tombstone hadds => exact hadds.linked hlinked
    | revise hadds => exact hadds.linked (hput _)
    | create hadds => exact hadds.linked (hput _)
    | createAfterTombstone hadds hdeleted => exact hdeleted.linked (hadds.linked (hput _))

/-! ## Every run -/

theorem run_good {pool : IngestPool} (hgood : Good ids identity pool)
    (events : List (Nat × Unit))
    (hcond : Along (IngestPool.step ids) (Pool.Meets (NoRevision identity)) pool events) :
    Good ids identity (run (IngestPool.step ids) pool events) :=
  along_invariant (IngestPool.step ids) (Good ids identity)
    (fun _ _ hgood hmeets => good_step hgood hmeets) pool hgood events hcond

/-- A client that is not picked is where it started. -/
theorem run_unpicked (pool : IngestPool) (events : List (Nat × Unit)) {i : Nat}
    (hunpicked : i ∉ events.map Prod.fst) :
    (run (IngestPool.step ids) pool events).asks i = pool.asks i := by
  induction events generalizing pool with
  | nil => rfl
  | cons e rest ih =>
    rw [List.map_cons, List.mem_cons, not_or] at hunpicked
    rw [run_cons, ih _ hunpicked.2]
    cases hasks : pool.asks e.1 with
    | none => rw [show IngestPool.step ids pool e = pool from Pool.step_of_asks_none hasks]
    | some c =>
      obtain ⟨next, hnext⟩ := Pool.asks_eq_some hasks
      exact asks_other hnext hunpicked.1

/-- A request reads before it writes. -/
theorem start_reads (s : Stores) (requests : List IngestRequest) (i : Nat) (id : String) :
    (IngestPool.start sha256 s requests).asks i ≠ some (.markTombstone identity (some id)) := by
  unfold Pool.asks IngestPool.start
  rw [List.getElem?_map]
  cases requests[i]? with
  | none => simp
  | some request =>
    obtain ⟨orgId, records⟩ := request
    cases records with
    | nil => exact nofun
    | cons record rest =>
      intro hasks
      cases hasks

/-- No delete is lost in any interleaving of any requests in which no revision is written over
the present head of the identity and no client stops with the tombstone of that head as its
next call. -/
theorem delete_notLost (s : Stores) (hlinked : s.Linked ids) (hdeleted : Deleted identity s)
    (requests : List IngestRequest) (events : List (Nat × Unit)) (stopped : List Nat)
    (hcond : Along (IngestPool.step ids) (Pool.Meets (NoRevision identity))
      (.start sha256 s requests) events)
    (hstopped : ∀ i ∈ stopped, ¬ AboutToDelete identity
      (run (IngestPool.step ids) (.start sha256 s requests) events) i) :
    DeleteNotLost ids identity (.start sha256 s requests) events stopped := by
  intro hrests
  have hgood := run_good (start_good hlinked hdeleted requests) events hcond
  rcases hgood.deleted with hdone | ⟨i, habout⟩
  · exact hdone
  · have hasks : ∃ id, (run (IngestPool.step ids) (.start sha256 s requests) events).asks i =
        some (.markTombstone identity (some id)) := by
      obtain ⟨event, _, hasks⟩ := habout
      exact ⟨event.id, hasks⟩
    obtain ⟨id, hasks⟩ := hasks
    rcases hrests i with hstop | hunpicked | hended
    · exact absurd habout (hstopped i hstop)
    · rw [run_unpicked _ events hunpicked] at hasks
      exact absurd hasks (start_reads s requests i id)
    · rw [hended] at hasks
      cases hasks

section Greeting

/-- The tombstone arrived first. -/
def unsaidFirst : Stores := deliverStep .counted greetingDigest {} unsaid

def twoSay (first second : String) : IngestPool :=
  .start greetingDigest unsaidFirst
    [⟨"acme", [(said first).2]⟩, ⟨"acme", [(said second).2]⟩]

/-- The first client creates the message; the second comes in before its tombstone. -/
def comesBetween : List (Nat × Unit) :=
  List.replicate 4 (0, ()) ++ List.replicate 24 (1, ()) ++ [(0, ())]

theorem unsaidFirst_linked : unsaidFirst.Linked .counted :=
  deliverStep_linked unsaid (Stores.linked_empty _)

theorem delete_notLost_sameContent :
    DeleteNotLost .counted unsaid.identity (twoSay "hi" "hi") comesBetween [] :=
  delete_notLost unsaidFirst unsaidFirst_linked (by decide +kernel) _ _ _ (by decide +kernel) nofun

/-- The second client finds the created message, corrects its surface, and the tombstone of the
first client loses against the revision. -/
theorem delete_lost :
    ¬ DeleteNotLost .counted unsaid.identity (twoSay "hi" "hi ") comesBetween [] := by
  intro hkept
  have hdeleted := hkept (by
    intro i
    match i with
    | 0 => exact Or.inr (Or.inr (by decide +kernel))
    | 1 => exact Or.inr (Or.inr (by decide +kernel))
    | i + 2 =>
      apply Or.inr
      apply Or.inl
      simp [comesBetween])
  revert hdeleted
  decide +kernel

end Greeting

end Regenic.Ingest
