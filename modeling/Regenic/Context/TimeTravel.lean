import Regenic.Context.Selection

/-!
The three temporal modes of a request over one valid read: none of them fails, as-of is current
over what had been recorded by then, and history has at most one event of an identity that is not
superseded, the one that current selects.
-/

namespace Regenic.Context

open Lib Ingest
open Customer (DateParse nonBlank)

variable {dateParse : DateParse} {request : ContextRequest} {read : ContextSourceRead}

instance eventOrder_trans : IsTrans AuthorizedSourceEvent eventOrder :=
  ⟨fun _ _ _ => le_trans⟩

instance eventOrder_total : Std.Total eventOrder :=
  ⟨fun left right => le_total (codeUnits left.eventId) (codeUnits right.eventId)⟩

/-! ## Earlier reads -/

def recordedBy (dateParse : DateParse) (recordedAt : String) (event : ContextSourceEvent) : Bool :=
  !laterTime dateParse event.ingestedAt recordedAt

/-- The head of an identity is the last event of its lifecycle. -/
def headOfGroup (dateParse : DateParse) (group : IdentityKey × List ContextSourceEvent) :
    LifecycleHead where
  source := group.1.1
  externalId := group.1.2
  headEventId := (((lifecycleInOrder dateParse group.2).getLast?).map (·.eventId)).getD ""

/-- A read restricted to the events that had been recorded by a time, with their heads. -/
def readUpTo (dateParse : DateParse) (recordedAt : String) (read : ContextSourceRead) :
    ContextSourceRead where
  recordedAt := read.recordedAt
  events := read.events.filter (recordedBy dateParse recordedAt)
  lifecycleHeads := (groupBy ContextSourceEvent.identity
    (read.events.filter (recordedBy dateParse recordedAt))).map (headOfGroup dateParse)

/-- The request as one for what is current. -/
def ContextRequest.asCurrent (request : ContextRequest) : ContextRequest :=
  { request with temporal := .current }

theorem readUpTo_heads_nodup (recordedAt : String) :
    ((readUpTo dateParse recordedAt read).lifecycleHeads.map (·.identity)).Nodup := by
  have hkeys : (readUpTo dateParse recordedAt read).lifecycleHeads.map (·.identity) =
      keepFirst id ((read.events.filter (recordedBy dateParse recordedAt)).map
        ContextSourceEvent.identity) := by
    unfold readUpTo groupBy
    rw [List.map_map, List.map_map]
    exact List.map_id' _
  rw [hkeys]
  exact nodup_keepFirst_id _

section Earlier

variable (h : ValidRead dateParse request read) (recordedAt : String)

include h

theorem ValidRead.recorded_parent {parent event : ContextSourceEvent}
    (hparent : parent ∈ read.events) (hevent : event ∈ read.events)
    (hparents : Parents parent event)
    (hrecorded : recordedBy dateParse recordedAt event = true) :
    recordedBy dateParse recordedAt parent = true := by
  have horder := h.keepsOrder hparent hevent hparents
  simp only [Context.keepsOrder, Bool.and_eq_true, Bool.not_eq_true'] at horder
  unfold recordedBy at *
  rw [Bool.not_eq_true'] at *
  apply Bool.eq_false_iff.mpr
  intro hlater
  rw [laterTime_of_later (h.sound hevent).ingestedAt horder.1.1.1.2 hlater] at hrecorded
  cases hrecorded

theorem ValidRead.parentIn_recorded {event : ContextSourceEvent} (hevent : event ∈ read.events)
    (hrecorded : recordedBy dateParse recordedAt event = true) :
    parentIn (read.events.filter (recordedBy dateParse recordedAt)) event =
      parentIn read.events event := by
  rcases h.rooted hevent with ⟨-, hnone⟩ | ⟨-, parent, hparent, hparents⟩
  · unfold parentIn
    rw [hnone]
    rfl
  · have hearlier := h.recorded_parent recordedAt hparent hevent hparents hrecorded
    have hids : ((read.events.filter (recordedBy dateParse recordedAt)).map (·.eventId)).Nodup :=
      (List.filter_sublist.map _ : List.Sublist _ (read.events.map (·.eventId))).nodup h.nodup
    rw [parentIn_of_mem h.nodup hparent hparents,
      parentIn_of_mem hids (List.mem_filter.mpr ⟨hparent, hearlier⟩) hparents]

theorem ValidRead.recorded_group {group : IdentityKey × List ContextSourceEvent}
    (hgroup : group ∈ groupBy ContextSourceEvent.identity
      (read.events.filter (recordedBy dateParse recordedAt))) :
    ∃ before last, orderLifecycle dateParse group.2 = .ok (before ++ [last]) ∧
      headOfGroup dateParse group = ⟨group.1.1, group.1.2, last.eventId⟩ ∧
      last ∈ read.events ∧ last.identity = group.1 := by
  obtain ⟨hkey, hmembers⟩ := mem_groupBy.mp hgroup
  obtain ⟨chain, hlinked, hperm⟩ := h.linked_filter
    (fun parent hparent event hevent => h.recorded_parent recordedAt hparent hevent) group.1
  rw [← lifecycleOf_filter] at hperm
  have hperm : group.2.Perm chain := hmembers ▸ hperm
  have hne : chain ≠ [] := by
    intro hnil
    obtain ⟨event, hevent, hidentity⟩ := List.mem_map.mp hkey
    have hmem : event ∈ group.2 := by
      rw [hmembers]
      exact List.mem_filter.mpr ⟨hevent, decide_eq_true hidentity⟩
    exact List.not_mem_nil (hnil ▸ hperm.mem_iff.mp hmem)
  obtain ⟨before, last, rfl⟩ : ∃ before last, chain = before ++ [last] :=
    ⟨_, _, (List.dropLast_append_getLast hne).symm⟩
  have hlast : last ∈ group.2 := hperm.mem_iff.mpr (by simp)
  rw [hmembers] at hlast
  obtain ⟨hfiltered, hidentity⟩ := List.mem_filter.mp hlast
  refine ⟨before, last, orderLifecycle_chain hlinked hperm, ?_,
    (List.mem_filter.mp hfiltered).1, of_decide_eq_true hidentity⟩
  unfold headOfGroup
  rw [lifecycleInOrder_chain hlinked hperm, List.getLast?_concat]
  rfl

/-- A read restricted to what had been recorded by a time is a valid one. -/
theorem ValidRead.readUpTo : validateSourceRead dateParse request.asCurrent
    (readUpTo dateParse recordedAt read) = .ok () := by
  have hfilter : ∀ event ∈ read.events.filter (recordedBy dateParse recordedAt),
      event ∈ read.events ∧ recordedBy dateParse recordedAt event = true := fun event hevent =>
    List.mem_filter.mp hevent
  have hevents : (Context.readUpTo dateParse recordedAt read).events.all
      (validSourceEvent dateParse request.asCurrent
        (Context.readUpTo dateParse recordedAt read)) = true := by
    rw [List.all_eq_true]
    intro event hevent
    exact h.events event (hfilter event hevent).1
  have hnodup : ((Context.readUpTo dateParse recordedAt read).events.map (·.eventId)).Nodup :=
    (List.filter_sublist.map _ : List.Sublist _ (read.events.map (·.eventId))).nodup h.nodup
  have hheads : (Context.readUpTo dateParse recordedAt read).lifecycleHeads.all
      validLifecycleHead = true := by
    rw [List.all_eq_true]
    intro head hhead
    obtain ⟨group, hgroup, rfl⟩ := List.mem_map.mp hhead
    obtain ⟨before, last, -, hhead, hlast, hidentity⟩ := h.recorded_group recordedAt hgroup
    have hsound := h.sound hlast
    rw [hhead, ← hidentity]
    simp only [validLifecycleHead, ContextSourceEvent.identity, hsound.source,
      hsound.externalId, hsound.eventId, Bool.and_self]
  have hparents : ∀ event ∈ (Context.readUpTo dateParse recordedAt read).events,
      validateParent dateParse (Context.readUpTo dateParse recordedAt read).events event =
        .ok () := by
    intro event hevent
    obtain ⟨hmem, hrecorded⟩ := hfilter event hevent
    have hsame := h.parentIn_recorded recordedAt hmem hrecorded
    have hvalid := h.parents event hmem
    unfold validateParent at *
    rw [← hsame] at hvalid
    exact hvalid
  have hgroups : ∀ group ∈ groupBy ContextSourceEvent.identity
      (Context.readUpTo dateParse recordedAt read).events,
      validateHead dateParse (Context.readUpTo dateParse recordedAt read).lifecycleHeads group =
        .ok () := by
    intro group hgroup
    obtain ⟨before, last, hordered, hhead, -, -⟩ := h.recorded_group recordedAt hgroup
    have hmem : headOfGroup dateParse group ∈
        (Context.readUpTo dateParse recordedAt read).lifecycleHeads :=
      List.mem_map_of_mem hgroup
    have hfound : headOf (Context.readUpTo dateParse recordedAt read).lifecycleHeads group.1 =
        some (headOfGroup dateParse group) :=
      headOf_of_mem (readUpTo_heads_nodup recordedAt) hmem (by rw [hhead]; rfl)
    unfold validateHead
    rw [hordered, hfound, hhead]
    simp [bind, Except.bind]
  unfold validateSourceRead
  have hlength : (Context.readUpTo dateParse recordedAt read).lifecycleHeads.length =
      (groupBy ContextSourceEvent.identity
        (Context.readUpTo dateParse recordedAt read).events).length :=
    List.length_map _
  have hboundary : (dateParse (Context.readUpTo dateParse recordedAt read).recordedAt).isSome =
      true := h.boundary
  simp only [hboundary, hevents, hnodup, hheads, readUpTo_heads_nodup recordedAt, hlength,
    decide_true, Bool.and_self, throwUnless_true]
  have hforEvents := forM_ok_of hparents
  have hforGroups := forM_ok_of hgroups
  rw [hforEvents, hforGroups]
  rfl

end Earlier

/-! ## As of -/

theorem resolve_congr {asked other : ContextRequest} {recordedAt : String}
    {events earlier : List ContextSourceEvent}
    (hseen : events.filter (seenEvent dateParse asked recordedAt) =
      earlier.filter (seenEvent dateParse other recordedAt))
    (hselect : selectLifecycle asked = selectLifecycle other) :
    resolveEventLifecycle dateParse asked recordedAt events =
      resolveEventLifecycle dateParse other recordedAt earlier := by
  unfold resolveEventLifecycle
  rw [hseen, hselect]

theorem validAt_asOf {v : Option String} {t : String}
    (hasked : request.temporal = .asOf v t) : validAt request = present v := by
  unfold validAt
  rw [hasked]

theorem ValidRead.resolve_asOf (h : ValidRead dateParse request read) {v : Option String}
    {t : String} (hasked : request.temporal = .asOf v t) (hv : present v = none) :
    resolveEventLifecycle dateParse request read.recordedAt read.events =
      resolveEventLifecycle dateParse request.asCurrent read.recordedAt
        (Context.readUpTo dateParse t read).events := by
  apply resolve_congr
  · have hcut : (Context.readUpTo dateParse t read).events =
        read.events.filter (recordedBy dateParse t) := rfl
    rw [hcut, List.filter_filter]
    apply List.filter_congr
    intro event hevent
    have hwithin := (h.sound hevent).within
    have hseen : seenEvent dateParse request read.recordedAt event =
        recordedBy dateParse t event := by
      unfold seenEvent recordedBy recordedCutoff
      rw [validAt_asOf hasked, hv, hasked]
      exact Bool.and_true _
    have hcurrent : seenEvent dateParse request.asCurrent read.recordedAt event = true := by
      unfold seenEvent recordedCutoff validAt ContextRequest.asCurrent
      simp [hwithin]
    rw [hseen, hcurrent, Bool.true_and]
  · funext ordered
    unfold selectLifecycle ContextRequest.asCurrent
    rw [hasked]
    cases ordered.getLast? <;> rfl

/-! ## History -/

section History

variable {v : Option String} {ordered : List ContextSourceEvent}

theorem filter_superseded {p : AuthorizedSourceEvent → Bool}
    (hp : ∀ source, p ⟨source, .superseded⟩ = false) (sources : List ContextSourceEvent) :
    (sources.map fun source => (⟨source, .superseded⟩ : AuthorizedSourceEvent)).filter p = [] := by
  apply List.filter_eq_nil_iff.mpr
  intro event hevent
  obtain ⟨source, -, rfl⟩ := List.mem_map.mp hevent
  rw [hp source]
  exact Bool.false_ne_true

/-- What history selects of one lifecycle: its content events, all superseded but the last. -/
theorem selectLifecycle_history (hasked : request.temporal = .history v) :
    (selectLifecycle request ordered).map (·.toContextSourceEvent) =
        ordered.filter carriesContent ∧
      ((selectLifecycle request ordered).filter fun event => event.status ≠ .superseded).length
        ≤ 1 := by
  unfold selectLifecycle
  rw [hasked]
  cases hlast : ordered.getLast? with
  | none =>
    rw [List.getLast?_eq_none_iff.mp hlast]
    exact ⟨rfl, Nat.zero_le 1⟩
  | some head =>
    dsimp only
    cases hcontent : (ordered.filter carriesContent).reverse with
    | nil =>
      rw [List.reverse_eq_nil_iff.mp hcontent]
      exact ⟨rfl, Nat.zero_le 1⟩
    | cons last earlier =>
      have hfilter : ordered.filter carriesContent = earlier.reverse ++ [last] := by
        rw [← List.reverse_reverse (ordered.filter carriesContent), hcontent,
          List.reverse_cons]
      constructor
      · rw [List.map_append, List.map_map, hfilter]
        congr 1
        exact List.map_id' _
      · rw [List.filter_append, filter_superseded fun _ => rfl, List.nil_append]
        exact List.length_filter_le _ [_]

/-- What is current of one lifecycle is the same in history. -/
theorem selectLifecycle_current (hasked : request.temporal = .history v)
    (hcontent : ∀ event ∈ ordered,
      carriesContent event = true ↔ event.operation ≠ .tombstone) :
    ((selectLifecycle request ordered).filter fun event => event.status = .current) =
      selectLifecycle request.asCurrent ordered := by
  unfold selectLifecycle ContextRequest.asCurrent
  rw [hasked]
  cases hlast : ordered.getLast? with
  | none => rfl
  | some head =>
    obtain ⟨before, rfl⟩ := List.getLast?_eq_some_iff.mp hlast
    have hhead := hcontent head (by simp)
    dsimp only
    by_cases htombstone : head.operation = .tombstone
    · have hnone : carriesContent head = false := by
        rw [Bool.eq_false_iff]
        exact fun hcarries => hhead.mp hcarries htombstone
      rw [if_pos htombstone, hnone]
      cases (((before ++ [head]).filter carriesContent).reverse) with
      | nil => rfl
      | cons last earlier =>
        dsimp only
        rw [List.filter_append, filter_superseded fun _ => rfl]
        rfl
    · have hcarries : carriesContent head = true := hhead.mpr htombstone
      have hreverse : ((before ++ [head]).filter carriesContent).reverse =
          head :: (before.filter carriesContent).reverse := by
        rw [List.filter_append, List.filter_cons, if_pos hcarries, List.reverse_append]
        rfl
      rw [if_neg htombstone, hcarries, hreverse, if_pos rfl]
      dsimp only
      rw [List.filter_append, filter_superseded fun _ => rfl]
      rfl

/-- What history selects of a valid read. -/
structure HistoryOf (dateParse : DateParse) (request : ContextRequest) (read : ContextSourceRead)
    (selected : List AuthorizedSourceEvent) : Prop where
  /-- Every content event that is seen is selected once, and nothing else. -/
  contents : (selected.map (·.toContextSourceEvent)).Perm (read.events.filter fun event =>
    seenEvent dateParse request read.recordedAt event && carriesContent event)
  /-- All events of an identity but one are superseded. -/
  superseded : ∀ key : IdentityKey, (selected.filter fun event =>
    event.identity = key && decide (event.status ≠ .superseded)).length ≤ 1
  /-- Without a time at which they are valid, the current events are those that current selects. -/
  current : validAt request = none →
    resolveEventLifecycle dateParse request.asCurrent read.recordedAt read.events =
      .ok (selected.filter fun event => event.status = .current)

theorem ValidRead.history (h : ValidRead dateParse request read)
    (hasked : request.temporal = .history v) {selected : List AuthorizedSourceEvent}
    (hselected : resolveEventLifecycle dateParse request read.recordedAt read.events =
      .ok selected) : HistoryOf dateParse request read selected := by
  have hresolved := hselected.symm.trans (h.resolve (WholeLifecycles.refl read.events))
  obtain rfl := Except.ok.inj hresolved
  have hsort := List.perm_insertionSort eventOrder (perGroup ContextSourceEvent.identity
    (selectInOrder dateParse request)
    (read.events.filter (seenEvent dateParse request read.recordedAt)))
  constructor
  · have hgroups : ∀ group ∈ groupBy ContextSourceEvent.identity
        (read.events.filter (seenEvent dateParse request read.recordedAt)),
        ((selectInOrder dateParse request group.2).map (·.toContextSourceEvent)).Perm
          (group.2.filter carriesContent) := by
      intro group hgroup
      obtain ⟨chain, hlinked, hperm⟩ : ∃ chain, Linked chain ∧ group.2.Perm chain := by
        rw [(mem_groupBy.mp hgroup).2]
        exact h.seen_linked (WholeLifecycles.refl read.events) group.1
      unfold selectInOrder
      rw [lifecycleInOrder_chain hlinked hperm, (selectLifecycle_history hasked).1]
      exact (hperm.filter _).symm
    have hall := List.Perm.flatMap_left _ hgroups
    have hone := (@perGroup_id_perm _ _ _ ContextSourceEvent.identity
      (read.events.filter (seenEvent dateParse request read.recordedAt))).filter carriesContent
    rw [filter_perGroup] at hone
    have hmap := hsort.map (·.toContextSourceEvent)
    rw [map_perGroup] at hmap
    have hboth := (hmap.trans hall).trans hone
    rw [List.filter_filter] at hboth
    simp only [Bool.and_comm] at hboth ⊢
    exact hboth
  · intro key
    have hkey : ((perGroup ContextSourceEvent.identity (selectInOrder dateParse request)
        (read.events.filter (seenEvent dateParse request read.recordedAt))).filter
          fun event => event.identity = key) =
        selectInOrder dateParse request (lifecycleOf
          (read.events.filter (seenEvent dateParse request read.recordedAt)) key) :=
      perGroup_of_key selectInOrder_identity rfl key _
    have hone := hsort.filter fun event => event.identity = key &&
      decide (event.status ≠ .superseded)
    simp only [Bool.and_comm] at hone ⊢
    rw [hone.length_eq, ← List.filter_filter, hkey]
    exact (selectLifecycle_history hasked).2
  · intro hvalid
    have hseen : read.events.filter (seenEvent dateParse request.asCurrent read.recordedAt) =
        read.events.filter (seenEvent dateParse request read.recordedAt) := by
      apply List.filter_congr
      intro event _
      unfold seenEvent recordedCutoff
      rw [hvalid, hasked]
      rfl
    rw [h.resolve (WholeLifecycles.refl read.events), hseen, filter_insertionSort,
      filter_perGroup]
    congr 2
    apply perGroup_congr
    intro group hgroup
    refine (selectLifecycle_current hasked ?_).symm
    intro event hevent
    have hmember := lifecycleInOrder_subset hevent
    rw [(mem_groupBy.mp hgroup).2] at hmember
    exact h.content (List.mem_filter.mp (List.mem_filter.mp hmember).1).1

end History

/-! ## All modes -/

/-- No selection of a valid read fails; as-of without a time of validity is current over the read
as it was by then, which is a valid one; history selects every content event once, one of each
identity at most not superseded, and its current events are those of current. -/
theorem time_travel_is_consistent (h : validateSourceRead dateParse request read = .ok ()) :
    (∀ visible, WholeLifecycles read.events visible →
      ∃ selected, resolveEventLifecycle dateParse request read.recordedAt visible =
        .ok selected) ∧
    (∀ v t, request.temporal = .asOf v t → present v = none →
      validateSourceRead dateParse request.asCurrent (readUpTo dateParse t read) = .ok () ∧
      resolveEventLifecycle dateParse request read.recordedAt read.events =
        resolveEventLifecycle dateParse request.asCurrent read.recordedAt
          (readUpTo dateParse t read).events) ∧
    (∀ v, request.temporal = .history v → ∀ selected,
      resolveEventLifecycle dateParse request read.recordedAt read.events = .ok selected →
      HistoryOf dateParse request read selected) := by
  have hvalid := validRead_of_validateSourceRead h
  refine ⟨?_, ?_, ?_⟩
  · intro visible hwhole
    exact ⟨_, hvalid.resolve hwhole⟩
  · intro v t hasked hv
    exact ⟨hvalid.readUpTo t, hvalid.resolve_asOf hasked hv⟩
  · intro v hasked selected hselected
    exact hvalid.history hasked hselected

/-! ### A message that was revised -/

def revisedHash : String := String.ofList (List.replicate 64 'a')

def sentEvent : ContextSourceEvent where
  eventId := "e1"
  orgId := "org"
  source := "feishu"
  externalId := "m1"
  operation := .create
  occurredAt := "10"
  ingestedAt := "10"
  contentHash := some revisedHash
  threadId := some "t"
  actorId := some "a"
  requiredScopeIds := ["s"]

def revisedEvent : ContextSourceEvent :=
  { sentEvent with
    eventId := "e2"
    operation := .revise
    occurredAt := "20"
    ingestedAt := "20"
    parentEventId := some "e1" }

def revisedRead : ContextSourceRead where
  recordedAt := "30"
  lifecycleHeads := [⟨"feishu", "m1", "e2"⟩]
  events := [sentEvent, revisedEvent]

def historyRequest : ContextRequest where
  orgId := "org"
  temporal := .history none

def threeTimes (text : String) : Option Int :=
  [("10", 10), ("20", 20), ("30", 30)].lookup text

theorem time_travel_is_consistent_revised :
    ∃ selected, resolveEventLifecycle threeTimes historyRequest "30" revisedRead.events =
        .ok selected ∧ HistoryOf threeTimes historyRequest revisedRead selected := by
  have hread : validateSourceRead threeTimes historyRequest revisedRead = .ok () :=
    ok_of_toOption (by decide +kernel)
  obtain ⟨hselected, -, hhistory⟩ := time_travel_is_consistent hread
  obtain ⟨selected, hselected⟩ := hselected _ (WholeLifecycles.refl _)
  exact ⟨selected, hselected, hhistory none rfl selected hselected⟩

end Regenic.Context
