import Regenic.Context.TimeTravel

/-!
A scoped read against an unscoped one. The scope takes whole identities, so what it leaves out is
left out of every later step, and an event that the exact filter would keep is of an identity that
the scope has selected.
-/

namespace Regenic.Context

open Lib Ingest
open Customer (DateParse nonBlank)

variable {dateParse : DateParse} {tables : ContextTables} {orgId recordedAt : String}

/-! ## Reads -/

/-- What is of the identities that a predicate takes. -/
def AuthorityRead.within (p : IdentityKey → Bool) (read : AuthorityRead) : AuthorityRead where
  recordedAt := read.recordedAt
  events := read.events.filter fun event => p event.identity
  lifecycleHeads := read.lifecycleHeads.filter fun head => p head.identity

theorem ReadScope.selects_org {scope : ReadScope} {row : EventRow}
    (h : scope.selects dateParse row = true) : row.orgId = scope.orgId := by
  simp only [ReadScope.selects, Bool.and_eq_true, decide_eq_true_eq] at h
  exact h.1.1.1.1.1.1

theorem contextReadScope_orgId {query : Option ContextAuthorityReadQuery} {scope : ReadScope}
    (h : contextReadScope dateParse orgId query = some scope) : scope.orgId = orgId := by
  simp only [contextReadScope, Option.bind_eq_bind, Option.bind_eq_some_iff] at h
  obtain ⟨after, -, before, -, hscope⟩ := h
  obtain rfl := Option.some.inj hscope
  rfl

/-- Without a query every row of the organization is selected. -/
theorem selects_unscoped {scope : ReadScope} (h : contextReadScope dateParse orgId none = some scope)
    {row : EventRow} (hrow : row.orgId = orgId) : scope.selects dateParse row = true := by
  obtain rfl := Option.some.inj h
  simp [ReadScope.selects, inValues, hrow]

theorem openContextRead_ok {query : Option ContextAuthorityReadQuery} {read : AuthorityRead}
    (h : openContextRead dateParse tables orgId query recordedAt = .ok read) :
    ∃ scope, contextReadScope dateParse orgId query = some scope ∧ read.recordedAt = recordedAt ∧
      read.events = (tables.events.filter fun row => row.orgId = orgId &&
        scope.selected dateParse tables.events row.identity).map (AuthorityEvent.ofRow tables) ∧
      read.lifecycleHeads = (tables.sourceHeads.filter fun head =>
        head.identity.orgId = orgId && scope.selected dateParse tables.events
          (head.identity.source, head.identity.externalId)).map fun head =>
            { source := head.identity.source
              externalId := head.identity.externalId
              headEventId := head.currentEventId } := by
  unfold openContextRead at h
  cases hscope : contextReadScope dateParse orgId query with
  | none => rw [hscope] at h; cases h
  | some scope =>
    rw [hscope] at h
    obtain rfl := Except.ok.inj h
    exact ⟨scope, rfl, rfl, rfl, rfl⟩

/-- A scoped read is the part of the unscoped one that is of the selected identities. -/
theorem scopedRead_eq {query : Option ContextAuthorityReadQuery} {full part : AuthorityRead}
    (hfull : openContextRead dateParse tables orgId none recordedAt = .ok full)
    (hpart : openContextRead dateParse tables orgId query recordedAt = .ok part) :
    ∃ scope, contextReadScope dateParse orgId query = some scope ∧
      part = full.within (scope.selected dateParse tables.events) := by
  obtain ⟨all, hall, hat, hevents, hheads⟩ := openContextRead_ok hfull
  obtain ⟨scope, hscope, hat', hevents', hheads'⟩ := openContextRead_ok hpart
  refine ⟨scope, hscope, ?_⟩
  have hrow : ∀ row ∈ tables.events, row.orgId = orgId →
      all.selected dateParse tables.events row.identity = true := by
    intro row hmem horg
    refine List.any_eq_true.mpr ⟨row, hmem, ?_⟩
    rw [selects_unscoped hall horg]
    exact decide_eq_true rfl
  have hkey : ∀ key, scope.selected dateParse tables.events key = true →
      all.selected dateParse tables.events key = true := by
    intro key hselected
    obtain ⟨row, hmem, hrow'⟩ := List.any_eq_true.mp hselected
    obtain ⟨hselects, hidentity⟩ := Bool.and_eq_true_iff.mp hrow'
    obtain rfl : row.identity = key := of_decide_eq_true hidentity
    exact hrow row hmem ((ReadScope.selects_org hselects).trans (contextReadScope_orgId hscope))
  have hrows : part.events = full.events.filter fun event =>
      scope.selected dateParse tables.events event.identity := by
    rw [hevents, hevents', List.filter_map, List.filter_filter]
    congr 1
    apply List.filter_congr
    intro row hmem
    show (decide (row.orgId = orgId) && scope.selected dateParse tables.events row.identity) =
      (scope.selected dateParse tables.events row.identity && (decide (row.orgId = orgId) &&
        all.selected dateParse tables.events row.identity))
    cases hselected : scope.selected dateParse tables.events row.identity with
    | false => simp
    | true => rw [hkey _ hselected, Bool.and_true, Bool.true_and]
  have hheads : part.lifecycleHeads = full.lifecycleHeads.filter fun head =>
      scope.selected dateParse tables.events head.identity := by
    rw [hheads, hheads', List.filter_map, List.filter_filter]
    congr 1
    apply List.filter_congr
    intro head _
    show _ = (scope.selected dateParse tables.events
      (head.identity.source, head.identity.externalId) && _)
    cases hselected : scope.selected dateParse tables.events
        (head.identity.source, head.identity.externalId) with
    | false => simp
    | true => rw [hkey _ hselected, Bool.and_true, Bool.true_and]
  cases full
  cases part
  simp only [AuthorityRead.within] at *
  rw [hat, hat', hrows, hheads]

/-! ## Sources -/

theorem headOf_filter {heads : List LifecycleHead} {p : IdentityKey → Bool} {key : IdentityKey}
    (hkey : p key = true) : headOf (heads.filter fun head => p head.identity) key =
      headOf heads key := by
  unfold headOf
  rw [← List.filter_reverse, List.find?_filter]
  congr 1
  funext head
  by_cases hhead : head.identity = key
  · simp [hhead, hkey]
  · simp [hhead]

theorem sourceLifecycle_identity (heads : List LifecycleHead) (members : List AuthorityEvent)
    (key : IdentityKey) (event : ContextSourceEvent)
    (hkey : ∀ member ∈ members, member.identity = key)
    (hevent : event ∈ sourceLifecycle heads members) : event.identity = key := by
  unfold sourceLifecycle at hevent
  split at hevent
  · obtain ⟨member, hmember, rfl⟩ := List.mem_map.mp hevent
    exact hkey member hmember
  · cases hevent

/-- The source events of a part of an authority read. -/
theorem sourceRead_within (p : IdentityKey → Bool) (read : AuthorityRead) :
    (sourceRead (read.within p)).events =
      (sourceRead read).events.filter fun event => p event.identity := by
  have hfilter := perGroup_filter (sourceLifecycle_identity read.lifecycleHeads) p read.events
  have hcongr : perGroup (fun event : AuthorityEvent => event.identity)
      (sourceLifecycle (read.within p).lifecycleHeads) (read.within p).events =
      perGroup (fun event : AuthorityEvent => event.identity)
        (sourceLifecycle read.lifecycleHeads) (read.within p).events := by
    apply perGroup_congr
    intro group hgroup
    obtain ⟨hkey, hmembers⟩ := mem_groupBy.mp hgroup
    have hp : p group.1 = true := by
      obtain ⟨event, hevent, hidentity⟩ := List.mem_map.mp hkey
      exact hidentity ▸ (List.mem_filter.mp hevent).2
    unfold sourceLifecycle eligibleLifecycle
    cases hgroup : group.2 with
    | nil => rfl
    | cons first rest =>
      have hfirst : first ∈ group.2 := hgroup ▸ List.mem_cons_self
      rw [hmembers] at hfirst
      have hidentity : first.identity = group.1 := of_decide_eq_true (List.mem_filter.mp hfirst).2
      rw [List.head?_cons, Option.bind_some, Option.bind_some, hidentity]
      unfold AuthorityRead.within
      rw [headOf_filter hp]
  exact hcongr.trans hfilter

theorem sourceRead_mem {read : AuthorityRead} {event : ContextSourceEvent}
    (h : event ∈ (sourceRead read).events) : ∃ stored ∈ read.events, event = stored.toSource := by
  obtain ⟨group, hgroup, hevent⟩ := List.mem_flatMap.mp h
  rw [(mem_groupBy.mp hgroup).2] at hevent
  unfold sourceLifecycle at hevent
  split at hevent
  · obtain ⟨stored, hstored, rfl⟩ := List.mem_map.mp hevent
    exact ⟨stored, (List.mem_filter.mp hstored).1, rfl⟩
  · cases hevent

/-! ## Selections -/

section Selection

variable {policy : ContextPolicyEvaluator} {request : ContextRequest} (p : IdentityKey → Bool)

theorem authorizedLifecycleEvents_filter (events : List ContextSourceEvent) :
    authorizedLifecycleEvents policy request (events.filter fun event => p event.identity) =
      (authorizedLifecycleEvents policy request events).filter fun event => p event.identity :=
  perGroup_filter (visibleLifecycle_identity policy) p events

/-- What is selected of the identities of a scope, of what is selected of all. -/
theorem resolve_filter {read part : ContextSourceRead} (h : ValidRead dateParse request read)
    (hpart : ValidRead dateParse request part)
    (hevents : part.events = read.events.filter fun event => p event.identity) :
    ∃ selected, resolveEventLifecycle dateParse request recordedAt
        (authorizedLifecycleEvents policy request read.events) = .ok selected ∧
      resolveEventLifecycle dateParse request recordedAt
        (authorizedLifecycleEvents policy request part.events) =
          .ok (selected.filter fun event => p event.identity) ∧
      ∀ event ∈ selected, event.toContextSourceEvent ∈ read.events := by
  have hwhole := @authorizedLifecycleEvents_whole request policy read.events
  refine ⟨_, h.resolve hwhole, ?_, ?_⟩
  · rw [hpart.resolve (authorizedLifecycleEvents_whole policy part.events), hevents,
      authorizedLifecycleEvents_filter, filter_insertionSort]
    have hcomm : ((authorizedLifecycleEvents policy request read.events).filter
          fun event => p event.identity).filter (seenEvent dateParse request recordedAt) =
        ((authorizedLifecycleEvents policy request read.events).filter
          (seenEvent dateParse request recordedAt)).filter fun event => p event.identity := by
      rw [List.filter_filter, List.filter_filter]
      simp only [Bool.and_comm]
    rw [hcomm, perGroup_filter selectInOrder_identity p]
  · intro event hevent
    obtain ⟨group, hgroup, hselected⟩ :=
      List.mem_flatMap.mp ((List.mem_insertionSort eventOrder).mp hevent)
    have hmember := lifecycleInOrder_subset (selectLifecycle_subset hselected)
    rw [(mem_groupBy.mp hgroup).2] at hmember
    exact hwhole.mem (List.mem_filter.mp (List.mem_filter.mp hmember).1).1

end Selection

/-! ## Filters -/

section Filters

variable {request : ContextRequest} {scope : ReadScope} {row : EventRow}

/-- The query that a request reads with. -/
def ContextRequest.authorityQuery (request : ContextRequest) : ContextAuthorityReadQuery where
  filters := request.filters
  anchors := request.anchors

theorem inValues_of_listed {values : Option (List String)} {value : Option String}
    (h : listed values value = true) : inValues values value = true := by
  unfold listed at h
  unfold inValues
  cases values with
  | none => rfl
  | some values =>
    rw [Option.all_some] at h ⊢
    cases hvalue : present value with
    | none => rw [hvalue] at h; cases h
    | some v =>
      rw [(present_some.mp hvalue).1]
      rw [hvalue] at h
      exact h

theorem anchorSelects_eq (anchor : ContextAnchor) :
    anchorSelects anchor row = anchorMatches (AuthorityEvent.ofRow tables row).toSource anchor := by
  unfold anchorSelects anchorMatches
  cases anchor.kind <;> rfl

/-- Whole seconds take what the bound in milliseconds takes. -/
theorem after_of_bound (hempty : dateParse "" = none) {bound : Option String} {after : Option Int}
    (hafter : wholeSecond dateParse bound = some after) {event : ContextSourceEvent} {ms : Int}
    (htime : dateParse event.occurredAt = some ms)
    (h : occurredBeforeBound dateParse event bound = false) :
    (after.all fun after => (dateParse event.occurredAt).any fun ms => after ≤ ms) = true := by
  cases bound with
  | none =>
    obtain rfl := Option.some.inj hafter
    rfl
  | some text =>
    obtain ⟨limit, hlimit, rfl⟩ := Option.map_eq_some_iff.mp hafter
    have htext : present (some text) = some text := by
      apply present_some.mpr ⟨rfl, ?_⟩
      rintro rfl
      rw [hempty] at hlimit
      cases hlimit
    simp only [occurredBeforeBound, htext, Option.any_some, laterTime, hlimit, htime,
      decide_eq_false_iff_not] at h
    simp only [Option.all_some, htime, Option.any_some, decide_eq_true_eq]
    omega

theorem before_of_bound (hempty : dateParse "" = none) {bound : Option String}
    {before : Option Int} (hbefore : wholeSecond dateParse bound = some before)
    {event : ContextSourceEvent} {ms : Int} (htime : dateParse event.occurredAt = some ms)
    (h : occurredAfterBound dateParse event bound = false) :
    (before.all fun before =>
      (dateParse event.occurredAt).any fun ms => ms ≤ before + 1000) = true := by
  cases bound with
  | none =>
    obtain rfl := Option.some.inj hbefore
    rfl
  | some text =>
    obtain ⟨limit, hlimit, rfl⟩ := Option.map_eq_some_iff.mp hbefore
    have htext : present (some text) = some text := by
      apply present_some.mpr ⟨rfl, ?_⟩
      rintro rfl
      rw [hempty] at hlimit
      cases hlimit
    simp only [occurredAfterBound, htext, Option.any_some, laterTime, hlimit, htime,
      decide_eq_false_iff_not] at h
    simp only [Option.all_some, htime, Option.any_some, decide_eq_true_eq]
    omega

/-- A row of an event that the exact filter keeps is one that the scope selects. -/
theorem selects_of_eligible (hempty : dateParse "" = none)
    (hscope : contextReadScope dateParse orgId (some request.authorityQuery) = some scope)
    (horg : row.orgId = orgId) (htime : (dateParse row.occurredAt).isSome)
    (h : eligibleEvent dateParse request (AuthorityEvent.ofRow tables row).toSource recordedAt =
      true) : scope.selects dateParse row = true := by
  obtain ⟨ms, hms⟩ := Option.isSome_iff_exists.mp htime
  simp only [contextReadScope, Option.bind_eq_bind, Option.bind_eq_some_iff] at hscope
  obtain ⟨after, hafter, before, hbefore, hscope⟩ := hscope
  obtain rfl := Option.some.inj hscope
  simp only [eligibleEvent, Bool.and_eq_true] at h
  obtain ⟨⟨hfilters, hanchors⟩, -⟩ := h
  have hanchor : (decide (request.anchors = []) ||
      request.anchors.any fun anchor => anchorSelects anchor row) = true := by
    unfold matchesAnchors at hanchors
    rw [Bool.or_eq_true, List.any_eq_true] at hanchors ⊢
    rcases hanchors with hnone | ⟨anchor, hmem, hmatch⟩
    · exact .inl hnone
    · exact .inr ⟨anchor, hmem, (anchorSelects_eq anchor).trans hmatch⟩
  unfold matchesFilters at hfilters
  simp only [ReadScope.selects, Bool.and_eq_true, decide_eq_true_eq]
  cases hrequest : request.filters with
  | none =>
    have hnone : request.authorityQuery.filters = none := hrequest
    simp only [Option.bind_some, hnone, Option.bind_none] at hafter hbefore ⊢
    obtain rfl := Option.some.inj hafter
    obtain rfl := Option.some.inj hbefore
    exact ⟨⟨⟨⟨⟨⟨horg, rfl⟩, rfl⟩, rfl⟩, rfl⟩, rfl⟩, hanchor⟩
  | some filters =>
    have hsome : request.authorityQuery.filters = some filters := hrequest
    rw [hrequest, Option.all_some] at hfilters
    simp only [Bool.and_eq_true, Bool.not_eq_true'] at hfilters
    obtain ⟨⟨⟨⟨hsources, hthreads⟩, hactors⟩, hafterBound⟩, hbeforeBound⟩ := hfilters
    simp only [Option.bind_some, hsome] at hafter hbefore ⊢
    refine ⟨⟨⟨⟨⟨⟨horg, ?_⟩, inValues_of_listed hthreads⟩, inValues_of_listed hactors⟩, ?_⟩, ?_⟩,
      hanchor⟩
    · unfold inValues
      simp only [Option.any_some]
      exact hsources
    · exact after_of_bound hempty hafter hms hafterBound
    · exact before_of_bound hempty hbefore hms hbeforeBound

end Filters

/-! ## Candidates -/

section Candidates

variable {policy : ContextPolicyEvaluator} {request : ContextRequest}
  {material : AuthorizedSourceEvent → Except ContextFailure EventMaterial}

theorem mapM_filter_ok {ε α β : Type} {f : α → Except ε β} {l : List α} {p : α → Bool}
    {results : List β} (h : l.mapM f = .ok results) :
    ∃ kept, (l.filter p).mapM f = .ok kept := by
  induction l generalizing results with
  | nil => exact ⟨[], rfl⟩
  | cons first rest ih =>
    rw [List.mapM_cons] at h
    obtain ⟨result, hfirst, h⟩ := sequence_ok h
    obtain ⟨others, hrest, -⟩ := sequence_ok h
    obtain ⟨kept, hkept⟩ := ih hrest
    by_cases hp : p first = true
    · refine ⟨result :: kept, ?_⟩
      rw [List.filter_cons_of_pos hp, List.mapM_cons, hfirst, hkept]
      rfl
    · refine ⟨kept, ?_⟩
      rw [List.filter_cons_of_neg hp]
      exact hkept

theorem eventCandidates_of_resolve {read : ContextSourceRead}
    (hread : validateSourceRead dateParse request read = .ok ())
    {selected : List AuthorizedSourceEvent}
    (hselected : resolveEventLifecycle dateParse request read.recordedAt
      (authorizedLifecycleEvents policy request read.events) = .ok selected) :
    eventCandidates dateParse policy material request read =
      (loadForPolicy policy material selected >>= fun _ =>
        retrieveEvents dateParse material request read.recordedAt selected) := by
  unfold eventCandidates
  rw [hread]
  show (resolveEventLifecycle dateParse request read.recordedAt
    (authorizedLifecycleEvents policy request read.events) >>= _) = _
  rw [hselected]
  rfl

theorem retrieveEvents_filter {selected : List AuthorizedSourceEvent}
    {p : AuthorizedSourceEvent → Bool}
    (hp : ∀ event ∈ selected,
      eligibleEvent dateParse request event.toContextSourceEvent recordedAt = true →
        p event = true) :
    retrieveEvents dateParse material request recordedAt (selected.filter p) =
      retrieveEvents dateParse material request recordedAt selected := by
  have heligible : (selected.filter p).filter (fun event =>
        eligibleEvent dateParse request event.toContextSourceEvent recordedAt) =
      selected.filter fun event =>
        eligibleEvent dateParse request event.toContextSourceEvent recordedAt := by
    rw [List.filter_filter]
    apply List.filter_congr
    intro event hevent
    cases hkept : eligibleEvent dateParse request event.toContextSourceEvent recordedAt with
    | false => rfl
    | true => rw [hp event hevent hkept, Bool.and_self]
  unfold retrieveEvents
  rw [heligible]

end Candidates

/-! ### Two threads -/

def helloRow : EventRow where
  orgId := "org"
  source := "feishu"
  externalId := "m1"
  id := "e1"
  operation := .create
  contentHash := some revisedHash
  threadId := some "t"
  actorId := some "a"
  requiredScopeIds := some ["s"]
  occurredAt := "10"
  ingestedAt := "10"

def otherThreadRow : EventRow :=
  { helloRow with
    externalId := "m2"
    id := "e2"
    threadId := some "u"
    occurredAt := "20"
    ingestedAt := "20" }

def twoThreadTables : ContextTables where
  events := [helloRow, otherThreadRow]
  mediaType := fun _ => some "text/plain"
  sourceHeads := [⟨⟨"org", "feishu", "m1"⟩, "e1"⟩, ⟨⟨"org", "feishu", "m2"⟩, "e2"⟩]

def threadRequest : ContextRequest where
  orgId := "org"
  filters := some { threadIds := some ["t"], occurredAfter := some "10" }
  temporal := .current

def twoThreadRead (query : Option ContextAuthorityReadQuery) : AuthorityRead :=
  (openContextRead threeTimes twoThreadTables "org" query "30").toOption.getD ⟨"", [], []⟩

def openPolicy : ContextPolicyEvaluator where
  metadataOnly := true
  visible := fun _ _ _ => true

theorem openSourceRead_valid {read : AuthorityRead}
    (h : validateAuthorityRead dateParse orgId read = .ok ()) :
    openSourceRead dateParse orgId read = .ok (sourceRead read) := by
  unfold openSourceRead
  rw [h]
  rfl

end Regenic.Context
