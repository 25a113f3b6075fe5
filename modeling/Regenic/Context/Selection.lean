import Regenic.Context.Valid

/-!
What a request selects of a valid read. No selection fails, and what it is made of can be said
identity by identity: the part of each lifecycle that is seen, in its order.
-/

namespace Regenic.Context

open Lib Ingest
open Customer (DateParse nonBlank)

variable {dateParse : DateParse} {request : ContextRequest} {read : ContextSourceRead}

/-! ## Parts of lifecycles -/

/-- The order of a lifecycle that has one. -/
def lifecycleInOrder (dateParse : DateParse) (events : List ContextSourceEvent) :
    List ContextSourceEvent :=
  match orderLifecycle dateParse events with
  | .ok ordered => ordered
  | .error _ => []

theorem lifecycleInOrder_chain {chain events : List ContextSourceEvent} (h : Linked chain)
    (hperm : events.Perm chain) : lifecycleInOrder dateParse events = chain := by
  unfold lifecycleInOrder
  rw [orderLifecycle_chain h hperm]

/-- Some lifecycles of a read as they are, and nothing of the others. -/
def WholeLifecycles (events some : List ContextSourceEvent) : Prop :=
  ∀ key, lifecycleOf some key = [] ∨ lifecycleOf some key = lifecycleOf events key

theorem WholeLifecycles.refl (events : List ContextSourceEvent) :
    WholeLifecycles events events := fun _ => .inr rfl

theorem WholeLifecycles.mem {events some : List ContextSourceEvent}
    (h : WholeLifecycles events some) {event : ContextSourceEvent} (hevent : event ∈ some) :
    event ∈ events := by
  have hmem : event ∈ lifecycleOf some event.identity :=
    List.mem_filter.mpr ⟨hevent, decide_eq_true rfl⟩
  rcases h event.identity with hnone | hall
  · rw [hnone] at hmem
    cases hmem
  · rw [hall] at hmem
    exact (List.mem_filter.mp hmem).1

/-- With one event of a lifecycle all of them are there. -/
theorem WholeLifecycles.all {events some : List ContextSourceEvent}
    (h : WholeLifecycles events some) {event other : ContextSourceEvent} (hevent : event ∈ some)
    (hother : other ∈ events) (hsame : other.identity = event.identity) : other ∈ some := by
  have hmem : event ∈ lifecycleOf some event.identity :=
    List.mem_filter.mpr ⟨hevent, decide_eq_true rfl⟩
  rcases h event.identity with hnone | hall
  · rw [hnone] at hmem
    cases hmem
  · have hin : other ∈ lifecycleOf events event.identity :=
      List.mem_filter.mpr ⟨hother, decide_eq_true hsame⟩
    rw [← hall] at hin
    exact (List.mem_filter.mp hin).1

theorem visibleLifecycle_identity (policy : ContextPolicyEvaluator)
    (members : List ContextSourceEvent) (key : IdentityKey) (event : ContextSourceEvent)
    (hkey : ∀ member ∈ members, member.identity = key)
    (hevent : event ∈ visibleLifecycle policy request members) : event.identity = key := by
  unfold visibleLifecycle at hevent
  split at hevent
  · exact hkey event hevent
  · cases hevent

theorem authorizedLifecycleEvents_whole (policy : ContextPolicyEvaluator)
    (events : List ContextSourceEvent) :
    WholeLifecycles events (authorizedLifecycleEvents policy request events) := by
  intro key
  have hlifecycle : lifecycleOf (authorizedLifecycleEvents policy request events) key =
      visibleLifecycle policy request (lifecycleOf events key) :=
    perGroup_of_key (visibleLifecycle_identity policy) (by simp [visibleLifecycle]) key events
  rw [hlifecycle]
  unfold visibleLifecycle
  split
  · exact .inr rfl
  · exact .inl rfl

/-- A part of a read that has every parent it names is a chain for each identity. -/
theorem ValidRead.linked_filter (h : ValidRead dateParse request read)
    {p : ContextSourceEvent → Bool}
    (hclosed : ∀ parent ∈ read.events, ∀ event ∈ read.events, Parents parent event →
      p event = true → p parent = true) (key : IdentityKey) :
    ∃ chain, Linked chain ∧ ((lifecycleOf read.events key).filter p).Perm chain := by
  obtain ⟨chain, hlinked, hperm⟩ := h.linked key
  have hmem : ∀ event ∈ chain, event ∈ read.events := fun event hevent =>
    (List.mem_filter.mp (hperm.mem_iff.mpr hevent)).1
  refine ⟨chain.filter p, hlinked.filter ?_, hperm.filter p⟩
  intro parent hparent event hevent
  exact hclosed parent (hmem parent hparent) event (hmem event hevent)

/-! ## Selection -/

section Resolve

variable {visible : List ContextSourceEvent} {asked : ContextRequest} {recordedAt : String}

/-- What a request sees of the part of a lifecycle that is seen. -/
def selectInOrder (dateParse : DateParse) (asked : ContextRequest)
    (events : List ContextSourceEvent) : List AuthorizedSourceEvent :=
  selectLifecycle asked (lifecycleInOrder dateParse events)

theorem lifecycleInOrder_subset {events : List ContextSourceEvent} :
    lifecycleInOrder dateParse events ⊆ events := by
  unfold lifecycleInOrder
  cases hordered : orderLifecycle dateParse events with
  | error failure => exact List.nil_subset _
  | ok ordered => exact orderLifecycle_subset hordered

theorem selectLifecycle_subset {ordered : List ContextSourceEvent}
    {event : AuthorizedSourceEvent} (hevent : event ∈ selectLifecycle asked ordered) :
    event.toContextSourceEvent ∈ ordered := by
  unfold selectLifecycle at hevent
  split at hevent
  · cases hevent
  · rename_i head hlast
    dsimp only at hevent
    split at hevent
    · cases hevent
    · rename_i last earlier hreverse
      have hcontent : ∀ source ∈ last :: earlier, source ∈ ordered := by
        intro source hsource
        rw [← hreverse, List.mem_reverse] at hsource
        exact (List.mem_filter.mp hsource).1
      rcases List.mem_append.mp hevent with hearlier | hhead
      · obtain ⟨source, hsource, rfl⟩ := List.mem_map.mp hearlier
        exact hcontent source (List.mem_cons_of_mem _ (List.mem_reverse.mp hsource))
      · obtain rfl := List.mem_singleton.mp hhead
        exact hcontent last List.mem_cons_self
  · rename_i head hlast _
    split at hevent
    · obtain rfl := List.mem_singleton.mp hevent
      exact List.mem_of_getLast? hlast
    · cases hevent

theorem selectInOrder_identity (members : List ContextSourceEvent) (key : IdentityKey)
    (event : AuthorizedSourceEvent) (hkey : ∀ member ∈ members, member.identity = key)
    (hevent : event ∈ selectInOrder dateParse asked members) : event.identity = key :=
  hkey _ (lifecycleInOrder_subset (selectLifecycle_subset hevent))

theorem lifecycleOf_filter (p : ContextSourceEvent → Bool) (events : List ContextSourceEvent)
    (key : IdentityKey) : lifecycleOf (events.filter p) key = (lifecycleOf events key).filter p := by
  unfold lifecycleOf
  rw [List.filter_filter, List.filter_filter]
  simp only [Bool.and_comm]

theorem ValidRead.seen_linked (h : ValidRead dateParse request read)
    (hwhole : WholeLifecycles read.events visible) (key : IdentityKey) :
    ∃ chain, Linked chain ∧
      (lifecycleOf (visible.filter (seenEvent dateParse asked recordedAt)) key).Perm chain := by
  rw [lifecycleOf_filter]
  rcases hwhole key with hnone | hall
  · rw [hnone]
    refine ⟨[], ⟨List.isChain_nil, ?_, List.nodup_nil⟩, List.Perm.refl _⟩
    intro root hroot
    cases hroot
  · rw [hall]
    apply h.linked_filter
    intro parent hparent event hevent hparents hseen
    exact h.seen_parent hparent hevent hparents hseen

theorem ValidRead.misses_none (h : ValidRead dateParse request read)
    (hwhole : WholeLifecycles read.events visible) :
    (visible.filter (seenEvent dateParse asked recordedAt)).any
      (missesParent (visible.filter (seenEvent dateParse asked recordedAt))) = false := by
  rw [List.any_eq_false]
  intro event hevent
  obtain ⟨hvisible, hseen⟩ := List.mem_filter.mp hevent
  have hread := hwhole.mem hvisible
  unfold missesParent
  rcases h.rooted hread with ⟨hcreate, -⟩ | ⟨-, parent, hparent, hparents⟩
  · simp [hcreate]
  · have hin : parent ∈ visible := hwhole.all hvisible hparent (h.identity hparent hread hparents)
    have hboth : parent ∈ visible.filter (seenEvent dateParse asked recordedAt) :=
      List.mem_filter.mpr ⟨hin, h.seen_parent hparent hread hparents hseen⟩
    have hhas : hasEvent (visible.filter (seenEvent dateParse asked recordedAt))
        parent.eventId = true := List.any_eq_true.mpr ⟨parent, hboth, decide_eq_true rfl⟩
    have hparents : present event.parentEventId = some parent.eventId := hparents
    simp [hparents, hhas]

/-- No selection of a valid read fails, and it is made lifecycle by lifecycle. -/
theorem ValidRead.resolve (h : ValidRead dateParse request read)
    (hwhole : WholeLifecycles read.events visible) :
    resolveEventLifecycle dateParse asked recordedAt visible =
      .ok ((perGroup ContextSourceEvent.identity (selectInOrder dateParse asked)
        (visible.filter (seenEvent dateParse asked recordedAt))).insertionSort eventOrder) := by
  have horder : ∀ group ∈ groupBy ContextSourceEvent.identity
      (visible.filter (seenEvent dateParse asked recordedAt)),
      (orderLifecycle dateParse group.2).map (selectLifecycle asked) =
        .ok (selectInOrder dateParse asked group.2) := by
    intro group hgroup
    obtain ⟨chain, hlinked, hperm⟩ := h.seen_linked hwhole group.1
    have hmembers := (mem_groupBy.mp hgroup).2
    have hperm : group.2.Perm chain := hmembers ▸ hperm
    unfold selectInOrder
    rw [lifecycleInOrder_chain hlinked hperm, orderLifecycle_chain hlinked hperm]
    rfl
  unfold resolveEventLifecycle
  dsimp only
  rw [h.misses_none hwhole, mapM_ok horder]
  rfl

end Resolve

end Regenic.Context
