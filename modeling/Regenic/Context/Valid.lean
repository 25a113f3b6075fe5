import Regenic.Context.Order

/-!
What the checks of a read leave of each lifecycle: a chain, whose times only grow. What a request
sees of a chain is a first part of it, so no selection of a valid read fails.
-/

namespace Regenic.Context

open Lib Ingest
open Customer (DateParse nonBlank)

/-! ## Parts of a chain -/

/-- A part of a chain that has every parent it names is a first part of it. -/
theorem filter_prefix {α : Type} {r : α → α → Prop} {chain : List α} (h : List.IsChain r chain)
    {p : α → Bool}
    (hclosed : ∀ parent ∈ chain, ∀ event ∈ chain, r parent event → p event = true →
      p parent = true) : chain.filter p <+: chain := by
  induction chain with
  | nil => exact List.nil_prefix
  | cons first rest ih =>
    have hrest : rest.filter p <+: rest :=
      ih (List.IsChain.of_cons h) fun parent hparent event hevent =>
        hclosed parent (List.mem_cons_of_mem _ hparent) event (List.mem_cons_of_mem _ hevent)
    by_cases hp : p first = true
    · rw [List.filter_cons_of_pos hp]
      exact (List.prefix_cons_inj first).mpr hrest
    · rw [List.filter_cons_of_neg hp]
      -- The next one is not in the part either, and so on.
      cases rest with
      | nil => exact List.nil_prefix
      | cons second later =>
        have hsecond : ¬p second = true := fun hmem =>
          hp (hclosed first List.mem_cons_self second
            (List.mem_cons_of_mem _ List.mem_cons_self) (List.isChain_cons_cons.mp h).1 hmem)
        obtain ⟨others, hothers⟩ := hrest
        cases hfiltered : (second :: later).filter p with
        | nil => exact List.nil_prefix
        | cons third _ =>
          rw [hfiltered, List.cons_append] at hothers
          have hsame : third = second := (List.cons.inj hothers).1
          have hthird : third ∈ (second :: later).filter p := hfiltered ▸ List.mem_cons_self
          exact absurd (hsame ▸ (List.mem_filter.mp hthird).2) hsecond

theorem Linked.filter {chain : List ContextSourceEvent} (h : Linked chain)
    {p : ContextSourceEvent → Bool}
    (hclosed : ∀ parent ∈ chain, ∀ event ∈ chain, Parents parent event → p event = true →
      p parent = true) : Linked (chain.filter p) := by
  obtain ⟨others, hothers⟩ := filter_prefix h.parents hclosed
  have hparents := h.parents
  have hroot := h.root
  have hids : ((chain.filter p).map (·.eventId)).Sublist (chain.map (·.eventId)) :=
    List.filter_sublist.map _
  refine ⟨?_, ?_, hids.nodup h.nodup⟩
  · rw [← hothers] at hparents
    exact hparents.left_of_append
  · intro root hmem
    apply hroot
    rw [← hothers]
    cases hfirst : chain.filter p with
    | nil => rw [hfirst] at hmem; cases hmem
    | cons first rest => rw [hfirst] at hmem; exact hmem

/-! ## Valid reads -/

section Valid

variable {dateParse : DateParse} {request : ContextRequest}

/-- The events of one identity. -/
def lifecycleOf (events : List ContextSourceEvent) (key : IdentityKey) :
    List ContextSourceEvent :=
  events.filter fun event => event.identity = key

/-- What the check of a read leaves to be relied on. -/
structure ValidRead (dateParse : DateParse) (request : ContextRequest)
    (read : ContextSourceRead) : Prop where
  boundary : (dateParse read.recordedAt).isSome
  events : ∀ event ∈ read.events, validSourceEvent dateParse request read event = true
  nodup : (read.events.map (·.eventId)).Nodup
  parents : ∀ event ∈ read.events, validateParent dateParse read.events event = .ok ()
  ordered : ∀ group ∈ groupBy ContextSourceEvent.identity read.events,
    ∃ ordered, orderLifecycle dateParse group.2 = .ok ordered

theorem validRead_of_validateSourceRead {read : ContextSourceRead}
    (h : validateSourceRead dateParse request read = .ok ()) :
    ValidRead dateParse request read := by
  obtain ⟨hboundary, h⟩ := checked_ok h
  obtain ⟨-, h⟩ := checked_ok h
  obtain ⟨hevents, h⟩ := checked_ok h
  obtain ⟨-, h⟩ := checked_ok h
  obtain ⟨_, hparents, h⟩ := sequence_ok h
  obtain ⟨-, hheads⟩ := checked_ok h
  rw [Bool.and_eq_true, List.all_eq_true, decide_eq_true_eq] at hevents
  refine ⟨hboundary, hevents.1, hevents.2, forM_ok hparents, fun group hgroup => ?_⟩
  obtain ⟨ordered, hordered, -⟩ := sequence_ok (forM_ok hheads group hgroup)
  exact ⟨ordered, hordered⟩

theorem laterTime_of_later {a b c : String} (hb : (dateParse b).isSome)
    (hab : laterTime dateParse a b = false) (hac : laterTime dateParse a c = true) :
    laterTime dateParse b c = true := by
  obtain ⟨b', hb'⟩ := Option.isSome_iff_exists.mp hb
  unfold laterTime at *
  rw [hb'] at hab ⊢
  cases ha : dateParse a with
  | none => rw [ha] at hac; cases hac
  | some a' =>
    cases hc : dateParse c with
    | none => rw [ha, hc] at hac; cases hac
    | some c' =>
      rw [ha] at hab hac
      rw [hc] at hac
      simp only [decide_eq_true_eq, decide_eq_false_iff_not] at *
      omega

/-- What a valid event has. -/
structure SoundEvent (dateParse : DateParse) (read : ContextSourceRead)
    (event : ContextSourceEvent) : Prop where
  eventId : nonBlank event.eventId = true
  source : nonBlank event.source = true
  externalId : nonBlank event.externalId = true
  occurredAt : (dateParse event.occurredAt).isSome = true
  ingestedAt : (dateParse event.ingestedAt).isSome = true
  within : laterTime dateParse event.ingestedAt read.recordedAt = false
  apart : event.parentEventId ≠ some event.eventId

theorem parentIn_of_mem {events : List ContextSourceEvent}
    (hnodup : (events.map (·.eventId)).Nodup) {parent event : ContextSourceEvent}
    (hparent : parent ∈ events) (hparents : Parents parent event) :
    parentIn events event = some parent := by
  have hparents : present event.parentEventId = some parent.eventId := hparents
  have hone : (events.filter fun other => other.eventId = parent.eventId) = [parent] :=
    filter_key_of_nodup hnodup hparent
  unfold parentIn
  rw [hparents, Option.bind_some, ← List.head?_filter, hone]
  rfl

theorem headOf_of_mem {heads : List LifecycleHead} (hnodup : (heads.map (·.identity)).Nodup)
    {head : LifecycleHead} (hhead : head ∈ heads) {key : IdentityKey}
    (hkey : head.identity = key) : headOf heads key = some head := by
  have hids : (heads.reverse.map (·.identity)).Nodup := by
    rw [List.map_reverse]
    exact List.nodup_reverse.mpr hnodup
  have hone : (heads.reverse.filter fun other => other.identity = head.identity) = [head] :=
    filter_key_of_nodup hids (List.mem_reverse.mpr hhead)
  unfold headOf
  rw [← hkey, ← List.head?_filter, hone]
  rfl

section Reading

variable {read : ContextSourceRead} (h : ValidRead dateParse request read)
  {parent event : ContextSourceEvent}

include h

theorem ValidRead.sound (hevent : event ∈ read.events) : SoundEvent dateParse read event := by
  have hvalid := h.events event hevent
  simp only [validSourceEvent, Bool.and_eq_true, decide_eq_true_eq, Bool.not_eq_true'] at hvalid
  obtain ⟨⟨⟨⟨⟨⟨⟨⟨⟨⟨⟨-, heventId⟩, hsource⟩, hexternalId⟩, hoccurred⟩, hingested⟩, hwithin⟩, -⟩,
    hapart⟩, -⟩, -⟩, -⟩ := hvalid
  exact ⟨heventId, hsource, hexternalId, hoccurred, hingested, hwithin, hapart⟩

theorem ValidRead.not_self (hevent : event ∈ read.events) : ¬Parents event event :=
  fun hparents => (h.sound hevent).apart (present_some.mp hparents).1

theorem ValidRead.keepsOrder (hparent : parent ∈ read.events) (hevent : event ∈ read.events)
    (hparents : Parents parent event) : keepsOrder dateParse parent event = true := by
  obtain ⟨_, _, hkept⟩ := sequence_ok (h.parents event hevent)
  rw [parentIn_of_mem h.nodup hparent hparents] at hkept
  exact throwUnless_ok hkept

theorem ValidRead.identity (hparent : parent ∈ read.events) (hevent : event ∈ read.events)
    (hparents : Parents parent event) : parent.identity = event.identity := by
  have horder := h.keepsOrder hparent hevent hparents
  simp only [Context.keepsOrder, Bool.and_eq_true, decide_eq_true_eq] at horder
  exact Prod.ext horder.1.1.1.1.1 horder.1.1.1.1.2

theorem ValidRead.shape (hevent : event ∈ read.events) :
    validateShape event (Context.parentIn read.events event) = .ok () := by
  obtain ⟨_, hshape, -⟩ := sequence_ok (h.parents event hevent)
  exact hshape

/-- A create names no parent, and what is not a create names one that is there. -/
theorem ValidRead.rooted (hevent : event ∈ read.events) :
    (event.operation = .create ∧ present event.parentEventId = none) ∨
      event.operation ≠ .create ∧ ∃ parent ∈ read.events, Parents parent event := by
  have hshape := h.shape hevent
  by_cases hcreate : event.operation = .create
  · left
    refine ⟨hcreate, ?_⟩
    unfold validateShape at hshape
    rw [hcreate] at hshape
    cases hparent : present event.parentEventId with
    | none => rfl
    | some parentId => rw [hparent] at hshape; cases hshape
  · right
    refine ⟨hcreate, ?_⟩
    cases hparent : Context.parentIn read.events event with
    | none =>
      unfold validateShape at hshape
      rw [hparent] at hshape
      cases hoperation : event.operation with
      | create => exact absurd hoperation hcreate
      | revise => rw [hoperation] at hshape; cases hshape
      | tombstone => rw [hoperation] at hshape; cases hshape
    | some parent =>
      obtain ⟨parentId, hparentId, hfound⟩ := Option.bind_eq_some_iff.mp hparent
      have hid : parent.eventId = parentId := by
        have hfound := List.find?_some hfound
        exact of_decide_eq_true hfound
      refine ⟨parent, List.mem_of_find?_eq_some hfound, ?_⟩
      show present event.parentEventId = some parent.eventId
      rw [hparentId, hid]

/-- What is not a tombstone carries content. -/
theorem ValidRead.content (hevent : event ∈ read.events) :
    carriesContent event = true ↔ event.operation ≠ .tombstone := by
  have hshape := h.shape hevent
  unfold carriesContent
  rw [Bool.and_eq_true, decide_eq_true_eq, and_iff_left_iff_imp]
  intro htombstone
  rw [Option.isSome_iff_ne_none]
  intro hnone
  unfold validateShape at hshape
  cases hoperation : event.operation with
  | create => simp [hoperation, hnone, sourceBoundary] at hshape
  | revise =>
    cases hparent : Context.parentIn read.events event with
    | none => rw [hoperation, hparent] at hshape; cases hshape
    | some parent => rw [hoperation, hparent, hnone] at hshape; cases hshape
  | tombstone => exact htombstone hoperation

/-- An event that is seen has a parent that is seen. -/
theorem ValidRead.seen_parent {asked : ContextRequest} {recordedAt : String}
    (hparent : parent ∈ read.events) (hevent : event ∈ read.events)
    (hparents : Parents parent event)
    (hseen : seenEvent dateParse asked recordedAt event = true) :
    seenEvent dateParse asked recordedAt parent = true := by
  have horder := h.keepsOrder hparent hevent hparents
  simp only [Context.keepsOrder, Bool.and_eq_true, Bool.not_eq_true'] at horder
  obtain ⟨⟨⟨⟨-, hingested⟩, hoccurred⟩, -⟩, -⟩ := horder
  have hsound := h.sound hevent
  unfold seenEvent at *
  rw [Bool.and_eq_true, Bool.not_eq_true'] at *
  obtain ⟨hrecorded, hvalid⟩ := hseen
  constructor
  · apply Bool.eq_false_iff.mpr
    intro hlater
    rw [laterTime_of_later hsound.ingestedAt hingested hlater] at hrecorded
    cases hrecorded
  · cases hbound : validAt asked with
    | none => rfl
    | some bound =>
      rw [hbound, Option.all_some, Bool.not_eq_true'] at hvalid
      rw [Option.all_some, Bool.not_eq_true']
      apply Bool.eq_false_iff.mpr
      intro hlater
      rw [laterTime_of_later hsound.occurredAt hoccurred hlater] at hvalid
      cases hvalid

/-- The lifecycle of an identity is a chain. -/
theorem ValidRead.linked (key : IdentityKey) :
    ∃ chain, Linked chain ∧ (lifecycleOf read.events key).Perm chain := by
  by_cases hkey : key ∈ read.events.map ContextSourceEvent.identity
  · have hgroup : (key, lifecycleOf read.events key) ∈
        groupBy ContextSourceEvent.identity read.events := mem_groupBy.mpr ⟨hkey, rfl⟩
    obtain ⟨ordered, hordered⟩ := h.ordered _ hgroup
    have hmem : ∀ event ∈ lifecycleOf read.events key,
        event ∈ read.events ∧ event.identity = key := by
      intro event hevent
      obtain ⟨hevent, hidentity⟩ := List.mem_filter.mp hevent
      exact ⟨hevent, of_decide_eq_true hidentity⟩
    have hnodup : ((lifecycleOf read.events key).map (·.eventId)).Nodup :=
      (List.filter_sublist.map _ : List.Sublist _ (read.events.map (·.eventId))).nodup h.nodup
    refine ⟨ordered, linked_of_orderLifecycle hnodup ?_ ?_ hordered⟩
    · intro event hevent
      exact h.not_self (hmem event hevent).1
    · intro event hevent
      obtain ⟨hevent, hidentity⟩ := hmem event hevent
      rcases h.rooted hevent with ⟨-, hnone⟩ | ⟨-, parent, hparent, hparents⟩
      · exact .inl hnone
      · have hsame := (h.identity hparent hevent hparents).trans hidentity
        exact .inr ⟨parent, List.mem_filter.mpr ⟨hparent, decide_eq_true hsame⟩, hparents⟩
  · refine ⟨[], ⟨List.isChain_nil, ?_, List.nodup_nil⟩, ?_⟩
    · intro root hroot
      cases hroot
    · rw [List.perm_nil]
      apply List.filter_eq_nil_iff.mpr
      intro event hevent hidentity
      exact hkey (of_decide_eq_true hidentity ▸ List.mem_map_of_mem hevent)

end Reading

end Valid

end Regenic.Context
