import Mathlib.Data.List.Chain
import Regenic.Context.Retrieval

/-!
Lifecycles that are chains: each event but the first names the one before it as its parent. Such
a lifecycle is put in that order without an error, whatever part of it from the root on is seen.
-/

namespace Regenic.Context

open Lib Ingest
open Customer (DateParse nonBlank)

/-! ## Chains -/

/-- The event names the other one as its parent. -/
def Parents (parent event : ContextSourceEvent) : Prop :=
  present event.parentEventId = some parent.eventId

/-- Each event but the first names the one before it. -/
structure Linked (chain : List ContextSourceEvent) : Prop where
  parents : List.IsChain Parents chain
  root : ∀ root ∈ chain.head?, present root.parentEventId = none
  nodup : (chain.map (·.eventId)).Nodup

theorem chain_parent {first : ContextSourceEvent} {rest : List ContextSourceEvent}
    (h : List.IsChain Parents (first :: rest)) {event : ContextSourceEvent}
    (hevent : event ∈ rest) : ∃ parent ∈ (first :: rest).dropLast, Parents parent event := by
  induction rest generalizing first with
  | nil => cases hevent
  | cons second rest ih =>
    obtain ⟨hfirst, hrest⟩ := List.isChain_cons_cons.mp h
    rw [List.dropLast_cons_cons]
    rcases List.mem_cons.mp hevent with rfl | hlater
    · exact ⟨first, List.mem_cons_self, hfirst⟩
    · obtain ⟨parent, hparent, hparents⟩ := ih hrest hlater
      exact ⟨parent, List.mem_cons_of_mem _ hparent, hparents⟩

section Split

variable {before rest chain : List ContextSourceEvent} {event : ContextSourceEvent}

/-- Up to an event, parents are before it. -/
theorem Linked.parent_before (h : Linked (before ++ event :: rest)) {other : ContextSourceEvent}
    (hother : other ∈ before ++ [event]) :
    present other.parentEventId = none ∨ ∃ parent ∈ before, Parents parent other := by
  have hsplit : before ++ event :: rest = (before ++ [event]) ++ rest := by simp
  have hchain : List.IsChain Parents (before ++ [event]) :=
    (hsplit ▸ h.parents : List.IsChain Parents ((before ++ [event]) ++ rest)).left_of_append
  have hlast : (before ++ [event]).dropLast = before := List.dropLast_concat
  have hroot := h.root
  cases hfirst : before ++ [event] with
  | nil => simp at hfirst
  | cons first others =>
    rw [hfirst] at hchain hlast hother
    rcases List.mem_cons.mp hother with rfl | hlater
    · refine .inl (hroot other ?_)
      rw [hsplit, hfirst]
      rfl
    · obtain ⟨parent, hparent, hparents⟩ := chain_parent hchain hlater
      exact .inr ⟨parent, hlast ▸ hparent, hparents⟩

/-- The children of an event of a chain: the one after it. -/
theorem Linked.children (h : Linked (before ++ event :: rest)) :
    sourceChildren (before ++ event :: rest) event.eventId = rest.head?.toList := by
  have hnodup := h.nodup
  rw [List.map_append, List.map_cons, List.nodup_append] at hnodup
  obtain ⟨-, hafter, hapart⟩ := hnodup
  have hbefore : ∀ other ∈ before ++ [event],
      ¬present other.parentEventId = some event.eventId := by
    intro other hother hparent
    rcases h.parent_before hother with hnone | ⟨parent, hmem, hparents⟩
    · rw [hnone] at hparent
      cases hparent
    · have hsame : parent.eventId = event.eventId :=
        Option.some.inj (hparents.symm.trans hparent)
      exact hapart _ (List.mem_map_of_mem hmem) _ List.mem_cons_self hsame
  have hsplit : before ++ event :: rest = (before ++ [event]) ++ rest := by simp
  have hnone : (before ++ [event]).filter
      (fun other => present other.parentEventId = some event.eventId) = [] := by
    apply List.filter_eq_nil_iff.mpr
    intro other hother
    simpa using hbefore other hother
  have hchain : List.IsChain Parents (event :: rest) := h.parents.right_of_append
  unfold sourceChildren
  rw [hsplit, List.filter_append, hnone, List.nil_append]
  cases rest with
  | nil => rfl
  | cons next later =>
    obtain ⟨hnext, hlater⟩ := List.isChain_cons_cons.mp hchain
    have hnext : present next.parentEventId = some event.eventId := hnext
    rw [List.filter_cons, if_pos (decide_eq_true hnext)]
    -- The events further on name events after this one.
    have hothers : later.filter
        (fun other => present other.parentEventId = some event.eventId) = [] := by
      apply List.filter_eq_nil_iff.mpr
      intro other hother
      obtain ⟨parent, hparent, hparents⟩ := chain_parent hlater hother
      have hmem : parent ∈ next :: later := List.dropLast_subset _ hparent
      have hne : parent.eventId ≠ event.eventId := by
        intro hsame
        rw [List.nodup_cons] at hafter
        exact hafter.1 (hsame ▸ List.mem_map_of_mem hmem)
      have hparents : present other.parentEventId = some parent.eventId := hparents
      simpa [hparents] using hne
    rw [hothers]
    rfl

variable {events : List ContextSourceEvent}

/-- In any order, an event of a chain has the one after it as its only child. -/
theorem Linked.children_perm (h : Linked (before ++ event :: rest))
    (hperm : events.Perm (before ++ event :: rest)) :
    sourceChildren events event.eventId = rest.head?.toList := by
  have hfilter : (sourceChildren events event.eventId).Perm rest.head?.toList := by
    rw [← h.children]
    exact hperm.filter _
  cases rest with
  | nil => exact List.perm_nil.mp hfilter
  | cons next later => exact List.perm_singleton.mp hfilter

end Split

/-! ## Order -/

section Order

variable {dateParse : DateParse} {chain events : List ContextSourceEvent}

theorem orderLoop_ready (fuel : Nat) (source : ContextSourceEvent)
    (ready ordered : List ContextSourceEvent) (indegree : String → Int) :
    orderLoop dateParse events (fuel + 1) ⟨source :: ready, indegree⟩ ordered =
      orderLoop dateParse events fuel
        ((sourceChildren events source.eventId).foldl (releaseChild dateParse) ⟨ready, indegree⟩)
        (ordered ++ [source]) :=
  rfl

/-- The rounds of a chain: one event is ready at a time. -/
theorem orderLoop_chain (h : Linked chain) (hperm : events.Perm chain)
    {ordered rest : List ContextSourceEvent} {event : ContextSourceEvent}
    (hsplit : chain = ordered ++ event :: rest) {fuel : Nat} (hfuel : rest.length < fuel)
    {indegree : String → Int} (hindegree : ∀ other ∈ rest, indegree other.eventId = 1) :
    orderLoop dateParse events fuel ⟨[event], indegree⟩ ordered = chain := by
  induction rest generalizing ordered event fuel indegree with
  | nil =>
    obtain ⟨fuel, rfl⟩ := Nat.exists_eq_succ_of_ne_zero (Nat.ne_of_gt hfuel)
    have hchildren := (hsplit ▸ h).children_perm (hsplit ▸ hperm)
    rw [orderLoop_ready, hchildren, hsplit]
    cases fuel <;> rfl
  | cons next later ih =>
    obtain ⟨fuel, rfl⟩ := Nat.exists_eq_succ_of_ne_zero
      (Nat.ne_of_gt (Nat.lt_of_le_of_lt (Nat.zero_le _) hfuel))
    have hchildren := (hsplit ▸ h).children_perm (hsplit ▸ hperm)
    have hzero : indegree next.eventId - 1 = 0 := by
      rw [hindegree next List.mem_cons_self]
      rfl
    have hstep : releaseChild dateParse ⟨[], indegree⟩ next =
        ⟨[next], fun eventId => if eventId = next.eventId then 0 else indegree eventId⟩ := by
      unfold releaseChild
      dsimp only
      rw [hzero, if_pos rfl]
      rfl
    rw [orderLoop_ready, hchildren]
    dsimp only [List.head?, Option.toList, List.foldl]
    rw [hstep]
    apply ih
    · rw [hsplit]
      simp
    · rw [List.length_cons] at hfuel
      omega
    · intro other hother
      have hne : other.eventId ≠ next.eventId := by
        have hnodup := h.nodup
        rw [hsplit, List.map_append, List.nodup_append] at hnodup
        have hrest := hnodup.2.1
        rw [List.map_cons, List.map_cons, List.nodup_cons, List.nodup_cons] at hrest
        exact fun hsame => hrest.2.1 (hsame ▸ List.mem_map_of_mem hother)
      rw [if_neg hne]
      exact hindegree other (List.mem_cons_of_mem _ hother)

/-- An event is counted where it names a parent among the events. -/
theorem startIndegree_eq (hnodup : (events.map (·.eventId)).Nodup)
    {event : ContextSourceEvent} (hevent : event ∈ events) :
    startIndegree events event.eventId =
      if (present event.parentEventId).any (hasEvent events) then 1 else 0 := by
  have hone : (events.filter fun other => other.eventId = event.eventId) = [event] :=
    filter_key_of_nodup hnodup hevent
  have hcomm : (fun other : ContextSourceEvent => decide (other.eventId = event.eventId) &&
      (present other.parentEventId).any (hasEvent events)) = fun other =>
      (present other.parentEventId).any (hasEvent events) &&
        decide (other.eventId = event.eventId) :=
    funext fun other => Bool.and_comm _ _
  unfold startIndegree
  rw [hcomm, ← List.filter_filter, hone]
  by_cases hany : (present event.parentEventId).any (hasEvent events) = true
  · rw [List.filter_cons, if_pos hany, if_pos hany]
    rfl
  · rw [List.filter_cons, if_neg hany, if_neg hany]
    rfl

/-- The root is what is ready first, and every other event waits for one. -/
theorem startQueue_chain {root : ContextSourceEvent} {rest : List ContextSourceEvent}
    (h : Linked (root :: rest)) (hperm : events.Perm (root :: rest)) :
    (startQueue dateParse events).ready = [root] ∧
      ∀ event ∈ rest, (startQueue dateParse events).indegree event.eventId = 1 := by
  have hnodup : (events.map (·.eventId)).Nodup := (hperm.map _).nodup_iff.mpr h.nodup
  have hroot : startIndegree events root.eventId = 0 := by
    rw [startIndegree_eq hnodup (hperm.mem_iff.mpr List.mem_cons_self), h.root root rfl]
    rfl
  have hrest : ∀ event ∈ rest, startIndegree events event.eventId = 1 := by
    intro event hevent
    rw [startIndegree_eq hnodup (hperm.mem_iff.mpr (List.mem_cons_of_mem _ hevent))]
    obtain ⟨parent, hparent, hparents⟩ := chain_parent h.parents hevent
    have hparents : present event.parentEventId = some parent.eventId := hparents
    have hmem : parent ∈ events := hperm.mem_iff.mpr (List.dropLast_subset _ hparent)
    have hhas : hasEvent events parent.eventId = true :=
      List.any_eq_true.mpr ⟨parent, hmem, decide_eq_true rfl⟩
    rw [hparents, Option.any_some, hhas, if_pos rfl]
  refine ⟨?_, hrest⟩
  have hready : ((root :: rest).filter fun event => startIndegree events event.eventId = 0) =
      [root] := by
    have hnone : (rest.filter fun event => startIndegree events event.eventId = 0) = [] := by
      apply List.filter_eq_nil_iff.mpr
      intro event hevent
      simp [hrest event hevent]
    rw [List.filter_cons, if_pos (decide_eq_true hroot), hnone]
  have hfilter := hperm.filter fun event => decide (startIndegree events event.eventId = 0)
  rw [hready] at hfilter
  unfold startQueue
  dsimp only
  rw [List.perm_singleton.mp hfilter]
  rfl

/-- Every event of a chain but the last has a child. -/
theorem Linked.leaves (h : Linked chain) (hperm : events.Perm chain) :
    (chain.filter fun event => sourceChildren events event.eventId = []).length ≤ 1 := by
  rcases List.eq_nil_or_concat chain with rfl | ⟨before, last, rfl⟩
  · exact Nat.zero_le 1
  · have hnone :
        (before.filter fun event => sourceChildren events event.eventId = []) = [] := by
      apply List.filter_eq_nil_iff.mpr
      intro event hevent
      obtain ⟨front, back, rfl⟩ := List.append_of_mem hevent
      have hassoc : (front ++ event :: back) ++ [last] = front ++ event :: (back ++ [last]) := by
        simp
      rw [List.concat_eq_append, hassoc] at h hperm
      have hchildren := h.children_perm hperm
      cases back <;> simp [hchildren]
    rw [List.concat_eq_append, List.filter_append, hnone, List.nil_append]
    exact List.length_filter_le _ [last]

/-- A chain is put in its order, however it is listed. -/
theorem orderLifecycle_chain (h : Linked chain) (hperm : events.Perm chain) :
    orderLifecycle dateParse events = .ok chain := by
  have hordered :
      orderLoop dateParse events events.length (startQueue dateParse events) [] = chain := by
    cases chain with
    | nil => rw [List.perm_nil.mp hperm]; rfl
    | cons root rest =>
      obtain ⟨hready, hindegree⟩ : (startQueue dateParse events).ready = [root] ∧
          ∀ event ∈ rest, (startQueue dateParse events).indegree event.eventId = 1 :=
        startQueue_chain h hperm
      have hlength : rest.length < events.length := by
        rw [hperm.length_eq]
        exact Nat.lt_succ_self _
      have hqueue : startQueue dateParse events =
          ⟨[root], (startQueue dateParse events).indegree⟩ := by
        rw [← hready]
      rw [hqueue]
      exact orderLoop_chain h hperm rfl hlength hindegree
  have hleaves := h.leaves hperm
  unfold orderLifecycle
  simp only [hordered]
  rw [if_neg (not_not_intro hperm.length_eq.symm), if_neg (Nat.not_lt.mpr hleaves)]

end Order

/-! ## Orders that end -/

section Kahn

variable {dateParse : DateParse} {events : List ContextSourceEvent}

/-- What has been put in order and what is ready, with the counts of what is neither. -/
structure Queued (events : List ContextSourceEvent) (queue : LifecycleQueue)
    (ordered : List ContextSourceEvent) : Prop where
  among : ordered ++ queue.ready ⊆ events
  nodup : ((ordered ++ queue.ready).map (·.eventId)).Nodup
  freed : ∀ event ∈ ordered ++ queue.ready, ∀ parent ∈ events, Parents parent event →
    parent ∈ ordered
  sorted : ordered.Pairwise fun earlier later => ¬Parents later earlier
  waiting : ∀ event ∈ events, event ∉ ordered ++ queue.ready →
    queue.indegree event.eventId = 1

/-- The children of an event are all released at once. -/
theorem releaseChild_all {children : List ContextSourceEvent} (queue : LifecycleQueue)
    (hnodup : (children.map (·.eventId)).Nodup)
    (hone : ∀ child ∈ children, queue.indegree child.eventId = 1) :
    (children.foldl (releaseChild dateParse) queue).ready.Perm (queue.ready ++ children) ∧
      ∀ eventId ∉ children.map (·.eventId),
        (children.foldl (releaseChild dateParse) queue).indegree eventId =
          queue.indegree eventId := by
  induction children generalizing queue with
  | nil =>
    rw [List.append_nil]
    exact ⟨List.Perm.refl _, fun _ _ => rfl⟩
  | cons child rest ih =>
    rw [List.map_cons, List.nodup_cons] at hnodup
    obtain ⟨hchild, hrest⟩ := hnodup
    have hzero : queue.indegree child.eventId - 1 = 0 := by
      rw [hone child List.mem_cons_self]
      rfl
    have hready : (releaseChild dateParse queue child).ready =
        (queue.ready ++ [child]).insertionSort (sourceOrder dateParse) := by
      unfold releaseChild
      dsimp only
      rw [if_pos hzero]
    have hindegree : ∀ eventId, eventId ≠ child.eventId →
        (releaseChild dateParse queue child).indegree eventId = queue.indegree eventId := by
      intro eventId hne
      unfold releaseChild
      dsimp only
      rw [if_neg hne]
    have hleft : ∀ other ∈ rest,
        (releaseChild dateParse queue child).indegree other.eventId = 1 := by
      intro other hother
      have hne : other.eventId ≠ child.eventId :=
        fun hsame => hchild (hsame ▸ List.mem_map_of_mem hother)
      rw [hindegree _ hne]
      exact hone other (List.mem_cons_of_mem _ hother)
    obtain ⟨hperm, hothers⟩ := ih (releaseChild dateParse queue child) hrest hleft
    constructor
    · have hsort := List.perm_insertionSort (sourceOrder dateParse) (queue.ready ++ [child])
      rw [hready] at hperm
      have hsplit : queue.ready ++ child :: rest = (queue.ready ++ [child]) ++ rest := by simp
      rw [hsplit]
      exact hperm.trans (hsort.append_right rest)
    · intro eventId hmem
      rw [List.map_cons, List.mem_cons, not_or] at hmem
      rw [List.foldl_cons, hothers eventId hmem.2, hindegree eventId hmem.1]

/-- One round. -/
theorem Queued.step (hnodup : (events.map (·.eventId)).Nodup) {source : ContextSourceEvent}
    {ready ordered : List ContextSourceEvent} {indegree : String → Int}
    (h : Queued events ⟨source :: ready, indegree⟩ ordered) :
    Queued events ((sourceChildren events source.eventId).foldl (releaseChild dateParse)
      ⟨ready, indegree⟩) (ordered ++ [source]) := by
  have hsource : source ∈ events := h.among (by simp)
  have hapart : source ∉ ordered := by
    intro hmem
    have hids := h.nodup
    rw [List.map_append, List.nodup_append] at hids
    exact hids.2.2 _ (List.mem_map_of_mem hmem) _ (by simp) rfl
  have hchild : ∀ child ∈ sourceChildren events source.eventId,
      child ∈ events ∧ Parents source child := by
    intro child hmem
    obtain ⟨hevent, hparent⟩ := List.mem_filter.mp hmem
    have hparent : present child.parentEventId = some source.eventId := of_decide_eq_true hparent
    exact ⟨hevent, hparent⟩
  have hnew : ∀ child ∈ sourceChildren events source.eventId,
      child ∉ ordered ++ source :: ready := fun child hmem hold =>
    hapart (h.freed child hold source hsource (hchild child hmem).2)
  have hchildren : ((sourceChildren events source.eventId).map (·.eventId)).Nodup :=
    (List.filter_sublist.map _ : List.Sublist _ (events.map (·.eventId))).nodup hnodup
  have hsame : ∀ event ∈ events, ∀ other ∈ events, event.eventId = other.eventId →
      event = other := fun event hevent other hother hid =>
    List.inj_on_of_nodup_map hnodup hevent hother hid
  have hwaiting : ∀ child ∈ sourceChildren events source.eventId,
      indegree child.eventId = 1 := fun child hmem =>
    h.waiting child (hchild child hmem).1 (hnew child hmem)
  have hreleased := @releaseChild_all dateParse _ ⟨ready, indegree⟩ hchildren hwaiting
  generalize (sourceChildren events source.eventId).foldl (releaseChild dateParse)
    ⟨ready, indegree⟩ = queue at hreleased ⊢
  obtain ⟨hperm, hindegree⟩ := hreleased
  have hall : ((ordered ++ [source]) ++ queue.ready).Perm
      ((ordered ++ source :: ready) ++ sourceChildren events source.eventId) := by
    have hsplit : (ordered ++ source :: ready) ++ sourceChildren events source.eventId =
        (ordered ++ [source]) ++ (ready ++ sourceChildren events source.eventId) := by simp
    rw [hsplit]
    exact hperm.append_left _
  constructor
  · intro event hmem
    rcases List.mem_append.mp (hall.mem_iff.mp hmem) with hold | hfresh
    · exact h.among hold
    · exact (hchild event hfresh).1
  · rw [(hall.map _).nodup_iff, List.map_append, List.nodup_append]
    refine ⟨h.nodup, hchildren, ?_⟩
    intro id hold id' hfresh hid
    obtain ⟨event, hevent, rfl⟩ := List.mem_map.mp hold
    obtain ⟨child, hmem, rfl⟩ := List.mem_map.mp hfresh
    have hsame : event = child := hsame event (h.among hevent) child (hchild child hmem).1 hid
    exact hnew child hmem (hsame ▸ hevent)
  · intro event hmem parent hparent hparents
    rcases List.mem_append.mp (hall.mem_iff.mp hmem) with hold | hfresh
    · exact List.mem_append_left _ (h.freed event hold parent hparent hparents)
    · have hboth := hparents.symm.trans (hchild event hfresh).2
      have hsame : parent = source := hsame parent hparent source hsource (Option.some.inj hboth)
      exact List.mem_append_right _ (List.mem_singleton.mpr hsame)
  · rw [List.pairwise_append]
    refine ⟨h.sorted, List.pairwise_singleton _ _, ?_⟩
    intro earlier hearlier later hlater hparents
    obtain rfl := List.mem_singleton.mp hlater
    exact hapart (h.freed earlier (List.mem_append_left _ hearlier) later hsource hparents)
  · intro event hevent hmem
    have hout : event ∉ (ordered ++ source :: ready) ++ sourceChildren events source.eventId :=
      fun hin => hmem (hall.mem_iff.mpr hin)
    rw [List.mem_append, not_or] at hout
    rw [hindegree event.eventId, h.waiting event hevent hout.1]
    intro hid
    obtain ⟨child, hchildmem, hid⟩ := List.mem_map.mp hid
    exact hout.2 (hsame child (hchild child hchildmem).1 event hevent hid ▸ hchildmem)

theorem orderLoop_queued (hnodup : (events.map (·.eventId)).Nodup) {fuel : Nat}
    {queue : LifecycleQueue} {ordered : List ContextSourceEvent}
    (h : Queued events queue ordered) :
    ∃ left, Queued events left (orderLoop dateParse events fuel queue ordered) := by
  induction fuel generalizing queue ordered with
  | zero => exact ⟨queue, h⟩
  | succ fuel ih =>
    obtain ⟨ready, indegree⟩ := queue
    cases ready with
    | nil => exact ⟨_, h⟩
    | cons source ready =>
      rw [orderLoop_ready]
      exact ih (h.step hnodup)

theorem startQueue_queued (hnodup : (events.map (·.eventId)).Nodup) :
    Queued events (startQueue dateParse events) [] := by
  have hperm : (startQueue dateParse events).ready.Perm
      (events.filter fun event => startIndegree events event.eventId = 0) :=
    List.perm_insertionSort _ _
  have hsub : List.Sublist (events.filter fun event => startIndegree events event.eventId = 0)
      events := List.filter_sublist
  constructor
  · intro event hmem
    exact hsub.subset (hperm.mem_iff.mp hmem)
  · rw [List.nil_append, (hperm.map _).nodup_iff]
    exact (hsub.map _).nodup hnodup
  · intro event hmem parent hparent hparents
    obtain ⟨hevent, hzero⟩ := List.mem_filter.mp (hperm.mem_iff.mp hmem)
    have hparents : present event.parentEventId = some parent.eventId := hparents
    have hhas : hasEvent events parent.eventId = true :=
      List.any_eq_true.mpr ⟨parent, hparent, decide_eq_true rfl⟩
    rw [startIndegree_eq hnodup hevent, hparents, Option.any_some, hhas] at hzero
    cases hzero
  · exact List.Pairwise.nil
  · intro event hevent hmem
    have hcount := startIndegree_eq hnodup hevent
    show startIndegree events event.eventId = 1
    by_cases hany : (present event.parentEventId).any (hasEvent events) = true
    · rw [hcount, if_pos hany]
    · rw [if_neg hany] at hcount
      have hready : event ∈
          events.filter fun event => startIndegree events event.eventId = 0 :=
        List.mem_filter.mpr ⟨hevent, decide_eq_true hcount⟩
      exact absurd (hperm.mem_iff.mpr hready) hmem

/-- Where each event but the last has a child further on, an order is a chain. -/
theorem isChain_of_children {ordered : List ContextSourceEvent}
    (hnodup : (ordered.map (·.eventId)).Nodup)
    (hchild : ∀ before event rest, ordered = before ++ event :: rest → rest ≠ [] →
      ∃ child ∈ rest, Parents event child) : List.IsChain Parents ordered := by
  induction ordered with
  | nil => exact List.isChain_nil
  | cons first rest ih =>
    rw [List.map_cons, List.nodup_cons] at hnodup
    have hrest : List.IsChain Parents rest := by
      apply ih hnodup.2
      intro before event later hsplit
      apply hchild (first :: before) event later
      rw [hsplit, List.cons_append]
    cases rest with
    | nil => exact List.isChain_singleton first
    | cons second later =>
      obtain ⟨child, hmem, hparents⟩ := hchild [] first (second :: later) rfl (List.cons_ne_nil _ _)
      apply List.isChain_cons_cons.mpr ⟨?_, hrest⟩
      rcases List.mem_cons.mp hmem with rfl | hlater
      · exact hparents
      · -- A child further on would have a second parent, after the first event.
        obtain ⟨parent, hparent, hparents'⟩ := chain_parent hrest hlater
        have hid : parent.eventId = first.eventId :=
          Option.some.inj (hparents'.symm.trans hparents)
        have hafter : parent ∈ second :: later := List.dropLast_subset _ hparent
        exact absurd (hid ▸ List.mem_map_of_mem hafter) hnodup.1

theorem orderLifecycle_ok {ordered : List ContextSourceEvent}
    (h : orderLifecycle dateParse events = .ok ordered) :
    ordered = orderLoop dateParse events events.length (startQueue dateParse events) [] ∧
      ordered.length = events.length ∧
      (ordered.filter fun event => sourceChildren events event.eventId = []).length ≤ 1 := by
  unfold orderLifecycle at h
  by_cases hlength : (orderLoop dateParse events events.length (startQueue dateParse events)
      []).length ≠ events.length
  · rw [if_pos hlength] at h
    cases h
  · rw [if_neg hlength] at h
    split at h
    · cases h
    · rename_i hleaves
      obtain rfl := Except.ok.inj h
      exact ⟨rfl, not_not.mp hlength, Nat.not_lt.mp hleaves⟩

theorem orderLoop_subset {fuel : Nat} {queue : LifecycleQueue}
    {ordered : List ContextSourceEvent} (hready : queue.ready ⊆ events)
    (hordered : ordered ⊆ events) : orderLoop dateParse events fuel queue ordered ⊆ events := by
  have hrelease : ∀ children : List ContextSourceEvent, children ⊆ events →
      ∀ queue : LifecycleQueue, queue.ready ⊆ events →
        (children.foldl (releaseChild dateParse) queue).ready ⊆ events := by
    intro children
    induction children with
    | nil => exact fun _ queue hqueue => hqueue
    | cons child rest ih =>
      intro hchildren queue hqueue
      obtain ⟨hchild, hrest⟩ := List.cons_subset.mp hchildren
      apply ih hrest
      unfold releaseChild
      dsimp only
      split
      · intro event hevent
        rw [List.mem_insertionSort, List.mem_append, List.mem_singleton] at hevent
        rcases hevent with hold | rfl
        · exact hqueue hold
        · exact hchild
      · exact hqueue
  induction fuel generalizing queue ordered with
  | zero => exact hordered
  | succ fuel ih =>
    obtain ⟨ready, indegree⟩ := queue
    cases ready with
    | nil => exact hordered
    | cons source ready =>
      obtain ⟨hsource, hrest⟩ := List.cons_subset.mp hready
      rw [orderLoop_ready]
      apply ih
      · exact hrelease _ List.filter_sublist.subset _ hrest
      · exact List.append_subset.mpr ⟨hordered, List.cons_subset.mpr ⟨hsource, List.nil_subset _⟩⟩

theorem orderLifecycle_subset {ordered : List ContextSourceEvent}
    (h : orderLifecycle dateParse events = .ok ordered) : ordered ⊆ events := by
  rw [(orderLifecycle_ok h).1]
  apply orderLoop_subset
  · intro event hevent
    exact (List.mem_filter.mp ((List.mem_insertionSort _).mp hevent)).1
  · exact List.nil_subset _

/-- An order that ends with one head is a chain of all the events. -/
theorem linked_of_orderLifecycle (hnodup : (events.map (·.eventId)).Nodup)
    (hself : ∀ event ∈ events, ¬Parents event event)
    (hparent : ∀ event ∈ events,
      present event.parentEventId = none ∨ ∃ parent ∈ events, Parents parent event)
    {ordered : List ContextSourceEvent} (h : orderLifecycle dateParse events = .ok ordered) :
    Linked ordered ∧ events.Perm ordered := by
  obtain ⟨hordered, hlength, hleaves⟩ := orderLifecycle_ok h
  obtain ⟨left, hqueued⟩ : ∃ left, Queued events left ordered := by
    rw [hordered]
    exact orderLoop_queued hnodup (startQueue_queued hnodup)
  have hids : (ordered.map (·.eventId)).Nodup := by
    have hall := hqueued.nodup
    rw [List.map_append, List.nodup_append] at hall
    exact hall.1
  have hsub : ordered ⊆ events := fun event hmem =>
    hqueued.among (List.mem_append_left _ hmem)
  have hperm : ordered.Perm events :=
    (List.subperm_of_subset (List.Nodup.of_map _ hids) hsub).perm_of_length_le hlength.ge
  -- A child is among the events, and not before what it names.
  have hafter : ∀ before event rest, ordered = before ++ event :: rest →
      ∀ child ∈ events, Parents event child → child ∈ rest := by
    intro before event rest hsplit child hchild hparents
    have hsorted := hqueued.sorted
    rw [hsplit, List.pairwise_append] at hsorted
    have hmem : child ∈ before ++ event :: rest := hsplit ▸ hperm.mem_iff.mpr hchild
    rcases List.mem_append.mp hmem with hbefore | htail
    · exact absurd hparents (hsorted.2.2 child hbefore event List.mem_cons_self)
    · rcases List.mem_cons.mp htail with rfl | hrest
      · exact absurd hparents (hself child hchild)
      · exact hrest
  have hchild : ∀ before event rest, ordered = before ++ event :: rest → rest ≠ [] →
      ∃ child ∈ rest, Parents event child := by
    intro before event rest hsplit hne
    cases hchildren : sourceChildren events event.eventId with
    | cons child others =>
      obtain ⟨hmem, hparents⟩ := List.mem_filter.mp
        (hchildren ▸ List.mem_cons_self : child ∈ sourceChildren events event.eventId)
      have hparents : present child.parentEventId = some event.eventId :=
        of_decide_eq_true hparents
      exact ⟨child, hafter before event rest hsplit child hmem hparents, hparents⟩
    | nil =>
      -- Then this event and the last one are two heads.
      obtain ⟨middle, last, rfl⟩ : ∃ middle last, rest = middle ++ [last] :=
        ⟨_, _, (List.dropLast_append_getLast hne).symm⟩
      have hlast : sourceChildren events last.eventId = [] := by
        apply List.filter_eq_nil_iff.mpr
        intro child hmem hparents
        have hparents : present child.parentEventId = some last.eventId :=
          of_decide_eq_true hparents
        have hend : ordered = (before ++ event :: middle) ++ last :: [] := by
          rw [hsplit]
          simp
        exact absurd (hafter _ last [] hend child hmem hparents) List.not_mem_nil
      rw [hsplit, List.filter_append, List.filter_cons, if_pos (decide_eq_true hchildren),
        List.filter_append, List.filter_cons, if_pos (decide_eq_true hlast)] at hleaves
      simp only [List.length_append, List.length_cons] at hleaves
      omega
  refine ⟨⟨isChain_of_children hids hchild, ?_, hids⟩, hperm.symm⟩
  intro root hroot
  cases hfirst : ordered with
  | nil => rw [hfirst] at hroot; cases hroot
  | cons first rest =>
    rw [hfirst] at hroot
    obtain rfl := Option.some.inj hroot
    have hmem : first ∈ events := hsub (hfirst ▸ List.mem_cons_self)
    rcases hparent first hmem with hnone | ⟨parent, hparent, hparents⟩
    · exact hnone
    · -- Its parent would be before it.
      have hsorted := hqueued.sorted
      rw [hfirst, List.pairwise_cons] at hsorted
      have hin : parent ∈ first :: rest := hfirst ▸ hperm.mem_iff.mpr hparent
      rcases List.mem_cons.mp hin with rfl | hrest
      · exact absurd hparents (hself parent hmem)
      · exact absurd hparents (hsorted.1 parent hrest)

end Kahn

end Regenic.Context
