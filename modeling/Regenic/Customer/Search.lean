import Regenic.Customer.ReadThrough

/-!
What a search finds: the items are shared out over the conversations of the seeds, each
conversation shows a window around its seeds, and both ends of a window can be read on from.
-/

namespace Regenic.Customer

open Lib
open Context (AuthorityEvent)

/-! ## Shares -/

/-- The seeds of a conversation and the items that its window may show. -/
structure ThreadShare where
  threadId : String
  seedIds : List String
  items : Int
  deriving DecidableEq, Repr

def isReadable (store : ThreadStore) (event : AuthorityEvent) : Bool :=
  match messageText store event with
  | .ok (some _) => true
  | _ => false

/-- How many items the window of a share shows. -/
def shownCount (store : ThreadStore) (share : ThreadShare) (neighbors : Int) : Nat :=
  match currentThread store share.threadId with
  | .error _ => 0
  | .ok thread =>
    (((selectedIndexes thread.events share.seedIds share.items.toNat neighbors.toNat).filterMap
      (thread.events[·]?)).filter (isReadable store)).length

section Shares

variable (world : ReadingWorld) (task : CustomerServiceTask)

def ReadingWorld.getEvent (eventId : String) : Except CustomerThrown (Option SourceEvent) :=
  world.other (.outside (.getEvent eventId))

def ReadingWorld.assemble (query : ContextQuery) : Except CustomerThrown AssembledContext :=
  world.other (.outside (.assemble query))

/-- The conversation that a seed is in. -/
def seedThreadOf (eventId : String) : Option String :=
  if eventId = task.brief.source.eventId then present (some task.brief.source.threadId)
  else
    match world.getEvent eventId with
    | .error _ => none
    | .ok event => present (event.bind (·.threadId))

def seedGroups : List (String × List String) → List String → List (String × List String)
  | groups, [] => groups
  | groups, eventId :: rest =>
    match seedThreadOf world task eventId with
    | none => seedGroups groups rest
    | some threadId => seedGroups (addSeed groups threadId eventId) rest

def seedsOf (groups : List (String × List String)) (threadId : String) : List String :=
  ((groups.find? fun group => group.1 = threadId).map (·.2)).getD [task.brief.source.eventId]

/-- What each conversation gets of the items, until none are left. -/
def threadShares (groups : List (String × List String)) (neighbors : Int) :
    List String → Int → List ThreadShare
  | [], _ => []
  | threadId :: rest, remainingItems =>
    if remainingItems ≤ 0 then []
    else
      let share : ThreadShare :=
        { threadId
          seedIds := seedsOf task groups threadId
          items := max 1 (remainingItems / (rest.length + 1 : Nat)) }
      share :: threadShares groups neighbors rest
        (remainingItems - shownCount world.store share neighbors)

/-- What the context engine is asked by a search. -/
def searchQuery (input : SearchContextInput) (s : ReadingState) :
    Except CustomerThrown ContextQuery := do
  let query ← required input.query "query"
  let query ← scopedQuery task input.includeRelated query
  let objective ← optionally (present input.objective) fun value => required value "objective"
  return {
    id := world.ids s.issued
    objective, query
    related := input.includeRelated
    maxItems := min (input.maxItems.getD defaultContextItems) 20 }

/-- The seeds of a search: the triggering message and what the context engine has found. -/
def searchSeeds (assembled : AssembledContext) : List String :=
  if task.brief.source.eventId ∈ assembled.eventIds then assembled.eventIds
  else task.brief.source.eventId :: assembled.eventIds

def searchShares (input : SearchContextInput) (s : ReadingState) : List ThreadShare :=
  match searchQuery world task input s with
  | .error _ => []
  | .ok query =>
    match world.assemble query with
    | .error _ => []
    | .ok assembled =>
      let groups := seedGroups world task [] (searchSeeds task assembled)
      threadShares world task groups (input.neighborCount.getD defaultNeighborCount)
        (orderedThreads task groups) (input.maxItems.getD defaultContextItems)

end Shares

/-! ## Groups -/

section Groups

variable {world : ReadingWorld} {task : CustomerServiceTask}

theorem keys_addSeed (groups : List (String × List String)) (threadId eventId : String) :
    (addSeed groups threadId eventId).map Prod.fst =
      if threadId ∈ groups.map Prod.fst then groups.map Prod.fst
      else groups.map Prod.fst ++ [threadId] := by
  unfold addSeed
  by_cases hin : threadId ∈ groups.map Prod.fst
  · obtain ⟨group, hgroup, hkey⟩ := List.mem_map.mp hin
    have hany : (groups.any fun group => decide (group.1 = threadId)) = true :=
      List.any_eq_true.mpr ⟨group, hgroup, by simpa using hkey⟩
    rw [if_pos hany, if_pos hin, List.map_map]
    apply List.map_congr_left
    intro other _
    simp only [Function.comp_apply]
    split
    · rfl
    · rfl
  · have hany : ¬(groups.any fun group => decide (group.1 = threadId)) = true := by
      intro hany
      obtain ⟨group, hgroup, hkey⟩ := List.any_eq_true.mp hany
      exact hin (List.mem_map.mpr ⟨group, hgroup, by simpa using hkey⟩)
    rw [if_neg hany, if_neg hin, List.map_append, List.map_singleton]

/-- A seed stays in the group of its conversation. -/
theorem mem_addSeed_of_mem {groups : List (String × List String)} {threadId other seed : String}
    (eventId : String) (h : ∃ group ∈ groups, group.1 = other ∧ seed ∈ group.2) :
    ∃ group ∈ addSeed groups threadId eventId, group.1 = other ∧ seed ∈ group.2 := by
  obtain ⟨group, hgroup, hkey, hseed⟩ := h
  unfold addSeed
  split
  · by_cases hsame : group.1 = threadId
    · exact ⟨(group.1, group.2 ++ [eventId]),
        List.mem_map.mpr ⟨group, hgroup, if_pos hsame⟩, hkey, List.mem_append_left _ hseed⟩
    · exact ⟨group, List.mem_map.mpr ⟨group, hgroup, if_neg hsame⟩, hkey, hseed⟩
  · exact ⟨group, List.mem_append_left _ hgroup, hkey, hseed⟩

theorem mem_addSeed_self (groups : List (String × List String)) (threadId eventId : String) :
    ∃ group ∈ addSeed groups threadId eventId, group.1 = threadId ∧ eventId ∈ group.2 := by
  unfold addSeed
  split
  · next hany =>
    obtain ⟨group, hgroup, hkey⟩ := List.any_eq_true.mp hany
    have hkey : group.1 = threadId := by simpa using hkey
    exact ⟨(group.1, group.2 ++ [eventId]), List.mem_map.mpr ⟨group, hgroup, if_pos hkey⟩, hkey,
      List.mem_append_right _ List.mem_cons_self⟩
  · exact ⟨(threadId, [eventId]), List.mem_append_right _ List.mem_cons_self, rfl,
      List.mem_cons_self⟩

/-- Each conversation has one group, and every seed is in the group of its conversation. -/
theorem seedGroups_spec (seeds : List String) {groups : List (String × List String)}
    (hnodup : (groups.map Prod.fst).Nodup) :
    ((seedGroups world task groups seeds).map Prod.fst).Nodup ∧
      ∀ threadId seed, (∃ group ∈ groups, group.1 = threadId ∧ seed ∈ group.2) ∨
          seed ∈ seeds ∧ seedThreadOf world task seed = some threadId →
        ∃ group ∈ seedGroups world task groups seeds, group.1 = threadId ∧ seed ∈ group.2 := by
  induction seeds generalizing groups with
  | nil =>
    refine ⟨hnodup, ?_⟩
    rintro threadId seed (hold | ⟨hnil, -⟩)
    · exact hold
    · cases hnil
  | cons first rest ih =>
    unfold seedGroups
    cases hthread : seedThreadOf world task first with
    | none =>
      obtain ⟨hkeys, hmem⟩ := ih hnodup
      refine ⟨hkeys, ?_⟩
      rintro threadId seed (hold | ⟨hin, hof⟩)
      · exact hmem threadId seed (.inl hold)
      · rcases List.mem_cons.mp hin with rfl | hrest
        · rw [hthread] at hof
          cases hof
        · exact hmem threadId seed (.inr ⟨hrest, hof⟩)
    | some found =>
      have hadded : ((addSeed groups found first).map Prod.fst).Nodup := by
        rw [keys_addSeed]
        split
        · exact hnodup
        · next hout =>
          apply List.Nodup.append hnodup (List.nodup_singleton _)
          intro key hkey hsame
          obtain rfl := List.mem_singleton.mp hsame
          exact hout hkey
      obtain ⟨hkeys, hmem⟩ := ih hadded
      refine ⟨hkeys, ?_⟩
      rintro threadId seed (hold | ⟨hin, hof⟩)
      · exact hmem threadId seed (.inl (mem_addSeed_of_mem first hold))
      · rcases List.mem_cons.mp hin with rfl | hrest
        · obtain rfl := Option.some.inj (hthread.symm.trans hof)
          exact hmem found seed (.inl (mem_addSeed_self groups found seed))
        · exact hmem threadId seed (.inr ⟨hrest, hof⟩)

/-- The conversations that are expanded are different ones, that of the task first. -/
theorem orderedThreads_nodup {groups : List (String × List String)}
    (h : (groups.map Prod.fst).Nodup) : (orderedThreads task groups).Nodup := by
  unfold orderedThreads
  apply List.Nodup.sublist (List.take_sublist _ _)
  refine List.nodup_cons.mpr ⟨?_, h.filter _⟩
  intro hin
  simpa using (List.mem_filter.mp hin).2

/-- The triggering message is a seed of its conversation. -/
theorem source_mem_seedsOf {groups : List (String × List String)}
    (hnodup : (groups.map Prod.fst).Nodup)
    (h : ∃ group ∈ groups, group.1 = task.brief.source.threadId ∧
      task.brief.source.eventId ∈ group.2) :
    task.brief.source.eventId ∈ seedsOf task groups task.brief.source.threadId := by
  obtain ⟨group, hgroup, hkey, hseed⟩ := h
  unfold seedsOf
  cases hfind : groups.find? fun group => decide (group.1 = task.brief.source.threadId) with
  | none => exact List.mem_cons_self
  | some found =>
    have hfound : found.1 = task.brief.source.threadId := by simpa using List.find?_some hfind
    obtain rfl := List.inj_on_of_nodup_map hnodup (List.mem_of_find?_eq_some hfind) hgroup
      (hfound.trans hkey.symm)
    exact hseed

theorem threadShares_threadIds {groups : List (String × List String)} {neighbors : Int} :
    ∀ {threads : List String} {remainingItems : Int},
      ((threadShares world task groups neighbors threads remainingItems).map
        (·.threadId)).Sublist threads := by
  intro threads
  induction threads with
  | nil =>
    intro remainingItems
    exact List.Sublist.refl _
  | cons threadId rest ih =>
    intro remainingItems
    unfold threadShares
    split
    · exact List.nil_sublist _
    · rw [List.map_cons]
      exact ih.cons_cons _

end Groups

/-! ## One window -/

section Window

variable {store : ThreadStore} {thread : CurrentThread} {stamps : Nat → String × String}
  {threadId snapshotId : String} {reason : ContextSelectionReason}

theorem isReadable_iff {event : AuthorityEvent} :
    isReadable store event = true ↔ Readable store event := by
  unfold isReadable Readable
  cases messageText store event with
  | error thrown => simp
  | ok text => cases text <;> simp

theorem evidence_length {page events : List AuthorityEvent}
    {made : List (Option CustomerContextEvidence)}
    (h : List.Forall₂ (fun event made => evidenceOf store page snapshotId reason event = .ok made)
      events made) :
    (made.filterMap id).length = (events.filter (isReadable store)).length := by
  induction h with
  | nil => rfl
  | @cons event made events others hfirst _ ih =>
    obtain ⟨hreadable, -⟩ := evidenceOf_ok hfirst
    rw [← isReadable_iff] at hreadable
    cases made with
    | none =>
      have hnot : ¬isReadable store event = true := fun hread => by simpa using hreadable.mpr hread
      rw [List.filterMap_cons_none (f := id) rfl, List.filter_cons_of_neg hnot, ih]
    | some item =>
      rw [List.filterMap_cons_some (f := id) rfl, List.filter_cons_of_pos (hreadable.mp rfl),
        List.length_cons, List.length_cons, ih]

/-- There is one item for each message that is readable. -/
theorem materializeEvidence_length {page : List AuthorityEvent}
    {evidence : List CustomerContextEvidence}
    (h : materializeEvidence store page snapshotId reason = .ok evidence) :
    evidence.length = (page.filter (isReadable store)).length := by
  unfold materializeEvidence at h
  obtain ⟨made, hmade, h⟩ := sequence_ok h
  cases h
  exact evidence_length (forall₂_of_mapM_ok hmade)

/-- A continuation goes on from a message of the conversation. -/
def StartsAt (thread : CurrentThread) (continuation : CustomerContextContinuation)
    (position : Nat) : Prop :=
  ∃ event, thread.events[position]? = some event ∧
    event.id = continuation.boundaryEventId ∧
    event.occurredAt = continuation.boundaryOccurredAt

theorem createContinuations_spec {ends : List (ContinuationDirection × Nat)} {used : Nat}
    {continuations : List CustomerContextContinuation}
    (h : createContinuations store thread stamps used ends = .ok continuations) :
    continuations.map (·.handle) =
        (List.range' used continuations.length).map (fun i => (stamps i).2) ∧
      ∀ continuation ∈ continuations, continuation.readEpoch = thread.readEpoch ∧
        ∃ position event, thread.events[position]? = some event ∧
          continuation.threadId = event.threadId.getD "" ∧ StartsAt thread continuation position := by
  induction ends generalizing used continuations with
  | nil =>
    cases h
    exact ⟨rfl, by simp⟩
  | cons last ends ih =>
    obtain ⟨direction, index⟩ := last
    unfold createContinuations at h
    cases hboundary : thread.events[index]? with
    | none =>
      rw [hboundary] at h
      exact ih h
    | some boundary =>
      rw [hboundary] at h
      obtain ⟨first, hfirst, h⟩ := sequence_ok h
      obtain ⟨rest, hrest, h⟩ := sequence_ok h
      cases h
      obtain ⟨hhandles, hstarts⟩ := ih hrest
      unfold createContinuation at hfirst
      obtain ⟨expiresAt, -, hfirst⟩ := sequence_ok hfirst
      cases hfirst
      constructor
      · rw [List.map_cons, List.length_cons, List.range'_succ, List.map_cons, hhandles]
      · intro continuation hin
        rcases List.mem_cons.mp hin with rfl | hother
        · exact ⟨rfl, index, boundary, hboundary, rfl, boundary, hboundary, rfl, rfl⟩
        · exact hstarts continuation hother

/-- What a window shows of its conversation, and where it can be read on from. -/
theorem expandThread_spec {share : ThreadShare} {neighbors : Int} {window : ContextWindow}
    (h : expandThread store stamps share.threadId share.seedIds snapshotId share.items.toNat
      neighbors.toNat = .ok window) :
    ∃ thread, currentThread store share.threadId = .ok thread ∧
      window.evidence.length = shownCount store share neighbors ∧
      (∀ item ∈ window.evidence, item.threadId = share.threadId) ∧
      window.continuations.map (·.handle) =
        (List.range window.continuations.length).map (fun i => (stamps i).2) ∧
      ∀ continuation ∈ window.continuations, continuation.threadId = share.threadId ∧
        continuation.readEpoch = thread.readEpoch ∧
        ∃ position, StartsAt thread continuation position := by
  unfold expandThread at h
  obtain ⟨thread, hthread, h⟩ := sequence_ok h
  obtain ⟨evidence, hevidence, h⟩ := sequence_ok h
  obtain ⟨continuations, hcontinuations, h⟩ := sequence_ok h
  cases h
  obtain ⟨-, -, -, hvalid⟩ := currentThread_spec hthread
  have hin := materializeEvidence_threadId (fun event hevent => by
    obtain ⟨_, _, hget⟩ := List.mem_filterMap.mp hevent
    exact (hvalid event (List.mem_of_getElem? hget)).1) hevidence
  obtain ⟨hhandles, hstarts⟩ := createContinuations_spec hcontinuations
  refine ⟨thread, hthread, ?_, hin, ?_, ?_⟩
  · rw [materializeEvidence_length hevidence]
    unfold shownCount
    rw [hthread]
  · rw [List.range_eq_range']
    exact hhandles
  · intro continuation hcontinuation
    obtain ⟨hepoch, position, event, hevent, hid, hstart⟩ := hstarts continuation hcontinuation
    refine ⟨?_, hepoch, position, hstart⟩
    rw [hid, (hvalid event (List.mem_of_getElem? hevent)).1]
    rfl

end Window

/-! ## Running a search -/

section Run

variable {world : ReadingWorld} {task : CustomerServiceTask} {s s' : ReadingState}

/-- A program that continues after a check has met it. -/
theorem run_checked {α β : Type} {x : Except CustomerThrown α} {f : α → CustomerProg β} {b : β}
    (h : ((liftThrown x).bind f).run world.exec s = (.ok b, s')) :
    ∃ a, x = .ok a ∧ (f a).run world.exec s = (.ok b, s') := by
  cases x with
  | error thrown => cases h
  | ok a => exact ⟨a, rfl, h⟩

/-- A program that continues after a question had it answered. -/
theorem run_asked {β : Type} {question : Outside} {f : question.Answer → CustomerProg β} {b : β}
    (h : ((ask question).bind f).run world.exec s = (.ok b, s')) :
    ∃ answer middle, world.exec (.outside question) s = (.ok answer, middle) ∧
      (f answer).run world.exec middle = (.ok b, s') := by
  obtain ⟨answer, middle, hask, hrest⟩ := Prog.run_bind_ok world.exec h
  unfold ask at hask
  obtain ⟨asked, middle', hperform, hend⟩ := Prog.run_bind_ok world.exec hask
  cases hperform
  cases hasked : (world.exec (.outside question) s).1 with
  | error thrown =>
    rw [hasked] at hend
    cases hend
  | ok value =>
    rw [hasked] at hend
    obtain ⟨hvalue, hmiddle⟩ := Prod.mk.inj hend
    obtain rfl := Except.ok.inj hvalue
    exact ⟨value, middle, Prod.ext hasked hmiddle, hrest⟩

theorem boundedInteger_ok {value bounded minimum maximum : Int} {field : String}
    (h : boundedInteger value field minimum maximum = .ok bounded) :
    bounded = value ∧ minimum ≤ value ∧ value ≤ maximum := by
  unfold boundedInteger at h
  split at h
  · cases h
  · cases h
    omega

theorem run_getTask_ok {β : Type} {taskId : String} {f : CustomerServiceTask → CustomerProg β}
    {b : β} (h : ((getTask taskId).bind f).run world.exec s = (.ok b, s')) :
    ∃ task, nonBlank taskId = true ∧
      s.tasks.get? (world.store.options.orgId, jsTrim taskId) = some task ∧
      validateCustomerServiceTask world.store.options.dateParse task = .ok task ∧
      (f task).run world.exec s = (.ok b, s') := by
  obtain ⟨task, middle, htask, hrest⟩ := Prog.run_bind_ok world.exec h
  unfold getTask at htask
  obtain ⟨id, hrequired, hfind⟩ := run_checked htask
  have hshown : nonBlank taskId = true := by
    unfold required at hrequired
    split at hrequired
    · next hshown => exact hshown
    · cases hrequired
  obtain rfl := required_ok hrequired
  obtain ⟨found, hget, hend⟩ := run_checked hfind
  have hget : getCustomerServiceTask world.store.options.dateParse s.tasks
      world.store.options.orgId (jsTrim taskId) = .ok found := hget
  cases found with
  | none => cases hend
  | some found =>
    cases hend
    unfold getCustomerServiceTask at hget
    split at hget
    · cases hget
    · next row hrow =>
      split at hget
      · cases hget
      · next valid hvalid =>
        cases hget
        obtain rfl := validateCustomerServiceTask_ok hvalid
        exact ⟨_, hshown, hrow, hvalid, hrest⟩

theorem run_seedThread {eventId : String} {found : Option String}
    (h : (seedThread task eventId).run world.exec s = (.ok found, s')) :
    found = seedThreadOf world task eventId ∧ s' = s := by
  unfold seedThread at h
  unfold seedThreadOf
  split at h
  · next hsource =>
    rw [if_pos hsource]
    cases h
    exact ⟨rfl, rfl⟩
  · next hother =>
    rw [if_neg hother]
    obtain ⟨event, middle, hevent, hend⟩ := run_asked h
    have hanswer : (world.getEvent eventId, s) = (.ok event, middle) := hevent
    obtain ⟨hfound, rfl⟩ := Prod.mk.inj hanswer
    cases hend
    rw [hfound]
    exact ⟨rfl, rfl⟩

theorem run_groupSeeds {seeds : List String} {groups found : List (String × List String)}
    (h : (groupSeeds task groups seeds).run world.exec s = (.ok found, s')) :
    found = seedGroups world task groups seeds ∧ s' = s := by
  induction seeds generalizing groups s with
  | nil =>
    cases h
    exact ⟨rfl, rfl⟩
  | cons first rest ih =>
    unfold groupSeeds at h
    obtain ⟨thread, middle, hthread, hrest⟩ := Prog.run_bind_ok world.exec h
    obtain ⟨hof, rfl⟩ := run_seedThread hthread
    unfold seedGroups
    rw [← hof]
    cases thread with
    | none => exact ih hrest
    | some threadId => exact ih hrest

theorem run_expandThread {β : Type} {threadId snapshotId : String} {seedIds : List String}
    {maxItems neighbors : Int} {f : ContextWindow → CustomerProg β} {b : β}
    (h : ((ask (.expandThread threadId seedIds snapshotId maxItems neighbors)).bind f).run
      world.exec s = (.ok b, s')) :
    ∃ window, expandThread world.store (world.stamps s) threadId seedIds snapshotId maxItems.toNat
        neighbors.toNat = .ok window ∧
      (f window).run world.exec { s with
        ticks := s.ticks + window.continuations.length
        issued := s.issued + window.continuations.length } = (.ok b, s') := by
  obtain ⟨window, middle, hwindow, hrest⟩ := run_asked h
  cases hexpand : expandThread world.store (world.stamps s) threadId seedIds snapshotId
      maxItems.toNat neighbors.toNat with
  | error thrown =>
    have hexec : world.exec (.outside (.expandThread threadId seedIds snapshotId maxItems
        neighbors)) s = (.error thrown, s) := by
      unfold ReadingWorld.exec
      simp only [hexpand]
    rw [hexec] at hwindow
    cases hwindow
  | ok found =>
    have hexec : world.exec (.outside (.expandThread threadId seedIds snapshotId maxItems
        neighbors)) s = (.ok found, { s with
          ticks := s.ticks + found.continuations.length
          issued := s.issued + found.continuations.length }) := by
      unfold ReadingWorld.exec
      simp only [hexpand]
    rw [hexec] at hwindow
    cases hwindow
    exact ⟨_, rfl, hrest⟩

/-- The windows of the shares, one after another. -/
theorem run_expandThreads {groups : List (String × List String)} {snapshotId : String}
    {neighbors : Int} {threads : List String} {remainingItems : Int}
    {expanded window : ContextWindow}
    (h : (expandThreads task groups snapshotId neighbors threads remainingItems expanded).run
      world.exec s = (.ok window, s')) :
    ∃ windows : List ContextWindow,
      List.Forall₂ (fun share window => ∃ stamps, expandThread world.store stamps share.threadId
          share.seedIds snapshotId share.items.toNat neighbors.toNat = .ok window)
        (threadShares world task groups neighbors threads remainingItems) windows ∧
      window.evidence = expanded.evidence ++ windows.flatMap (·.evidence) ∧
      window.continuations = expanded.continuations ++ windows.flatMap (·.continuations) ∧
      s'.tasks = s.tasks ∧ s.ticks ≤ s'.ticks ∧
      ∃ count, s'.issued = s.issued + count ∧
        (windows.flatMap (·.continuations)).map (·.handle) =
          (List.range' s.issued count).map world.ids := by
  induction threads generalizing remainingItems expanded s with
  | nil =>
    cases h
    exact ⟨[], List.Forall₂.nil, by simp, by simp, rfl, Nat.le_refl _, 0, rfl, rfl⟩
  | cons threadId rest ih =>
    unfold expandThreads at h
    unfold threadShares
    by_cases hnone : remainingItems ≤ 0
    · rw [if_pos hnone] at h
      rw [if_pos hnone]
      cases h
      exact ⟨[], List.Forall₂.nil, by simp, by simp, rfl, Nat.le_refl _, 0, rfl, rfl⟩
    · rw [if_neg hnone] at h
      rw [if_neg hnone]
      obtain ⟨first, hfirst, hrest⟩ := run_expandThread h
      let share : ThreadShare :=
        { threadId
          seedIds := seedsOf task groups threadId
          items := max 1 (remainingItems / (rest.length + 1 : Nat)) }
      have hshare : expandThread world.store (world.stamps s) share.threadId share.seedIds
          snapshotId share.items.toNat neighbors.toNat = .ok first := hfirst
      obtain ⟨-, -, hcount, -, hfirstHandles, -⟩ := expandThread_spec hshare
      obtain ⟨windows, hall, hevidence, hcontinuations, htasks, hticks, count, hissued, hhandles⟩ :=
        ih hrest
      rw [hcount] at hall
      refine ⟨first :: windows, List.Forall₂.cons ⟨_, hshare⟩ hall, ?_, ?_, htasks, ?_,
        first.continuations.length + count, ?_, ?_⟩
      · rw [hevidence, List.flatMap_cons, List.append_assoc]
      · rw [hcontinuations, List.flatMap_cons, List.append_assoc]
      · exact Nat.le_trans (Nat.le_add_right _ _) hticks
      · simp only at hissued
        omega
      · have hissuedHere : (List.range first.continuations.length).map
            (fun i => (world.stamps s i).2) =
              (List.range' s.issued first.continuations.length).map world.ids := by
          rw [List.range'_eq_map_range, List.map_map]
          rfl
        rw [List.flatMap_cons, List.map_append, hhandles, hfirstHandles, hissuedHere,
          ← List.range'_append_1, List.map_append]

theorem run_update {apply : CustomerProg CustomerServiceTask} {asked : Asked}
    {saved : CustomerServiceTask}
    (h : (update task apply asked).run world.exec s = (.ok saved, s')) :
    ∃ changed middle, apply.run world.exec s = (.ok changed, middle) ∧
      saved = { changed with
        revision := task.revision + 1
        updatedAt := world.clock middle.ticks } ∧
      validateCustomerServiceTask world.store.options.dateParse saved = .ok saved ∧
      s' = { middle with
        tasks := middle.tasks.put saved
        ticks := middle.ticks + 1 } := by
  unfold update at h
  obtain ⟨changed, middle, hchanged, hnow⟩ := Prog.run_bind_ok world.exec h
  obtain ⟨updatedAt, ticked, htick, hput⟩ := run_asked hnow
  have htick : (Except.ok (world.clock middle.ticks), { middle with ticks := middle.ticks + 1 }) =
      ((.ok updatedAt, ticked) : Except CustomerThrown String × ReadingState) := htick
  obtain ⟨hupdated, rfl⟩ := Prod.mk.inj htick
  obtain rfl := Except.ok.inj hupdated
  refine ⟨changed, middle, hchanged, ?_⟩
  generalize hnext : ({ changed with
      revision := task.revision + 1
      updatedAt := world.clock middle.ticks } : CustomerServiceTask) = next at hput
  obtain ⟨answer, stored, hperform, hend⟩ := Prog.run_bind_ok world.exec hput
  cases hstored : putCustomerServiceTask world.store.options.dateParse middle.tasks next
      (some task.revision) with
  | error thrown =>
    have hexec : world.exec (.putCustomerServiceTask next (some task.revision) asked)
        { middle with ticks := middle.ticks + 1 } =
          (.error thrown, { middle with ticks := middle.ticks + 1 }) := by
      unfold ReadingWorld.exec
      simp only [hstored]
    rw [Prog.run_perform, hexec] at hperform
    cases hperform
    cases hend
  | ok put =>
    have hexec : world.exec (.putCustomerServiceTask next (some task.revision) asked)
        { middle with ticks := middle.ticks + 1 } =
          (.ok put.1, { middle with tasks := put.2, ticks := middle.ticks + 1 }) := by
      unfold ReadingWorld.exec
      simp only [hstored]
    rw [Prog.run_perform, hexec] at hperform
    cases hperform
    cases hend
    have hput : put = (next, middle.tasks.put next) ∧
        validateCustomerServiceTask world.store.options.dateParse next = .ok next := by
      unfold putCustomerServiceTask at hstored
      split at hstored
      · cases hstored
      · next valid hvalid =>
        obtain rfl := validateCustomerServiceTask_ok hvalid
        split at hstored
        · cases hstored
          exact ⟨rfl, hvalid⟩
        · split at hstored
          · cases hstored
            exact ⟨rfl, hvalid⟩
          · cases hstored
        · cases hstored
    obtain ⟨rfl, hvalid⟩ := hput
    exact ⟨rfl, hvalid, rfl⟩

end Run

/-! ## Handles -/

/-- The stored task still has a continuation. -/
structure HandleKept (world : ReadingWorld) (taskId : String) (s : ReadingState)
    (task : CustomerServiceTask) (continuation : CustomerContextContinuation) : Prop where
  stored : s.tasks.get? (world.store.options.orgId, jsTrim taskId) = some task
  valid : validateCustomerServiceTask world.store.options.dateParse task = .ok task
  mutable : task.status ≠ .sent ∧ task.status ≠ .failed
  written : ∃ i, i < s.ticks ∧ task.updatedAt = world.clock i
  found : task.continuations.find? (fun item => item.handle = continuation.handle) =
    some continuation

section Handles

variable {world : ReadingWorld} {taskId : String} {s s' : ReadingState}
  {input : SearchContextInput} {result : SearchContextResult}

/-- A time after the task was written is before none of the times in it. -/
theorem HandleKept.later {task : CustomerServiceTask} {continuation : CustomerContextContinuation}
    (h : HandleKept world taskId s task continuation) :
    ∀ i, s.ticks ≤ i → ¬world.clock i < task.brief.source.receivedAt ∧
      ¬world.clock i < task.createdAt := by
  intro i hi
  obtain ⟨j, hj, hupdated⟩ := h.written
  have hvalid := h.valid
  unfold validateCustomerServiceTask at hvalid
  split at hvalid
  · cases hvalid
  · split at hvalid
    · cases hvalid
    · next hordered =>
      simp only [Bool.or_eq_true, decide_eq_true_eq, not_or, hupdated] at hordered
      constructor
      · intro hbefore
        exact hordered.1 (world.clock_forward _ (by omega) hbefore)
      · intro hbefore
        exact hordered.2 (world.clock_forward _ (by omega) hbefore)

/-- A search writes its windows to the task, where each of their handles is found. -/
theorem run_searchContext
    (h : world.runs (searchContext world.store.options taskId input) s = (.ok result, s')) :
    ∃ task, nonBlank taskId = true ∧
      s.tasks.get? (world.store.options.orgId, jsTrim taskId) = some task ∧
      validateCustomerServiceTask world.store.options.dateParse task = .ok task ∧
      (1 : Int) ≤ input.maxItems.getD defaultContextItems ∧
      ∃ windows : List ContextWindow,
        List.Forall₂ (fun share window => ∃ stamps, expandThread world.store stamps share.threadId
            share.seedIds result.snapshotId share.items.toNat
            (input.neighborCount.getD defaultNeighborCount).toNat = .ok window)
          (searchShares world task input s) windows ∧
        (∃ assembled groups, groups = seedGroups world task [] (searchSeeds task assembled) ∧
          searchShares world task input s = threadShares world task groups
            (input.neighborCount.getD defaultNeighborCount) (orderedThreads task groups)
            (input.maxItems.getD defaultContextItems)) ∧
        (∃ seeds, result.evidence = withReasons task seeds (windows.flatMap (·.evidence))) ∧
        result.continuations = windows.flatMap (·.continuations) ∧
        (∃ first count, result.continuations.map (·.handle) =
          (List.range' first count).map world.ids) ∧
        ∀ continuation ∈ result.continuations,
          HandleKept world taskId s' result.task continuation := by
  unfold ReadingWorld.runs searchContext at h
  obtain ⟨task, hshown, hstored, hvalid, h⟩ := run_getTask_ok h
  obtain ⟨_, hmutable, h⟩ := run_checked h
  obtain ⟨query, hquery, h⟩ := run_checked h
  obtain ⟨maxItems, hmax, h⟩ := run_checked h
  obtain ⟨neighbors, hneighbors, h⟩ := run_checked h
  obtain ⟨within, hwithin, h⟩ := run_checked h
  obtain ⟨id, issued, hid, h⟩ := run_asked h
  have hcreated : (Except.ok (world.ids s.issued), { s with issued := s.issued + 1 }) =
      ((.ok id, issued) : Except CustomerThrown String × ReadingState) := hid
  clear hid
  obtain ⟨objective, hobjective, h⟩ := run_checked h
  obtain ⟨assembled, middle, hanswer, h⟩ := run_asked h
  have hanswered : (world.assemble
      { id, objective, query := within, related := input.includeRelated
        maxItems := min maxItems 20 }, issued) = (.ok assembled, middle) := hanswer
  clear hanswer
  obtain ⟨groups, grouped, hgroups, h⟩ := Prog.run_bind_ok world.exec h
  obtain ⟨expanded, shown, hexpanded, h⟩ := Prog.run_bind_ok world.exec h
  obtain ⟨saved, final, hsaved, h⟩ := Prog.run_bind_ok world.exec h
  cases h
  obtain ⟨hid, rfl⟩ := Prod.mk.inj hcreated
  obtain rfl := Except.ok.inj hid
  obtain ⟨hassembled, rfl⟩ := Prod.mk.inj hanswered
  obtain ⟨rfl, hgrouped⟩ := run_groupSeeds hgroups
  subst hgrouped
  obtain ⟨rfl, hlow, hhigh⟩ := boundedInteger_ok hmax
  obtain ⟨rfl, -, -⟩ := boundedInteger_ok hneighbors
  obtain ⟨windows, hall, hevidence, hcontinuations, htasks, hticks, count, hissued, hhandles⟩ :=
    run_expandThreads hexpanded
  rw [List.nil_append] at hevidence hcontinuations
  have hasked : searchQuery world task input s = .ok
      { id := world.ids s.issued, objective, query := within, related := input.includeRelated
        maxItems := min (input.maxItems.getD defaultContextItems) 20 } := by
    unfold searchQuery
    simp only [hquery, hwithin, hobjective, bind, Except.bind, pure, Except.pure]
  have hshares : searchShares world task input s = threadShares world task
      (seedGroups world task [] (searchSeeds task assembled))
      (input.neighborCount.getD defaultNeighborCount)
      (orderedThreads task (seedGroups world task [] (searchSeeds task assembled)))
      (input.maxItems.getD defaultContextItems) := by
    unfold searchShares
    rw [hasked]
    simp only [hassembled]
  obtain ⟨changed, merged, hchanged, rfl, hsavedValid, rfl⟩ := run_update hsaved
  obtain ⟨mergedAt, ticked, hnow, hpure⟩ := run_asked hchanged
  have htick : (Except.ok (world.clock shown.ticks), { shown with ticks := shown.ticks + 1 }) =
      ((.ok mergedAt, ticked) : Except CustomerThrown String × ReadingState) := hnow
  clear hnow
  obtain ⟨hmergedAt, rfl⟩ := Prod.mk.inj htick
  obtain rfl := Except.ok.inj hmergedAt
  cases hpure
  have hnodup : (expanded.continuations.map (·.handle)).Nodup := by
    rw [hcontinuations, hhandles]
    exact (List.nodup_range' 1).map world.ids_injective
  obtain ⟨-, hkey⟩ := Table.get?_eq_some.mp hstored
  refine ⟨task, hshown, hstored, hvalid, hlow, windows, hshares ▸ hall, ⟨assembled, _, rfl, hshares⟩,
    ⟨searchSeeds task assembled, by rw [← hevidence]; rfl⟩, hcontinuations,
    ⟨_, count, by rw [hcontinuations]; exact hhandles⟩, ?_⟩
  intro continuation hcontinuation
  exact {
    stored := by
      rw [Table.get?_put]
      exact if_pos hkey
    valid := hsavedValid
    mutable := ⟨by simp, by simp⟩
    written := ⟨shown.ticks + 1, by simp, rfl⟩
    found := find?_mergeContinuations _ hnodup _ hcontinuation }

theorem mem_withReasons {task : CustomerServiceTask} {seeds : List String}
    {evidence : List CustomerContextEvidence} {eventId threadId : String} :
    (∃ item ∈ withReasons task seeds evidence, item.eventId = eventId ∧ item.threadId = threadId) ↔
      ∃ item ∈ evidence, item.eventId = eventId ∧ item.threadId = threadId := by
  unfold withReasons
  constructor
  · rintro ⟨item, hitem, hsame⟩
    obtain ⟨old, hold, rfl⟩ := List.mem_map.mp hitem
    exact ⟨old, hold, hsame⟩
  · rintro ⟨item, hitem, hsame⟩
    exact ⟨_, List.mem_map.mpr ⟨item, hitem, rfl⟩, hsame⟩

theorem windows_threadIds {shares : List ThreadShare} {windows : List ContextWindow}
    {neighbors : Int} {snapshotId : String}
    (hall : List.Forall₂ (fun (share : ThreadShare) window => ∃ stamps, expandThread world.store
      stamps share.threadId share.seedIds snapshotId share.items.toNat neighbors.toNat =
        .ok window) shares windows) :
    ∀ item ∈ windows.flatMap (·.evidence), item.threadId ∈ shares.map (·.threadId) := by
  induction hall with
  | nil => simp
  | cons hfirst _ ih =>
    obtain ⟨stamps, hfirst⟩ := hfirst
    obtain ⟨-, -, -, hin, -⟩ := expandThread_spec hfirst
    intro item hitem
    rw [List.flatMap_cons, List.mem_append] at hitem
    rw [List.map_cons, List.mem_cons]
    rcases hitem with hown | hother
    · exact .inl (hin item hown)
    · exact .inr (ih item hother)

/-- The items of a conversation are in the window of its share. -/
theorem mem_windows_iff {shares : List ThreadShare} {windows : List ContextWindow}
    {neighbors : Int} {snapshotId : String}
    (hall : List.Forall₂ (fun (share : ThreadShare) window => ∃ stamps, expandThread world.store
      stamps share.threadId share.seedIds snapshotId share.items.toNat neighbors.toNat =
        .ok window) shares windows)
    (hnodup : (shares.map (·.threadId)).Nodup) {share : ThreadShare} (hshare : share ∈ shares) :
    ∃ window stamps, expandThread world.store stamps share.threadId share.seedIds snapshotId
        share.items.toNat neighbors.toNat = .ok window ∧
      ∀ eventId, (∃ item ∈ windows.flatMap (·.evidence), item.eventId = eventId ∧
          item.threadId = share.threadId) ↔
        ∃ item ∈ window.evidence, item.eventId = eventId ∧ item.threadId = share.threadId := by
  induction hall with
  | nil => cases hshare
  | @cons first window others windows hfirst hrest ih =>
    rw [List.map_cons, List.nodup_cons] at hnodup
    obtain ⟨stamps, hfirst⟩ := hfirst
    obtain ⟨-, -, -, hin, -⟩ := expandThread_spec hfirst
    rcases List.mem_cons.mp hshare with rfl | hother
    · refine ⟨window, stamps, hfirst, ?_⟩
      intro eventId
      rw [List.flatMap_cons]
      constructor
      · rintro ⟨item, hitem, hid, hthread⟩
        rcases List.mem_append.mp hitem with hown | hlater
        · exact ⟨item, hown, hid, hthread⟩
        · exact absurd (hthread ▸ windows_threadIds hrest item hlater) hnodup.1
      · rintro ⟨item, hitem, hsame⟩
        exact ⟨item, List.mem_append_left _ hitem, hsame⟩
    · obtain ⟨found, stamps', hfound, hiff⟩ := ih hnodup.2 hother
      refine ⟨found, stamps', hfound, ?_⟩
      intro eventId
      rw [← hiff eventId, List.flatMap_cons]
      constructor
      · rintro ⟨item, hitem, hid, hthread⟩
        rcases List.mem_append.mp hitem with hown | hlater
        · have hsame : first.threadId = share.threadId := (hin item hown).symm.trans hthread
          exact absurd (List.mem_map.mpr ⟨share, hother, hsame.symm⟩) hnodup.1
        · exact ⟨item, hlater, hid, hthread⟩
      · rintro ⟨item, hitem, hsame⟩
        exact ⟨item, List.mem_append_right _ hitem, hsame⟩

/-- A continuation of a search goes on from a message of its conversation as it is. -/
theorem windows_continuations {shares : List ThreadShare} {windows : List ContextWindow}
    {neighbors : Int} {snapshotId : String}
    (hall : List.Forall₂ (fun (share : ThreadShare) window => ∃ stamps, expandThread world.store
      stamps share.threadId share.seedIds snapshotId share.items.toNat neighbors.toNat =
        .ok window) shares windows) :
    ∀ continuation ∈ windows.flatMap (·.continuations), ∃ thread position,
      currentThread world.store continuation.threadId = .ok thread ∧
        continuation.readEpoch = thread.readEpoch ∧ StartsAt thread continuation position := by
  induction hall with
  | nil => simp
  | cons hfirst _ ih =>
    obtain ⟨stamps, hfirst⟩ := hfirst
    obtain ⟨thread, hthread, -, -, -, hstarts⟩ := expandThread_spec hfirst
    intro continuation hcontinuation
    rw [List.flatMap_cons, List.mem_append] at hcontinuation
    rcases hcontinuation with hown | hother
    · obtain ⟨hid, hepoch, position, hstart⟩ := hstarts continuation hown
      exact ⟨thread, position, hid ▸ hthread, hepoch, hstart⟩
    · exact ih continuation hother

/-- A handle of a search that is kept goes on from its message. -/
theorem HandleKept.continues {task : CustomerServiceTask}
    {continuation : CustomerContextContinuation} {thread : CurrentThread} {position issued : Nat}
    (h : HandleKept world taskId s task continuation) (hshown : nonBlank taskId = true)
    (hhandle : continuation.handle = world.ids issued)
    (hthread : currentThread world.store continuation.threadId = .ok thread)
    (hepoch : continuation.readEpoch = thread.readEpoch)
    (hstart : StartsAt thread continuation position) :
    Continues world taskId s task continuation thread position where
  taskId_shown := hshown
  stored := h.stored
  valid := h.valid
  mutable := h.mutable
  later := h.later
  found := h.found
  handle_trimmed := by rw [hhandle]; exact world.ids_trimmed issued
  handle_shown := by rw [hhandle]; exact world.ids_shown issued
  read := hthread
  epoch := hepoch
  boundary := hstart

/-- The first share is of the conversation of the triggering message, which is a seed of it. -/
theorem threadShares_source {task : CustomerServiceTask} (assembled : AssembledContext)
    (hshown : task.brief.source.threadId ≠ "") (neighbors : Int) {items : Int} (hitems : 1 ≤ items) :
    ∃ share rest,
      threadShares world task (seedGroups world task [] (searchSeeds task assembled)) neighbors
        (orderedThreads task (seedGroups world task [] (searchSeeds task assembled))) items =
          share :: rest ∧
      share.threadId = task.brief.source.threadId ∧
      task.brief.source.eventId ∈ share.seedIds := by
  obtain ⟨hnodup, hmem⟩ := @seedGroups_spec world task
    (searchSeeds task assembled) [] List.nodup_nil
  have hseed : task.brief.source.eventId ∈ searchSeeds task assembled := by
    unfold searchSeeds
    split
    · next hin => exact hin
    · exact List.mem_cons_self
  have hof : seedThreadOf world task task.brief.source.eventId =
      some task.brief.source.threadId := by
    unfold seedThreadOf
    rw [if_pos rfl]
    exact present_some.mpr ⟨rfl, hshown⟩
  have hgroup := hmem task.brief.source.threadId task.brief.source.eventId (.inr ⟨hseed, hof⟩)
  have hsource := source_mem_seedsOf hnodup hgroup
  unfold orderedThreads
  rw [List.take_succ_cons, threadShares, if_neg (by omega)]
  exact ⟨_, _, rfl, rfl, hsource⟩

end Handles

end Regenic.Customer
