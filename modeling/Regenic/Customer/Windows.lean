import Regenic.Customer.Threads

/-!
Which messages a window selects: the positions of the windows around the seeds are collected
without a second copy, and the earliest of them are kept, so that a seed is selected exactly when
there are fewer positions before it than there is room for.
-/

namespace Regenic.Customer

open Lib
open Context (AuthorityEvent openContextRead)

/-! ## Positions -/

section Positions

variable {events : List AuthorityEvent}

theorem mem_addIndex {selected : List Nat} {index i : Nat} :
    i ∈ addIndex selected index ↔ i ∈ selected ∨ i = index := by
  unfold addIndex
  split
  · next h =>
    have hin : index ∈ selected := by simpa using h
    constructor
    · exact Or.inl
    · rintro (hi | rfl)
      · exact hi
      · exact hin
  · rw [List.mem_append, List.mem_singleton]

theorem nodup_addIndex {selected : List Nat} (h : selected.Nodup) (index : Nat) :
    (addIndex selected index).Nodup := by
  unfold addIndex
  split
  · exact h
  · next hout =>
    apply List.Nodup.append h (List.nodup_singleton index)
    intro i hi hindex
    obtain rfl := List.mem_singleton.mp hindex
    simp [hi] at hout

theorem mem_foldl_addIndex {added selected : List Nat} {i : Nat} :
    i ∈ added.foldl addIndex selected ↔ i ∈ selected ∨ i ∈ added := by
  induction added generalizing selected with
  | nil => simp
  | cons first rest ih =>
    rw [List.foldl_cons, ih, mem_addIndex, List.mem_cons, or_assoc]

theorem nodup_foldl_addIndex {selected : List Nat} (added : List Nat) (h : selected.Nodup) :
    (added.foldl addIndex selected).Nodup := by
  induction added generalizing selected with
  | nil => exact h
  | cons first rest ih => exact ih (nodup_addIndex h first)

theorem parentIndex_lt {index parent : Nat} (h : parentIndex events index = some parent) :
    parent < events.length := by
  unfold parentIndex at h
  simp only [Option.bind_eq_bind, Option.bind_eq_some_iff] at h
  obtain ⟨_, _, _, _, hfind⟩ := h
  exact (List.findIdx?_eq_some_iff_findIdx_eq.mp hfind).1

/-- A chain of replies adds positions of the conversation, none of them twice. -/
theorem addReplyChain_spec (depth : Nat) {selected : List Nat} (replyIndex : Nat)
    (hnodup : selected.Nodup) (hlt : ∀ i ∈ selected, i < events.length) :
    (addReplyChain events depth selected replyIndex).Nodup ∧
      (∀ i ∈ addReplyChain events depth selected replyIndex, i < events.length) ∧
      selected ⊆ addReplyChain events depth selected replyIndex := by
  induction depth generalizing selected replyIndex with
  | zero => exact ⟨hnodup, hlt, List.Subset.refl selected⟩
  | succ depth ih =>
    unfold addReplyChain
    split
    · exact ⟨hnodup, hlt, List.Subset.refl selected⟩
    · next parent hparent =>
      split
      · exact ⟨hnodup, hlt, List.Subset.refl selected⟩
      · next hout =>
        have hnew : addIndex selected parent = selected ++ [parent] := if_neg hout
        have hnodup' := nodup_addIndex hnodup parent
        rw [hnew] at hnodup'
        obtain ⟨hkeep, hbound, hsubset⟩ := ih parent hnodup' (by
          intro i hi
          rcases List.mem_append.mp hi with hold | hlast
          · exact hlt i hold
          · obtain rfl := List.mem_singleton.mp hlast
            exact parentIndex_lt hparent)
        exact ⟨hkeep, hbound, fun i hi => hsubset (List.mem_append_left _ hi)⟩

theorem mem_neighborIndexes {neighbors index i : Nat} :
    i ∈ neighborIndexes events neighbors index ↔
      i < events.length ∧ index ≤ i + neighbors ∧ i ≤ index + neighbors := by
  simp [neighborIndexes]

/-- What one seed adds. -/
theorem addSeedWindow_spec {neighbors : Nat} {selected : List Nat} (seed : String)
    (hnodup : selected.Nodup) (hlt : ∀ i ∈ selected, i < events.length) :
    (addSeedWindow events neighbors selected seed).Nodup ∧
      (∀ i ∈ addSeedWindow events neighbors selected seed, i < events.length) ∧
      selected ⊆ addSeedWindow events neighbors selected seed ∧
      ∀ p, events.findIdx? (fun item => item.id = seed) = some p →
        p ∈ addSeedWindow events neighbors selected seed := by
  unfold addSeedWindow
  cases hfind : events.findIdx? fun item => item.id = seed with
  | none =>
    refine ⟨hnodup, hlt, List.Subset.refl selected, ?_⟩
    intro p hp
    cases hp
  | some index =>
    obtain ⟨hchain, hbound, hsubset⟩ := addReplyChain_spec 8 index hnodup hlt
    refine ⟨nodup_foldl_addIndex _ hchain, ?_, ?_, ?_⟩
    · intro i hi
      rcases mem_foldl_addIndex.mp hi with hold | hnear
      · exact hbound i hold
      · exact (mem_neighborIndexes.mp hnear).1
    · intro i hi
      exact mem_foldl_addIndex.mpr (.inl (hsubset hi))
    · intro p hp
      obtain rfl := Option.some.inj hp
      have hlength := (List.findIdx?_eq_some_iff_findIdx_eq.mp hfind).1
      exact mem_foldl_addIndex.mpr (.inr (mem_neighborIndexes.mpr ⟨hlength, by omega, by omega⟩))

theorem foldl_addSeedWindow_spec {neighbors : Nat} (seedIds : List String) {selected : List Nat}
    (hnodup : selected.Nodup) (hlt : ∀ i ∈ selected, i < events.length) :
    (seedIds.foldl (addSeedWindow events neighbors) selected).Nodup ∧
      (∀ i ∈ seedIds.foldl (addSeedWindow events neighbors) selected, i < events.length) ∧
      selected ⊆ seedIds.foldl (addSeedWindow events neighbors) selected ∧
      ∀ seed ∈ seedIds, ∀ p, events.findIdx? (fun item => item.id = seed) = some p →
        p ∈ seedIds.foldl (addSeedWindow events neighbors) selected := by
  induction seedIds generalizing selected with
  | nil =>
    refine ⟨hnodup, hlt, List.Subset.refl selected, ?_⟩
    intro seed hseed
    cases hseed
  | cons first rest ih =>
    obtain ⟨hfirst, hbound, hsubset, hmem⟩ :=
      @addSeedWindow_spec events neighbors selected first hnodup hlt
    obtain ⟨hkeep, hall, hgrow, hrest⟩ := ih hfirst hbound
    refine ⟨hkeep, hall, fun i hi => hgrow (hsubset hi), ?_⟩
    intro seed hseed p hp
    rcases List.mem_cons.mp hseed with rfl | hin
    · exact hgrow (hmem p hp)
    · exact hrest seed hin p hp

variable (seedIds : List String) (neighbors : Nat)

theorem windowIndexes_nodup : (windowIndexes events seedIds neighbors).Nodup :=
  (foldl_addSeedWindow_spec seedIds List.nodup_nil (by simp)).1

theorem seed_mem_windowIndexes {seed : String} (hseed : seed ∈ seedIds) {p : Nat}
    (hp : events.findIdx? (fun item => item.id = seed) = some p) :
    p ∈ windowIndexes events seedIds neighbors :=
  (foldl_addSeedWindow_spec seedIds List.nodup_nil (by simp)).2.2.2 seed hseed p hp

/-! ## What is selected -/

theorem sorted_windowIndexes :
    ((windowIndexes events seedIds neighbors).insertionSort (· ≤ ·)).Pairwise (· < ·) := by
  have hperm := List.perm_insertionSort (· ≤ ·) (windowIndexes events seedIds neighbors)
  have hnodup := hperm.nodup_iff.mpr (windowIndexes_nodup seedIds neighbors)
  have hsorted := List.pairwise_insertionSort (· ≤ ·) (windowIndexes events seedIds neighbors)
  exact (hsorted.and hnodup).imp fun h => Nat.lt_of_le_of_ne h.1 h.2

/-- A position of a window is selected exactly when fewer positions than there is room for come
before it. -/
theorem mem_selectedIndexes {p : Nat} (hp : p ∈ windowIndexes events seedIds neighbors)
    (maxItems : Nat) :
    p ∈ selectedIndexes events seedIds maxItems neighbors ↔
      ((windowIndexes events seedIds neighbors).filter fun i => i < p).length < maxItems := by
  have hperm := List.perm_insertionSort (· ≤ ·) (windowIndexes events seedIds neighbors)
  unfold selectedIndexes
  rw [mem_take_iff_of_ascending (sorted_windowIndexes seedIds neighbors)
    (hperm.mem_iff.mpr hp), (hperm.filter _).length_eq]

end Positions

/-! ## Threads -/

section Threads

variable {store : ThreadStore} {threadId : String} {thread : CurrentThread}

/-- What is read of a conversation are rows of the store, each once. -/
theorem openContextReadForThread_spec {read : EpochRead}
    (h : openContextReadForThread store threadId = .ok read) :
    jsTrim threadId ≠ "" ∧ (read.events.map (·.id)).Nodup ∧
      (∃ digest, read.readEpoch = "authority:" ++ digest) ∧
      ∀ event ∈ read.events, nonBlank event.id = true ∧ nonBlank event.source = true ∧
        validTimestamp store.options.dateParse event.occurredAt = true := by
  unfold openContextReadForThread at h
  split at h
  · cases h
  · next hblank =>
    split at h
    · cases h
    · next found hopen =>
      cases h
      unfold openContextRead at hopen
      split at hopen
      · cases hopen
      · cases hopen
        refine ⟨hblank, ?_, ⟨_, rfl⟩, ?_⟩
        · rw [List.map_map]
          exact store.ids_nodup.sublist (List.filter_sublist.map _)
        · intro event hevent
          obtain ⟨row, hmem, rfl⟩ := List.mem_map.mp hevent
          exact store.rows_valid row (List.mem_of_mem_filter hmem)

/-- The messages of a conversation are in it, each once. -/
theorem currentThread_spec (h : currentThread store threadId = .ok thread) :
    jsTrim threadId ≠ "" ∧ (thread.events.map (·.id)).Nodup ∧
      (∃ digest, thread.readEpoch = "authority:" ++ digest) ∧
      ∀ event ∈ thread.events, event.threadId = some threadId ∧
        nonBlank event.id = true ∧ nonBlank event.source = true ∧
        validTimestamp store.options.dateParse event.occurredAt = true := by
  unfold currentThread at h
  obtain ⟨read, hread, h⟩ := sequence_ok h
  cases h
  obtain ⟨hblank, hnodup, hepoch, hvalid⟩ := openContextReadForThread_spec hread
  have hperm := List.perm_insertionSort compareEvent
    (read.events.filter (isCurrentMessage threadId read.lifecycleHeads))
  refine ⟨hblank, ?_, hepoch, ?_⟩
  · apply (hperm.map _).nodup_iff.mpr
    exact hnodup.sublist (List.filter_sublist.map _)
  · intro event hevent
    obtain ⟨hmem, hcurrent⟩ := List.mem_filter.mp (hperm.subset hevent)
    simp only [isCurrentMessage, Bool.and_eq_true, decide_eq_true_eq] at hcurrent
    exact ⟨hcurrent.1.1.1.1, hvalid event hmem⟩

end Threads

/-! ## Evidence -/

section Evidence

variable {store : ThreadStore} {snapshotId : String} {reason : ContextSelectionReason}

/-- A message with a text that can be shown. -/
def Readable (store : ThreadStore) (event : AuthorityEvent) : Prop :=
  ∃ text, messageText store event = .ok (some text)

theorem evidenceOf_ok {events : List AuthorityEvent} {event : AuthorityEvent}
    {made : Option CustomerContextEvidence}
    (h : evidenceOf store events snapshotId reason event = .ok made) :
    (made.isSome ↔ Readable store event) ∧
      ∀ item, made = some item →
        item.eventId = event.id ∧ item.threadId = event.threadId.getD "" := by
  unfold evidenceOf at h
  obtain ⟨text, htext, h⟩ := sequence_ok h
  cases h
  unfold Readable
  cases text with
  | none =>
    constructor
    · simp [htext]
    · intro item hitem
      cases hitem
  | some text =>
    constructor
    · simp [htext]
    · intro item hitem
      cases hitem
      exact ⟨rfl, rfl⟩

theorem mem_evidence_iff {page events : List AuthorityEvent}
    {made : List (Option CustomerContextEvidence)}
    (h : List.Forall₂ (fun event made => evidenceOf store page snapshotId reason event = .ok made)
      events made) (eventId : String) :
    (∃ item ∈ made.filterMap id, item.eventId = eventId) ↔
      ∃ event ∈ events, event.id = eventId ∧ Readable store event := by
  induction h with
  | nil => simp
  | @cons event made events others hfirst _ ih =>
    obtain ⟨hreadable, hid⟩ := evidenceOf_ok hfirst
    cases made with
    | none =>
      have hnot : ¬Readable store event := fun hread => by simpa using hreadable.mpr hread
      simp only [List.filterMap_cons_none (f := id) rfl, ih, List.mem_cons]
      constructor
      · rintro ⟨other, hin, hother⟩
        exact ⟨other, .inr hin, hother⟩
      · rintro ⟨other, rfl | hin, heq, hread⟩
        · exact absurd hread hnot
        · exact ⟨other, hin, heq, hread⟩
    | some item =>
      have hread := hreadable.mp rfl
      have hsame := (hid item rfl).1
      simp only [List.filterMap_cons_some (f := id) rfl, List.mem_cons]
      constructor
      · rintro ⟨other, rfl | hin, heq⟩
        · exact ⟨event, .inl rfl, hsame.symm.trans heq, hread⟩
        · obtain ⟨found, hfound, hrest⟩ := ih.mp ⟨other, hin, heq⟩
          exact ⟨found, .inr hfound, hrest⟩
      · rintro ⟨found, rfl | hin, heq, hfound⟩
        · exact ⟨item, .inl rfl, hsame.trans heq⟩
        · obtain ⟨other, hother, hrest⟩ := ih.mpr ⟨found, hin, heq, hfound⟩
          exact ⟨other, .inr hother, hrest⟩

/-- The evidence of messages is of those among them that are readable. -/
theorem mem_materializeEvidence {events : List AuthorityEvent}
    {evidence : List CustomerContextEvidence}
    (h : materializeEvidence store events snapshotId reason = .ok evidence) (eventId : String) :
    (∃ item ∈ evidence, item.eventId = eventId) ↔
      ∃ event ∈ events, event.id = eventId ∧ Readable store event := by
  unfold materializeEvidence at h
  obtain ⟨made, hmade, h⟩ := sequence_ok h
  cases h
  exact mem_evidence_iff (forall₂_of_mapM_ok hmade) eventId

theorem materializeEvidence_threadId {events : List AuthorityEvent} {threadId : String}
    (hevents : ∀ event ∈ events, event.threadId = some threadId)
    {evidence : List CustomerContextEvidence}
    (h : materializeEvidence store events snapshotId reason = .ok evidence) :
    ∀ item ∈ evidence, item.threadId = threadId := by
  unfold materializeEvidence at h
  obtain ⟨made, hmade, h⟩ := sequence_ok h
  cases h
  intro item hitem
  obtain ⟨entry, hentry, rfl⟩ := List.mem_filterMap.mp hitem
  obtain ⟨event, hevent, hfrom⟩ := exists_of_mem_mapM hmade hentry
  rw [((evidenceOf_ok hfrom).2 item rfl).2, hevents event hevent]
  rfl

/-! ## Windows of a search -/

/-- The seeds that are readable messages of the conversation are all among the evidence. -/
def SeedsIncluded (store : ThreadStore) (threadId : String) (thread : CurrentThread)
    (seedIds : List String) (evidence : List CustomerContextEvidence) : Prop :=
  ∀ seed ∈ seedIds, ∀ event ∈ thread.events, event.id = seed → Readable store event →
    ∃ item ∈ evidence, item.eventId = seed ∧ item.threadId = threadId

/-- Before none of these seeds are there as many positions of the windows as there is room for. -/
def SeedsHaveRoom (store : ThreadStore) (thread : CurrentThread) (seedIds : List String)
    (maxItems neighbors : Nat) : Prop :=
  ∀ seed ∈ seedIds, ∀ p event, thread.events[p]? = some event → event.id = seed →
    Readable store event →
      ((windowIndexes thread.events seedIds neighbors).filter fun i => i < p).length < maxItems

variable {threadId : String} {thread : CurrentThread}

theorem findIdx?_id (hnodup : (thread.events.map (·.id)).Nodup) {p : Nat}
    {event : AuthorityEvent} (h : thread.events[p]? = some event) :
    thread.events.findIdx? (fun item => item.id = event.id) = some p := by
  obtain ⟨hp, hevent⟩ := List.getElem?_eq_some_iff.mp h
  apply List.findIdx?_eq_some_iff_getElem.mpr
  refine ⟨hp, by simp [hevent], ?_⟩
  intro j hj hsame
  have hid : thread.events[j].id = thread.events[p].id := by simpa [hevent] using hsame
  have hsameEvent : thread.events[j] = thread.events[p] :=
    List.inj_on_of_nodup_map hnodup (List.getElem_mem _) (List.getElem_mem _) hid
  have heq := (List.Nodup.of_map _ hnodup).getElem_inj_iff.mp hsameEvent
  omega

/-- A window of a search includes its seeds exactly when they have room. -/
theorem seedsIncluded_iff {stamps : Nat → String × String} {seedIds : List String}
    {maxItems neighbors : Nat} {window : ContextWindow}
    (hthread : currentThread store threadId = .ok thread)
    (h : expandThread store stamps threadId seedIds snapshotId maxItems neighbors = .ok window) :
    SeedsIncluded store threadId thread seedIds window.evidence ↔
      SeedsHaveRoom store thread seedIds maxItems neighbors := by
  unfold expandThread at h
  obtain ⟨read, hread, h⟩ := sequence_ok h
  obtain rfl : read = thread := Except.ok.inj (hread.symm.trans hthread)
  obtain ⟨evidence, hevidence, h⟩ := sequence_ok h
  obtain ⟨continuations, -, h⟩ := sequence_ok h
  cases h
  obtain ⟨-, hnodup, -, hvalid⟩ := currentThread_spec hthread
  have hmem := mem_materializeEvidence hevidence
  have hin := materializeEvidence_threadId (fun event hevent => by
    obtain ⟨_, _, hget⟩ := List.mem_filterMap.mp hevent
    exact (hvalid event (List.mem_of_getElem? hget)).1) hevidence
  -- A readable message of the conversation is in the evidence when its position is selected.
  have hselected : ∀ p event, read.events[p]? = some event → Readable store event →
      ((∃ item ∈ evidence, item.eventId = event.id) ↔
        p ∈ selectedIndexes read.events seedIds maxItems neighbors) := by
    intro p event hp hreadable
    rw [hmem event.id]
    constructor
    · rintro ⟨other, hother, hid, -⟩
      obtain ⟨i, hi, hget⟩ := List.mem_filterMap.mp hother
      have hsame := findIdx?_id hnodup hget
      rw [hid, findIdx?_id hnodup hp] at hsame
      rw [Option.some.inj hsame]
      exact hi
    · intro hin
      exact ⟨event, List.mem_filterMap.mpr ⟨p, hin, hp⟩, rfl, hreadable⟩
  constructor
  · intro hall seed hseed p event hp hid hreadable
    subst hid
    have hposition := seed_mem_windowIndexes seedIds neighbors hseed (findIdx?_id hnodup hp)
    apply (mem_selectedIndexes seedIds neighbors hposition maxItems).mp
    apply (hselected p event hp hreadable).mp
    obtain ⟨item, hitem, hsame, -⟩ :=
      hall event.id hseed event (List.mem_of_getElem? hp) rfl hreadable
    exact ⟨item, hitem, hsame⟩
  · intro hroom seed hseed event hevent hid hreadable
    subst hid
    obtain ⟨p, hp⟩ := List.getElem?_of_mem hevent
    have hposition := seed_mem_windowIndexes seedIds neighbors hseed (findIdx?_id hnodup hp)
    have hroom := hroom event.id hseed p event hp rfl hreadable
    obtain ⟨item, hitem, hsame⟩ := (hselected p event hp hreadable).mpr
      ((mem_selectedIndexes seedIds neighbors hposition maxItems).mpr hroom)
    exact ⟨item, hitem, hsame, hin item hitem⟩

end Evidence

end Regenic.Customer
