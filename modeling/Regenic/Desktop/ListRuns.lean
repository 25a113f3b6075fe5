import Regenic.Desktop.ListRows

/-!
Runs of the list's store. After any facts each thread has one row, the face of the copy that is
held for it; the rows are on the list that is shown unless a page turns the list over rows that are
taken for its own.
-/

namespace Regenic.Desktop

open Lib

attribute [local irreducible] threadKey overlaid viewItem

section Pruned

variable (store : InboxListStore)

theorem get?_pruned {key : Option String} {entry : InboxViewItem}
    (h : (pruned store).catalog.get? key = some entry) : store.catalog.get? key = some entry :=
  Table.get?_of_filter h

/-- A listed thread is not pruned. -/
theorem get?_pruned_of_listed {id : String} {entry : InboxViewItem} (hlisted : id ∈ store.listed)
    (h : store.catalog.get? (some id) = some entry) :
    (pruned store).catalog.get? (some id) = some entry := by
  refine (Table.get?_filter store.catalog _ _).trans ?_
  rw [h, Option.filter_some, if_pos]
  rw [(Table.get?_eq_some.mp h).2]
  unfold InboxListStore.listed at hlisted
  simp only [Option.any_some, List.mem_append, decide_eq_true_eq] at hlisted ⊢
  tauto

theorem listed_pruned : (pruned store).listed = store.listed := rfl

theorem prefs_pruned : (pruned store).prefs = prunePrefs store.catalog store.prefs := rfl

theorem previousItems_applyFact (fact : InboxListFact) :
    (applyFact store fact).previousItems = store.previousItems := by
  cases fact with
  | reset => rfl
  | liveLoaded list page => rfl
  | liveChanged page => rfl
  | olderLoaded items nextBefore hasOlder => rfl
  | headPatched items => rfl
  | headsTouched items gone activeWork pageSize => rfl
  | prefPatched threadId pref => rfl
  | prefReverted threadId previous => rfl

end Pruned

/-! ## Every run -/

structure InboxListStore.Sound (store : InboxListStore) : Prop where
  labelled : Labelled store.previousItems
  nodup : (store.previousItems.map threadKey).Nodup
  rows : ∀ row ∈ store.previousItems, ∃ id face, threadKey row = some id ∧
    IsFaceOf store id face ∧ SameFace row face

theorem sound_step {store : InboxListStore} (h : store.Sound) (fact : InboxListFact) :
    (step store fact).Sound := by
  have hprevious : Labelled (applyFact store fact).previousItems := by
    rw [previousItems_applyFact]
    exact h.labelled
  refine ⟨commit_labelled hprevious, ?_, ?_⟩
  · have hkeys : (step store fact).previousItems.map threadKey = _ := commit_keys hprevious
    rw [hkeys]
    exact uniqueHeads_nodup _
  · intro row hrow
    obtain ⟨id, face, hkey, hshown⟩ := commit_row hprevious hrow
    exact ⟨id, face, hkey, ⟨hshown.isFace.key, hshown.isFace.listed, hshown.isFace.held,
      hshown.isFace.onList⟩, hshown.same⟩

theorem run_sound (facts : List InboxListFact) : (run step {} facts).Sound := by
  refine run_invariant step InboxListStore.Sound (fun store fact h => sound_step h fact) {} ?_ facts
  refine ⟨?_, List.nodup_nil, ?_⟩
  · intro row hrow
    exact absurd hrow List.not_mem_nil
  · intro row hrow
    exact absurd hrow List.not_mem_nil

/-! ## The list that is shown -/

def OnList (store : InboxListStore) : Prop :=
  ∀ row ∈ store.previousItems, onCurrentList store.listView row = true

/-- The preferences that a page leaves unconfirmed when it replaces the catalog. -/
def unconfirmedPrefs (store : InboxListStore) (page : HeadsPage) : Prefs :=
  prunePrefs (upsertHeads ∅ page.items) store.prefs

/-- A page that turns the hidden list or turns to it has no face that a row before is taken for. -/
def TurnsClean (store : InboxListStore) : InboxListFact → Prop
  | .liveLoaded list page =>
    (list = .hidden ↔ store.listView = some .hidden) ∨
      ∀ row ∈ store.previousItems, ∀ copy ∈ page.items,
        sameInboxProps row (viewItem (unconfirmedPrefs store page) copy) = false
  | _ => True

instance (store : InboxListStore) : ∀ fact, Decidable (TurnsClean store fact)
  | .reset => isTrue trivial
  | .liveLoaded list page =>
    inferInstanceAs (Decidable ((list = .hidden ↔ store.listView = some .hidden) ∨
      ∀ row ∈ store.previousItems, ∀ copy ∈ page.items,
        sameInboxProps row (viewItem (unconfirmedPrefs store page) copy) = false))
  | .liveChanged _ => isTrue trivial
  | .olderLoaded _ _ _ => isTrue trivial
  | .headPatched _ => isTrue trivial
  | .headsTouched _ _ _ _ => isTrue trivial
  | .prefPatched _ _ => isTrue trivial
  | .prefReverted _ _ => isTrue trivial

theorem catalog_applyLive (store : InboxListStore) (list : Option InboxListView) (page : HeadsPage)
    (replace : Bool) : (applyLive store list page replace).catalog =
      upsertHeads (if replace then ∅ else store.catalog) page.items := by
  unfold HeadsPage.items
  rw [upsertHeads_append, upsertHeads_append]
  rfl

theorem onCurrentList_congr {listView other : Option InboxListView}
    (h : listView = some .hidden ↔ other = some .hidden) (face : InboxViewItem) :
    onCurrentList listView face = onCurrentList other face := by
  unfold onCurrentList
  simp only [h]

theorem onList_step {store : InboxListStore} (hsound : store.Sound) (h : OnList store)
    {fact : InboxListFact} (hclean : TurnsClean store fact) : OnList (step store fact) := by
  have hprevious : Labelled (applyFact store fact).previousItems := by
    rw [previousItems_applyFact]
    exact hsound.labelled
  intro row hrow
  obtain ⟨id, face, hkey, hshown⟩ := commit_row hprevious hrow
  rcases hshown.shown with rfl | ⟨hold, hsame⟩
  · exact hshown.isFace.onList
  rw [previousItems_applyFact] at hold
  have hbefore := h row hold
  change onCurrentList (applyFact store fact).listView row = true
  cases fact with
  | reset =>
    obtain ⟨entry, hget, -⟩ := hshown.isFace.held
    cases get?_pruned _ hget
  | liveLoaded list page =>
    rcases hclean with hturn | hnone
    · have hview : (applyFact store (.liveLoaded list page)).listView = some list := rfl
      have hsame : some list = some .hidden ↔ store.listView = some .hidden := by
        rw [Option.some.injEq]
        exact hturn
      rw [hview, onCurrentList_congr hsame]
      exact hbefore
    · obtain ⟨entry, hget, rfl⟩ := hshown.isFace.held
      have hheld := get?_pruned _ hget
      have hcatalog : (applyFact store (.liveLoaded list page)).catalog =
          upsertHeads ∅ page.items := catalog_applyLive store (some list) page true
      rw [prefs_pruned, hcatalog] at hsame
      rw [hcatalog] at hheld
      rcases get?_upsertHeads_cases hheld with hempty | ⟨hcopy, -⟩
      · cases hempty
      · have hother : sameInboxProps row (viewItem _ entry) = false := hnone row hold entry hcopy
        exact absurd (hsame.symm.trans hother) (by decide)
  | liveChanged page => exact hbefore
  | olderLoaded items nextBefore hasOlder => exact hbefore
  | headPatched items => exact hbefore
  | headsTouched items gone activeWork pageSize => exact hbefore
  | prefPatched threadId pref => exact hbefore
  | prefReverted threadId previous => exact hbefore

theorem run_onList {facts : List InboxListFact} (h : Along step TurnsClean {} facts) :
    OnList (run step {} facts) := by
  refine (along_invariant step (fun store => store.Sound ∧ OnList store) ?_ {} ?_ facts h).2
  · intro store fact hboth hclean
    exact ⟨sound_step hboth.1 fact, onList_step hboth.1 hboth.2 hclean⟩
  · refine ⟨run_sound [], ?_⟩
    intro row hrow
    exact absurd hrow List.not_mem_nil

end Regenic.Desktop
