import Regenic.Desktop.ListRuns

/-!
What the list shows of what the server said last. The merge keeps an unpinned copy off a held one
that is pinned: such a thread goes on to show what was said before.
-/

namespace Regenic.Desktop

open Lib

attribute [local irreducible] threadKey overlaid viewItem

/-! ## What a fact carries -/

/-- The copies that a fact carries from the server. -/
def InboxListFact.copies : InboxListFact → List InboxViewItem
  | .liveLoaded _ page => page.items
  | .liveChanged page => page.items
  | .olderLoaded items _ _ => items
  | .headsTouched items _ activeWork _ => items ++ activeWork.getD []
  | _ => []

/-- A fact carries at most one distinct copy for each thread. -/
def OneCopy (fact : InboxListFact) : Prop :=
  ∀ copy ∈ fact.copies, ∀ other ∈ fact.copies, threadKey copy ≠ none →
    threadKey other = threadKey copy → other = copy

def copyOf (copies : List InboxViewItem) (id : String) : Option InboxViewItem :=
  copies.find? fun copy => threadKey copy = some id

/-- The copy of a thread that the last refresh carried: a reset, a page that replaces the list and
an older page start anew. -/
def lastSaid (id : String) (said : Option InboxViewItem) : InboxListFact → Option InboxViewItem
  | .reset => none
  | .liveLoaded _ page => copyOf page.items id
  | .liveChanged page => (copyOf page.items id).or said
  | .olderLoaded items _ _ => if (copyOf items id).isSome then none else said
  | .headPatched _ => said
  | .headsTouched items _ activeWork _ => (copyOf (items ++ activeWork.getD []) id).or said
  | .prefPatched _ _ => said
  | .prefReverted _ _ => said

/-- What is still held when a fact merges its copies. -/
def heldBefore (store : InboxListStore) : InboxListFact → Catalog
  | .reset => ∅
  | .liveLoaded _ _ => ∅
  | .headsTouched _ gone _ _ =>
    store.catalog.filter fun item => !((threadKey item).any fun id => id ∈ gone.getD [])
  | _ => store.catalog

/-- A refresh carries no unpinned copy of a thread that is held pinned. -/
def UnpinsHeard (store : InboxListStore) : InboxListFact → Prop
  | .olderLoaded _ _ _ => True
  | fact => ∀ copy ∈ fact.copies, isProtected (heldBefore store fact) copy = false

/-- The condition on a step. -/
def ShowsSaid (store : InboxListStore) (fact : InboxListFact) : Prop :=
  TurnsClean store fact ∧ UnpinsHeard store fact

instance (fact : InboxListFact) : Decidable (OneCopy fact) :=
  inferInstanceAs (Decidable (∀ copy ∈ fact.copies, ∀ other ∈ fact.copies,
    threadKey copy ≠ none → threadKey other = threadKey copy → other = copy))

instance decidableProtects (store : InboxListStore) (fact : InboxListFact) :
    Decidable (∀ copy ∈ fact.copies, isProtected (heldBefore store fact) copy = false) :=
  inferInstance

instance (store : InboxListStore) : ∀ fact, Decidable (UnpinsHeard store fact)
  | .reset => decidableProtects store .reset
  | .liveLoaded list page => decidableProtects store (.liveLoaded list page)
  | .liveChanged page => decidableProtects store (.liveChanged page)
  | .olderLoaded _ _ _ => isTrue trivial
  | .headPatched items => decidableProtects store (.headPatched items)
  | .headsTouched items gone activeWork pageSize =>
    decidableProtects store (.headsTouched items gone activeWork pageSize)
  | .prefPatched threadId pref => decidableProtects store (.prefPatched threadId pref)
  | .prefReverted threadId previous => decidableProtects store (.prefReverted threadId previous)

instance (store : InboxListStore) (fact : InboxListFact) : Decidable (ShowsSaid store fact) :=
  inferInstanceAs (Decidable (TurnsClean store fact ∧ UnpinsHeard store fact))

theorem catalog_relayout (store : InboxListStore) (nextWork : List String) :
    (relayout store nextWork).catalog = store.catalog := rfl

theorem catalog_applyTouched (store : InboxListStore) (items : List InboxViewItem)
    (gone : Option (List String)) (activeWork : Option (List InboxViewItem))
    (pageSize : Option Nat) :
    (applyTouched store items gone activeWork pageSize).catalog =
      upsertHeads (store.catalog.filter fun item =>
        !((threadKey item).any fun id => id ∈ gone.getD [])) (items ++ activeWork.getD []) := by
  rw [upsertHeads_append]
  exact catalog_relayout _ _

/-- A merge of the copies is all that a fact does to the catalog, a reader's patch apart. -/
theorem catalog_applyFact (store : InboxListStore) {fact : InboxListFact}
    (h : ∀ items, fact ≠ .headPatched items) :
    (applyFact store fact).catalog = upsertHeads (heldBefore store fact) fact.copies := by
  cases fact with
  | reset => rfl
  | liveLoaded list page => exact catalog_applyLive store (some list) page true
  | liveChanged page => exact catalog_applyLive store none page false
  | olderLoaded items nextBefore hasOlder => rfl
  | headPatched items => exact absurd rfl (h items)
  | headsTouched items gone activeWork pageSize =>
    exact catalog_applyTouched store items gone activeWork pageSize
  | prefPatched threadId pref => rfl
  | prefReverted threadId previous => rfl

/-- A reader's patch leaves a thread held, with what the patch says of it. -/
theorem get?_applyHeadPatch {catalog : Catalog} {items : List InboxViewItem} {key : Option String}
    {entry : InboxViewItem} (h : (applyHeadPatch catalog items).get? key = some entry) :
    ∃ old, catalog.get? key = some old ∧ ∃ patch, entry = patchHead patch old := by
  induction items generalizing catalog with
  | nil => exact ⟨entry, h, entry, rfl⟩
  | cons item items ih =>
    obtain ⟨middle, hmiddle, patch, rfl⟩ := ih h
    beta_reduce at hmiddle
    split at hmiddle
    · exact ⟨middle, hmiddle, patch, rfl⟩
    · rw [Table.get?_update] at hmiddle
      split at hmiddle
      · obtain ⟨old, hold, rfl⟩ := Option.map_eq_some_iff.mp hmiddle
        exact ⟨old, hold, patch, rfl⟩
      · exact ⟨middle, hmiddle, patch, rfl⟩

theorem copyOf_some {copies : List InboxViewItem} {id : String} {copy : InboxViewItem}
    (h : copyOf copies id = some copy) : copy ∈ copies ∧ threadKey copy = some id :=
  ⟨List.mem_of_find?_eq_some h, by simpa using List.find?_some h⟩

theorem copyOf_none {copies : List InboxViewItem} {id : String} (h : copyOf copies id = none) :
    ∀ copy ∈ copies, threadKey copy ≠ some id := by
  intro copy hcopy hkey
  have hnone := List.find?_eq_none.mp h copy hcopy
  simp [hkey] at hnone

/-! ## The copy that is held -/

section Said

variable {id : String}

/-- What is held for the thread is the copy that was said last, with a reader's patch. -/
def HoldsSaid (id : String) (catalog : Catalog) (said : Option InboxViewItem) : Prop :=
  ∀ copy, said = some copy → threadKey copy = some id ∧
    ∀ entry, catalog.get? (some id) = some entry → ∃ patch, entry = patchHead patch copy

theorem holdsSaid_none (catalog : Catalog) : HoldsSaid id catalog none := by
  intro copy hnone
  cases hnone

/-- A merge of single copies, none of which is kept off. -/
theorem holdsSaid_merge {catalog : Catalog} {said : Option InboxViewItem}
    {fact : InboxListFact} (h : HoldsSaid id catalog said) (hcopy : OneCopy fact)
    (hheard : ∀ copy ∈ fact.copies, isProtected catalog copy = false) :
    HoldsSaid id (upsertHeads catalog fact.copies) ((copyOf fact.copies id).or said) := by
  cases hfound : copyOf fact.copies id with
  | some copy =>
    obtain ⟨hmem, hkey⟩ := copyOf_some hfound
    have hsame : ∀ other ∈ fact.copies, threadKey other = some id → other = copy := by
      intro other hother hkeyOther
      exact hcopy copy hmem other hother (by rw [hkey]; exact Option.some_ne_none id)
        (hkeyOther.trans hkey.symm)
    rw [Option.some_or]
    intro last hlast
    obtain rfl := Option.some.inj hlast
    refine ⟨hkey, ?_⟩
    intro entry hentry
    rw [get?_upsertHeads_of_copy hmem hkey hsame (hheard copy hmem)] at hentry
    obtain rfl := Option.some.inj hentry
    exact ⟨copy, rfl⟩
  | none =>
    rw [Option.none_or]
    intro last hlast
    refine ⟨(h last hlast).1, ?_⟩
    intro entry hentry
    rw [get?_upsertHeads_of_absent (copyOf_none hfound)] at hentry
    exact (h last hlast).2 entry hentry

theorem holdsSaid_applyFact {store : InboxListStore} {said : Option InboxViewItem}
    (h : HoldsSaid id store.catalog said) {fact : InboxListFact} (hcopy : OneCopy fact)
    (hheard : UnpinsHeard store fact) :
    HoldsSaid id (applyFact store fact).catalog (lastSaid id said fact) := by
  cases fact with
  | reset => exact holdsSaid_none _
  | liveLoaded list page =>
    rw [catalog_applyFact store (by simp)]
    have hmerged : HoldsSaid id _ _ := holdsSaid_merge (holdsSaid_none ∅) hcopy hheard
    rwa [Option.or_none] at hmerged
  | liveChanged page =>
    rw [catalog_applyFact store (by simp)]
    exact holdsSaid_merge h hcopy hheard
  | olderLoaded items nextBefore hasOlder =>
    rw [catalog_applyFact store (by simp)]
    have hlast : lastSaid id said (.olderLoaded items nextBefore hasOlder) =
        if (copyOf items id).isSome then none else said := rfl
    rw [hlast]
    split
    · exact holdsSaid_none _
    · next hnone =>
      rw [Bool.not_eq_true, Option.isSome_eq_false_iff, Option.isNone_iff_eq_none] at hnone
      intro copy hsaid
      refine ⟨(h copy hsaid).1, ?_⟩
      intro entry hentry
      have habsent := @get?_upsertHeads_of_absent store.catalog items id (copyOf_none hnone)
      exact (h copy hsaid).2 entry (habsent.symm.trans hentry)
  | headPatched items =>
    intro copy hsaid
    refine ⟨(h copy hsaid).1, ?_⟩
    intro entry hentry
    obtain ⟨old, hold, patch, rfl⟩ := get?_applyHeadPatch hentry
    obtain ⟨first, rfl⟩ := (h copy hsaid).2 old hold
    exact ⟨patch, rfl⟩
  | headsTouched items gone activeWork pageSize =>
    rw [catalog_applyFact store (by simp)]
    refine holdsSaid_merge ?_ hcopy hheard
    intro copy hsaid
    refine ⟨(h copy hsaid).1, ?_⟩
    intro entry hentry
    exact (h copy hsaid).2 entry (Table.get?_of_filter hentry)
  | prefPatched threadId pref => exact h
  | prefReverted threadId previous => exact h

theorem holdsSaid_step {store : InboxListStore} {said : Option InboxViewItem}
    (h : HoldsSaid id store.catalog said) {fact : InboxListFact} (hcopy : OneCopy fact)
    (hheard : UnpinsHeard store fact) :
    HoldsSaid id (step store fact).catalog (lastSaid id said fact) := by
  have happlied := holdsSaid_applyFact h hcopy hheard
  intro copy hsaid
  refine ⟨(happlied copy hsaid).1, ?_⟩
  intro entry hentry
  exact (happlied copy hsaid).2 entry (get?_pruned _ hentry)

theorem holdsSaid_run {facts : List InboxListFact} {store : InboxListStore}
    {said : Option InboxViewItem} (h : HoldsSaid id store.catalog said)
    (hcopy : ∀ fact ∈ facts, OneCopy fact) (hok : Along step UnpinsHeard store facts) :
    HoldsSaid id (run step store facts).catalog (facts.foldl (lastSaid id) said) := by
  induction facts generalizing store said with
  | nil => exact h
  | cons fact facts ih =>
    rw [List.forall_mem_cons] at hcopy
    exact ih (holdsSaid_step h hcopy.1 hok.1) hcopy.2 hok.2

end Said

/-! ## Local preferences -/

section Preferences

variable {id : String} {pref : InboxPrefPatch}

theorem get_put (prefs : Prefs) (threadId : String) (patch : InboxPrefPatch) :
    Prefs.get (prefs.put (threadId, patch)) id =
      if threadId = id then some patch else prefs.get id := by
  unfold Prefs.get
  rw [Table.get?_put]
  split
  · rfl
  · rfl

theorem get_filter (prefs : Prefs) (keeps : String × InboxPrefPatch → Bool)
    (hkeeps : ∀ patch, prefs.get id = some patch → keeps (id, patch) = true) :
    Prefs.get (Table.filter prefs keeps) id = prefs.get id := by
  unfold Prefs.get at hkeeps ⊢
  rw [Table.get?_filter]
  cases hget : Table.get? prefs id with
  | none => rfl
  | some entry =>
    obtain ⟨entryId, patch⟩ := entry
    obtain rfl : entryId = id := (Table.get?_eq_some.mp hget).2
    rw [Option.filter_some, if_pos (hkeeps patch (by rw [hget]; rfl))]

/-- The preference lies over its thread, and no copy that is as new is held. -/
structure PrefHolds (id : String) (pref : InboxPrefPatch) (catalog : Catalog) (prefs : Prefs) :
    Prop where
  held : prefs.get id = some pref
  newer : ∀ entry, catalog.get? (some id) = some entry → isAsNewAsPref entry pref = false

/-- The fact neither takes the preference back or away nor brings a copy that is as new. -/
def KeepsPref (id : String) (pref : InboxPrefPatch) : InboxListFact → Prop
  | .reset => False
  | .prefPatched threadId _ => threadId ≠ id
  | .prefReverted threadId _ => threadId ≠ id
  | .headsTouched items gone activeWork _ =>
    id ∉ gone.getD [] ∧ ∀ copy ∈ items ++ activeWork.getD [], threadKey copy = some id →
      isAsNewAsPref copy pref = false
  | fact => ∀ copy ∈ fact.copies, threadKey copy = some id → isAsNewAsPref copy pref = false

theorem newer_upsertHeads {catalog : Catalog} {items : List InboxViewItem}
    (h : ∀ entry, catalog.get? (some id) = some entry → isAsNewAsPref entry pref = false)
    (hitems : ∀ copy ∈ items, threadKey copy = some id → isAsNewAsPref copy pref = false) :
    ∀ entry, (upsertHeads catalog items).get? (some id) = some entry →
      isAsNewAsPref entry pref = false := by
  intro entry hentry
  rcases get?_upsertHeads_cases hentry with hheld | ⟨hmem, hkey⟩
  · exact h entry hheld
  · exact hitems entry hmem hkey

theorem prefHolds_applyFact {store : InboxListStore}
    (h : PrefHolds id pref store.catalog store.prefs) {fact : InboxListFact}
    (hkeeps : KeepsPref id pref fact) :
    PrefHolds id pref (applyFact store fact).catalog (applyFact store fact).prefs := by
  cases fact with
  | reset => exact False.elim hkeeps
  | liveLoaded list page =>
    refine ⟨h.held, ?_⟩
    rw [catalog_applyFact store (by simp)]
    refine newer_upsertHeads ?_ hkeeps
    intro entry hnone
    cases hnone
  | liveChanged page =>
    refine ⟨h.held, ?_⟩
    rw [catalog_applyFact store (by simp)]
    exact newer_upsertHeads h.newer hkeeps
  | olderLoaded items nextBefore hasOlder => exact ⟨h.held, newer_upsertHeads h.newer hkeeps⟩
  | headPatched items =>
    refine ⟨h.held, ?_⟩
    intro entry hentry
    obtain ⟨old, hold, patch, rfl⟩ := get?_applyHeadPatch hentry
    exact h.newer old hold
  | headsTouched items gone activeWork pageSize =>
    constructor
    · have hfilter : Prefs.get (store.prefs.filter fun entry => entry.1 ∉ gone.getD []) id =
          store.prefs.get id := by
        apply get_filter
        intro patch _
        exact decide_eq_true hkeeps.1
      exact hfilter.trans h.held
    · rw [catalog_applyFact store (by simp)]
      refine newer_upsertHeads ?_ hkeeps.2
      intro entry hentry
      exact h.newer entry (Table.get?_of_filter hentry)
  | prefPatched threadId patch =>
    refine ⟨?_, h.newer⟩
    have hput : Prefs.get (store.prefs.put (threadId, patch)) id = store.prefs.get id := by
      rw [get_put, if_neg hkeeps]
    exact hput.trans h.held
  | prefReverted threadId previous =>
    refine ⟨?_, h.newer⟩
    cases previous with
    | some patch =>
      have hput : Prefs.get (store.prefs.put (threadId, patch)) id = store.prefs.get id := by
        rw [get_put, if_neg hkeeps]
      exact hput.trans h.held
    | none =>
      have hfilter : Prefs.get (store.prefs.filter fun entry => entry.1 ≠ threadId) id =
          store.prefs.get id := by
        apply get_filter
        intro patch _
        exact decide_eq_true (Ne.symm hkeeps)
      exact hfilter.trans h.held

theorem prefHolds_pruned {store : InboxListStore} (h : PrefHolds id pref store.catalog store.prefs) :
    PrefHolds id pref (pruned store).catalog (pruned store).prefs := by
  constructor
  · have hfilter : (prunePrefs store.catalog store.prefs).get id = store.prefs.get id := by
      apply get_filter
      intro patch hpatch
      obtain rfl : pref = patch := Option.some.inj (h.held.symm.trans hpatch)
      cases hheld : store.catalog.get? (some id) with
      | none => rfl
      | some entry => simp [h.newer entry hheld]
    exact hfilter.trans h.held
  · intro entry hentry
    exact h.newer entry (get?_pruned store hentry)

theorem prefHolds_run {facts : List InboxListFact} {store : InboxListStore}
    (h : PrefHolds id pref store.catalog store.prefs)
    (hkeeps : ∀ fact ∈ facts, KeepsPref id pref fact) :
    PrefHolds id pref (run step store facts).catalog (run step store facts).prefs := by
  induction facts generalizing store with
  | nil => exact h
  | cons fact facts ih =>
    rw [List.forall_mem_cons] at hkeeps
    exact ih (prefHolds_pruned (prefHolds_applyFact h hkeeps.1)) hkeeps.2

/-- The patch itself puts the preference over a thread that holds nothing as new. -/
theorem prefHolds_patched {store : InboxListStore}
    (h : ∀ entry, store.catalog.get? (some id) = some entry → isAsNewAsPref entry pref = false) :
    PrefHolds id pref (step store (.prefPatched id pref)).catalog
      (step store (.prefPatched id pref)).prefs := by
  apply @prefHolds_pruned id pref (applyFact store (.prefPatched id pref))
  refine ⟨?_, h⟩
  have hput : Prefs.get (store.prefs.put (id, pref)) id = some pref := by
    rw [get_put, if_pos rfl]
  exact hput

/-- What a face shows of a preference. -/
structure ShowsPref (face : InboxViewItem) (pref : InboxPrefPatch) : Prop where
  title : face.title = some pref.title
  pinned : face.pinned = some pref.pinned
  hidden : face.hidden = some true ↔ pref.hidden = true
  prefUpdatedAt : face.prefUpdatedAt = some (some pref.updatedAt)

theorem isNewerThanPref_of_not {item : InboxViewItem} (h : isAsNewAsPref item pref = false) :
    isNewerThanPref item pref = false := by
  unfold isAsNewAsPref at h
  unfold isNewerThanPref
  cases hupdated : present item.prefUpdatedAt.join with
  | none => rfl
  | some updatedAt =>
    rw [hupdated, Option.any_some, Bool.not_eq_false', decide_eq_true_eq] at h
    rw [Option.any_some, decide_eq_false_iff_not]
    exact lt_asymm h

theorem showsPref_viewItem {catalog : Catalog} {prefs : Prefs} (h : PrefHolds id pref catalog prefs)
    {entry : InboxViewItem} (hget : catalog.get? (some id) = some entry) :
    ShowsPref (viewItem prefs entry) pref := by
  have hkey := (Table.get?_eq_some.mp hget).2
  have hover : prefOver prefs entry = some pref := by
    unfold prefOver
    rw [hkey, Option.bind_some, h.held]
    rfl
  have hface : overlaid prefs entry = withPref entry pref := by
    rw [overlaid_eq, hover, Option.filter_some,
      isNewerThanPref_of_not (h.newer entry hget), Bool.not_false, if_pos rfl]
  rw [viewItem_eq prefs entry hkey, hface]
  exact ⟨rfl, rfl, by simp [withPref], rfl⟩

end Preferences

/-! ## Main result -/

/-- Rows on one list have one hidden flag. -/
theorem hidden_of_onCurrentList {listView : Option InboxListView} {row face : InboxViewItem}
    (hrow : onCurrentList listView row = true) (hface : onCurrentList listView face = true) :
    row.hidden = some true ↔ face.hidden = some true := by
  unfold onCurrentList at hrow hface
  split at hrow
  · next hhidden =>
    rw [if_pos hhidden] at hface
    exact iff_of_true (of_decide_eq_true hrow) (of_decide_eq_true hface)
  · next hshown =>
    rw [if_neg hshown] at hface
    exact iff_of_false (of_decide_eq_true hrow) (of_decide_eq_true hface)

/-- A row is of the copy that the server sent last for its thread, pinned and hidden as the face of
that copy under the preferences that are left. -/
structure ShowsCopy (prefs : Prefs) (row copy : InboxViewItem) : Prop where
  id : row.event.id = copy.event.id
  contentHash : row.event.contentHash = copy.event.contentHash
  pinned : row.pinned = (viewItem prefs copy).pinned
  hidden : row.hidden = some true ↔ (viewItem prefs copy).hidden = some true

theorem showsCopy_of_sameFace {prefs : Prefs} {row copy patch : InboxViewItem}
    (h : SameFace row (patchHead patch (viewItem prefs copy)))
    (hhidden : row.hidden = some true ↔
      (patchHead patch (viewItem prefs copy)).hidden = some true) : ShowsCopy prefs row copy where
  id := by rw [h.id, patchHead_event, viewItem_event]
  contentHash := by rw [h.contentHash, patchHead_event, viewItem_event]
  pinned := by rw [h.pinned, patchHead_pinned]
  hidden := by rw [hhidden, patchHead_hidden]

/-- In a run of single copies whose refreshes carry no unpinned copy of a thread that is held
pinned, and whose pages turn the list over no rows that are taken for their own, every row shows
what the server said last of its thread; and a local preference is shown until it is taken back or
away or a copy as new comes. -/
theorem list_shows_last_said {facts : List InboxListFact} (hcopy : ∀ fact ∈ facts, OneCopy fact)
    (hok : Along step ShowsSaid {} facts) {row : InboxViewItem} {id : String}
    (hrow : row ∈ (run step {} facts).previousItems) (hkey : threadKey row = some id) :
    (∀ copy, facts.foldl (lastSaid id) none = some copy →
      ShowsCopy (run step {} facts).prefs row copy) ∧
    ∀ before pref after, facts = before ++ .prefPatched id pref :: after →
      (∀ entry, (run step {} before).catalog.get? (some id) = some entry →
        isAsNewAsPref entry pref = false) →
      (∀ fact ∈ after, KeepsPref id pref fact) → ShowsPref row pref := by
  have hclean : Along step TurnsClean {} facts := along_mono step (fun _ _ h => h.1) {} facts hok
  have hheard : Along step UnpinsHeard {} facts := along_mono step (fun _ _ h => h.2) {} facts hok
  have honRow := run_onList hclean row hrow
  obtain ⟨other, face, hother, hface, hsame⟩ := (run_sound facts).rows row hrow
  obtain rfl : other = id := Option.some.inj (hother.symm.trans hkey)
  have hhidden := hidden_of_onCurrentList honRow hface.onList
  obtain ⟨entry, hget, rfl⟩ := hface.held
  constructor
  · intro copy hsaid
    have hholds : HoldsSaid other (run step {} facts).catalog _ :=
      holdsSaid_run (holdsSaid_none _) hcopy hheard
    obtain ⟨hcopyKey, hentry⟩ := hholds copy hsaid
    obtain ⟨patch, rfl⟩ := hentry entry hget
    rw [viewItem_patchHead _ copy hcopyKey] at hsame hhidden
    exact showsCopy_of_sameFace hsame hhidden
  · intro before pref after hsplit hfree hkeeps
    have hholds : PrefHolds other pref (run step {} facts).catalog (run step {} facts).prefs := by
      rw [hsplit, run_append, run_cons]
      exact prefHolds_run (prefHolds_patched hfree) hkeeps
    have hshows := showsPref_viewItem hholds hget
    exact ⟨hsame.title.trans hshows.title, hsame.pinned.trans hshows.pinned,
      hhidden.trans hshows.hidden, hsame.prefUpdatedAt.trans hshows.prefUpdatedAt⟩

/-! A thread that was pinned when the list was loaded, and a later message after it was unpinned. -/

def orderHead (id occurredAt : String) (pinned : Bool) : InboxViewItem where
  event := { id, source := "crm", externalId := "order-2:" ++ id, occurredAt }
  channelLabel := "CRM"
  kind := .user
  canSend := true
  threadId := some "crm:order-2"
  pinned := some pinned

def pageOf (pinned live : List InboxViewItem) : HeadsPage :=
  { pinned, live, activeWork := [], nextBefore := none, hasOlder := true, pageSize := some 2 }

/-- The thread is loaded, pinned or not, and touched by an unpinned copy. -/
def touchedAfter (pinned : Bool) : List InboxListFact :=
  [.liveLoaded .shown (if pinned then pageOf [orderHead "n1" "2026-08-22" true] []
      else pageOf [] [orderHead "n1" "2026-08-22" false]),
    .headsTouched [orderHead "n2" "2026-08-23" false] none none none]

theorem list_shows_last_said_touched :
    ShowsCopy (run step {} (touchedAfter false)).prefs (orderHead "n2" "2026-08-23" false)
      (orderHead "n2" "2026-08-23" false) :=
  (@list_shows_last_said (touchedAfter false) (by decide +kernel) (by decide +kernel)
    (orderHead "n2" "2026-08-23" false) "crm:order-2" (by decide +kernel) (by decide +kernel)).1 _
      (by decide +kernel)

/-- The unpinned copy is kept off: the list goes on to show the earlier message, pinned. -/
theorem unpinned_copy_not_shown :
    ¬∀ facts : List InboxListFact, (∀ fact ∈ facts, OneCopy fact) →
      ∀ row ∈ (run step {} facts).previousItems, ∀ id copy, threadKey row = some id →
        facts.foldl (lastSaid id) none = some copy →
        ShowsCopy (run step {} facts).prefs row copy := by
  intro hclaim
  have hshows := hclaim (touchedAfter true) (by decide +kernel)
    (orderHead "n1" "2026-08-22" true) (by decide +kernel) "crm:order-2"
    (orderHead "n2" "2026-08-23" false) (by decide +kernel) (by decide +kernel)
  exact absurd hshows.id (by decide)

end Regenic.Desktop
