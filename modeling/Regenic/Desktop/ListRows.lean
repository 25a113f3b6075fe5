import Regenic.Desktop.InboxListStore

/-!
The rows that a commit shows. Each is the face of the copy that is held for its thread, or a row
before of the same thread that is taken for the same; no thread has two.
-/

namespace Regenic.Desktop

open Lib

/-! ## Thread keys -/

theorem length_trimChars_le (cs : List Char) : (trimChars cs).length ≤ cs.length := by
  have hfirst := (List.dropWhile_sublist (p := isJsSpace) (l := cs)).length_le
  have hlast := (List.dropWhile_sublist (p := isJsSpace)
    (l := (cs.dropWhile isJsSpace).reverse)).length_le
  rw [List.length_reverse] at hlast
  unfold trimChars
  rw [List.length_reverse]
  exact Nat.le_trans hlast hfirst

/-- No trimmed text starts with the whole text and more. -/
theorem hasPrefix_jsTrim (text : String) : hasPrefix (text ++ ":") (jsTrim text) = false := by
  cases hstart : hasPrefix (text ++ ":") (jsTrim text) with
  | false => rfl
  | true =>
    have hlength := (List.isPrefixOf_iff_prefix.mp hstart).length_le
    have htrim := length_trimChars_le text.toList
    unfold jsTrim at hlength
    simp only [String.toList_append, String.toList_ofList, List.length_append] at hlength
    have hcolon : ":".toList.length = 1 := rfl
    omega

theorem chosenThread_jsTrim (derived : String) :
    jsTrim (chosenThread (jsTrim derived) derived) = jsTrim derived := by
  unfold chosenThread
  rw [hasPrefix_jsTrim, Bool.and_false, if_neg Bool.false_ne_true]
  split
  · rfl
  · exact jsTrim_jsTrim derived

/-- A row whose label is its thread is of that thread. -/
theorem chosenThread_again (raw derived : String) :
    jsTrim (chosenThread (jsTrim (jsTrim (chosenThread (jsTrim raw) derived))) derived) =
      jsTrim (chosenThread (jsTrim raw) derived) := by
  rw [jsTrim_jsTrim]
  have hcases : chosenThread (jsTrim raw) derived = derived ∨
      chosenThread (jsTrim raw) derived = jsTrim raw := by
    unfold chosenThread
    split
    · exact .inl rfl
    · split
      · exact .inl rfl
      · exact .inr rfl
  rcases hcases with hderived | hlabel
  · rw [hderived]
    exact chosenThread_jsTrim derived
  · rw [hlabel, jsTrim_jsTrim, hlabel, jsTrim_jsTrim]

theorem threadKey_some {item : InboxViewItem} {id : String} :
    threadKey item = some id ↔ jsTrim (threadIdOf item) = id ∧ id ≠ "" := by
  unfold threadKey inboxThreadKey
  rw [present_some, Option.some.injEq]

theorem threadKey_withThread {item : InboxViewItem} {id : String} (h : threadKey item = some id) :
    threadKey { item with threadId := some id } = some id := by
  obtain ⟨rfl, hne⟩ := threadKey_some.mp h
  exact threadKey_some.mpr ⟨chosenThread_again _ _, hne⟩

/-! ## Faces -/

section Faces

variable (prefs : Prefs) (item : InboxViewItem)

theorem overlaid_eq : overlaid prefs item =
    match (prefOver prefs item).filter fun pref => !isNewerThanPref item pref with
    | none => item
    | some pref => withPref item pref := by
  unfold overlaid
  cases prefOver prefs item with
  | none => rfl
  | some pref =>
    simp only [Option.filter_some]
    cases hnewer : isNewerThanPref item pref with
    | true => rfl
    | false =>
      simp only [Bool.not_false, Bool.true_and, if_true]
      split
      · rfl
      · next hsame =>
        -- A preference that the copy agrees with already changes nothing.
        simp only [Bool.or_eq_true, decide_eq_true_eq, not_or, not_not] at hsame
        obtain ⟨⟨⟨htitle, hpinned⟩, hhidden⟩, hupdated⟩ := hsame
        unfold withPref
        rw [← htitle, ← hpinned, ← hhidden, ← hupdated]

theorem overlaid_event : (overlaid prefs item).event = item.event := by
  rw [overlaid_eq]
  split
  · rfl
  · rfl

theorem overlaid_threadId : (overlaid prefs item).threadId = item.threadId := by
  rw [overlaid_eq]
  split
  · rfl
  · rfl

theorem threadKey_overlaid : threadKey (overlaid prefs item) = threadKey item := by
  unfold threadKey inboxThreadKey threadIdOf
  rw [overlaid_event, overlaid_threadId]

theorem viewItem_eq {id : String} (h : threadKey item = some id) :
    viewItem prefs item = { overlaid prefs item with threadId := some id } := by
  unfold viewItem
  rw [h]
  simp only
  split
  · next hsame => rw [← hsame]
  · rfl

theorem threadKey_viewItem : threadKey (viewItem prefs item) = threadKey item := by
  cases h : threadKey item with
  | none =>
    unfold viewItem
    rw [h]
    exact (threadKey_overlaid prefs item).trans h
  | some id =>
    rw [viewItem_eq prefs item h]
    exact threadKey_withThread ((threadKey_overlaid prefs item).trans h)

theorem viewItem_event : (viewItem prefs item).event = item.event := by
  have hevent := overlaid_event prefs item
  unfold viewItem
  generalize overlaid prefs item = face at hevent ⊢
  cases threadKey item with
  | none => exact hevent
  | some id =>
    simp only
    split
    · exact hevent
    · exact hevent

@[simp] theorem patchHead_event (patch : InboxViewItem) : (patchHead patch item).event = item.event :=
  rfl

@[simp] theorem patchHead_pinned (patch : InboxViewItem) :
    (patchHead patch item).pinned = item.pinned := rfl

@[simp] theorem patchHead_hidden (patch : InboxViewItem) :
    (patchHead patch item).hidden = item.hidden := rfl

theorem prefOver_patchHead (patch : InboxViewItem) :
    prefOver prefs (patchHead patch item) = prefOver prefs item := rfl

theorem overlaid_patchHead (patch : InboxViewItem) :
    overlaid prefs (patchHead patch item) = patchHead patch (overlaid prefs item) := by
  rw [overlaid_eq, overlaid_eq, prefOver_patchHead]
  have hnewer : (fun pref => !isNewerThanPref (patchHead patch item) pref) =
      fun pref => !isNewerThanPref item pref := rfl
  rw [hnewer]
  cases (prefOver prefs item).filter fun pref => !isNewerThanPref item pref with
  | none => rfl
  | some pref => rfl

/-- A reader's own patch lies apart from what a face shows of a preference. -/
theorem viewItem_patchHead {id : String} (h : threadKey item = some id) (patch : InboxViewItem) :
    viewItem prefs (patchHead patch item) = patchHead patch (viewItem prefs item) := by
  rw [viewItem_eq prefs item h, viewItem_eq prefs (patchHead patch item)
    ((threadKey_patchHead patch item).trans h), overlaid_patchHead]
  generalize overlaid prefs item = face
  rfl

end Faces

-- The comparisons of strings below these are never to be unfolded in unification.
attribute [local irreducible] threadKey overlaid viewItem

/-! ## The catalog -/

section Catalog

variable {catalog : Catalog} {items : List InboxViewItem} {id : String}

/-- The copy is kept off by a held one that is pinned. -/
def isProtected (catalog : Catalog) (item : InboxViewItem) : Bool :=
  (catalog.get? (threadKey item)).any (fun current => current.pinned = some true) &&
    item.pinned ≠ some true

theorem get?_upsertHead (item : InboxViewItem) : (upsertHead catalog item).get? (some id) =
    if threadKey item = some id ∧ isProtected catalog item = false then some item
    else catalog.get? (some id) := by
  unfold upsertHead isProtected
  split
  · next hnone => rw [if_neg (by rw [hnone]; rintro ⟨h, -⟩; cases h)]
  · split
    · next hprotected => rw [if_neg (by rw [hprotected]; rintro ⟨-, h⟩; cases h)]
    · next hfree =>
      rw [Bool.not_eq_true] at hfree
      rw [Table.get?_put, hfree]
      simp

theorem upsertHeads_cons (item : InboxViewItem) :
    upsertHeads catalog (item :: items) = upsertHeads (upsertHead catalog item) items := by
  unfold upsertHeads
  rw [List.foldl_cons]

theorem upsertHeads_append (first second : List InboxViewItem) :
    upsertHeads catalog (first ++ second) = upsertHeads (upsertHeads catalog first) second :=
  List.foldl_append

/-- A thread that no copy is of is held as before. -/
theorem get?_upsertHeads_of_absent (h : ∀ item ∈ items, threadKey item ≠ some id) :
    (upsertHeads catalog items).get? (some id) = catalog.get? (some id) := by
  induction items generalizing catalog with
  | nil => rfl
  | cons item items ih =>
    rw [List.forall_mem_cons] at h
    rw [upsertHeads_cons, ih h.2, get?_upsertHead, if_neg fun hboth => h.1 hboth.1]

/-- Whatever is held is held from before or came in. -/
theorem get?_upsertHeads_cases {entry : InboxViewItem}
    (h : (upsertHeads catalog items).get? (some id) = some entry) :
    catalog.get? (some id) = some entry ∨ entry ∈ items ∧ threadKey entry = some id := by
  induction items generalizing catalog with
  | nil => exact .inl h
  | cons item items ih =>
    rw [upsertHeads_cons] at h
    rcases ih h with hheld | ⟨hmem, hkey⟩
    · rw [get?_upsertHead] at hheld
      split at hheld
      · next hnew =>
        obtain rfl := Option.some.inj hheld
        exact .inr ⟨List.mem_cons_self, hnew.1⟩
      · exact .inl hheld
    · exact .inr ⟨List.mem_cons_of_mem _ hmem, hkey⟩

/-- A held thread stays held. -/
theorem isSome_upsertHeads (h : (catalog.get? (some id)).isSome) :
    ((upsertHeads catalog items).get? (some id)).isSome := by
  induction items generalizing catalog with
  | nil => exact h
  | cons item items ih =>
    rw [upsertHeads_cons]
    apply ih
    rw [get?_upsertHead]
    split
    · rfl
    · exact h

/-- Copies of one thread that are all the same, and not kept off, are held. -/
theorem get?_upsertHeads_of_copy {copy : InboxViewItem} (hcopy : copy ∈ items)
    (hkey : threadKey copy = some id)
    (hsame : ∀ item ∈ items, threadKey item = some id → item = copy)
    (hfree : isProtected catalog copy = false) :
    (upsertHeads catalog items).get? (some id) = some copy := by
  induction items generalizing catalog with
  | nil => cases hcopy
  | cons item items ih =>
    rw [List.forall_mem_cons] at hsame
    rw [upsertHeads_cons]
    by_cases hitem : threadKey item = some id
    · obtain rfl := hsame.1 hitem
      have hheld : (upsertHead catalog item).get? (some id) = some item := by
        rw [get?_upsertHead, if_pos ⟨hkey, hfree⟩]
      by_cases hlater : item ∈ items
      · apply ih hlater hsame.2
        unfold isProtected
        rw [hkey, hheld]
        simp
      · refine (get?_upsertHeads_of_absent ?_).trans hheld
        intro other hother hkeyOther
        exact hlater (hsame.2 other hother hkeyOther ▸ hother)
    · have hmem : copy ∈ items := by
        rcases List.mem_cons.mp hcopy with rfl | hmem
        · exact absurd hkey hitem
        · exact hmem
      apply ih hmem hsame.2
      unfold isProtected
      rw [hkey, get?_upsertHead, if_neg fun hboth => hitem hboth.1, ← hkey]
      exact hfree

end Catalog

/-! ## Rows of a commit -/

theorem mem_takeHeads {catalog : Catalog} {ids : List String} {item : InboxViewItem} :
    item ∈ takeHeads catalog ids ↔ ∃ id ∈ ids, catalog.get? (some id) = some item :=
  List.mem_filterMap

theorem mem_addHead {heads : Catalog} {item row : InboxViewItem}
    (h : row ∈ (addHead heads item).rows) :
    row ∈ heads.rows ∨ row = item ∧ (threadKey item).isSome := by
  unfold addHead at h
  split at h
  · exact .inl h
  · next hkey =>
    have hsome := Option.isSome_iff_ne_none.mpr hkey
    split at h
    · rcases Table.mem_put.mp h with rfl | ⟨hold, -⟩
      · exact .inr ⟨rfl, hsome⟩
      · exact .inl hold
    · split at h
      · rcases Table.mem_put.mp h with rfl | ⟨hold, -⟩
        · exact .inr ⟨rfl, hsome⟩
        · exact .inl hold
      · exact .inl h

theorem mem_uniqueHeads {items : List InboxViewItem} {row : InboxViewItem}
    (h : row ∈ uniqueHeads items) : row ∈ items ∧ (threadKey row).isSome := by
  have hfold : ∀ (items : List InboxViewItem) (heads : Catalog),
      row ∈ (items.foldl addHead heads).rows →
        row ∈ heads.rows ∨ row ∈ items ∧ (threadKey row).isSome := by
    intro items
    induction items with
    | nil =>
      intro heads hrow
      exact .inl hrow
    | cons item items ih =>
      intro heads hrow
      rcases ih _ hrow with hheads | ⟨hmem, hsome⟩
      · rcases mem_addHead hheads with hold | ⟨rfl, hsome⟩
        · exact .inl hold
        · exact .inr ⟨List.mem_cons_self, hsome⟩
      · exact .inr ⟨List.mem_cons_of_mem _ hmem, hsome⟩
  rcases hfold items ∅ h with hnone | hitem
  · cases hnone
  · exact hitem

theorem uniqueHeads_nodup (items : List InboxViewItem) :
    ((uniqueHeads items).map threadKey).Nodup :=
  (items.foldl addHead ∅).nodup

theorem isSome_addHead {heads : Catalog} {item : InboxViewItem} {id : String}
    (h : threadKey item = some id ∨ (heads.get? (some id)).isSome) :
    ((addHead heads item).get? (some id)).isSome := by
  have hput : ((heads.put item).get? (some id)).isSome := by
    rw [Table.get?_put]
    split
    · rfl
    · next hother => exact h.resolve_left hother
  unfold addHead
  split
  · next hnone =>
    rcases h with hkey | hheld
    · rw [hnone] at hkey
      cases hkey
    · exact hheld
  · split
    · exact hput
    · next current hcurrent =>
      split
      · exact hput
      · rcases h with hkey | hheld
        · rw [← hkey, hcurrent]
          rfl
        · exact hheld

theorem exists_uniqueHeads {items : List InboxViewItem} {item : InboxViewItem} {id : String}
    (hitem : item ∈ items) (hkey : threadKey item = some id) :
    ∃ row ∈ uniqueHeads items, threadKey row = some id := by
  have hfold : ∀ (items : List InboxViewItem) (heads : Catalog),
      item ∈ items ∨ (heads.get? (some id)).isSome →
        ((items.foldl addHead heads).get? (some id)).isSome := by
    intro items
    induction items with
    | nil =>
      intro heads h
      exact h.resolve_left List.not_mem_nil
    | cons other items ih =>
      intro heads h
      apply ih
      rcases h with hmem | hheld
      · rcases List.mem_cons.mp hmem with rfl | hlater
        · exact .inr (isSome_addHead (.inl hkey))
        · exact .inl hlater
      · exact .inr (isSome_addHead (.inr hheld))
  obtain ⟨row, hrow⟩ := Option.isSome_iff_exists.mp (hfold items ∅ (.inl hitem))
  exact ⟨row, Table.get?_eq_some.mp hrow⟩

/-- The ids that a store lists. -/
def InboxListStore.listed (store : InboxListStore) : List String :=
  store.historyIds ++ store.pinnedIds ++ store.liveIds ++ store.workIds

/-- A row that is the face of the copy held for a thread that is listed. -/
structure IsFaceOf (store : InboxListStore) (id : String) (row : InboxViewItem) : Prop where
  key : threadKey row = some id
  listed : id ∈ store.listed
  held : ∃ entry, store.catalog.get? (some id) = some entry ∧ row = viewItem store.prefs entry
  onList : onCurrentList store.listView row = true

theorem mem_nextItems {store : InboxListStore} {row : InboxViewItem} (h : row ∈ nextItems store) :
    ∃ id, IsFaceOf store id row := by
  obtain ⟨hrow, -⟩ := mem_uniqueHeads h
  obtain ⟨hface, honList⟩ := List.mem_filter.mp hrow
  obtain ⟨entry, hentry, rfl⟩ := List.mem_map.mp hface
  have hlisted : ∃ id ∈ store.listed, store.catalog.get? (some id) = some entry := by
    unfold InboxListStore.listed
    simp only [List.mem_append, mem_takeHeads, List.mem_filter] at hentry ⊢
    rcases hentry with ((⟨id, hid, hget⟩ | ⟨id, hid, hget⟩) | ⟨id, hid, hget⟩) | ⟨id, hid, hget⟩
    · exact ⟨id, .inl (.inl (.inl hid)), hget⟩
    · exact ⟨id, .inl (.inl (.inr hid)), hget⟩
    · exact ⟨id, .inl (.inr hid), hget⟩
    · exact ⟨id, .inr hid.1, hget⟩
  obtain ⟨id, hid, hget⟩ := hlisted
  have hkey := (threadKey_viewItem store.prefs entry).trans (Table.get?_eq_some.mp hget).2
  exact ⟨id, hkey, hid, ⟨entry, hget, rfl⟩, honList⟩

/-- Every listed thread with a face on the list has a row. -/
theorem exists_nextItems {store : InboxListStore} {id : String} {entry : InboxViewItem}
    (hlisted : id ∈ store.listed) (hget : store.catalog.get? (some id) = some entry)
    (honList : onCurrentList store.listView (viewItem store.prefs entry) = true) :
    ∃ row ∈ nextItems store, threadKey row = some id := by
  have hkey := (threadKey_viewItem store.prefs entry).trans (Table.get?_eq_some.mp hget).2
  refine exists_uniqueHeads (List.mem_filter.mpr ⟨List.mem_map_of_mem ?_, honList⟩) hkey
  unfold InboxListStore.listed at hlisted
  simp only [List.mem_append, mem_takeHeads, List.mem_filter] at hlisted ⊢
  by_cases hpinned : id ∈ store.pinnedIds
  · exact .inl (.inl (.inr ⟨id, hpinned, hget⟩))
  by_cases hlive : id ∈ store.liveIds
  · exact .inl (.inr ⟨id, hlive, hget⟩)
  rcases hlisted with ((hid | hid) | hid) | hid
  · exact .inl (.inl (.inl ⟨id, hid, hget⟩))
  · exact absurd hid hpinned
  · exact absurd hid hlive
  · exact .inr ⟨id, ⟨hid, by simp [hpinned, hlive]⟩, hget⟩

/-- What a row that is shown again has of the row that came in. -/
structure SameFace (row face : InboxViewItem) : Prop where
  id : row.event.id = face.event.id
  contentHash : row.event.contentHash = face.event.contentHash
  title : row.title = face.title
  pinned : row.pinned = face.pinned
  prefUpdatedAt : row.prefUpdatedAt = face.prefUpdatedAt
  threadId : row.threadId = face.threadId

theorem SameFace.refl (row : InboxViewItem) : SameFace row row := ⟨rfl, rfl, rfl, rfl, rfl, rfl⟩

theorem sameFace_of_sameInboxProps {row face : InboxViewItem} (h : sameInboxProps row face = true) :
    SameFace row face := by
  simp only [sameInboxProps, Bool.and_eq_true, decide_eq_true_eq] at h
  obtain ⟨⟨⟨⟨⟨⟨hid, hhash⟩, -⟩, hfields⟩, -⟩, -⟩, -⟩ := h
  obtain ⟨⟨⟨⟨⟨⟨⟨⟨⟨⟨⟨⟨⟨⟨⟨⟨⟨⟨⟨htitle, hpinned⟩, hpref⟩, -⟩, -⟩, -⟩, -⟩, -⟩, -⟩, hthread⟩, -⟩, -⟩, -⟩,
    -⟩, -⟩, -⟩, -⟩, -⟩, -⟩, -⟩ := hfields
  exact ⟨hid, hhash, htitle, hpinned, hpref, hthread⟩

/-- Every row is labelled with its own thread. -/
def Labelled (rows : List InboxViewItem) : Prop :=
  ∀ row ∈ rows, ∃ id, threadKey row = some id ∧ row.threadId = some id

theorem labelled_nextItems (store : InboxListStore) : Labelled (nextItems store) := by
  intro row hrow
  obtain ⟨id, hface⟩ := mem_nextItems hrow
  obtain ⟨entry, hget, rfl⟩ := hface.held
  refine ⟨id, hface.key, ?_⟩
  rw [viewItem_eq store.prefs entry (Table.get?_eq_some.mp hget).2]

theorem exists_of_forall₂ {α β : Type} {relates : α → β → Prop} {rows : List α} {others : List β}
    (h : List.Forall₂ relates rows others) {row : α} (hrow : row ∈ rows) :
    ∃ other ∈ others, relates row other := by
  induction h with
  | nil => cases hrow
  | cons hfirst _ ih =>
    rcases List.mem_cons.mp hrow with rfl | hrest
    · exact ⟨_, List.mem_cons_self, hfirst⟩
    · obtain ⟨other, hother, hrelates⟩ := ih hrest
      exact ⟨other, List.mem_cons_of_mem _ hother, hrelates⟩

section Commit

variable {store : InboxListStore}

/-- Row by row, a commit shows the faces of what it holds. -/
theorem commit_shown (store : InboxListStore) :
    List.Forall₂ (ShownFor inboxItemKey sameInboxProps store.previousItems)
      (commit store).1.previousItems (nextItems (pruned store)) :=
  reuseKeyedList_shown store.previousItems (nextItems (pruned store))

theorem sameFace_of_shownFor {previous : List InboxViewItem} (hprevious : Labelled previous)
    {row face : InboxViewItem} {id : String} (hkey : threadKey face = some id)
    (hlabel : face.threadId = some id)
    (h : ShownFor inboxItemKey sameInboxProps previous row face) :
    SameFace row face ∧ threadKey row = threadKey face := by
  rcases h with rfl | ⟨hmem, -, hsame⟩
  · exact ⟨SameFace.refl row, rfl⟩
  · have hface := sameFace_of_sameInboxProps hsame
    obtain ⟨other, hother, hthread⟩ := hprevious row hmem
    -- Both rows are labelled with their threads, and labels are compared.
    have heq : some other = some id := hthread.symm.trans (hface.threadId.trans hlabel)
    exact ⟨hface, hother.trans (heq.trans hkey.symm)⟩

theorem commit_keys (hprevious : Labelled store.previousItems) :
    (commit store).1.previousItems.map threadKey = (nextItems (pruned store)).map threadKey := by
  have hlabelled := labelled_nextItems (pruned store)
  have hshown := commit_shown store
  generalize (commit store).1.previousItems = rows at hshown
  generalize nextItems (pruned store) = faces at hshown hlabelled
  induction hshown with
  | nil => rfl
  | cons hrow _ ih =>
    obtain ⟨id, hkey, hlabel⟩ := hlabelled _ List.mem_cons_self
    rw [List.map_cons, List.map_cons, (sameFace_of_shownFor hprevious hkey hlabel hrow).2,
      ih fun face hface => hlabelled face (List.mem_cons_of_mem _ hface)]

/-- A row of a commit with the face that it is shown for. -/
structure ShownRow (store : InboxListStore) (previous : List InboxViewItem) (id : String)
    (row face : InboxViewItem) : Prop where
  isFace : IsFaceOf store id face
  same : SameFace row face
  shown : row = face ∨ row ∈ previous ∧ sameInboxProps row face = true

theorem commit_row (hprevious : Labelled store.previousItems) {row : InboxViewItem}
    (hrow : row ∈ (commit store).1.previousItems) :
    ∃ id face, threadKey row = some id ∧
      ShownRow (pruned store) store.previousItems id row face := by
  obtain ⟨face, hmem, hfor⟩ := exists_of_forall₂ (commit_shown store) hrow
  obtain ⟨id, hface⟩ := mem_nextItems hmem
  obtain ⟨other, hother, hlabel⟩ := labelled_nextItems (pruned store) face hmem
  obtain ⟨hsame, hkey⟩ := sameFace_of_shownFor hprevious hother hlabel hfor
  refine ⟨id, face, hkey.trans hface.key, hface, hsame, ?_⟩
  rcases hfor with rfl | ⟨hold, -, hprops⟩
  · exact .inl rfl
  · exact .inr ⟨hold, hprops⟩

theorem commit_labelled (hprevious : Labelled store.previousItems) :
    Labelled (commit store).1.previousItems := by
  intro row hrow
  obtain ⟨id, face, hkey, hshown⟩ := commit_row hprevious hrow
  obtain ⟨entry, hget, rfl⟩ := hshown.isFace.held
  refine ⟨id, hkey, hshown.same.threadId.trans ?_⟩
  rw [viewItem_eq _ entry (Table.get?_eq_some.mp hget).2]

end Commit

end Regenic.Desktop
