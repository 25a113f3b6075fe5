import Mathlib.Data.Prod.Lex
import Regenic.Desktop.LastSaid
import Regenic.Lib.Ranked

/-!
Which threads a refresh keeps. Older rows stay in the list unless they come among the newest copies
that count for a page; what counts is asked of held copies and local preferences, so a page whose
rows do not all count draws older rows into its window and loses them.
-/

namespace Regenic.Desktop

open Lib

attribute [local irreducible] threadKey overlaid viewItem

/-! ## The order of heads -/

/-- A row is nowhere after another: it is the newer one, or of the same event. -/
def RanksFirst (left right : InboxViewItem) : Prop := compareHeadRecencyDesc left right ≤ 0

instance (left right : InboxViewItem) : Decidable (RanksFirst left right) :=
  inferInstanceAs (Decidable (compareHeadRecencyDesc left right ≤ 0))

/-- What heads are ordered by, as one value. -/
def headOrder (event : InboxEvent) : Lex (List ℕ × List ℕ) :=
  toLex (codeUnits event.occurredAt, codeUnits event.id)

theorem isBeforeHead_iff (event other : InboxEvent) :
    isBeforeHead event other.occurredAt other.id = true ↔ headOrder event < headOrder other := by
  unfold isBeforeHead headOrder
  rw [Prod.Lex.toLex_lt_toLex, Bool.or_eq_true, Bool.and_eq_true, decide_eq_true_eq,
    decide_eq_true_eq, decide_eq_true_eq, codeUnits_injective.eq_iff]

theorem ranksFirst_iff (left right : InboxViewItem) :
    RanksFirst left right ↔ headOrder right.event ≤ headOrder left.event := by
  rw [← not_lt, ← isBeforeHead_iff]
  unfold RanksFirst compareHeadRecencyDesc
  split
  · next hbefore => simp [hbefore]
  · next hbefore =>
    split
    · simp [hbefore]
    · simp [hbefore]

theorem ranksFirst_trans (first second third : InboxViewItem) (h : RanksFirst first second)
    (h' : RanksFirst second third) : RanksFirst first third := by
  rw [ranksFirst_iff] at h h' ⊢
  exact le_trans h' h

theorem ranksFirst_total (left right : InboxViewItem) :
    RanksFirst left right ∨ RanksFirst right left := by
  rw [ranksFirst_iff, ranksFirst_iff]
  exact le_total _ _

/-! ## What a refresh keeps -/

section Refresh

variable (store : InboxListStore) (page : HeadsPage)

/-- Some copy is of the thread. -/
def carries (copies : List InboxViewItem) (id : String) : Bool :=
  copies.any fun copy => threadKey copy = some id

/-- What is held once a refresh is merged. -/
def merged : Catalog := upsertHeads store.catalog page.items

/-- A thread that the page has for its work alone. -/
def onlyWork (face : InboxViewItem) (id : String) : Bool :=
  onCurrentList store.listView face && carries page.activeWork id && !carries page.pinned id &&
    !carries page.live id

/-- A held copy that counts among the newest: it is on the list as it was sent, its face is not
pinned, and it is more than a work row. -/
def counts (item : InboxViewItem) : Bool :=
  onCurrentList store.listView item && (viewItem store.prefs item).pinned ≠ some true &&
    (threadKey item).any fun id => !onlyWork store page (viewItem store.prefs item) id

/-- The condition on a thread: the page carries it, or it was a live or older row, and where its copy
counts at least as many that count as a page has are placed before it. -/
def Kept (id : String) (entry : InboxViewItem) : Prop :=
  onCurrentList store.listView (viewItem store.prefs entry) = true ∧
    (carries page.items id = true ∨
      (id ∈ store.historyIds ∨ id ∈ store.liveIds) ∧
        (viewItem store.prefs entry).pinned ≠ some true ∧
        (counts store page entry = true →
          page.pageSize.getD store.pageSize ≤
            placesBefore RanksFirst entry ((merged store page).rows.filter (counts store page))))

variable {store page}

theorem mem_idsOf {items : List InboxViewItem} {id : String} :
    id ∈ idsOf items ↔ carries items id = true := by
  unfold idsOf carries
  rw [mem_keepFirst_id, List.mem_filterMap, List.any_eq_true]
  simp only [decide_eq_true_eq]

theorem carries_items (id : String) : carries page.items id = true ↔
    carries page.pinned id = true ∨ carries page.live id = true ∨
      carries page.activeWork id = true := by
  unfold carries HeadsPage.items
  rw [List.any_append, List.any_append, Bool.or_eq_true, Bool.or_eq_true, or_assoc]

theorem isVisible_iff {catalog : Catalog} {listView : Option InboxListView} {prefs : Prefs}
    {id : String} {entry : InboxViewItem} (hget : catalog.get? (some id) = some entry) :
    isVisible catalog listView prefs id = onCurrentList listView (viewItem prefs entry) := by
  unfold isVisible
  rw [hget]
  rfl

/-- The loop over the rows before keeps each that passes its checks. -/
theorem mem_keptHistory {catalog : Catalog} {listView : Option InboxListView} {prefs : Prefs}
    {occupied window keep ids : List String} {id : String} {entry : InboxViewItem}
    (hget : catalog.get? (some id) = some entry) :
    id ∈ keptHistory catalog listView prefs occupied window keep ids ↔
      id ∈ keep ∨ id ∈ ids ∧ id ∉ occupied ∧
        onCurrentList listView (viewItem prefs entry) = true ∧
        (viewItem prefs entry).pinned ≠ some true ∧ id ∉ window := by
  induction ids generalizing keep with
  | nil =>
    unfold keptHistory
    simp
  | cons other rest ih =>
    unfold keptHistory
    rw [ih]
    by_cases hsame : other = id
    · subst hsame
      rw [hget]
      simp only [Option.any_some, Bool.and_eq_true, decide_eq_true_eq, List.mem_cons, true_or,
        true_and]
      split
      · next hstays =>
        obtain ⟨⟨hfree, -⟩, ⟨honList, hpinned⟩, hwindow⟩ := hstays
        exact iff_of_true (.inl (List.mem_append_right _ List.mem_cons_self))
          (.inr ⟨hfree, honList, hpinned, hwindow⟩)
      · next hstays =>
        constructor
        · rintro (hkeep | ⟨-, hall⟩)
          · exact .inl hkeep
          · exact .inr hall
        · rintro (hkeep | ⟨hfree, honList, hpinned, hwindow⟩)
          · exact .inl hkeep
          · by_cases hkeep : other ∈ keep
            · exact .inl hkeep
            · exact absurd ⟨⟨hfree, hkeep⟩, ⟨honList, hpinned⟩, hwindow⟩ hstays
    · have hkeep : ∀ stays : Bool,
          id ∈ (if stays then keep ++ [other] else keep) ↔ id ∈ keep := by
        intro stays
        cases stays with
        | false => exact Iff.rfl
        | true =>
          rw [if_pos rfl, List.mem_append, List.mem_singleton]
          simp [Ne.symm hsame]
      rw [hkeep, List.mem_cons]
      simp [Ne.symm hsame]

/-! ### The lists of a refresh -/

variable (store page) in
/-- What a refresh makes of a store before the commit. -/
def refreshed : InboxListStore := applyLive store none page false

theorem catalog_refreshed : (refreshed store page).catalog = merged store page :=
  catalog_applyLive store none page false

theorem mem_visibleIds {ids : List String} {id : String} {entry : InboxViewItem}
    (hget : (merged store page).get? (some id) = some entry) :
    id ∈ visibleIds (merged store page) store.listView store.prefs ids ↔
      id ∈ ids ∧ onCurrentList store.listView (viewItem store.prefs entry) = true := by
  unfold visibleIds
  rw [List.mem_filter, isVisible_iff hget]

theorem pinnedIds_refreshed : (refreshed store page).pinnedIds =
    visibleIds (merged store page) store.listView store.prefs (idsOf page.pinned) := by
  rw [← catalog_refreshed]
  rfl

theorem liveIds_refreshed : (refreshed store page).liveIds =
    visibleIds (merged store page) store.listView store.prefs
      ((idsOf page.live).filter fun id => id ∉ (refreshed store page).pinnedIds) := by
  rw [← catalog_refreshed]
  rfl

theorem workIds_refreshed : (refreshed store page).workIds =
    visibleIds (merged store page) store.listView store.prefs
      ((idsOf page.activeWork).filter fun id => id ∉ (refreshed store page).pinnedIds &&
        id ∉ (refreshed store page).liveIds) := by
  rw [← catalog_refreshed]
  rfl

variable (store page) in
/-- The window of a refresh. -/
def refreshedWindow : List String :=
  liveWindow (merged store page) store.listView store.prefs (refreshed store page).workIds
    (page.pageSize.getD store.pageSize)

theorem historyIds_refreshed (h : page.hasOlder = true) : (refreshed store page).historyIds =
    keptHistory (merged store page) store.listView store.prefs
      ((refreshed store page).pinnedIds ++ (refreshed store page).liveIds ++
        (refreshed store page).workIds)
      (refreshedWindow store page) [] (store.historyIds ++ store.liveIds) := by
  unfold refreshedWindow
  rw [← catalog_refreshed]
  unfold refreshed applyLive
  rw [h]
  rfl

section Thread

variable {id : String} {entry : InboxViewItem}
  (hget : (merged store page).get? (some id) = some entry)

include hget

theorem mem_pinnedIds : id ∈ (refreshed store page).pinnedIds ↔
    carries page.pinned id = true ∧
      onCurrentList store.listView (viewItem store.prefs entry) = true := by
  rw [pinnedIds_refreshed, mem_visibleIds hget, mem_idsOf]

theorem mem_liveIds : id ∈ (refreshed store page).liveIds ↔
    (carries page.live id = true ∧ ¬carries page.pinned id = true) ∧
      onCurrentList store.listView (viewItem store.prefs entry) = true := by
  rw [liveIds_refreshed, mem_visibleIds hget, List.mem_filter, mem_idsOf, decide_eq_true_eq,
    mem_pinnedIds hget]
  tauto

theorem mem_workIds : id ∈ (refreshed store page).workIds ↔
    onlyWork store page (viewItem store.prefs entry) id = true := by
  rw [workIds_refreshed, mem_visibleIds hget, List.mem_filter, mem_idsOf]
  simp only [Bool.and_eq_true, decide_eq_true_eq, mem_pinnedIds hget, mem_liveIds hget]
  unfold onlyWork
  simp only [Bool.and_eq_true, Bool.not_eq_true']
  cases carries page.pinned id with
  | true => simp
  | false =>
    cases carries page.live id with
    | true => simp
    | false => simp [and_comm]

/-- Every thread of a page whose face is on the list is in one of the three lists. -/
theorem mem_occupied :
    (id ∈ (refreshed store page).pinnedIds ∨ id ∈ (refreshed store page).liveIds ∨
      id ∈ (refreshed store page).workIds) ↔
    carries page.items id = true ∧
      onCurrentList store.listView (viewItem store.prefs entry) = true := by
  rw [mem_pinnedIds hget, mem_liveIds hget, mem_workIds hget, carries_items]
  unfold onlyWork
  simp only [Bool.and_eq_true, Bool.not_eq_true']
  cases onCurrentList store.listView (viewItem store.prefs entry) with
  | false => simp
  | true =>
    cases carries page.pinned id with
    | true => simp
    | false =>
      cases carries page.live id with
      | true => simp
      | false => simp

end Thread

theorem counts_eq {item : InboxViewItem} (h : item ∈ (merged store page).rows) :
    ((threadKey item).any (fun id => id ∉ (refreshed store page).workIds) &&
        (onCurrentList store.listView item && (viewItem store.prefs item).pinned ≠ some true)) =
      counts store page item := by
  unfold counts
  rw [Bool.and_comm]
  congr 1
  cases hkey : threadKey item with
  | none => rfl
  | some id =>
    have hget : (merged store page).get? (some id) = some item :=
      Table.get?_eq_some.mpr ⟨h, hkey⟩
    rw [Option.any_some, Option.any_some]
    cases honly : onlyWork store page (viewItem store.prefs item) id with
    | true =>
      rw [decide_eq_false (not_not.mpr ((mem_workIds hget).mpr honly))]
      rfl
    | false =>
      have hout : id ∉ (refreshed store page).workIds := by
        rw [mem_workIds hget, honly]
        exact Bool.false_ne_true
      rw [decide_eq_true hout]
      rfl

/-- A thread is in the window where its copy counts and fewer are placed before it than a page has. -/
theorem mem_refreshedWindow {id : String} {entry : InboxViewItem}
    (hget : (merged store page).get? (some id) = some entry) :
    id ∈ refreshedWindow store page ↔ counts store page entry = true ∧
      placesBefore RanksFirst entry ((merged store page).rows.filter (counts store page)) <
        page.pageSize.getD store.pageSize := by
  obtain ⟨hentry, hkey⟩ := Table.get?_eq_some.mp hget
  have hrows : (merged store page).rows.Nodup := List.Nodup.of_map _ (merged store page).nodup
  unfold refreshedWindow liveWindow rankUnpinnedNewest
  rw [List.filter_filter, List.filter_congr fun item hitem => counts_eq hitem, mem_idsOf]
  unfold carries
  rw [List.any_eq_true]
  constructor
  · rintro ⟨other, hother, hsame⟩
    have hsorted : other ∈ (((merged store page).rows.filter (counts store page)).insertionSort
        RanksFirst).take (page.pageSize.getD store.pageSize) := hother
    obtain ⟨hmem, hcounts⟩ :=
      List.mem_filter.mp ((List.mem_insertionSort RanksFirst).mp (List.mem_of_mem_take hsorted))
    obtain rfl : other = entry := List.inj_on_of_nodup_map (merged store page).nodup hmem hentry
      ((of_decide_eq_true hsame).trans hkey.symm)
    exact ⟨hcounts, (mem_take_insertionSort ranksFirst_trans ranksFirst_total (hrows.filter _)
      (List.mem_filter.mpr ⟨hentry, hcounts⟩) _).mp hsorted⟩
  · rintro ⟨hcounts, hplaces⟩
    refine ⟨entry, ?_, decide_eq_true hkey⟩
    exact (mem_take_insertionSort ranksFirst_trans ranksFirst_total (hrows.filter _)
      (List.mem_filter.mpr ⟨hentry, hcounts⟩) _).mpr hplaces

/-- The threads that a refresh lists. -/
theorem mem_listed_refreshed (h : page.hasOlder = true) {id : String} {entry : InboxViewItem}
    (hget : (merged store page).get? (some id) = some entry) :
    id ∈ (refreshed store page).listed ↔ Kept store page id entry := by
  have hoccupied := mem_occupied hget
  have hwindow := mem_refreshedWindow hget
  unfold InboxListStore.listed Kept
  rw [historyIds_refreshed h]
  simp only [List.mem_append, mem_keptHistory hget, List.not_mem_nil, false_or]
  rw [hwindow]
  cases honList : onCurrentList store.listView (viewItem store.prefs entry) with
  | false =>
    rw [honList] at hoccupied
    simp only [Bool.false_eq_true, and_false, false_and, iff_false] at hoccupied ⊢
    tauto
  | true =>
    rw [honList] at hoccupied
    by_cases hcarries : carries page.items id = true
    · have hin := hoccupied.mpr ⟨hcarries, rfl⟩
      refine iff_of_true ?_ ⟨rfl, .inl hcarries⟩
      tauto
    · have hout : ¬(id ∈ (refreshed store page).pinnedIds ∨ id ∈ (refreshed store page).liveIds ∨
          id ∈ (refreshed store page).workIds) := fun hin => hcarries (hoccupied.mp hin).1
      rw [not_or, not_or] at hout
      constructor
      · rintro (((⟨hbefore, -, -, hpinned, hplaces⟩ | hin) | hin) | hin)
        · refine ⟨rfl, .inr ⟨hbefore, hpinned, ?_⟩⟩
          intro hcounts
          exact Nat.le_of_not_lt fun hless => hplaces ⟨hcounts, hless⟩
        · exact absurd hin hout.1
        · exact absurd hin hout.2.1
        · exact absurd hin hout.2.2
      · rintro ⟨-, hin | ⟨hbefore, hpinned, hplaces⟩⟩
        · exact absurd hin hcarries
        · have hfree : ¬((id ∈ (refreshed store page).pinnedIds ∨
              id ∈ (refreshed store page).liveIds) ∨ id ∈ (refreshed store page).workIds) := by
            rintro ((hin | hin) | hin)
            · exact hout.1 hin
            · exact hout.2.1 hin
            · exact hout.2.2 hin
          have hwindow : ¬(counts store page entry = true ∧
              placesBefore RanksFirst entry ((merged store page).rows.filter (counts store page)) <
                page.pageSize.getD store.pageSize) := by
            rintro ⟨hcounts, hless⟩
            exact absurd (hplaces hcounts) (Nat.not_le_of_lt hless)
          exact .inl (.inl (.inl ⟨hbefore, hfree, rfl, hpinned, hwindow⟩))

/-- What a commit shows of a refresh. -/
theorem mem_rows_refreshed (hsound : store.Sound) (h : page.hasOlder = true) {id : String}
    {entry : InboxViewItem} (hget : (merged store page).get? (some id) = some entry)
    (honList : onCurrentList store.listView
      (viewItem (step store (.liveChanged page)).prefs entry) = true) :
    some id ∈ (step store (.liveChanged page)).previousItems.map threadKey ↔
      Kept store page id entry := by
  have hprevious : Labelled (refreshed store page).previousItems := hsound.labelled
  have hkeys : (step store (.liveChanged page)).previousItems.map threadKey =
      (nextItems (pruned (refreshed store page))).map threadKey := commit_keys hprevious
  rw [← mem_listed_refreshed h hget, hkeys, List.mem_map]
  constructor
  · rintro ⟨row, hrow, hkey⟩
    obtain ⟨other, hface⟩ := mem_nextItems hrow
    obtain rfl : other = id := Option.some.inj (hface.key.symm.trans hkey)
    exact hface.listed
  · intro hlisted
    rw [← catalog_refreshed] at hget
    exact exists_nextItems (listed_pruned (refreshed store page) ▸ hlisted)
      (get?_pruned_of_listed _ hlisted hget) honList

/-! ### Full pages -/

variable (store page) in
/-- A live page is full: as many threads as a page has, newest first, the same copies elsewhere. -/
structure FullPage : Prop where
  full : page.pageSize.getD store.pageSize ≤ (idsOf page.live).length
  sorted : page.live.Pairwise RanksFirst
  agree : ∀ copy ∈ page.pinned ++ page.activeWork, ∀ live ∈ page.live,
    threadKey live ≠ none → threadKey copy = threadKey live → copy = live

variable (store page) in
/-- Every live copy counts: it is on the list as sent, no local preference pins it, and no pinned copy
that is held keeps it off. -/
def AllCount : Prop :=
  ∀ copy ∈ page.live, onCurrentList store.listView copy = true ∧
    (viewItem store.prefs copy).pinned ≠ some true ∧ isProtected store.catalog copy = false

/-- A thread of a copy that is not kept off holds a copy that came in. -/
theorem mem_of_get?_upsertHeads {catalog : Catalog} {items : List InboxViewItem} {id : String}
    {copy entry : InboxViewItem} (hcopy : copy ∈ items) (hkey : threadKey copy = some id)
    (hfree : isProtected catalog copy = false)
    (hget : (upsertHeads catalog items).get? (some id) = some entry) : entry ∈ items := by
  induction items generalizing catalog with
  | nil => cases hcopy
  | cons item items ih =>
    rw [upsertHeads_cons] at hget
    by_cases hitem : threadKey item = some id ∧ isProtected catalog item = false
    · rcases get?_upsertHeads_cases hget with hheld | ⟨hmem, -⟩
      · rw [get?_upsertHead, if_pos hitem] at hheld
        obtain rfl := Option.some.inj hheld
        exact List.mem_cons_self
      · exact List.mem_cons_of_mem _ hmem
    · have hmem : copy ∈ items := by
        rcases List.mem_cons.mp hcopy with rfl | hmem
        · exact absurd ⟨hkey, hfree⟩ hitem
        · exact hmem
      have hstill : isProtected (upsertHead catalog item) copy = false := by
        unfold isProtected
        rw [hkey, get?_upsertHead, if_neg hitem, ← hkey]
        exact hfree
      exact List.mem_cons_of_mem _ (ih hmem hstill hget)

/-- A thread of a copy that is not kept off is held. -/
theorem isSome_of_copy {catalog : Catalog} {items : List InboxViewItem} {id : String}
    {copy : InboxViewItem} (hcopy : copy ∈ items) (hkey : threadKey copy = some id) :
    ((upsertHeads catalog items).get? (some id)).isSome := by
  induction items generalizing catalog with
  | nil => cases hcopy
  | cons item items ih =>
    rw [upsertHeads_cons]
    rcases List.mem_cons.mp hcopy with rfl | hmem
    · apply isSome_upsertHeads
      rw [get?_upsertHead]
      split
      · rfl
      · next hprotected =>
        -- What keeps the copy off is held.
        have hkept : isProtected catalog copy = true := by simpa [hkey] using hprotected
        unfold isProtected at hkept
        rw [hkey] at hkept
        cases hheld : catalog.get? (some id) with
        | none =>
          rw [hheld] at hkept
          cases hkept
        | some entry => rfl
    · exact ih hmem

/-- A thread of a full page whose copies all count holds one of them. -/
theorem merged_live (hfull : FullPage store page) (hall : AllCount store page) {id : String}
    (hid : id ∈ idsOf page.live) :
    ∃ copy ∈ page.live, (merged store page).get? (some id) = some copy := by
  have hcarries := mem_idsOf.mp hid
  unfold carries at hcarries
  rw [List.any_eq_true] at hcarries
  obtain ⟨live, hlive, hkey⟩ := hcarries
  have hkey := of_decide_eq_true hkey
  have hitem : live ∈ page.items :=
    List.mem_append_left _ (List.mem_append_right _ hlive)
  obtain ⟨entry, hget⟩ := Option.isSome_iff_exists.mp
    (@isSome_of_copy store.catalog page.items id live hitem hkey)
  refine ⟨entry, ?_, hget⟩
  have hmem := mem_of_get?_upsertHeads hitem hkey (hall live hlive).2.2 hget
  have hentry := (Table.get?_eq_some.mp hget).2
  have hsame : entry ∈ page.pinned ++ page.activeWork → entry ∈ page.live := by
    intro hother
    have heq := hfull.agree entry hother live hlive (by rw [hkey]; exact Option.some_ne_none id)
      (hentry.trans hkey.symm)
    exact heq ▸ hlive
  unfold HeadsPage.items at hmem
  rw [List.mem_append, List.mem_append] at hmem
  rcases hmem with (hpinned | hlive) | hwork
  · exact hsame (List.mem_append_left _ hpinned)
  · exact hlive
  · exact hsame (List.mem_append_right _ hwork)

/-- A copy is strictly older than every item of a page. -/
def OlderThan (entry : InboxViewItem) (copies : List InboxViewItem) : Prop :=
  ∀ copy ∈ copies, isBeforeHead entry.event copy.event.occurredAt copy.event.id = true

/-- A full page whose copies all count fills the window, so whatever is older is kept. -/
theorem kept_of_fullPage (hfull : FullPage store page) (hall : AllCount store page) {id : String}
    {entry : InboxViewItem} (holder : OlderThan entry page.live)
    (honList : onCurrentList store.listView (viewItem store.prefs entry) = true)
    (hpinned : (viewItem store.prefs entry).pinned ≠ some true)
    (hbefore : id ∈ store.historyIds ∨ id ∈ store.liveIds) : Kept store page id entry := by
  refine ⟨honList, .inr ⟨hbefore, hpinned, fun _ => ?_⟩⟩
  -- One held copy for each thread of the page.
  have hheld : ∀ key ∈ (idsOf page.live).map some, ((merged store page).get? key).isSome := by
    intro key hkey
    obtain ⟨other, hother, rfl⟩ := List.mem_map.mp hkey
    obtain ⟨copy, -, hget⟩ := merged_live hfull hall hother
    rw [hget]
    rfl
  have hkeys := (merged store page).map_key_filterMap_get? _ hheld
  have hnodup : (((idsOf page.live).map some).filterMap (merged store page).get?).Nodup := by
    refine List.Nodup.of_map threadKey ?_
    rw [hkeys]
    exact (nodup_keepFirst_id _).map (Option.some_injective _)
  have hsub : ((idsOf page.live).map some).filterMap (merged store page).get? ⊆
      ((merged store page).rows.filter (counts store page)).filter
        fun item => ¬RanksFirst entry item := by
    intro copy hcopy
    obtain ⟨key, hkey, hget⟩ := List.mem_filterMap.mp hcopy
    obtain ⟨other, hother, rfl⟩ := List.mem_map.mp hkey
    obtain ⟨live, hlive, hgetLive⟩ := merged_live hfull hall hother
    obtain rfl : live = copy := Option.some.inj (hgetLive.symm.trans hget)
    obtain ⟨hrow, hcopyKey⟩ := Table.get?_eq_some.mp hget
    obtain ⟨honCopy, hpinnedCopy, -⟩ := hall live hlive
    have hcounts : counts store page live = true := by
      unfold counts onlyWork
      rw [honCopy, decide_eq_true hpinnedCopy, hcopyKey, Option.any_some, mem_idsOf.mp hother]
      simp
    have holderCopy := (isBeforeHead_iff entry.event live.event).mp (holder live hlive)
    have hafter : ¬RanksFirst entry live := by
      rw [ranksFirst_iff]
      exact not_le_of_gt holderCopy
    exact List.mem_filter.mpr ⟨List.mem_filter.mpr ⟨hrow, hcounts⟩, decide_eq_true hafter⟩
  calc page.pageSize.getD store.pageSize ≤ (idsOf page.live).length := hfull.full
    _ = (((idsOf page.live).map some).filterMap (merged store page).get?).length := by
      rw [← List.length_map threadKey, hkeys, List.length_map]
    _ ≤ (((merged store page).rows.filter (counts store page)).filter
        fun item => ¬RanksFirst entry item).length := (hnodup.subperm hsub).length_le
    _ = ((merged store page).rows.filter (counts store page)).countP
        fun item => ¬RanksFirst entry item := List.countP_eq_length_filter.symm
    _ ≤ placesBefore RanksFirst entry ((merged store page).rows.filter (counts store page)) :=
      countP_le_placesBefore ranksFirst_total _ _

end Refresh

/-! ## Main result -/

/-- After any facts the list has one row for each thread, all on the list that is shown where no page
turned it over rows taken for its own. A refresh that says that there is more keeps a thread of the
list exactly when the page carries it, or it was a live or an older row that enough rows that count
are placed before; a full page whose copies all count keeps every such row that is older. -/
theorem refresh_keeps_threads (facts : List InboxListFact) :
    ((run step {} facts).previousItems.map threadKey).Nodup ∧
    (Along step TurnsClean {} facts → OnList (run step {} facts)) ∧
    ∀ page : HeadsPage, page.hasOlder = true →
      ∀ row ∈ (run step {} facts).previousItems, ∃ id entry, threadKey row = some id ∧
        (merged (run step {} facts) page).get? (some id) = some entry ∧
        (onCurrentList (run step {} facts).listView
            (viewItem (step (run step {} facts) (.liveChanged page)).prefs entry) = true →
          (some id ∈ (step (run step {} facts) (.liveChanged page)).previousItems.map threadKey ↔
            Kept (run step {} facts) page id entry)) ∧
        (FullPage (run step {} facts) page → AllCount (run step {} facts) page →
          OlderThan entry page.live →
          onCurrentList (run step {} facts).listView
            (viewItem (run step {} facts).prefs entry) = true →
          (viewItem (run step {} facts).prefs entry).pinned ≠ some true →
          id ∈ (run step {} facts).historyIds ∨ id ∈ (run step {} facts).liveIds →
          Kept (run step {} facts) page id entry) := by
  have hsound := run_sound facts
  refine ⟨hsound.nodup, run_onList, ?_⟩
  intro page holder row hrow
  obtain ⟨id, face, hkey, hface, -⟩ := hsound.rows row hrow
  obtain ⟨old, hold, -⟩ := hface.held
  obtain ⟨entry, hget⟩ := Option.isSome_iff_exists.mp
    (@isSome_upsertHeads _ page.items id (by rw [hold]; rfl))
  exact ⟨id, entry, hkey, hget, mem_rows_refreshed hsound holder hget,
    fun hfull hall hentry honList hpinned hbefore =>
      kept_of_fullPage hfull hall hentry honList hpinned hbefore⟩

/-! Two threads on a page of two, a third below them, and the first pinned by hand. -/

def threadHead (thread id occurredAt : String) : InboxViewItem where
  event := { id, source := "crm", externalId := thread ++ ":" ++ id, occurredAt }
  channelLabel := "CRM"
  kind := .user
  canSend := true

def twoHeads : HeadsPage :=
  pageOf [] [threadHead "order-2" "n2" "2026-08-23", threadHead "order-1" "n1" "2026-08-22"]

def pinnedByHand : List InboxListFact :=
  [.liveLoaded .shown twoHeads, .olderLoaded [threadHead "order-0" "n0" "2026-08-21"] none true,
    .prefPatched "crm:order-2" ⟨none, true, false, "2026-08-24"⟩]

/-- The same page again: the pinned row leaves room in the window, the older row falls into it and is
gone. -/
theorem older_thread_vanishes :
    ¬∀ (facts : List InboxListFact) (page : HeadsPage), page.hasOlder = true →
      FullPage (run step {} facts) page → ∀ row ∈ (run step {} facts).previousItems,
      ∀ id entry, threadKey row = some id →
        (merged (run step {} facts) page).get? (some id) = some entry →
        onCurrentList (run step {} facts).listView
          (viewItem (step (run step {} facts) (.liveChanged page)).prefs entry) = true →
        (viewItem (step (run step {} facts) (.liveChanged page)).prefs entry).pinned ≠ some true →
        OlderThan entry page.live →
        some id ∈ (step (run step {} facts) (.liveChanged page)).previousItems.map threadKey := by
  intro hclaim
  have hfull : FullPage (run step {} pinnedByHand) twoHeads := {
    full := by decide +kernel
    sorted := by decide +kernel
    agree := by decide +kernel }
  have hkept := hclaim pinnedByHand twoHeads rfl hfull
    (viewItem ∅ (threadHead "order-0" "n0" "2026-08-21")) (by decide +kernel) "crm:order-0"
    (threadHead "order-0" "n0" "2026-08-21") (by decide +kernel) (by decide +kernel)
    (by decide +kernel) (by decide +kernel) (by unfold OlderThan; decide +kernel)
  exact absurd hkept (by decide +kernel)

end Regenic.Desktop
