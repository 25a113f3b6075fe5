import Mathlib.Data.List.Sort
import Regenic.Desktop.InboxReuse
import Regenic.Lib.Run
import Regenic.Lib.Table

/-!
The store behind the list of conversations. A catalog holds one copy for each thread, preferences
that are not confirmed yet lie over it, and lists of ids say which threads are pinned, live, older
or only there for their work. Every fact changes these and commits a list of rows; rows that are
taken for the same as before are shown again.
-/

namespace Regenic.Desktop

open Lib

structure HeadsCursor where
  before : String
  beforeId : String
  deriving DecidableEq, Repr

structure InboxPrefPatch where
  title : Option String
  pinned : Bool
  hidden : Bool
  updatedAt : String
  deriving DecidableEq, Repr

inductive InboxListView where
  | shown
  | hidden
  deriving DecidableEq, Repr

def listHeadsPageSize : Nat := 40

/-! ## Threads -/

def workThreadId (source externalId fallbackId : String) : String :=
  let orElse (text fallback : String) := if text = "" then fallback else text
  match indexOf? ":out:".toList externalId.toList with
  | some cut =>
    source ++ ":" ++ orElse (jsTrim (String.ofList (externalId.toList.take cut))) fallbackId
  | none =>
    match (lastIndexOf? ':' externalId.toList).filter fun colon => 0 < colon with
    | some colon => source ++ ":" ++ String.ofList (externalId.toList.take colon)
    | none => source ++ ":" ++ orElse externalId fallbackId

/-- The thread that the ids of an event stand for. -/
def derivedThread (event : InboxEvent) : String :=
  if event.source = "" then "" else workThreadId event.source event.externalId event.id

/-- A thread of a row: its label, or the derived thread when the label is of a thread below it. -/
def chosenThread (labeled derived : String) : String :=
  if derived ≠ "" && labeled ≠ "" && labeled ≠ derived && hasPrefix (derived ++ ":") labeled then
    derived
  else if labeled = "" then derived
  else labeled

def threadIdOf (item : InboxViewItem) : String :=
  chosenThread (jsTrim (item.threadId.getD "")) (derivedThread item.event)

def inboxThreadKey (item : InboxViewItem) : Option String := present (some (jsTrim (threadIdOf item)))

def threadKey (item : InboxViewItem) : Option String := inboxThreadKey item

/-- `Map<string, InboxViewItem>`: every copy lies under the key of its thread. -/
abbrev Catalog : Type := Table threadKey

/-- `Map<string, InboxPrefPatch>` -/
abbrev Prefs : Type := Table fun entry : String × InboxPrefPatch => entry.1

def Prefs.get (prefs : Prefs) (id : String) : Option InboxPrefPatch := (prefs.get? id).map (·.2)

/-! ## Lists of rows -/

def idsOf (items : List InboxViewItem) : List String := keepFirst id (items.filterMap threadKey)

/-- A held copy that is pinned gives way to a pinned one only. -/
def upsertHead (catalog : Catalog) (item : InboxViewItem) : Catalog :=
  if threadKey item = none then catalog
  else if (catalog.get? (threadKey item)).any (fun current => current.pinned = some true) &&
      item.pinned ≠ some true then catalog
  else catalog.put item

def upsertHeads (catalog : Catalog) (items : List InboxViewItem) : Catalog :=
  items.foldl upsertHead catalog

def takeHeads (catalog : Catalog) (ids : List String) : List InboxViewItem :=
  ids.filterMap fun id => catalog.get? (some id)

def addHead (heads : Catalog) (item : InboxViewItem) : Catalog :=
  if threadKey item = none then heads
  else match heads.get? (threadKey item) with
    | none => heads.put item
    | some current =>
      if item.pinned = some true && current.pinned ≠ some true then heads.put item else heads

/-- The map keeps the order in which its keys came first. -/
def uniqueHeads (items : List InboxViewItem) : List InboxViewItem := (items.foldl addHead ∅).rows

def isBeforeHead (event : InboxEvent) (before beforeId : String) : Bool :=
  codeUnits event.occurredAt < codeUnits before ||
    (event.occurredAt = before && codeUnits event.id < codeUnits beforeId)

def headsCursorOf (items : List InboxViewItem) : Option HeadsCursor :=
  let oldest := items.foldl (fun oldest item =>
    match oldest with
    | none => some item
    | some old =>
      if isBeforeHead item.event old.event.occurredAt old.event.id then some item else some old)
    (none : Option InboxViewItem)
  oldest.map fun item => ⟨item.event.occurredAt, item.event.id⟩

def compareHeadRecencyDesc (left right : InboxViewItem) : Int :=
  if isBeforeHead left.event right.event.occurredAt right.event.id then 1
  else if isBeforeHead right.event left.event.occurredAt left.event.id then -1
  else 0

/-- Rows that compare alike stay in their order. -/
def rankUnpinnedNewest (items : List InboxViewItem) (exclude : List String) :
    List InboxViewItem :=
  (items.filter fun item => (threadKey item).any fun id => id ∉ exclude).insertionSort
    fun left right => compareHeadRecencyDesc left right ≤ 0

/-! ## Faces -/

/-- The preference that lies over a copy: under its thread, or else under its label. -/
def prefOver (prefs : Prefs) (item : InboxViewItem) : Option InboxPrefPatch :=
  let labeled := (present (item.threadId.map jsTrim)).filter fun label => some label ≠ threadKey item
  ((threadKey item).bind prefs.get).or (labeled.bind prefs.get)

/-- `item.pref_updated_at && item.pref_updated_at > pref.updated_at` -/
def isNewerThanPref (item : InboxViewItem) (pref : InboxPrefPatch) : Bool :=
  (present item.prefUpdatedAt.join).any fun updatedAt =>
    codeUnits pref.updatedAt < codeUnits updatedAt

/-- `item.pref_updated_at && item.pref_updated_at >= pref.updated_at` -/
def isAsNewAsPref (item : InboxViewItem) (pref : InboxPrefPatch) : Bool :=
  (present item.prefUpdatedAt.join).any fun updatedAt =>
    !(codeUnits updatedAt < codeUnits pref.updatedAt)

def withPref (item : InboxViewItem) (pref : InboxPrefPatch) : InboxViewItem :=
  { item with
    title := some pref.title
    pinned := some pref.pinned
    hidden := some pref.hidden
    prefUpdatedAt := some (some pref.updatedAt) }

def overlaid (prefs : Prefs) (item : InboxViewItem) : InboxViewItem :=
  match prefOver prefs item with
  | none => item
  | some pref =>
    if !isNewerThanPref item pref &&
        (item.title ≠ some pref.title || item.pinned ≠ some pref.pinned ||
          item.hidden ≠ some pref.hidden || item.prefUpdatedAt ≠ some (some pref.updatedAt)) then
      withPref item pref
    else item

def viewItem (prefs : Prefs) (item : InboxViewItem) : InboxViewItem :=
  match threadKey item with
  | none => overlaid prefs item
  | some id =>
    if (overlaid prefs item).threadId = some id then overlaid prefs item
    else { overlaid prefs item with threadId := some id }

def onCurrentList (listView : Option InboxListView) (face : InboxViewItem) : Bool :=
  if listView = some .hidden then face.hidden = some true else face.hidden ≠ some true

/-! ## The store -/

/-- What a live page brings. -/
structure HeadsPage where
  pinned : List InboxViewItem
  live : List InboxViewItem
  activeWork : List InboxViewItem
  nextBefore : Option HeadsCursor
  hasOlder : Bool
  pageSize : Option Nat := none
  deriving DecidableEq, Repr

inductive InboxListFact where
  | reset
  | liveLoaded (list : InboxListView) (page : HeadsPage)
  | liveChanged (page : HeadsPage)
  | olderLoaded (items : List InboxViewItem) (nextBefore : Option HeadsCursor) (hasOlder : Bool)
  | headPatched (items : List InboxViewItem)
  | headsTouched (items : List InboxViewItem) (gone : Option (List String))
      (activeWork : Option (List InboxViewItem)) (pageSize : Option Nat)
  | prefPatched (threadId : String) (pref : InboxPrefPatch)
  | prefReverted (threadId : String) (previous : Option InboxPrefPatch)
  deriving DecidableEq, Repr

structure InboxListStore where
  catalog : Catalog := ∅
  pinnedIds : List String := []
  liveIds : List String := []
  historyIds : List String := []
  workIds : List String := []
  hasOlder : Bool := false
  nextBefore : Option HeadsCursor := none
  listView : Option InboxListView := none
  previousItems : List InboxViewItem := []
  prefs : Prefs := ∅
  pageSize : Nat := listHeadsPageSize

structure InboxListSnapshot where
  items : List InboxViewItem
  reuse : KeyedReuse InboxViewItem
  hasOlder : Bool
  nextBefore : Option HeadsCursor
  listView : Option InboxListView

/-- The copies of a page in the order in which they are merged. -/
def HeadsPage.items (page : HeadsPage) : List InboxViewItem :=
  page.pinned ++ page.live ++ page.activeWork

def isVisible (catalog : Catalog) (listView : Option InboxListView) (prefs : Prefs) (id : String) :
    Bool :=
  (catalog.get? (some id)).any fun item => onCurrentList listView (viewItem prefs item)

def visibleIds (catalog : Catalog) (listView : Option InboxListView) (prefs : Prefs)
    (ids : List String) : List String :=
  ids.filter (isVisible catalog listView prefs)

/-- The newest copies, as many as a page has. Whether a copy is on the list is asked of the copy, not
of its face. -/
def liveWindow (catalog : Catalog) (listView : Option InboxListView) (prefs : Prefs)
    (workIds : List String) (pageSize : Nat) : List String :=
  idsOf ((rankUnpinnedNewest (catalog.rows.filter fun item =>
    onCurrentList listView item && (viewItem prefs item).pinned ≠ some true) workIds).take pageSize)

/-- The loop over the rows before, with the ids that were kept. -/
def keptHistory (catalog : Catalog) (listView : Option InboxListView) (prefs : Prefs)
    (occupied window : List String) : List String → List String → List String
  | keep, [] => keep
  | keep, id :: rest =>
    let stays := id ∉ occupied && id ∉ keep &&
      (catalog.get? (some id)).any fun item =>
        onCurrentList listView (viewItem prefs item) && (viewItem prefs item).pinned ≠ some true &&
          id ∉ window
    keptHistory catalog listView prefs occupied window (if stays then keep ++ [id] else keep) rest

def applyLive (store : InboxListStore) (list : Option InboxListView) (page : HeadsPage)
    (replace : Bool) : InboxListStore :=
  let listView := list.or store.listView
  let pageSize := page.pageSize.getD store.pageSize
  let held := if replace then ∅ else store.catalog
  let catalog := upsertHeads (upsertHeads (upsertHeads held page.pinned) page.live) page.activeWork
  let visible := visibleIds catalog listView store.prefs
  let pinnedIds := visible (idsOf page.pinned)
  let liveIds := visible ((idsOf page.live).filter fun id => id ∉ pinnedIds)
  let workIds := visible ((idsOf page.activeWork).filter fun id => id ∉ pinnedIds && id ∉ liveIds)
  let window := liveWindow catalog listView store.prefs workIds pageSize
  let historyIds :=
    if replace || !page.hasOlder then []
    else keptHistory catalog listView store.prefs (pinnedIds ++ liveIds ++ workIds) window []
      (store.historyIds ++ store.liveIds)
  { store with
    catalog, pinnedIds, liveIds, historyIds, workIds, listView, pageSize
    nextBefore := page.nextBefore
    hasOlder := page.hasOlder }

def applyOlder (store : InboxListStore) (items : List InboxViewItem)
    (nextBefore : Option HeadsCursor) (hasOlder : Bool) : InboxListStore :=
  let occupied := store.pinnedIds ++ store.liveIds ++ store.workIds ++ store.historyIds
  { store with
    catalog := upsertHeads store.catalog items
    historyIds := store.historyIds ++ (idsOf items).filter fun id => id ∉ occupied
    nextBefore := nextBefore.or store.nextBefore
    hasOlder }

/-- A held copy with what a reader's own patch says of it. -/
def patchHead (item current : InboxViewItem) : InboxViewItem :=
  { current with
    unread := item.unread
    unreadCount := item.unreadCount
    attention := item.attention }

theorem threadKey_patchHead (item current : InboxViewItem) :
    threadKey (patchHead item current) = threadKey current := rfl

def applyHeadPatch (catalog : Catalog) (items : List InboxViewItem) : Catalog :=
  items.foldl (fun catalog item =>
    if threadKey item = none then catalog
    else catalog.update (threadKey item) (patchHead item) (threadKey_patchHead item)) catalog

def relayout (store : InboxListStore) (nextWork : List String) : InboxListStore :=
  let work := keepFirst id nextWork
  let face := viewItem store.prefs
  let onList := store.catalog.rows.filter fun item => onCurrentList store.listView (face item)
  let pinnedSet := (onList.filter fun item => (face item).pinned = some true).filterMap threadKey
  let unpinned := (onList.filter fun item => (face item).pinned ≠ some true).map face
  let pinnedIds := (store.pinnedIds.filter fun id => id ∈ pinnedSet) ++
    pinnedSet.filter fun id => id ∉ store.pinnedIds
  let ranked := rankUnpinnedNewest unpinned work
  let liveIds := idsOf (ranked.take store.pageSize)
  let historyIds := idsOf (ranked.drop store.pageSize)
  { store with
    pinnedIds, liveIds, historyIds
    workIds := work.filter fun id => id ∉ pinnedIds && id ∉ liveIds &&
      isVisible store.catalog store.listView store.prefs id
    nextBefore := headsCursorOf (takeHeads store.catalog (if historyIds = [] then liveIds else
      historyIds)) }

def applyTouched (store : InboxListStore) (items : List InboxViewItem)
    (gone : Option (List String)) (activeWork : Option (List InboxViewItem))
    (pageSize : Option Nat) : InboxListStore :=
  let gone := gone.getD []
  let held := store.catalog.filter fun item => !((threadKey item).any fun id => id ∈ gone)
  let catalog := upsertHeads (upsertHeads held items) (activeWork.getD [])
  let touched := { store with
    catalog
    prefs := store.prefs.filter fun entry => entry.1 ∉ gone
    pageSize := pageSize.getD store.pageSize }
  relayout touched (match activeWork with
    | some rows => idsOf rows
    | none => store.workIds.filter fun id => id ∉ gone && (catalog.get? (some id)).isSome)

def prunePrefs (catalog : Catalog) (prefs : Prefs) : Prefs :=
  prefs.filter fun entry =>
    !((catalog.get? (some entry.1)).any fun item => isAsNewAsPref item entry.2)

def prune (store : InboxListStore) : Catalog :=
  let keep := store.pinnedIds ++ store.liveIds ++ store.workIds ++ store.historyIds ++
    store.prefs.rows.map (·.1)
  store.catalog.filter fun item => (threadKey item).any fun id => id ∈ keep

/-- The rows that a commit makes, before rows are shown again. -/
def nextItems (store : InboxListStore) : List InboxViewItem :=
  let workExtra := store.workIds.filter fun id => id ∉ store.pinnedIds && id ∉ store.liveIds
  uniqueHeads (((takeHeads store.catalog store.historyIds ++
    takeHeads store.catalog store.pinnedIds ++ takeHeads store.catalog store.liveIds ++
    takeHeads store.catalog workExtra).map (viewItem store.prefs)).filter
      (onCurrentList store.listView))

/-- `prunePrefs` and `prune`. -/
def pruned (store : InboxListStore) : InboxListStore :=
  let unconfirmed := { store with prefs := prunePrefs store.catalog store.prefs }
  { unconfirmed with catalog := prune unconfirmed }

def commit (store : InboxListStore) : InboxListStore × InboxListSnapshot :=
  let ready := pruned store
  let next := nextItems ready
  let reuse := reuseInboxList false ready.previousItems next
  let items := reuse.items.toList ready.previousItems next
  ({ ready with previousItems := items },
    { items, reuse, hasOlder := ready.hasOlder, nextBefore := ready.nextBefore,
      listView := ready.listView })

/-- What a fact does before the commit. -/
def applyFact (store : InboxListStore) : InboxListFact → InboxListStore
  | .reset => { previousItems := store.previousItems, pageSize := store.pageSize }
  | .liveLoaded list page => applyLive store (some list) page true
  | .liveChanged page => applyLive store none page false
  | .olderLoaded items nextBefore hasOlder => applyOlder store items nextBefore hasOlder
  | .headPatched items => { store with catalog := applyHeadPatch store.catalog items }
  | .headsTouched items gone activeWork pageSize =>
    applyTouched store items gone activeWork pageSize
  | .prefPatched threadId pref =>
    let patched := { store with prefs := store.prefs.put (threadId, pref) }
    relayout patched patched.workIds
  | .prefReverted threadId previous =>
    let reverted := { store with
      prefs := match previous with
        | some pref => store.prefs.put (threadId, pref)
        | none => store.prefs.filter fun entry => entry.1 ≠ threadId }
    relayout reverted reverted.workIds

def reduce (store : InboxListStore) (fact : InboxListFact) : InboxListStore × InboxListSnapshot :=
  commit (applyFact store fact)

/-- The store after a fact; its `previousItems` are the rows of the snapshot. -/
def step (store : InboxListStore) (fact : InboxListFact) : InboxListStore := (reduce store fact).1

end Regenic.Desktop
