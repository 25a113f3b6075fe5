import Regenic.Desktop.InboxItem
import Regenic.Desktop.KeyedList

/-!
Rows of the inbox that are shown again. A row is taken for unchanged by a comparison of its fields
that does not look at everything its revision is made of: the hidden flag, the receipt and the
forward links are not compared.
-/

namespace Regenic.Desktop

/-- `sameInboxProps`, after the check that both rows are the same object. -/
def sameInboxProps (previous next : InboxViewItem) : Bool :=
  previous.event.id = next.event.id && previous.event.contentHash = next.event.contentHash &&
    previous.event.occurredAt = next.event.occurredAt &&
    (previous.title = next.title && previous.pinned = next.pinned &&
      previous.prefUpdatedAt = next.prefUpdatedAt && previous.actorLabel = next.actorLabel &&
      previous.conversationLabel = next.conversationLabel &&
      previous.channelLabel = next.channelLabel &&
      previous.conversationKind = next.conversationKind && previous.unitKind = next.unitKind &&
      previous.unitKindLabel = next.unitKindLabel && previous.threadId = next.threadId &&
      previous.kind = next.kind && previous.canSend = next.canSend &&
      previous.awaitReply = next.awaitReply && previous.listTitle = next.listTitle &&
      previous.activity = next.activity && previous.unread = next.unread &&
      previous.unreadCount = next.unreadCount && previous.attention = next.attention &&
      promptRevision previous = promptRevision next &&
      workRevision previous = workRevision next) &&
    (previous.attachments.getD []).length = (next.attachments.getD []).length &&
    attachmentPreviewRevision previous.attachments = attachmentPreviewRevision next.attachments &&
    ((Lib.present previous.event.contentHash).isSome || previous.bodyText = next.bodyText)

def inboxItemKey (item : InboxViewItem) : String := item.event.id

def reuseInboxList (identical : Bool) (previous next : List InboxViewItem) :
    KeyedReuse InboxViewItem :=
  reuseKeyedList inboxItemKey sameInboxProps identical previous next

def reuseInboxItems (previous next : List InboxViewItem) : List InboxViewItem :=
  (reuseInboxList false previous next).items.toList previous next

/-- `previous` by event id. -/
def priorItem (previous : List InboxViewItem) (id : String) : Option InboxViewItem :=
  previous.reverse.find? fun item => item.event.id = id

def isRead (item : InboxViewItem) : Bool := item.receipt.any fun receipt => receipt.state = .read

def keepsRead (old item : InboxViewItem) : Bool := isRead old && !isRead item

def keepsCan (old item : InboxViewItem) : Bool :=
  old.canReceipt = some true && item.canReceipt ≠ some true

/-- A row with the receipt that is kept from the row before. -/
def keepReceipt (old item : InboxViewItem) : InboxViewItem :=
  { item with
    canReceipt := if keepsCan old item then some true else item.canReceipt
    receipt := if keepsRead old item then old.receipt else item.receipt }

def preserveMessageReceipts (previous next : List InboxViewItem) : List InboxViewItem :=
  if previous.length = 0 || next.length = 0 then next
  else
    let merged := next.map fun item =>
      match priorItem previous item.event.id with
      | none => item
      | some old => if !keepsRead old item && !keepsCan old item then item else keepReceipt old item
    if next.any fun item => (priorItem previous item.event.id).any fun old =>
        keepsRead old item || keepsCan old item then merged
    else next

def mergeRecentInbox (previous recent : List InboxViewItem) : List InboxViewItem :=
  match recent with
  | [] => previous
  | oldestRecent :: _ =>
    if previous.length = 0 then recent
    else
      let recentIds := recent.map (·.event.id)
      let older := previous.filter fun item =>
        item.event.id ∉ recentIds &&
          isBeforeEvent item.event oldestRecent.event.occurredAt oldestRecent.event.id
      let reusedRecent := reuseInboxItems
        (previous.filter fun item => item.event.id ∈ recentIds) recent
      preserveMessageReceipts previous
        (if older.length = 0 then reusedRecent else older ++ reusedRecent)

/-! ## What is not compared -/

/-- The fields of a revision that rows are not compared by. -/
def SameUncompared (previous next : InboxViewItem) : Prop :=
  flagText previous.hidden = flagText next.hidden ∧
    flagText previous.canReceipt = flagText next.canReceipt ∧
    (previous.receipt.map (·.state.name)).getD "" = (next.receipt.map (·.state.name)).getD "" ∧
    previous.forwardedFrom.getD "" = next.forwardedFrom.getD "" ∧
    previous.forwardedTo.getD "" = next.forwardedTo.getD ""

theorem sameInboxProps_self (item : InboxViewItem) : sameInboxProps item item = true := by
  simp [sameInboxProps]

/-- Rows that are taken for the same have the same revision exactly when they agree in what is not
compared. -/
theorem revisionFields_eq_iff {previous next : InboxViewItem}
    (h : sameInboxProps previous next = true) :
    revisionFields previous = revisionFields next ↔ SameUncompared previous next := by
  simp only [sameInboxProps, Bool.and_eq_true, Bool.or_eq_true, decide_eq_true_eq] at h
  obtain ⟨⟨⟨⟨⟨⟨hid, hhash⟩, htime⟩, hfields⟩, -⟩, hattachments⟩, hbody⟩ := h
  obtain ⟨⟨⟨⟨⟨⟨⟨⟨⟨⟨⟨⟨⟨⟨⟨⟨⟨⟨⟨htitle, hpinned⟩, hpref⟩, hactor⟩, hconversation⟩, hchannel⟩, -⟩, -⟩, -⟩,
    -⟩, -⟩, -⟩, -⟩, hlist⟩, -⟩, hunread⟩, -⟩, -⟩, hprompts⟩, hwork⟩ := hfields
  have hrevisionBody : revisionBody previous = revisionBody next := by
    unfold revisionBody
    rw [← hhash]
    rcases hbody with hsome | hsame
    · rw [if_pos hsome, if_pos hsome]
    · rw [hsame]
  unfold revisionFields SameUncompared
  rw [hid, hhash, htime, htitle, hpinned, hpref, hactor, hconversation, hchannel, hlist,
    hrevisionBody, hattachments, hunread, hprompts, hwork]
  simp

theorem inboxRevision_congr {items other : List InboxViewItem}
    (h : items.map revisionFields = other.map revisionFields) :
    inboxRevision items = inboxRevision other := by
  have hfold : ∀ rows : List InboxViewItem, inboxRevision rows =
      (rows.map revisionFields).foldl
        (fun revision fields => revision ++ "\n" ++ "\t".intercalate fields)
        (toString (rows.map revisionFields).length) := by
    intro rows
    rw [List.foldl_map, List.length_map]
    rfl
  rw [hfold items, hfold other, h]

/-! ## Receipts -/

/-- The row that is to be shown for an incoming one, up to the receipt that is kept. -/
def preserved (previous : List InboxViewItem) (item : InboxViewItem) : InboxViewItem :=
  match priorItem previous item.event.id with
  | none => item
  | some old => keepReceipt old item

section Merge

variable {previous next : List InboxViewItem}

theorem priorItem_eq (h : (previous.map inboxItemKey).Nodup) (id : String) :
    priorItem previous id = previous.find? fun item => inboxItemKey item = id := by
  have hreverse : (previous.reverse.map inboxItemKey).Nodup := by
    rw [List.map_reverse]
    exact List.nodup_reverse.mpr h
  unfold priorItem
  by_cases hin : id ∈ previous.map inboxItemKey
  · obtain ⟨item, hitem, hkey⟩ := List.mem_map.mp hin
    rw [find?_keyOf h hitem hkey]
    exact find?_keyOf hreverse (List.mem_reverse.mpr hitem) hkey
  · rw [find?_keyOf_none hin]
    exact @find?_keyOf_none _ inboxItemKey _ _ (by rwa [List.map_reverse, List.mem_reverse])

theorem keepReceipt_of_none {old item : InboxViewItem} (hread : keepsRead old item = false)
    (hcan : keepsCan old item = false) : keepReceipt old item = item := by
  unfold keepReceipt
  rw [hread, hcan]
  rfl

theorem preserveMessageReceipts_eq (previous next : List InboxViewItem) :
    preserveMessageReceipts previous next = next.map (preserved previous) := by
  -- A row that keeps nothing is shown as it came.
  have hshown : ∀ item, (match priorItem previous item.event.id with
      | none => item
      | some old => if !keepsRead old item && !keepsCan old item then item
          else keepReceipt old item) = preserved previous item := by
    intro item
    unfold preserved
    cases priorItem previous item.event.id with
    | none => rfl
    | some old =>
      simp only
      split
      · next hnone =>
        simp only [Bool.and_eq_true, Bool.not_eq_true'] at hnone
        exact (keepReceipt_of_none hnone.1 hnone.2).symm
      · rfl
  unfold preserveMessageReceipts
  split
  · next hempty =>
    simp only [Bool.or_eq_true, decide_eq_true_eq, List.length_eq_zero_iff] at hempty
    rcases hempty with rfl | rfl
    · exact (List.map_id' next).symm
    · rfl
  · simp only [hshown]
    split
    · rfl
    · next hunchanged =>
      rw [List.any_eq_true, not_exists] at hunchanged
      have hself : ∀ item ∈ next, preserved previous item = item := by
        intro item hitem
        have hnone := hunchanged item
        unfold preserved
        cases hprior : priorItem previous item.event.id with
        | none => rfl
        | some old =>
          simp only [hprior, hitem, true_and, Option.any_some, Bool.or_eq_true, not_or,
            Bool.not_eq_true] at hnone
          exact keepReceipt_of_none hnone.1 hnone.2
      rw [List.map_congr_left hself, List.map_id']

/-! ## Reuse -/

theorem reusedRow_id (previous : List InboxViewItem) (incoming : InboxViewItem) :
    (reusedRow inboxItemKey sameInboxProps previous incoming).event.id = incoming.event.id := by
  unfold reusedRow keep
  split
  · rfl
  · next old hfind =>
    split
    · have hkey : inboxItemKey old = inboxItemKey incoming := by
        simpa using List.find?_some hfind
      exact hkey
    · rfl

/-- An incoming row is shown as it came, or as the row before that is taken for the same. -/
theorem reusedRow_cases (hprevious : (previous.map inboxItemKey).Nodup) (incoming : InboxViewItem) :
    (reusedRow inboxItemKey sameInboxProps previous incoming = incoming ∧
      ∀ old ∈ previous, old.event.id = incoming.event.id → sameInboxProps old incoming = false) ∨
    ∃ old ∈ previous, old.event.id = incoming.event.id ∧ sameInboxProps old incoming = true ∧
      reusedRow inboxItemKey sameInboxProps previous incoming = old ∧
      ∀ other ∈ previous, other.event.id = incoming.event.id → other = old := by
  unfold reusedRow keep
  cases hfind : previous.find? fun old => inboxItemKey old = inboxItemKey incoming with
  | none =>
    left
    refine ⟨rfl, ?_⟩
    intro old hold hid
    have hother := List.find?_eq_none.mp hfind old hold
    exact absurd (decide_eq_true hid) hother
  | some old =>
    have hold := List.mem_of_find?_eq_some hfind
    have hid : inboxItemKey old = inboxItemKey incoming := by simpa using List.find?_some hfind
    have honly : ∀ other ∈ previous, other.event.id = incoming.event.id → other = old := by
      intro other hother hsame
      exact List.inj_on_of_nodup_map hprevious hother hold (hsame.trans hid.symm)
    cases hsame : sameInboxProps old incoming with
    | true => exact .inr ⟨old, hold, hid, hsame, by simp only [hsame, if_true], honly⟩
    | false =>
      left
      refine ⟨by simp only [hsame, Bool.false_eq_true, if_false], ?_⟩
      intro other hother hother_id
      rw [honly other hother hother_id]
      exact hsame

theorem sameInboxProps_keepReceipt (old incoming : InboxViewItem) :
    sameInboxProps old (keepReceipt old incoming) = sameInboxProps old incoming := rfl

theorem keepReceipt_self (item : InboxViewItem) : keepReceipt item item = item :=
  keepReceipt_of_none (by simp [keepsRead]) (by simp [keepsCan])

/-- The row of a merge for an incoming one. -/
theorem preserved_reusedRow (hprevious : (previous.map inboxItemKey).Nodup)
    (incoming : InboxViewItem) :
    revisionFields (preserved previous (reusedRow inboxItemKey sameInboxProps previous incoming)) =
        revisionFields (preserved previous incoming) ↔
      ∀ old ∈ previous, old.event.id = incoming.event.id → sameInboxProps old incoming = true →
        SameUncompared old (keepReceipt old incoming) := by
  rcases reusedRow_cases hprevious incoming with ⟨hrow, hnone⟩ | ⟨old, hold, hid, hsame, hrow, honly⟩
  · rw [hrow]
    constructor
    · intro _ old hold hid hsame
      rw [hnone old hold hid] at hsame
      cases hsame
    · intro _
      rfl
  · have hprior : ∀ id, old.event.id = id → priorItem previous id = some old := by
      intro id hkey
      rw [priorItem_eq hprevious]
      exact find?_keyOf hprevious hold hkey
    have hkept : preserved previous old = old := by
      unfold preserved
      rw [hprior _ rfl]
      exact keepReceipt_self old
    have hincoming : preserved previous incoming = keepReceipt old incoming := by
      unfold preserved
      rw [hprior _ hid]
    rw [hrow, hkept, hincoming,
      revisionFields_eq_iff ((sameInboxProps_keepReceipt old incoming).trans hsame)]
    constructor
    · intro hequal other hother hother_id _
      rw [honly other hother hother_id]
      exact hequal
    · intro hall
      exact hall old hold hid hsame

/-- The rows of a merge that are rows of the recent page. -/
def recentRows (previous recent : List InboxViewItem) : List InboxViewItem :=
  (mergeRecentInbox previous recent).filter fun item => item.event.id ∈ recent.map (·.event.id)

theorem preserved_id (previous : List InboxViewItem) (item : InboxViewItem) :
    (preserved previous item).event.id = item.event.id := by
  unfold preserved
  split
  · rfl
  · rfl

theorem reusedRow_filter (hprevious : (previous.map inboxItemKey).Nodup) {incoming : InboxViewItem}
    (hincoming : incoming ∈ next) :
    reusedRow inboxItemKey sameInboxProps
        (previous.filter fun item => item.event.id ∈ next.map (·.event.id)) incoming =
      reusedRow inboxItemKey sameInboxProps previous incoming := by
  have hfind : (previous.filter fun item => item.event.id ∈ next.map (·.event.id)).find?
        (fun old => inboxItemKey old = inboxItemKey incoming) =
      previous.find? fun old => inboxItemKey old = inboxItemKey incoming := by
    by_cases hin : inboxItemKey incoming ∈ previous.map inboxItemKey
    · obtain ⟨old, hold, hkey⟩ := List.mem_map.mp hin
      have hid : old.event.id = incoming.event.id := hkey
      have hkept : old ∈ previous.filter fun item => item.event.id ∈ next.map (·.event.id) := by
        apply List.mem_filter.mpr
        refine ⟨hold, decide_eq_true ?_⟩
        rw [hid]
        exact List.mem_map_of_mem hincoming
      rw [find?_keyOf hprevious hold hkey]
      exact find?_keyOf (hprevious.sublist (List.filter_sublist.map _)) hkept hkey
    · rw [find?_keyOf_none hin]
      apply find?_keyOf_none
      intro hfiltered
      exact hin ((List.filter_sublist.map _).subset hfiltered)
  unfold reusedRow
  rw [hfind]

/-- A merge is rows that are not of the recent page, then the rows of the page in their order. -/
theorem mergeRecentInbox_rows (hprevious : (previous.map inboxItemKey).Nodup)
    (hnext : (next.map inboxItemKey).Nodup) :
    ∃ older, (∀ item ∈ older, item.event.id ∉ next.map (·.event.id)) ∧
      mergeRecentInbox previous next = older ++ next.map fun incoming =>
        preserved previous (reusedRow inboxItemKey sameInboxProps previous incoming) := by
  unfold mergeRecentInbox
  cases next with
  | nil => exact ⟨previous, by simp, by simp⟩
  | cons oldestRecent rest =>
    by_cases hempty : previous.length = 0
    · obtain rfl := List.length_eq_zero_iff.mp hempty
      refine ⟨[], by simp, ?_⟩
      rw [List.nil_append]
      exact (List.map_id' (oldestRecent :: rest)).symm
    · obtain ⟨hreused, -⟩ := @reuseKeyedList_spec _ inboxItemKey sameInboxProps _
        sameInboxProps_self false (previous.filter fun item =>
          item.event.id ∈ (oldestRecent :: rest).map (·.event.id)) (oldestRecent :: rest) (by simp)
        (hprevious.sublist (List.filter_sublist.map _)) hnext
      have hrows : reuseInboxItems (previous.filter fun item =>
          item.event.id ∈ (oldestRecent :: rest).map (·.event.id)) (oldestRecent :: rest) =
          (oldestRecent :: rest).map (reusedRow inboxItemKey sameInboxProps previous) := by
        refine Eq.trans hreused (List.map_congr_left ?_)
        intro incoming hincoming
        exact reusedRow_filter hprevious hincoming
      simp only [if_neg hempty, hrows]
      have happend : ∀ older rows : List InboxViewItem,
          (if older.length = 0 then rows else older ++ rows) = older ++ rows := by
        intro older rows
        split
        · next hnone => rw [List.length_eq_zero_iff.mp hnone, List.nil_append]
        · rfl
      rw [happend, preserveMessageReceipts_eq, List.map_append, List.map_map]
      refine ⟨_, ?_, rfl⟩
      intro item hitem
      obtain ⟨old, hold, rfl⟩ := List.mem_map.mp hitem
      rw [preserved_id]
      have hout := (List.mem_filter.mp hold).2
      rw [Bool.and_eq_true] at hout
      exact of_decide_eq_true hout.1

/-- A merge shows the rows of the recent page in their order. -/
theorem recentRows_eq (hprevious : (previous.map inboxItemKey).Nodup)
    (hnext : (next.map inboxItemKey).Nodup) :
    recentRows previous next =
      next.map fun incoming =>
        preserved previous (reusedRow inboxItemKey sameInboxProps previous incoming) := by
  obtain ⟨older, holder, hmerge⟩ := mergeRecentInbox_rows hprevious hnext
  unfold recentRows
  rw [hmerge, List.filter_append]
  have hnone : older.filter (fun item => item.event.id ∈ next.map (·.event.id)) = [] := by
    apply List.filter_eq_nil_iff.mpr
    intro item hitem hin
    exact holder item hitem (of_decide_eq_true hin)
  rw [hnone, List.nil_append]
  apply List.filter_eq_self.mpr
  intro item hitem
  obtain ⟨incoming, hincoming, rfl⟩ := List.mem_map.mp hitem
  rw [preserved_id, reusedRow_id]
  exact decide_eq_true (List.mem_map_of_mem hincoming)

end Merge

/-! ## Main result -/

/-- A reuse keeps the rows that come in, in their order, and tells truly what it has kept. It shows
what came in exactly when no two rows of one id that are taken for the same differ in what is not
compared; a merge shows the recent page, up to receipts that are kept, exactly when no such rows
differ in it apart from these receipts. -/
theorem reuse_shows_iff {identical : Bool} {previous next : List InboxViewItem}
    (hidentical : identical = true → previous = next)
    (hprevious : (previous.map (·.event.id)).Nodup) (hnext : (next.map (·.event.id)).Nodup) :
    let reuse := reuseInboxList identical previous next
    let shown := reuse.items.toList previous next
    shown.map (·.event.id) = next.map (·.event.id) ∧
      (reuse.same = true → reuse.items = .previous) ∧
      (reuse.unchangedPrefix ≤ shown.length ∧
        shown.take reuse.unchangedPrefix = previous.take reuse.unchangedPrefix) ∧
      ((inboxRevision shown = inboxRevision next ∧
          shown.map revisionFields = next.map revisionFields) ↔
        ∀ old ∈ previous, ∀ incoming ∈ next, old.event.id = incoming.event.id →
          sameInboxProps old incoming = true → SameUncompared old incoming) ∧
      ((recentRows previous next).map revisionFields =
          next.map (fun incoming => revisionFields (preserved previous incoming)) ↔
        ∀ old ∈ previous, ∀ incoming ∈ next, old.event.id = incoming.event.id →
          sameInboxProps old incoming = true → SameUncompared old (keepReceipt old incoming)) := by
  intro reuse shown
  obtain ⟨hitems, hsame, hle, hprefix⟩ :=
    @reuseKeyedList_spec _ inboxItemKey sameInboxProps _ sameInboxProps_self identical previous next
      hidentical hprevious hnext
  have hshown : shown = next.map (reusedRow inboxItemKey sameInboxProps previous) := hitems
  refine ⟨?_, hsame, ⟨hle, hprefix⟩, ?_, ?_⟩
  · rw [hshown, List.map_map]
    apply List.map_congr_left
    intro incoming _
    exact reusedRow_id previous incoming
  · have hfields : shown.map revisionFields = next.map revisionFields ↔
        ∀ incoming ∈ next, revisionFields (reusedRow inboxItemKey sameInboxProps previous incoming) =
          revisionFields incoming := by
      rw [hshown, List.map_map, List.map_inj_left]
      rfl
    constructor
    · rintro ⟨-, hequal⟩ old hold incoming hincoming hid hsame_props
      have hrow := hfields.mp hequal incoming hincoming
      rcases reusedRow_cases hprevious incoming with ⟨-, hnone⟩ | ⟨kept, -, -, -, hkept, honly⟩
      · rw [hnone old hold hid] at hsame_props
        cases hsame_props
      · rw [hkept, ← honly old hold hid, revisionFields_eq_iff hsame_props] at hrow
        exact hrow
    · intro hall
      have hequal : shown.map revisionFields = next.map revisionFields := by
        apply hfields.mpr
        intro incoming hincoming
        rcases reusedRow_cases hprevious incoming with ⟨hrow, -⟩ | ⟨kept, hold, hid, hsame_props,
          hrow, -⟩
        · rw [hrow]
        · rw [hrow, revisionFields_eq_iff hsame_props]
          exact hall kept hold incoming hincoming hid hsame_props
      exact ⟨inboxRevision_congr hequal, hequal⟩
  · rw [recentRows_eq hprevious hnext, List.map_map, List.map_inj_left]
    constructor
    · intro hall old hold incoming hincoming
      exact (preserved_reusedRow hprevious incoming).mp (hall incoming hincoming) old hold
    · intro hall incoming hincoming
      apply (preserved_reusedRow hprevious incoming).mpr
      intro old hold
      exact hall old hold incoming hincoming

/-! ## A row that is hidden -/

def listedRow : InboxViewItem where
  event := { id := "event-1", source := "feishu", externalId := "om_1", occurredAt := "1" }
  bodyText := some "hello"
  channelLabel := "Feishu"
  kind := .user
  canSend := true

theorem reuse_shows_unchanged :
    (reuseInboxList false [listedRow] [listedRow]).items.toList [listedRow] [listedRow] =
        [listedRow] ∧
      inboxRevision ((reuseInboxList false [listedRow] [listedRow]).items.toList [listedRow]
        [listedRow]) = inboxRevision [listedRow] := by
  have hshows := @reuse_shows_iff false [listedRow] [listedRow] (fun h => absurd h (by decide))
    (by decide) (by decide)
  refine ⟨by decide +kernel, (hshows.2.2.2.1.mpr ?_).1⟩
  intro old hold incoming hincoming _ _
  obtain rfl := List.mem_singleton.mp hold
  obtain rfl := List.mem_singleton.mp hincoming
  exact ⟨rfl, rfl, rfl, rfl, rfl⟩

/-- A row that was hidden in the meantime is shown as it was. -/
theorem hidden_row_is_reused : ¬∀ previous next : List InboxViewItem,
    (previous.map (·.event.id)).Nodup → (next.map (·.event.id)).Nodup →
      inboxRevision ((reuseInboxList false previous next).items.toList previous next) =
        inboxRevision next := by
  intro h
  have hrow := h [listedRow] [{ listedRow with hidden := some true }] (by decide) (by decide)
  exact absurd hrow (by decide +kernel)

end Regenic.Desktop
