import Regenic.Context.BundleDiff

/-!
What a diff says of each candidate. The walk over the candidates puts each into one class by
what the two bundles hold of it; a change of nothing but the search matches of an item is a
change with no reason, and there is no other such change.
-/

namespace Regenic.Context.Assembly

open Lib Ingest

/-! ## Candidates by their class -/

def addedOf (before after : Table IndexedBundleItem.id) (candidateId : String) :
    Option ContextBundleDiffItem :=
  match before.get? candidateId, after.get? candidateId with
  | none, some next => some (toDiffItem next)
  | _, _ => none

def unchangedOf (before after : Table IndexedBundleItem.id) (candidateId : String) :
    Option ContextBundleDiffItem :=
  match before.get? candidateId, after.get? candidateId with
  | some previous, some next => if previous = next then some (toDiffItem next) else none
  | _, _ => none

def changedOf (before after : Table IndexedBundleItem.id) (candidateId : String) :
    Option ContextBundleDiffChange :=
  match before.get? candidateId, after.get? candidateId with
  | some previous, some next =>
    if previous = next then none
    else some ⟨toDiffItem previous, toDiffItem next, changeReasons previous next⟩
  | _, _ => none

/-- What is removed in one direction is added in the other. -/
theorem foldl_classifyCandidate (before after : Table IndexedBundleItem.id) (ids : List String)
    (diff : ContextBundleDiff) :
    ids.foldl (classifyCandidate before after) diff =
      { diff with
        added := diff.added ++ ids.filterMap (addedOf before after)
        removed := diff.removed ++ ids.filterMap (addedOf after before)
        changed := diff.changed ++ ids.filterMap (changedOf before after)
        unchanged := diff.unchanged ++ ids.filterMap (unchangedOf before after) } := by
  induction ids generalizing diff with
  | nil => simp
  | cons id rest ih =>
    rw [List.foldl_cons, ih]
    unfold classifyCandidate
    cases hbefore : before.get? id with
    | none =>
      cases hafter : after.get? id <;>
        simp [addedOf, changedOf, unchangedOf, hbefore, hafter]
    | some previous =>
      cases hafter : after.get? id with
      | none => simp [addedOf, changedOf, unchangedOf, hbefore, hafter]
      | some next =>
        by_cases hsame : previous = next
        · simp [addedOf, changedOf, unchangedOf, hbefore, hafter, hsame]
        · simp [addedOf, changedOf, unchangedOf, hbefore, hafter, canonical_indexed_iff, hsame]

/-! ## The index of a bundle -/

theorem foldl_put_rows {items : List IndexedBundleItem} {index : Table IndexedBundleItem.id}
    (h : ((index.rows ++ items).map IndexedBundleItem.id).Nodup) :
    (items.foldl Table.put index).rows = index.rows ++ items := by
  induction items generalizing index with
  | nil => rw [List.append_nil, List.foldl_nil]
  | cons item rest ih =>
    have hfree : index.get? item.id = none := by
      apply Table.get?_eq_none.mpr
      intro other hother hsame
      rw [List.map_append, List.map_cons, List.nodup_append] at h
      exact h.2.2 _ (List.mem_map_of_mem hother) _ List.mem_cons_self hsame
    have hrows : (index.put item).rows = index.rows ++ [item] := by
      rw [Table.put_eq_insert hfree, Table.rows_insert]
    rw [List.foldl_cons, ih, hrows, List.append_assoc]
    · rfl
    · rw [hrows, List.append_assoc]
      exact h

theorem ids_entries (bundle : ContextBundle) :
    bundle.entries.map IndexedBundleItem.id = bundle.items.map (·.candidateId) := by
  unfold ContextBundle.entries ContextBundle.items
  rw [List.map_flatMap, List.map_flatMap]
  congr 1
  funext part
  rw [List.map_map]
  rfl

variable {isTimestamp : String → Bool} {canonical : CanonicalEnv}

/-- The candidates of a valid bundle are all different. -/
theorem nodup_of_valid {bundle : ContextBundle}
    (h : validateContextBundle isTimestamp canonical bundle = true) :
    (bundle.entries.map IndexedBundleItem.id).Nodup := by
  rw [ids_entries]
  unfold validateContextBundle at h
  simp only [Bool.and_eq_true, decide_eq_true_eq] at h
  obtain ⟨⟨⟨⟨⟨⟨⟨⟨⟨-, hids⟩, -⟩, -⟩, -⟩, -⟩, -⟩, -⟩, -⟩, -⟩ := h
  exact hids

theorem rows_indexBundle {bundle : ContextBundle}
    (h : (bundle.entries.map IndexedBundleItem.id).Nodup) :
    (indexBundle bundle).rows = bundle.entries := by
  unfold indexBundle
  rw [foldl_put_rows (by simpa using h), Table.rows_empty, List.nil_append]

theorem mem_candidateIds {before after : Table IndexedBundleItem.id} {candidateId : String} :
    candidateId ∈ candidateIds before after ↔
      (∃ indexed, before.get? candidateId = some indexed) ∨
        ∃ indexed, after.get? candidateId = some indexed := by
  unfold candidateIds
  rw [(sortStrings_perm _).mem_iff, mem_keepFirst_id, List.mem_append, List.mem_map, List.mem_map]
  simp only [Table.get?_eq_some]

theorem nodup_candidateIds (before after : Table IndexedBundleItem.id) :
    (candidateIds before after).Nodup :=
  (sortStrings_perm _).nodup_iff.mpr (nodup_keepFirst_id _)

/-- Both directions go through the candidates in one order. -/
theorem candidateIds_comm (before after : Table IndexedBundleItem.id) :
    candidateIds before after = candidateIds after before := by
  unfold candidateIds
  apply sortStrings_eq_of_perm
  apply (List.perm_ext_iff_of_nodup (nodup_keepFirst_id _) (nodup_keepFirst_id _)).mpr
  intro candidateId
  rw [mem_keepFirst_id, mem_keepFirst_id, List.mem_append, List.mem_append, or_comm]

/-! ## Reasons -/

/-- Two of a candidate that differ in their search matches at most. -/
def SameButMatches (before after : IndexedBundleItem) : Prop :=
  { before with item := { before.item with searchMatches := after.item.searchMatches } } = after

theorem changeReasons_eq_nil {before after : IndexedBundleItem} (h : before.id = after.id) :
    changeReasons before after = [] ↔ SameButMatches before after := by
  unfold changeReasons SameButMatches
  simp only [List.append_eq_nil_iff, ite_eq_right_iff, List.cons_ne_nil, imp_false, not_not,
    not_or, canonical_evidence_iff, ne_eq]
  obtain ⟨section₁, item₁⟩ := before
  obtain ⟨section₂, item₂⟩ := after
  cases item₁
  cases item₂
  simp only [IndexedBundleItem.id] at h
  simp only [IndexedBundleItem.mk.injEq, ContextBundleItem.mk.injEq, h]
  tauto

theorem changeReasons_comm (before after : IndexedBundleItem) :
    changeReasons before after = changeReasons after before := by
  unfold changeReasons
  simp only [ne_comm, or_comm]

def ContextBundleDiffChange.swap (change : ContextBundleDiffChange) : ContextBundleDiffChange :=
  ⟨change.after, change.before, change.reasons⟩

theorem changedOf_swap (before after : Table IndexedBundleItem.id) (candidateId : String) :
    changedOf after before candidateId =
      (changedOf before after candidateId).map ContextBundleDiffChange.swap := by
  unfold changedOf
  cases before.get? candidateId with
  | none => cases after.get? candidateId <;> rfl
  | some previous =>
    cases after.get? candidateId with
    | none => rfl
    | some next =>
      by_cases hsame : previous = next
      · simp [hsame]
      · simp [hsame, Ne.symm hsame, ContextBundleDiffChange.swap, changeReasons_comm next previous]

/-! ## Classes -/

/-- The candidates of a diff, class by class. -/
def ContextBundleDiff.ids (diff : ContextBundleDiff) : List String :=
  diff.added.map (·.candidateId) ++ diff.removed.map (·.candidateId) ++
    diff.changed.map (·.before.candidateId) ++ diff.unchanged.map (·.candidateId)

theorem unchangedOf_some {before after : Table IndexedBundleItem.id} {candidateId : String}
    {found : ContextBundleDiffItem} :
    unchangedOf before after candidateId = some found ↔
      ∃ indexed, before.get? candidateId = some indexed ∧
        after.get? candidateId = some indexed ∧ toDiffItem indexed = found := by
  unfold unchangedOf
  constructor
  · intro h
    split at h
    · next previous next hbefore hafter =>
      split at h
      · next hsame =>
        cases h
        exact ⟨next, hsame ▸ hbefore, hafter, rfl⟩
      · cases h
    · cases h
  · rintro ⟨indexed, hbefore, hafter, rfl⟩
    simp only [hbefore, hafter, if_true]

/-- Every candidate of either side is in one class. -/
theorem perm_classes (before after : Table IndexedBundleItem.id) {ids : List String}
    (h : ∀ id ∈ ids, (∃ indexed, before.get? id = some indexed) ∨
      ∃ indexed, after.get? id = some indexed) :
    ((ids.filterMap (addedOf before after)).map (·.candidateId) ++
      (ids.filterMap (addedOf after before)).map (·.candidateId) ++
      (ids.filterMap (changedOf before after)).map (·.before.candidateId) ++
      (ids.filterMap (unchangedOf before after)).map (·.candidateId)).Perm ids := by
  induction ids with
  | nil => exact List.Perm.nil
  | cons id rest ih =>
    have htail := ih fun other hother => h other (List.mem_cons_of_mem _ hother)
    have hhere := h id List.mem_cons_self
    simp only [List.filterMap_cons]
    cases hbefore : before.get? id with
    | none =>
      cases hafter : after.get? id with
      | none => simp [hbefore, hafter] at hhere
      | some next =>
        have hid := (Table.get?_eq_some.mp hafter).2
        simp only [addedOf, changedOf, unchangedOf, hbefore, hafter, List.map_cons,
          List.cons_append]
        exact hid ▸ htail.cons _
    | some previous =>
      have hid := (Table.get?_eq_some.mp hbefore).2
      cases hafter : after.get? id with
      | none =>
        simp only [addedOf, changedOf, unchangedOf, hbefore, hafter, List.map_cons,
          List.append_assoc, List.cons_append]
        simp only [List.append_assoc] at htail
        exact List.perm_middle.trans (hid ▸ htail.cons _)
      | some next =>
        have hid' := (Table.get?_eq_some.mp hafter).2
        by_cases hsame : previous = next
        · simp only [addedOf, changedOf, unchangedOf, hbefore, hafter, if_pos hsame, List.map_cons]
          exact List.perm_middle.trans (hid' ▸ htail.cons _)
        · simp only [addedOf, changedOf, unchangedOf, hbefore, hafter, if_neg hsame,
            List.map_cons, List.append_assoc, List.cons_append]
          simp only [List.append_assoc] at htail
          rw [← List.append_assoc] at htail ⊢
          exact List.perm_middle.trans (hid ▸ htail.cons _)

/-! ## The claim of a diff -/

/-- What the diff of two bundles, and that of the same two the other way round, say of them. -/
structure Explains (fromBundle toBundle : ContextBundle) (diff back : ContextBundleDiff) :
    Prop where
  /-- Each candidate of either bundle is in exactly one class, and nothing else is. -/
  once : diff.ids.Nodup ∧ ∀ candidateId, candidateId ∈ diff.ids ↔
    candidateId ∈ fromBundle.items.map (·.candidateId) ∨
      candidateId ∈ toBundle.items.map (·.candidateId)
  unchanged : ∀ candidateId, candidateId ∈ diff.unchanged.map (·.candidateId) ↔
    ∃ indexed, indexed ∈ fromBundle.entries ∧ indexed ∈ toBundle.entries ∧
      indexed.id = candidateId
  reasoned : ∀ change ∈ diff.changed, change.reasons ≠ []
  added : back.added = diff.removed
  removed : back.removed = diff.added
  changed : back.changed = diff.changed.map ContextBundleDiffChange.swap

/-- No candidate of both bundles differs in nothing but its search matches. -/
def NoSilentChange (fromBundle toBundle : ContextBundle) : Prop :=
  ∀ before ∈ fromBundle.entries, ∀ after ∈ toBundle.entries, SameButMatches before after →
    before = after

variable {fromBundle toBundle : ContextBundle}

/-- The diff of bundles that may be compared. -/
def diffOf (fromBundle toBundle : ContextBundle) : ContextBundleDiff :=
  let before := indexBundle fromBundle
  let after := indexBundle toBundle
  let ids := candidateIds before after
  { fromSnapshotId := fromBundle.snapshotId
    toSnapshotId := toBundle.snapshotId
    summary := ⟨(ids.filterMap (addedOf before after)).length,
      (ids.filterMap (addedOf after before)).length,
      (ids.filterMap (changedOf before after)).length,
      (ids.filterMap (unchangedOf before after)).length⟩
    added := ids.filterMap (addedOf before after)
    removed := ids.filterMap (addedOf after before)
    changed := ids.filterMap (changedOf before after)
    unchanged := ids.filterMap (unchangedOf before after) }

theorem diffContextBundles_eq
    (hfrom : validateContextBundle isTimestamp canonical fromBundle = true)
    (hto : validateContextBundle isTimestamp canonical toBundle = true)
    (hscope : authorizationScope fromBundle = authorizationScope toBundle) :
    diffContextBundles isTimestamp canonical fromBundle toBundle =
      .ok (diffOf fromBundle toBundle) := by
  unfold diffContextBundles
  rw [hfrom, hto, hscope]
  simp only [decide_true, throwUnless_true, foldl_classifyCandidate, List.nil_append]
  rfl

theorem get?_indexBundle {bundle : ContextBundle}
    (h : (bundle.entries.map IndexedBundleItem.id).Nodup) {candidateId : String}
    {indexed : IndexedBundleItem} :
    (indexBundle bundle).get? candidateId = some indexed ↔
      indexed ∈ bundle.entries ∧ indexed.id = candidateId := by
  rw [Table.get?_eq_some, rows_indexBundle h]

theorem mem_changed {before after : Table IndexedBundleItem.id} {ids : List String}
    {change : ContextBundleDiffChange} :
    change ∈ ids.filterMap (changedOf before after) ↔
      ∃ candidateId ∈ ids, ∃ previous next, before.get? candidateId = some previous ∧
        after.get? candidateId = some next ∧ previous ≠ next ∧
        change = ⟨toDiffItem previous, toDiffItem next, changeReasons previous next⟩ := by
  rw [List.mem_filterMap]
  constructor
  · rintro ⟨candidateId, hid, hchange⟩
    unfold changedOf at hchange
    split at hchange
    · next previous next hbefore hafter =>
      split at hchange
      · cases hchange
      · next hdiffer =>
        cases hchange
        exact ⟨candidateId, hid, previous, next, hbefore, hafter, hdiffer, rfl⟩
    · cases hchange
  · rintro ⟨candidateId, hid, previous, next, hbefore, hafter, hdiffer, rfl⟩
    refine ⟨candidateId, hid, ?_⟩
    unfold changedOf
    simp only [hbefore, hafter, if_neg hdiffer]

/-- Changes have reasons exactly when no candidate changes in its search matches alone. -/
theorem reasoned_iff (hfrom : (fromBundle.entries.map IndexedBundleItem.id).Nodup)
    (hto : (toBundle.entries.map IndexedBundleItem.id).Nodup) :
    (∀ change ∈ (diffOf fromBundle toBundle).changed, change.reasons ≠ []) ↔
      NoSilentChange fromBundle toBundle := by
  constructor
  · intro hreasoned before hbefore after hafter hsame
    by_contra hdiffer
    have hid : before.id = after.id := by
      rw [← hsame]
      rfl
    have hget := (get?_indexBundle hfrom).mpr ⟨hbefore, rfl⟩
    have hget' := (get?_indexBundle hto).mpr ⟨hafter, hid.symm⟩
    have hmem : before.id ∈ candidateIds (indexBundle fromBundle) (indexBundle toBundle) :=
      mem_candidateIds.mpr (.inl ⟨before, hget⟩)
    apply hreasoned _ (mem_changed.mpr ⟨before.id, hmem, before, after, hget, hget', hdiffer, rfl⟩)
    exact (changeReasons_eq_nil hid).mpr hsame
  · intro hsilent change hchange
    obtain ⟨candidateId, -, previous, next, hget, hget', hdiffer, rfl⟩ := mem_changed.mp hchange
    obtain ⟨hbefore, hid⟩ := (get?_indexBundle hfrom).mp hget
    obtain ⟨hafter, hid'⟩ := (get?_indexBundle hto).mp hget'
    intro hreasons
    have hsame := (changeReasons_eq_nil (hid.trans hid'.symm)).mp hreasons
    exact hdiffer (hsilent previous hbefore next hafter hsame)

theorem carried_iff {bundle : ContextBundle}
    (h : (bundle.entries.map IndexedBundleItem.id).Nodup) {candidateId : String} :
    (∃ indexed, (indexBundle bundle).get? candidateId = some indexed) ↔
      candidateId ∈ bundle.items.map (·.candidateId) := by
  simp only [get?_indexBundle h]
  rw [← ids_entries, List.mem_map]

theorem perm_ids (fromBundle toBundle : ContextBundle) :
    (diffOf fromBundle toBundle).ids.Perm
      (candidateIds (indexBundle fromBundle) (indexBundle toBundle)) :=
  perm_classes _ _ fun _ hid => mem_candidateIds.mp hid

theorem unchanged_iff (hfrom : (fromBundle.entries.map IndexedBundleItem.id).Nodup)
    (hto : (toBundle.entries.map IndexedBundleItem.id).Nodup) (candidateId : String) :
    candidateId ∈ (diffOf fromBundle toBundle).unchanged.map (·.candidateId) ↔
      ∃ indexed, indexed ∈ fromBundle.entries ∧ indexed ∈ toBundle.entries ∧
        indexed.id = candidateId := by
  rw [List.mem_map]
  constructor
  · rintro ⟨found, hfound, rfl⟩
    obtain ⟨id, -, hunchanged⟩ := List.mem_filterMap.mp hfound
    obtain ⟨indexed, hget, hget', rfl⟩ := unchangedOf_some.mp hunchanged
    exact ⟨indexed, ((get?_indexBundle hfrom).mp hget).1, ((get?_indexBundle hto).mp hget').1, rfl⟩
  · rintro ⟨indexed, hbefore, hafter, rfl⟩
    have hget := (get?_indexBundle hfrom).mpr ⟨hbefore, rfl⟩
    have hget' := (get?_indexBundle hto).mpr ⟨hafter, rfl⟩
    refine ⟨toDiffItem indexed, List.mem_filterMap.mpr ⟨indexed.id, ?_, ?_⟩, rfl⟩
    · exact mem_candidateIds.mpr (.inl ⟨indexed, hget⟩)
    · exact unchangedOf_some.mpr ⟨indexed, hget, hget', rfl⟩

/-- Of bundles whose candidates are all different. -/
theorem explains_iff (hfrom : (fromBundle.entries.map IndexedBundleItem.id).Nodup)
    (hto : (toBundle.entries.map IndexedBundleItem.id).Nodup) :
    Explains fromBundle toBundle (diffOf fromBundle toBundle) (diffOf toBundle fromBundle) ↔
      NoSilentChange fromBundle toBundle := by
  have hback := candidateIds_comm (indexBundle toBundle) (indexBundle fromBundle)
  constructor
  · intro hexplains
    exact (reasoned_iff hfrom hto).mp hexplains.reasoned
  · intro hsilent
    constructor
    · refine ⟨(perm_ids _ _).nodup_iff.mpr (nodup_candidateIds _ _), fun candidateId => ?_⟩
      rw [(perm_ids _ _).mem_iff, mem_candidateIds, carried_iff hfrom, carried_iff hto]
    · exact unchanged_iff hfrom hto
    · exact (reasoned_iff hfrom hto).mpr hsilent
    · unfold diffOf
      simp only [hback]
    · unfold diffOf
      simp only [hback]
    · unfold diffOf
      simp only [hback]
      rw [List.map_filterMap]
      congr 1
      funext candidateId
      exact changedOf_swap _ _ _

/-- The diff of two valid bundles of one authorization scope explains what changed exactly when
no candidate changed in its search matches alone. -/
theorem bundle_diff_explains_iff
    (hfrom : validateContextBundle isTimestamp canonical fromBundle = true)
    (hto : validateContextBundle isTimestamp canonical toBundle = true)
    (hscope : authorizationScope fromBundle = authorizationScope toBundle) :
    (∃ diff back, diffContextBundles isTimestamp canonical fromBundle toBundle = .ok diff ∧
      diffContextBundles isTimestamp canonical toBundle fromBundle = .ok back ∧
      Explains fromBundle toBundle diff back) ↔ NoSilentChange fromBundle toBundle := by
  have hthere := diffContextBundles_eq hfrom hto hscope
  have hback := diffContextBundles_eq hto hfrom hscope.symm
  rw [← explains_iff (nodup_of_valid hfrom) (nodup_of_valid hto)]
  constructor
  · rintro ⟨diff, back, hdiff, hdiff', hexplains⟩
    cases hthere.symm.trans hdiff
    cases hback.symm.trans hdiff'
    exact hexplains
  · intro hexplains
    exact ⟨_, _, hthere, hback, hexplains⟩

/-! ## A message found in another way -/

def paidReference : EvidenceReference where
  eventId := "e1"
  source := "mail"
  externalId := "m1"
  operation := .create
  occurredAt := "2026-01-05T09:00:00.000Z"

/-- A message of four letters, found by its text or in another way. -/
def paidItem (text : String) (via : SearchVia) : ContextBundleItem where
  candidateId := "event:e1"
  resourceId := "e1"
  kind := .event
  text := some text
  searchMatches := some
    [{ kind := .message
       via := [via]
       snippet := some text
       start := some 0
       finish := some 4 }]
  evidence := [paidReference]
  estimatedTokens := 3

def paidLedger : ContextBudgetLedger where
  profile := "default"
  maxTokens := 100
  maxItems := 10
  maxRawEvidence := 5
  requestedTokens := 3
  selectedTokens := 3
  reservedTokens := 0
  selectedItems := 1
  truncatedItems := 0
  sections := [⟨.evidence, 3, 3, 0, 1, 0⟩]

def paidBundle (text : String) (via : SearchVia) (snapshotId contentHash : String) :
    ContextBundle where
  schemaVersion := "2.0"
  orgId := "org-1"
  principal := { actorType := .human, actorId := "ana" }
  consumerId := "desk"
  purpose := "answer"
  allowedUses := [.reason]
  sections := [{ kind := .evidence, items := [paidItem text via], tokens := 3 }]
  citations := [paidReference]
  conflicts := []
  redactions := []
  budgetLedger := paidLedger
  degradationFlags := []
  snapshotId := snapshotId
  contentHash := contentHash

def paidByText : ContextBundle := paidBundle "paid" .text "context-snapshot:1"
  "1fc1f38d2aa8f7fe515fe7202035ff2b226070756d936dfdae4aa14abafd0392"

def paidByMeaning : ContextBundle := paidBundle "paid" .semantic "context-snapshot:2"
  "022efc7bd83300b6dcba49fc33f353d4ea69b8434ff634cbf1e681c2e2d6004a"

def sentByText : ContextBundle := paidBundle "sent" .text "context-snapshot:3"
  "0d17c80134f1f26fa4a3f821536184f374dc8226f4c8653ef888feac5594c312"

/-- The digests of these bundles. -/
def paidDigests : CanonicalEnv where
  evidenceJson evidence := Json.canonical (evidenceJson evidence)
  snapshotDigest _ := ""
  bundleDigest bundle :=
    (([paidByText, paidByMeaning, sentByText].find? fun known =>
      { known with contentHash := "" } = bundle).map (·.contentHash)).getD ""
  payloadDigest _ := ""
  validSnapshot _ := true
  validBundle _ := true

theorem paid_valid : ∀ bundle ∈ [paidByText, paidByMeaning, sentByText],
    validateContextBundle (· ≠ "") paidDigests bundle = true := by
  decide +kernel

/-- Another text of the message is explained. -/
theorem bundle_diff_explains_iff_sent :
    ∃ diff back, diffContextBundles (· ≠ "") paidDigests paidByText sentByText = .ok diff ∧
      diffContextBundles (· ≠ "") paidDigests sentByText paidByText = .ok back ∧
      Explains paidByText sentByText diff back := by
  apply (bundle_diff_explains_iff (paid_valid paidByText (by simp))
    (paid_valid sentByText (by simp)) rfl).mpr
  intro before hbefore after hafter hsame
  obtain rfl : before = ⟨.evidence, paidItem "paid" .text⟩ := List.mem_singleton.mp hbefore
  obtain rfl : after = ⟨.evidence, paidItem "sent" .text⟩ := List.mem_singleton.mp hafter
  exact absurd (congrArg (·.item.text) hsame) (by decide)

/-- A message that is found by its meaning and no longer by its text has changed, for no reason
that is given. -/
theorem other_match_changes_silently :
    ¬ ∀ (isTimestamp : String → Bool) (canonical : CanonicalEnv)
        (fromBundle toBundle : ContextBundle),
      validateContextBundle isTimestamp canonical fromBundle = true →
      validateContextBundle isTimestamp canonical toBundle = true →
      authorizationScope fromBundle = authorizationScope toBundle →
      ∃ diff back, diffContextBundles isTimestamp canonical fromBundle toBundle = .ok diff ∧
        diffContextBundles isTimestamp canonical toBundle fromBundle = .ok back ∧
        Explains fromBundle toBundle diff back := by
  intro hclaim
  have hfrom := paid_valid paidByText (by simp)
  have hto := paid_valid paidByMeaning (by simp)
  obtain ⟨diff, back, hdiff, -, hexplains⟩ := hclaim (· ≠ "") paidDigests paidByText paidByMeaning
    hfrom hto rfl
  cases (diffContextBundles_eq hfrom hto rfl).symm.trans hdiff
  have hsilent := (reasoned_iff (nodup_of_valid hfrom) (nodup_of_valid hto)).mp hexplains.reasoned
  have hsame := hsilent ⟨.evidence, paidItem "paid" .text⟩ List.mem_cons_self
    ⟨.evidence, paidItem "paid" .semantic⟩ List.mem_cons_self rfl
  exact absurd hsame (by decide)

end Regenic.Context.Assembly
