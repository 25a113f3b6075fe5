import Regenic.Customer.Windows

/-!
What a task is put with after a conversation was read: items merged by their key, and evidence
and continuations that the store finds valid.
-/

namespace Regenic.Customer

open Lib
open Context (AuthorityEvent)

/-! ## Shown texts -/

theorem nonBlank_iff {text : String} :
    nonBlank text = true ↔ ∃ c ∈ text.toList, isJsSpace c = false := by
  have hempty : jsTrim text = "" ↔ ∀ c ∈ text.toList, isJsSpace c = true := by
    have hchars : jsTrim text = "" ↔ trimChars text.toList = [] := by
      unfold jsTrim
      constructor
      · intro h
        have hlist := congrArg String.toList h
        rwa [String.toList_ofList] at hlist
      · intro h
        rw [h]
    rw [hchars]
    unfold trimChars
    rw [List.reverse_eq_nil_iff, List.dropWhile_eq_nil_iff]
    constructor
    · intro hall c hc
      have hkept : text.toList.dropWhile isJsSpace = [] := by
        by_contra hne
        have hhead := List.dropWhile_get_zero_not isJsSpace text.toList
          (List.length_pos_iff.mpr hne)
        exact hhead (hall _ (by simp))
      exact List.dropWhile_eq_nil_iff.mp hkept c hc
    · intro hall c hc
      exact hall c ((List.dropWhile_sublist _).subset (by simpa using hc))
  unfold nonBlank
  rw [decide_eq_true_eq, Ne, hempty]
  simp

theorem nonBlank_append {first : String} (h : nonBlank first = true) (second : String) :
    nonBlank (first ++ second) = true := by
  obtain ⟨c, hc, hshown⟩ := nonBlank_iff.mp h
  refine nonBlank_iff.mpr ⟨c, ?_, hshown⟩
  rw [String.toList_append]
  exact List.mem_append_left _ hc

theorem nonBlank_jsTrim {text : String} (h : jsTrim text ≠ "") :
    nonBlank (jsTrim text) = true := by
  unfold nonBlank
  rw [jsTrim_jsTrim]
  exact decide_eq_true h

theorem present_jsTrim_shown {text : Option String} {shown : String}
    (h : present (text.map jsTrim) = some shown) : nonBlank shown = true := by
  obtain ⟨hsome, hne⟩ := present_some.mp h
  obtain ⟨raw, -, rfl⟩ := Option.map_eq_some_iff.mp hsome
  exact nonBlank_jsTrim hne

/-! ## Merging -/

section Merging

variable {α : Type} {key : α → String}

/-- One item of `mergeByKey`. -/
def mergeItem (key : α → String) (merged : List α) (item : α) : List α :=
  if merged.any fun other => key other = key item then
    merged.map fun other => if key other = key item then item else other
  else merged ++ [item]

theorem mergeByKey_cons (key : α → String) (current : List α) (item : α) (added : List α) :
    mergeByKey key current (item :: added) = mergeByKey key (mergeItem key current item) added :=
  rfl

theorem mem_mergeItem {merged : List α} {item other : α}
    (h : other ∈ mergeItem key merged item) : other = item ∨ other ∈ merged := by
  unfold mergeItem at h
  split at h
  · obtain ⟨old, hold, hsame⟩ := List.mem_map.mp h
    split at hsame
    · exact .inl hsame.symm
    · exact .inr (hsame ▸ hold)
  · rcases List.mem_append.mp h with hold | hnew
    · exact .inr hold
    · exact .inl (List.mem_singleton.mp hnew)

theorem mem_mergeByKey {current added : List α} {other : α}
    (h : other ∈ mergeByKey key current added) : other ∈ current ∨ other ∈ added := by
  induction added generalizing current with
  | nil => exact .inl h
  | cons item added ih =>
    rw [mergeByKey_cons] at h
    rcases ih h with hcurrent | hadded
    · rcases mem_mergeItem hcurrent with rfl | hold
      · exact .inr List.mem_cons_self
      · exact .inl hold
    · exact .inr (List.mem_cons_of_mem _ hadded)

theorem keys_mergeItem (merged : List α) (item : α) :
    (mergeItem key merged item).map key =
      if key item ∈ merged.map key then merged.map key else merged.map key ++ [key item] := by
  unfold mergeItem
  by_cases hin : key item ∈ merged.map key
  · obtain ⟨old, hold, hkey⟩ := List.mem_map.mp hin
    have hany : (merged.any fun other => decide (key other = key item)) = true :=
      List.any_eq_true.mpr ⟨old, hold, by simpa using hkey⟩
    rw [if_pos hany, if_pos hin, List.map_map]
    apply List.map_congr_left
    intro other _
    simp only [Function.comp_apply]
    split
    · next hsame => exact hsame.symm
    · rfl
  · have hany : ¬(merged.any fun other => decide (key other = key item)) = true := by
      intro hany
      obtain ⟨old, hold, hkey⟩ := List.any_eq_true.mp hany
      exact hin (List.mem_map.mpr ⟨old, hold, by simpa using hkey⟩)
    rw [if_neg hany, if_neg hin, List.map_append, List.map_singleton]

theorem nodup_mergeByKey {current : List α} (added : List α) (h : (current.map key).Nodup) :
    ((mergeByKey key current added).map key).Nodup := by
  induction added generalizing current with
  | nil => exact h
  | cons item added ih =>
    rw [mergeByKey_cons]
    apply ih
    rw [keys_mergeItem]
    split
    · exact h
    · next hout =>
      apply List.Nodup.append h (List.nodup_singleton _)
      intro k hk hitem
      obtain rfl := List.mem_singleton.mp hitem
      exact hout hk

theorem mem_mergeItem_self (merged : List α) (item : α) : item ∈ mergeItem key merged item := by
  unfold mergeItem
  split
  · next hany =>
    obtain ⟨old, hold, hkey⟩ := List.any_eq_true.mp hany
    exact List.mem_map.mpr ⟨old, hold, if_pos (by simpa using hkey)⟩
  · exact List.mem_append_right _ List.mem_cons_self

/-- An item stays where none of its key is added. -/
theorem mem_mergeByKey_of_absent {merged added : List α} {item : α} (h : item ∈ merged)
    (habsent : key item ∉ added.map key) : item ∈ mergeByKey key merged added := by
  induction added generalizing merged with
  | nil => exact h
  | cons next rest ih =>
    rw [List.map_cons, List.mem_cons, not_or] at habsent
    rw [mergeByKey_cons]
    apply ih _ habsent.2
    unfold mergeItem
    split
    · exact List.mem_map.mpr ⟨item, h, if_neg habsent.1⟩
    · exact List.mem_append_left _ h

theorem mem_mergeByKey_added {current added : List α} (hadded : (added.map key).Nodup) {item : α}
    (hitem : item ∈ added) : item ∈ mergeByKey key current added := by
  induction added generalizing current with
  | nil => cases hitem
  | cons first rest ih =>
    rw [List.map_cons, List.nodup_cons] at hadded
    rw [mergeByKey_cons]
    rcases List.mem_cons.mp hitem with rfl | hin
    · exact mem_mergeByKey_of_absent (mem_mergeItem_self current item) hadded.1
    · exact ih hadded.2 hin

/-- An item that was added under a key of its own is found under it. -/
theorem find?_mergeByKey {current added : List α} (hnodup : (current.map key).Nodup)
    (hadded : (added.map key).Nodup) {item : α} (hitem : item ∈ added) :
    (mergeByKey key current added).find? (fun other => key other = key item) = some item := by
  have hmem := @mem_mergeByKey_added _ _ current _ hadded _ hitem
  have hkeys := nodup_mergeByKey added hnodup
  generalize mergeByKey key current added = merged at hmem hkeys
  cases hfind : merged.find? fun other => decide (key other = key item) with
  | none =>
    have hnone := List.find?_eq_none.mp hfind item hmem
    simp at hnone
  | some found =>
    have hsame : key found = key item := by simpa using List.find?_some hfind
    have hfound := List.mem_of_find?_eq_some hfind
    exact congrArg some (List.inj_on_of_nodup_map hkeys hfound hmem hsame)

/-- A continuation that was added under a handle of its own is found by it. -/
theorem find?_mergeContinuations {dateParse : DateParse}
    (current : List CustomerContextContinuation) {added : List CustomerContextContinuation}
    (hadded : (added.map (·.handle)).Nodup) (now : String)
    {continuation : CustomerContextContinuation} (h : continuation ∈ added) :
    (mergeContinuations dateParse current added now).find?
      (fun item => item.handle = continuation.handle) = some continuation := by
  have hcurrent : ((mergeByKey (fun item : CustomerContextContinuation => item.handle) []
      (current.filter fun item => isLive dateParse item.expiresAt now)).map
        fun item => item.handle).Nodup :=
    nodup_mergeByKey _ List.nodup_nil
  exact find?_mergeByKey hcurrent hadded h

end Merging

/-! ## The task that is put -/

section Validity

variable {store : ThreadStore} {threadId snapshotId : String} {thread : CurrentThread}
  {reason : ContextSelectionReason} {events : List AuthorityEvent}

theorem messageText_hash {event : AuthorityEvent} {text : String}
    (h : messageText store event = .ok (some text)) :
    nonBlank text = true ∧ isContentHash (event.contentHash.getD "") = true := by
  unfold messageText at h
  split at h
  · next contentHash mediaType hhash _ =>
    split at h
    · cases h
    · next bytes hbytes =>
      split at h
      · cases h
      · next body _ =>
        have hdigest := Option.filter_eq_some_iff.mp hbytes
        obtain ⟨hsome, -⟩ := present_some.mp hhash
        have hshape := store.digest_shape bytes
        rw [of_decide_eq_true hdigest.2] at hshape
        rw [hsome]
        exact ⟨present_jsTrim_shown (Except.ok.inj h), hshape⟩
  · cases h

theorem stringAttribute_shown {attrs : Option JsonValue} {key : String} :
    optionalText (stringAttribute attrs key) = true := by
  unfold optionalText
  cases hattr : stringAttribute attrs key with
  | none => rfl
  | some text =>
    rw [Option.all_some]
    exact present_jsTrim_shown hattr

/-- The evidence of messages of a conversation is valid. -/
theorem materializeEvidence_valid (hthread : currentThread store threadId = .ok thread)
    (hevents : ∀ event ∈ events, event ∈ thread.events) (hsnapshot : nonBlank snapshotId = true)
    {evidence : List CustomerContextEvidence}
    (h : materializeEvidence store events snapshotId reason = .ok evidence) :
    ∀ item ∈ evidence, validContextEvidence store.options.dateParse item = true := by
  obtain ⟨hblank, -, -, hvalid⟩ := currentThread_spec hthread
  unfold materializeEvidence at h
  obtain ⟨made, hmade, h⟩ := sequence_ok h
  cases h
  intro item hitem
  obtain ⟨entry, hentry, hsome⟩ := List.mem_filterMap.mp hitem
  obtain rfl : entry = some item := hsome
  obtain ⟨event, hevent, hfrom⟩ := exists_of_mem_mapM hmade hentry
  unfold evidenceOf at hfrom
  obtain ⟨text, htext, hfrom⟩ := sequence_ok hfrom
  cases text with
  | none => cases hfrom
  | some text =>
    cases hfrom
    obtain ⟨hshown, hhash⟩ := messageText_hash htext
    obtain ⟨hthreadId, hid, hsource, htime⟩ := hvalid event (hevents event hevent)
    have htext : text ≠ "" := by
      rintro rfl
      exact absurd hshown (by decide)
    have hreply : optionalText ((replyTarget events event).map (·.id)) = true := by
      cases htarget : replyTarget events event with
      | none => rfl
      | some target =>
        unfold replyTarget at htarget
        obtain ⟨_, -, hfind⟩ := Option.bind_eq_some_iff.mp htarget
        rw [Option.map_some, optionalText, Option.all_some]
        exact (hvalid target (hevents target (List.mem_of_find?_eq_some hfind))).2.1
    have hcitation : nonBlank (contextCitation store event.id (event.contentHash.getD "")) = true :=
      nonBlank_append (by decide) _
    have hthreadShown : nonBlank threadId = true := decide_eq_true hblank
    simp [validContextEvidence, hcitation, hsnapshot, hid, hhash, hsource, hthreadId, htime, htext,
      stringAttribute_shown, hreply, hthreadShown]

theorem validTask_of_ok {dateParse : DateParse} {task : CustomerServiceTask}
    (h : validateCustomerServiceTask dateParse task = .ok task) :
    validTask dateParse task = true := by
  unfold validateCustomerServiceTask at h
  by_contra hnot
  rw [if_pos (by simpa using hnot)] at h
  cases h

/-- A task with more evidence and other continuations is valid. -/
theorem validate_reading {dateParse : DateParse} {task : CustomerServiceTask}
    (hvalid : validateCustomerServiceTask dateParse task = .ok task) {now : String}
    (mergedAt : String)
    (hnow : validTimestamp dateParse now = true)
    (hreceived : ¬now < task.brief.source.receivedAt) (hcreated : ¬now < task.createdAt)
    {evidence : List CustomerContextEvidence}
    (hevidence : ∀ item ∈ evidence, validContextEvidence dateParse item = true)
    {added : List CustomerContextContinuation}
    (hadded : ∀ item ∈ added, validContinuation dateParse item = true)
    (kept : CustomerContextContinuation → Bool) :
    validateCustomerServiceTask dateParse
        { task with
          contextEvidence := mergeContextEvidence task.contextEvidence evidence
          continuations := mergeContinuations dateParse (task.continuations.filter kept) added
            mergedAt
          revision := task.revision + 1
          updatedAt := now } =
      .ok { task with
          contextEvidence := mergeContextEvidence task.contextEvidence evidence
          continuations := mergeContinuations dateParse (task.continuations.filter kept) added
            mergedAt
          revision := task.revision + 1
          updatedAt := now } := by
  have htask := validTask_of_ok hvalid
  simp only [validTask, Bool.and_eq_true, decide_eq_true_eq, List.all_eq_true] at htask
  obtain ⟨⟨⟨⟨⟨⟨⟨⟨⟨⟨⟨⟨hid, horg⟩, hrevision⟩, hcreatedAt⟩, -⟩, hbrief⟩, hknown⟩, -⟩, hgoing⟩, -⟩,
    hbusiness⟩, hqueries⟩, hdraft⟩ := htask
  have hmergedEvidence : ∀ item ∈ mergeContextEvidence task.contextEvidence evidence,
      validContextEvidence dateParse item = true := by
    intro item hitem
    have hmem := (List.perm_insertionSort _ _).subset hitem
    rcases mem_mergeByKey hmem with hold | hnew
    · rcases mem_mergeByKey hold with hnil | hold
      · cases hnil
      · exact hknown item hold
    · exact hevidence item hnew
  have hcitations : ((mergeContextEvidence task.contextEvidence evidence).map
      (·.citationId)).Nodup := by
    apply ((List.perm_insertionSort _ _).map _).nodup_iff.mpr
    exact nodup_mergeByKey _ (nodup_mergeByKey _ List.nodup_nil)
  have hmergedGoing : ∀ item ∈ mergeContinuations dateParse (task.continuations.filter kept) added
      mergedAt, validContinuation dateParse item = true := by
    intro item hitem
    rcases mem_mergeByKey hitem with hold | hnew
    · rcases mem_mergeByKey hold with hnil | hold
      · cases hnil
      · exact hgoing item (List.mem_of_mem_filter (List.mem_of_mem_filter hold))
    · exact hadded item hnew
  have hhandles : ((mergeContinuations dateParse (task.continuations.filter kept) added
      mergedAt).map (·.handle)).Nodup :=
    nodup_mergeByKey _ (nodup_mergeByKey _ List.nodup_nil)
  have hnext : validTask dateParse
      { task with
        contextEvidence := mergeContextEvidence task.contextEvidence evidence
        continuations := mergeContinuations dateParse (task.continuations.filter kept) added
          mergedAt
        revision := task.revision + 1
        updatedAt := now } = true := by
    simp only [validTask, Bool.and_eq_true, decide_eq_true_eq, List.all_eq_true]
    refine ⟨⟨⟨⟨⟨⟨⟨⟨⟨⟨⟨⟨hid, horg⟩, by omega⟩, hcreatedAt⟩, hnow⟩, hbrief⟩, hmergedEvidence⟩, ?_⟩,
      hmergedGoing⟩, ?_⟩, hbusiness⟩, hqueries⟩, hdraft⟩
    · simpa [duplicate] using hcitations
    · simpa [duplicate] using hhandles
  unfold validateCustomerServiceTask
  rw [hnext]
  simp [hreceived, hcreated]

end Validity

end Regenic.Customer
