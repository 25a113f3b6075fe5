import Regenic.Context.RequestHash

/-!
What the hash of a request tells: everything but its id, the order of its lists and, of its
timestamps, all but the millisecond that `Date` reads.
-/

namespace Regenic.Context.Canonical

open Lib Ingest
open Assembly (ContextAllowedUse)
open JsValue (IsJson meaning record isJson_record meaning_record_iff meaning_string_iff
  meaning_array_iff meaning_option_iff HoldsJson holdsJson_some holdsJson_map)

/-! ## Requests that are the same -/

/-- `left === right` of two numbers. -/
def SameNumber (left right : JsNumber) : Prop := left.rational? = right.rational?

structure SameBudget (left right : ContextBudget) : Prop where
  profile : left.profile = right.profile
  maxTokens : SameNumber left.maxTokens right.maxTokens
  maxItems : SameNumber left.maxItems right.maxItems
  maxRawEvidence : SameNumber left.maxRawEvidence right.maxRawEvidence
  maxAgeDays : Option.Rel SameNumber left.maxAgeDays right.maxAgeDays
  sectionTokens : Option.Rel (fun tokens tokens' : SectionTokens =>
    List.Forall₂ (Option.Rel SameNumber) tokens.values tokens'.values)
      left.sectionTokens right.sectionTokens

section Same

variable (sameTime : CodeUnits → CodeUnits → Prop)

structure SameFilters (left right : ContextRequestFilters) : Prop where
  sources : Option.Rel List.Perm left.sources right.sources
  threadIds : Option.Rel List.Perm left.threadIds right.threadIds
  actorIds : Option.Rel List.Perm left.actorIds right.actorIds
  occurredAfter : Option.Rel sameTime left.occurredAfter right.occurredAfter
  occurredBefore : Option.Rel sameTime left.occurredBefore right.occurredBefore

def SameTemporal : ContextTemporalSelection → ContextTemporalSelection → Prop
  | .current, .current => True
  | .history validAt, .history validAt' => Option.Rel sameTime validAt validAt'
  | .asOf validAt recordedAt, .asOf validAt' recordedAt' =>
    Option.Rel sameTime validAt validAt' ∧ sameTime recordedAt recordedAt'
  | _, _ => False

/-- Requests that are the same up to their id, the order of their lists and what counts as the
same of two timestamps. -/
structure SameRequest (left right : ContextRequest) : Prop where
  orgId : left.orgId = right.orgId
  principal : left.principal = right.principal
  consumerId : left.consumerId = right.consumerId
  purpose : left.purpose = right.purpose
  allowedUses : left.allowedUses.Perm right.allowedUses
  query : left.query = right.query
  searchKind : left.searchKind = right.searchKind
  anchors : Option.Rel List.Perm left.anchors right.anchors
  filters : Option.Rel (SameFilters sameTime) left.filters right.filters
  temporal : SameTemporal sameTime left.temporal right.temporal
  budget : SameBudget left.budget right.budget
  requestedKinds : Option.Rel List.Perm left.requestedKinds right.requestedKinds

end Same

/-- The instant that a timestamp denotes, with all the digits of its fraction. -/
def instantOf (value : CodeUnits) : Option ℚ := (readTimestamp value).map IsoTimestamp.instant

/-- Two spellings of one instant. -/
def SameInstant (left right : CodeUnits) : Prop := instantOf left = instantOf right

/-- Two timestamps of one `Date`. -/
def SameDate (left right : CodeUnits) : Prop := dateParse left = dateParse right

/-! ## The texts of a request -/

theorem meaning_text_iff {text text' : String} :
    meaning (textValue text) = meaning (textValue text') ↔ text = text' := by
  rw [textValue, textValue, meaning_string_iff, utf16_injective.eq_iff]

theorem meaning_strings_iff {values values' : List CodeUnits} :
    meaning (stringsValue values) = meaning (stringsValue values') ↔ values = values' :=
  meaning_array_iff fun _ _ => meaning_string_iff

theorem meaning_number_iff {x x' : JsNumber} :
    meaning (.number x) = meaning (.number x') ↔ SameNumber x x' := by
  have hinjective : Function.Injective (Option.map Meaning.number) :=
    Option.map_injective fun _ _ => Meaning.number.inj
  exact hinjective.eq_iff

/-- Lists are the same up to their order exactly when they are the same in order. -/
theorem sortNamed_eq_iff {α : Type} {name : α → CodeUnits} (hname : Function.Injective name)
    {values values' : List α} :
    sortNamed name values = sortNamed name values' ↔ values.Perm values' := by
  constructor
  · intro h
    exact (perm_sortNamed values).symm.trans (h ▸ perm_sortNamed values')
  · intro h
    exact sortNamed_eq_of_perm h fun a _ b _ heq => hname heq

theorem meaning_sortedStrings_iff {values values' : List CodeUnits} :
    meaning (stringsValue (sortedStrings values)) =
        meaning (stringsValue (sortedStrings values')) ↔ values.Perm values' := by
  rw [meaning_strings_iff, sortedStrings, sortedStrings, sortNamed_eq_iff Function.injective_id]

/-- Names of an enumeration in order. -/
theorem meaning_sortedNames_iff {α : Type} {name : α → String} (hname : Function.Injective name)
    {values values' : List α} :
    meaning (stringsValue (sortedStrings (values.map fun value => utf16 (name value)))) =
        meaning (stringsValue (sortedStrings (values'.map fun value => utf16 (name value)))) ↔
      values.Perm values' := by
  have hinjective : Function.Injective fun value => utf16 (name value) :=
    utf16_injective.comp hname
  rw [meaning_sortedStrings_iff, List.map_perm_map_iff hinjective]

theorem isJson_strings (values : List CodeUnits) : IsJson (stringsValue values) := by
  change JsValue.JsonItems (values.map JsValue.string)
  induction values with
  | nil => trivial
  | cons value rest ih => exact ⟨trivial, ih⟩

theorem isJson_number {x : JsNumber} (h : integerSchema x = true) : IsJson (.number x) := by
  change x.rational?.isSome = true
  unfold integerSchema at h
  cases hx : x.rational? with
  | none =>
    rw [hx] at h
    cases h
  | some q => rfl

/-! ## The parts of a request -/

theorem actorTypeName_injective : Function.Injective actorTypeName := by
  intro a b h
  cases a <;> cases b <;> first | rfl | simp [actorTypeName] at h

theorem allowedUseName_injective : Function.Injective ContextAllowedUse.name := by
  intro a b h
  cases a <;> cases b <;> first | rfl | simp [ContextAllowedUse.name] at h

theorem searchKindName_injective : Function.Injective ContextSearchKind.name := by
  intro a b h
  cases a <;> cases b <;> first | rfl | simp [ContextSearchKind.name] at h

theorem candidateKindName_injective : Function.Injective ContextCandidateKind.name := by
  intro a b h
  cases a <;> cases b <;> first | rfl | simp [ContextCandidateKind.name] at h

theorem anchorKindName_injective : Function.Injective ContextAnchorKind.name := by
  intro a b h
  cases a <;> cases b <;> first | rfl | simp [ContextAnchorKind.name] at h

/-- No name of a kind has the separator in it. -/
theorem anchorKey_injective : Function.Injective anchorKey := by
  rintro ⟨kind, id⟩ ⟨kind', id'⟩ h
  have hseparator : ∀ kind : ContextAnchorKind, (0 : UInt16) ∉ utf16 kind.name := by
    intro kind
    cases kind <;> decide +kernel
  obtain ⟨hkind, hid⟩ := append_separator_inj (hseparator kind) (hseparator kind') h
  rw [ContextAnchor.mk.injEq]
  exact ⟨anchorKindName_injective (utf16_injective hkind), hid⟩

theorem meaning_actor_iff {actor actor' : ActorRef} :
    meaning (actorValue actor) = meaning (actorValue actor') ↔ actor = actor' := by
  unfold actorValue
  refine Iff.trans (meaning_record_iff rfl (by simp [utf16_injective.eq_iff])) ?_
  simp only [List.map_cons, List.map_nil, Option.bind_some, List.cons.injEq, and_true,
    meaning_text_iff, meaning_string_iff, actorTypeName_injective.eq_iff]
  cases actor
  cases actor'
  rw [ActorRef.mk.injEq]

theorem isJson_actor (actor : ActorRef) : IsJson (actorValue actor) :=
  isJson_record (by simp [utf16_injective.eq_iff])
    ⟨holdsJson_some trivial, holdsJson_some trivial⟩

theorem meaning_anchor_iff {anchor anchor' : ContextAnchor} :
    meaning (anchorValue anchor) = meaning (anchorValue anchor') ↔ anchor = anchor' := by
  unfold anchorValue
  refine Iff.trans (meaning_record_iff rfl (by simp [utf16_injective.eq_iff])) ?_
  simp only [List.map_cons, List.map_nil, Option.bind_some, List.cons.injEq, and_true,
    meaning_text_iff, meaning_string_iff, anchorKindName_injective.eq_iff]
  cases anchor
  cases anchor'
  rw [ContextAnchor.mk.injEq]

theorem isJson_anchor (anchor : ContextAnchor) : IsJson (anchorValue anchor) :=
  isJson_record (by simp [utf16_injective.eq_iff])
    ⟨holdsJson_some trivial, holdsJson_some trivial⟩

theorem meaning_anchors_iff {anchors anchors' : List ContextAnchor} :
    meaning (.array ((sortNamed anchorKey anchors).map anchorValue)) =
        meaning (.array ((sortNamed anchorKey anchors').map anchorValue)) ↔
      anchors.Perm anchors' := by
  rw [meaning_array_iff fun _ _ => meaning_anchor_iff, sortNamed_eq_iff anchorKey_injective]

theorem isJson_anchors (anchors : List ContextAnchor) :
    IsJson (.array (anchors.map anchorValue)) := by
  change JsValue.JsonItems (anchors.map anchorValue)
  induction anchors with
  | nil => trivial
  | cons anchor rest ih => exact ⟨isJson_anchor anchor, ih⟩

/-! ## The budget -/

theorem holdsJson_number {x : Option JsNumber} (h : x.all nonNegativeInteger = true) :
    HoldsJson (x.map .number) := by
  apply holdsJson_map
  intro n hn
  rw [hn, Option.all_some, nonNegativeInteger, Bool.and_eq_true] at h
  exact isJson_number h.1

theorem isJson_sectionTokens {tokens : SectionTokens}
    (h : (tokens.values.all fun value => value.all nonNegativeInteger) = true) :
    IsJson (sectionTokensValue tokens) := by
  simp only [SectionTokens.values, List.all_cons, List.all_nil, Bool.and_eq_true,
    Bool.and_true] at h
  obtain ⟨hpolicy, hmemory, hworking, hfacts, hsummaries, hevidence⟩ := h
  exact isJson_record (by simp [utf16_injective.eq_iff])
    ⟨holdsJson_number hpolicy, holdsJson_number hmemory, holdsJson_number hworking,
      holdsJson_number hfacts, holdsJson_number hsummaries, holdsJson_number hevidence⟩

theorem meaning_sectionTokens_iff {tokens tokens' : SectionTokens}
    (h : (tokens.values.all fun value => value.all nonNegativeInteger) = true)
    (h' : (tokens'.values.all fun value => value.all nonNegativeInteger) = true) :
    meaning (sectionTokensValue tokens) = meaning (sectionTokensValue tokens') ↔
      List.Forall₂ (Option.Rel SameNumber) tokens.values tokens'.values := by
  simp only [SectionTokens.values, List.all_cons, List.all_nil, Bool.and_eq_true,
    Bool.and_true] at h h'
  have hnumber : ∀ {x x' : Option JsNumber}, x.all nonNegativeInteger = true →
      x'.all nonNegativeInteger = true →
        ((x.map .number).bind meaning = (x'.map .number).bind meaning ↔
          Option.Rel SameNumber x x') :=
    fun hx hx' => meaning_option_iff (fun _ _ _ _ => meaning_number_iff) (holdsJson_number hx)
      (holdsJson_number hx')
  obtain ⟨hpolicy, hmemory, hworking, hfacts, hsummaries, hevidence⟩ := h
  obtain ⟨hpolicy', hmemory', hworking', hfacts', hsummaries', hevidence'⟩ := h'
  unfold sectionTokensValue SectionTokens.values
  refine Iff.trans (meaning_record_iff rfl (by simp [utf16_injective.eq_iff])) ?_
  simp only [List.map_cons, List.map_nil, List.cons.injEq, and_true, List.forall₂_cons,
    List.forall₂_nil_left_iff, hnumber hpolicy hpolicy', hnumber hmemory hmemory',
    hnumber hworking hworking', hnumber hfacts hfacts', hnumber hsummaries hsummaries',
    hnumber hevidence hevidence']

/-- What the schema says of the numbers of a budget. -/
structure BudgetNumbers (budget : ContextBudget) : Prop where
  maxTokens : integerSchema budget.maxTokens = true
  maxItems : integerSchema budget.maxItems = true
  maxRawEvidence : integerSchema budget.maxRawEvidence = true
  maxAgeDays : ∀ days ∈ budget.maxAgeDays, integerSchema days = true
  sectionTokens : ∀ tokens ∈ budget.sectionTokens,
    (tokens.values.all fun value => value.all nonNegativeInteger) = true

theorem budgetNumbers {budget : ContextBudget} (h : contextBudgetSchema budget = true) :
    BudgetNumbers budget := by
  simp only [contextBudgetSchema, positiveInteger, nonNegativeInteger, Bool.and_eq_true,
    Option.all_eq_true] at h
  obtain ⟨⟨⟨⟨⟨_, htokens⟩, hitems⟩, hraw⟩, hage⟩, hsections⟩ := h
  exact ⟨htokens.1.1, hitems.1.1, hraw.1.1, fun days hdays => (hage days hdays).1.1,
    fun tokens htokens => by
      have hall := (hsections tokens htokens).1
      simpa only [nonNegativeInteger] using hall⟩

theorem isJson_budget {budget : ContextBudget} (h : BudgetNumbers budget) :
    IsJson (budgetValue budget) :=
  isJson_record (by simp [utf16_injective.eq_iff])
    ⟨holdsJson_some trivial, holdsJson_some (isJson_number h.maxTokens),
      holdsJson_some (isJson_number h.maxItems), holdsJson_some (isJson_number h.maxRawEvidence),
      holdsJson_map fun days hdays => isJson_number (h.maxAgeDays days hdays),
      holdsJson_map fun tokens htokens => isJson_sectionTokens (h.sectionTokens tokens htokens)⟩

theorem meaning_budget_iff {budget budget' : ContextBudget} (h : BudgetNumbers budget)
    (h' : BudgetNumbers budget') :
    meaning (budgetValue budget) = meaning (budgetValue budget') ↔ SameBudget budget budget' := by
  have hage : (budget.maxAgeDays.map JsValue.number).bind meaning =
      (budget'.maxAgeDays.map JsValue.number).bind meaning ↔
        Option.Rel SameNumber budget.maxAgeDays budget'.maxAgeDays :=
    meaning_option_iff (fun _ _ _ _ => meaning_number_iff)
      (holdsJson_map fun days hdays => isJson_number (h.maxAgeDays days hdays))
      (holdsJson_map fun days hdays => isJson_number (h'.maxAgeDays days hdays))
  have hsections : (budget.sectionTokens.map sectionTokensValue).bind meaning =
      (budget'.sectionTokens.map sectionTokensValue).bind meaning ↔
        Option.Rel (fun tokens tokens' : SectionTokens =>
          List.Forall₂ (Option.Rel SameNumber) tokens.values tokens'.values)
            budget.sectionTokens budget'.sectionTokens :=
    meaning_option_iff
      (fun tokens htokens tokens' htokens' => meaning_sectionTokens_iff
        (h.sectionTokens tokens htokens) (h'.sectionTokens tokens' htokens'))
      (holdsJson_map fun tokens htokens => isJson_sectionTokens (h.sectionTokens tokens htokens))
      (holdsJson_map fun tokens htokens => isJson_sectionTokens (h'.sectionTokens tokens htokens))
  unfold budgetValue
  refine Iff.trans (meaning_record_iff rfl (by simp [utf16_injective.eq_iff])) ?_
  simp only [List.map_cons, List.map_nil, Option.bind_some, List.cons.injEq, and_true,
    meaning_string_iff, meaning_number_iff, hage, hsections]
  constructor
  · rintro ⟨hprofile, htokens, hitems, hraw, hage, hsections⟩
    exact ⟨hprofile, htokens, hitems, hraw, hage, hsections⟩
  · rintro ⟨hprofile, htokens, hitems, hraw, hage, hsections⟩
    exact ⟨hprofile, htokens, hitems, hraw, hage, hsections⟩

/-! ## Timestamps in their normal form -/

/-- The normal text of a timestamp. -/
def normalText (value : CodeUnits) : CodeUnits :=
  ((readTimestamp value).map fun timestamp =>
    utf16 (String.ofList (isoText timestamp.time))).getD value

theorem normalizeTimestamp_eq {value : CodeUnits} (h : timestampSchema value = true) :
    normalizeTimestamp value = .ok (normalText value) := by
  obtain ⟨timestamp, hread⟩ := Option.isSome_iff_exists.mp h
  rw [normalizeTimestamp_ok hread, normalText, hread]
  rfl

/-- Timestamps have one normal text exactly when `Date` reads one millisecond from them. -/
theorem normalText_eq_iff {value value' : CodeUnits} (h : timestampSchema value = true)
    (h' : timestampSchema value' = true) :
    normalText value = normalText value' ↔ SameDate value value' := by
  obtain ⟨timestamp, hread⟩ := Option.isSome_iff_exists.mp h
  obtain ⟨timestamp', hread'⟩ := Option.isSome_iff_exists.mp h'
  rw [SameDate, ← isoText_time_iff hread hread', normalText, normalText, hread, hread']
  rfl

theorem timestampSchema_ne_nil {value : CodeUnits} (h : timestampSchema value = true) :
    value ≠ [] := by
  rintro rfl
  cases h

theorem normalizePresent_eq {value : Option CodeUnits} (h : value.all timestampSchema = true) :
    normalizePresent value = .ok (value.map normalText) := by
  cases value with
  | none => rfl
  | some value =>
    rw [normalizePresent, if_neg (timestampSchema_ne_nil h), normalizeTimestamp_eq h]
    rfl

theorem meaning_times_iff {value value' : Option CodeUnits}
    (h : value.all timestampSchema = true) (h' : value'.all timestampSchema = true) :
    ((value.map normalText).map JsValue.string).bind meaning =
        ((value'.map normalText).map JsValue.string).bind meaning ↔
      Option.Rel SameDate value value' := by
  rw [Option.map_map, Option.map_map]
  apply meaning_option_iff
  · intro a ha b hb
    exact meaning_string_iff.trans
      (normalText_eq_iff ((Option.all_eq_true _ _).mp h a ha) ((Option.all_eq_true _ _).mp h' b hb))
  · exact holdsJson_map fun _ _ => trivial
  · exact holdsJson_map fun _ _ => trivial

def ContextTemporalSelection.normal : ContextTemporalSelection → ContextTemporalSelection
  | .current => .current
  | .history validAt => .history (validAt.map normalText)
  | .asOf validAt recordedAt => .asOf (validAt.map normalText) (normalText recordedAt)

theorem normalizeTemporal_eq {temporal : ContextTemporalSelection}
    (h : temporalSchema temporal = true) : normalizeTemporal temporal = .ok temporal.normal := by
  cases temporal with
  | current => rfl
  | history validAt =>
    rw [normalizeTemporal, normalizePresent_eq h]
    rfl
  | asOf validAt recordedAt =>
    simp only [temporalSchema, Bool.and_eq_true] at h
    have hkept : validAt.filter (fun value => value ≠ []) = validAt := by
      cases validAt with
      | none => rfl
      | some value =>
        rw [Option.filter_some, if_pos (decide_eq_true (timestampSchema_ne_nil h.1))]
    rw [normalizeTemporal, normalizeTimestamp_eq h.2, hkept, normalizePresent_eq h.1]
    rfl

theorem isJson_temporal (temporal : ContextTemporalSelection) :
    IsJson (temporalValue temporal) := by
  cases temporal with
  | current => exact isJson_record (by simp) (holdsJson_some trivial)
  | history validAt =>
    exact isJson_record (by simp [utf16_injective.eq_iff])
      ⟨holdsJson_some trivial, holdsJson_map fun _ _ => trivial⟩
  | asOf validAt recordedAt =>
    exact isJson_record (by simp [utf16_injective.eq_iff])
      ⟨holdsJson_some trivial, holdsJson_some trivial, holdsJson_map fun _ _ => trivial⟩

def temporalMode : ContextTemporalSelection → String
  | .current => "current"
  | .history _ => "history"
  | .asOf _ _ => "as_of"

/-- The mode of a selection is known from its value. -/
theorem temporalMode_eq {temporal temporal' : ContextTemporalSelection}
    (h : meaning (temporalValue temporal) = meaning (temporalValue temporal')) :
    temporalMode temporal = temporalMode temporal' := by
  have hmode : ∀ selection : ContextTemporalSelection, ∃ rest : List (CodeUnits × Option JsValue),
      utf16 "mode" ∉ rest.map Prod.fst ∧ temporalValue selection =
        record ((utf16 "mode", some (textValue (temporalMode selection))) :: rest) := by
    intro selection
    cases selection with
    | current => exact ⟨[], by simp, rfl⟩
    | history validAt => exact ⟨_, by simp [utf16_injective.eq_iff], rfl⟩
    | asOf validAt recordedAt => exact ⟨_, by simp [utf16_injective.eq_iff], rfl⟩
  obtain ⟨rest, hfresh, hvalue⟩ := hmode temporal
  obtain ⟨rest', hfresh', hvalue'⟩ := hmode temporal'
  rw [hvalue, hvalue', record, record, meaning, meaning, Option.some.injEq,
    Meaning.object.injEq] at h
  have hat := congrFun h (utf16 "mode")
  rw [JsValue.fieldMeanings_known hfresh, JsValue.fieldMeanings_known hfresh', if_pos rfl,
    if_pos rfl] at hat
  exact meaning_text_iff.mp hat

/-- Selections of two modes mean different things. -/
theorem meaning_temporal_ne {temporal temporal' : ContextTemporalSelection}
    (h : temporalMode temporal ≠ temporalMode temporal') :
    meaning (temporalValue temporal) = meaning (temporalValue temporal') ↔ False :=
  ⟨fun heq => h (temporalMode_eq heq), False.elim⟩

theorem meaning_temporal_iff {temporal temporal' : ContextTemporalSelection}
    (h : temporalSchema temporal = true) (h' : temporalSchema temporal' = true) :
    meaning (temporalValue temporal.normal) = meaning (temporalValue temporal'.normal) ↔
      SameTemporal SameDate temporal temporal' := by
  have hmodes : "current" ≠ "history" ∧ "current" ≠ "as_of" ∧ "history" ≠ "as_of" := by decide
  cases temporal with
  | current =>
    cases temporal' with
    | current => exact ⟨fun _ => trivial, fun _ => rfl⟩
    | history validAt' => exact meaning_temporal_ne hmodes.1
    | asOf validAt' recordedAt' => exact meaning_temporal_ne hmodes.2.1
  | history validAt =>
    cases temporal' with
    | current => exact meaning_temporal_ne hmodes.1.symm
    | history validAt' =>
      refine Iff.trans (meaning_record_iff rfl (by simp [utf16_injective.eq_iff])) ?_
      simp only [List.map_cons, List.map_nil, Option.bind_some, List.cons.injEq, and_true,
        true_and, meaning_times_iff h h']
      exact Iff.rfl
    | asOf validAt' recordedAt' => exact meaning_temporal_ne hmodes.2.2
  | asOf validAt recordedAt =>
    cases temporal' with
    | current => exact meaning_temporal_ne hmodes.2.1.symm
    | history validAt' => exact meaning_temporal_ne hmodes.2.2.symm
    | asOf validAt' recordedAt' =>
      simp only [temporalSchema, Bool.and_eq_true] at h h'
      refine Iff.trans (meaning_record_iff rfl (by simp [utf16_injective.eq_iff])) ?_
      simp only [List.map_cons, List.map_nil, Option.bind_some, List.cons.injEq, and_true,
        true_and, meaning_times_iff h.1 h'.1, meaning_string_iff, normalText_eq_iff h.2 h'.2]
      exact and_comm

/-! ## Filters -/

def ContextRequestFilters.normal (filters : ContextRequestFilters) : ContextRequestFilters where
  sources := filters.sources.map sortedStrings
  threadIds := filters.threadIds.map sortedStrings
  actorIds := filters.actorIds.map sortedStrings
  occurredAfter := filters.occurredAfter.map normalText
  occurredBefore := filters.occurredBefore.map normalText

/-- What the schema says of the timestamps of filters. -/
theorem filterTimes {filters : ContextRequestFilters} (h : contextFiltersSchema filters = true) :
    filters.occurredAfter.all timestampSchema = true ∧
      filters.occurredBefore.all timestampSchema = true := by
  simp only [contextFiltersSchema, Bool.and_eq_true] at h
  exact ⟨h.1.1.1.2, h.1.1.2⟩

theorem normalizeFilters_eq {filters : ContextRequestFilters}
    (h : contextFiltersSchema filters = true) : normalizeFilters filters = .ok filters.normal := by
  obtain ⟨hafter, hbefore⟩ := filterTimes h
  rw [normalizeFilters, normalizePresent_eq hafter, normalizePresent_eq hbefore]
  rfl

theorem isJson_filters (filters : ContextRequestFilters) : IsJson (filtersValue filters) :=
  isJson_record (by simp [utf16_injective.eq_iff])
    ⟨holdsJson_map fun _ _ => isJson_strings _, holdsJson_map fun _ _ => isJson_strings _,
      holdsJson_map fun _ _ => isJson_strings _, holdsJson_map fun _ _ => trivial,
      holdsJson_map fun _ _ => trivial⟩

theorem meaning_lists_iff {values values' : Option (List CodeUnits)} :
    ((values.map sortedStrings).map stringsValue).bind meaning =
        ((values'.map sortedStrings).map stringsValue).bind meaning ↔
      Option.Rel List.Perm values values' := by
  rw [Option.map_map, Option.map_map]
  exact meaning_option_iff (fun _ _ _ _ => meaning_sortedStrings_iff)
    (holdsJson_map fun _ _ => isJson_strings _) (holdsJson_map fun _ _ => isJson_strings _)

theorem meaning_filters_iff {filters filters' : ContextRequestFilters}
    (h : contextFiltersSchema filters = true) (h' : contextFiltersSchema filters' = true) :
    meaning (filtersValue filters.normal) = meaning (filtersValue filters'.normal) ↔
      SameFilters SameDate filters filters' := by
  obtain ⟨hafter, hbefore⟩ := filterTimes h
  obtain ⟨hafter', hbefore'⟩ := filterTimes h'
  refine Iff.trans (meaning_record_iff rfl (by simp [utf16_injective.eq_iff])) ?_
  simp only [ContextRequestFilters.normal, List.map_cons, List.map_nil, List.cons.injEq, and_true,
    meaning_lists_iff, meaning_times_iff hafter hafter', meaning_times_iff hbefore hbefore']
  constructor
  · rintro ⟨hsources, hthreads, hactors, hafter, hbefore⟩
    exact ⟨hsources, hthreads, hactors, hafter, hbefore⟩
  · rintro ⟨hsources, hthreads, hactors, hafter, hbefore⟩
    exact ⟨hsources, hthreads, hactors, hafter, hbefore⟩

/-! ## The request -/

/-- What the schema says of the parts of a request that the hash depends on. -/
structure RequestParts (request : ContextRequest) : Prop where
  temporal : temporalSchema request.temporal = true
  filters : ∀ filters ∈ request.filters, contextFiltersSchema filters = true
  budget : BudgetNumbers request.budget

theorem requestParts {request : ContextRequest} (h : contextRequestSchema request = true) :
    RequestParts request := by
  simp only [contextRequestSchema, Bool.and_eq_true] at h
  obtain ⟨⟨⟨⟨_, hfilters⟩, htemporal⟩, hbudget⟩, _⟩ := h
  exact ⟨htemporal, (Option.all_eq_true _ _).mp hfilters, budgetNumbers hbudget⟩

/-- The object that is hashed for a request of the schema. -/
def normalValue (request : ContextRequest) : JsValue :=
  semanticValue request request.temporal.normal (request.filters.map ContextRequestFilters.normal)

theorem hashedRequest_eq {request : ContextRequest} (h : RequestParts request) :
    hashedRequest request = .ok (normalValue request) := by
  unfold hashedRequest normalValue
  rw [normalizeTemporal_eq h.temporal]
  cases hfilters : request.filters with
  | none => rfl
  | some filters =>
    simp only [normalizeFilters_eq (h.filters filters hfilters)]
    rfl

theorem isJson_normalValue {request : ContextRequest} (h : RequestParts request) :
    IsJson (normalValue request) :=
  isJson_record (by simp [utf16_injective.eq_iff])
    ⟨holdsJson_some trivial, holdsJson_some trivial, holdsJson_some (isJson_actor _),
      holdsJson_some trivial, holdsJson_some trivial, holdsJson_map fun _ _ => trivial,
      holdsJson_map fun _ _ => trivial, holdsJson_some (isJson_temporal _),
      holdsJson_some (isJson_budget h.budget), holdsJson_some (isJson_strings _),
      holdsJson_map fun _ _ => isJson_anchors _, holdsJson_map fun _ _ => isJson_strings _,
      holdsJson_map fun _ _ => isJson_filters _⟩

/-- Fields that may be missing and are told as they are. -/
theorem meaning_same_iff {α : Type} {encode : α → JsValue} {value value' : Option α}
    (hencode : ∀ a b, meaning (encode a) = meaning (encode b) ↔ a = b)
    (hjson : ∀ a, IsJson (encode a)) :
    (value.map encode).bind meaning = (value'.map encode).bind meaning ↔ value = value' := by
  have hoption := @meaning_option_iff _ encode Eq value value' (fun a _ b _ => hencode a b)
    (holdsJson_map fun a _ => hjson a) (holdsJson_map fun a _ => hjson a)
  rw [hoption]
  constructor
  · intro h
    cases h with
    | none => rfl
    | some heq => rw [heq]
  · rintro rfl
    cases value with
    | none => exact .none
    | some a => exact .some rfl

/-- What is hashed of two requests means the same exactly when they are the same up to their
ids, the order of their lists and the digits that `Date` drops. -/
theorem meaning_normalValue_iff {request request' : ContextRequest} (h : RequestParts request)
    (h' : RequestParts request') :
    meaning (normalValue request) = meaning (normalValue request') ↔
      SameRequest SameDate request request' := by
  have hsearch : ∀ a b : ContextSearchKind,
      meaning (textValue a.name) = meaning (textValue b.name) ↔ a = b :=
    fun a b => meaning_text_iff.trans searchKindName_injective.eq_iff
  have hanchors : (request.anchors.map fun anchors =>
      JsValue.array ((sortNamed anchorKey anchors).map anchorValue)).bind meaning =
        (request'.anchors.map fun anchors =>
          JsValue.array ((sortNamed anchorKey anchors).map anchorValue)).bind meaning ↔
          Option.Rel List.Perm request.anchors request'.anchors :=
    meaning_option_iff (fun _ _ _ _ => meaning_anchors_iff)
      (holdsJson_map fun _ _ => isJson_anchors _) (holdsJson_map fun _ _ => isJson_anchors _)
  have hkinds : (request.requestedKinds.map fun kinds =>
      stringsValue (sortedStrings (kinds.map fun kind => utf16 kind.name))).bind meaning =
        (request'.requestedKinds.map fun kinds =>
          stringsValue (sortedStrings (kinds.map fun kind => utf16 kind.name))).bind meaning ↔
          Option.Rel List.Perm request.requestedKinds request'.requestedKinds :=
    meaning_option_iff (fun _ _ _ _ => meaning_sortedNames_iff candidateKindName_injective)
      (holdsJson_map fun _ _ => isJson_strings _) (holdsJson_map fun _ _ => isJson_strings _)
  have hfilters : ((request.filters.map ContextRequestFilters.normal).map filtersValue).bind meaning =
      ((request'.filters.map ContextRequestFilters.normal).map filtersValue).bind meaning ↔
        Option.Rel (SameFilters SameDate) request.filters request'.filters := by
    rw [Option.map_map, Option.map_map]
    exact meaning_option_iff
      (fun filters hmem filters' hmem' =>
        meaning_filters_iff (h.filters filters hmem) (h'.filters filters' hmem'))
      (holdsJson_map fun _ _ => isJson_filters _) (holdsJson_map fun _ _ => isJson_filters _)
  refine Iff.trans (meaning_record_iff rfl (by simp [utf16_injective.eq_iff])) ?_
  simp only [List.map_cons, List.map_nil, Option.bind_some, List.cons.injEq, and_true, true_and,
    meaning_string_iff, meaning_actor_iff, meaning_temporal_iff h.temporal h'.temporal,
    meaning_budget_iff h.budget h'.budget, hanchors, hkinds, hfilters,
    meaning_sortedNames_iff allowedUseName_injective,
    meaning_same_iff (fun _ _ => meaning_string_iff) (fun _ => trivial),
    meaning_same_iff hsearch (fun _ => trivial)]
  constructor
  · rintro ⟨horg, hprincipal, hconsumer, hpurpose, hquery, hsearch, htemporal, hbudget, huses,
      hanchors, hkinds, hfilters⟩
    exact ⟨horg, hprincipal, hconsumer, hpurpose, huses, hquery, hsearch, hanchors, hfilters,
      htemporal, hbudget, hkinds⟩
  · intro hsame
    exact ⟨hsame.orgId, hsame.principal, hsame.consumerId, hsame.purpose, hsame.query,
      hsame.searchKind, hsame.temporal, hsame.budget, hsame.allowedUses, hsame.anchors,
      hsame.requestedKinds, hsame.filters⟩

/-- A request of the schema has a hash. -/
theorem hashContextRequest_ok (sha256 : Sha256) {request : ContextRequest}
    (h : RequestParts request) : ∃ hash, hashContextRequest sha256 request = .ok hash := by
  unfold hashContextRequest
  rw [hashedRequest_eq h]
  exact hashCanonicalContext_ok sha256 (isJson_normalValue h)

/-- The text that is hashed for a request. -/
def hashedText (request : ContextRequest) : Except CanonicalError String :=
  hashedRequest request >>= canonicalContextJson

/-- SHA-256 tells the texts of two requests apart. -/
def TellsApart (sha256 : Sha256) (request request' : ContextRequest) : Prop :=
  ∀ text text', hashedText request = .ok text → hashedText request' = .ok text' →
    sha256.hex (utf8Encode text) = sha256.hex (utf8Encode text') → text = text'

theorem hashContextRequest_eq_iff {sha256 : Sha256} {request request' : ContextRequest}
    (h : RequestParts request) (h' : RequestParts request')
    (hapart : TellsApart sha256 request request') :
    hashContextRequest sha256 request = hashContextRequest sha256 request' ↔
      SameRequest SameDate request request' := by
  have htext : hashedText request = canonicalContextJson (normalValue request) := by
    unfold hashedText
    rw [hashedRequest_eq h]
    rfl
  have htext' : hashedText request' = canonicalContextJson (normalValue request') := by
    unfold hashedText
    rw [hashedRequest_eq h']
    rfl
  unfold TellsApart at hapart
  rw [htext, htext'] at hapart
  have hhash := hashCanonicalContext_eq_iff (isJson_normalValue h) (isJson_normalValue h') hapart
  unfold hashContextRequest
  rw [hashedRequest_eq h, hashedRequest_eq h']
  exact hhash.trans (meaning_normalValue_iff h h')

/-- Requests that are the same have one text, whatever the digest. -/
theorem tellsApart_of_same (sha256 : Sha256) {request request' : ContextRequest}
    (h : RequestParts request) (h' : RequestParts request')
    (hsame : SameRequest SameDate request request') : TellsApart sha256 request request' := by
  intro text text' htext htext' _
  have hmeaning := (canonicalContextJson_eq_iff (isJson_normalValue h) (isJson_normalValue h')).mpr
    ((meaning_normalValue_iff h h').mpr hsame)
  unfold hashedText at htext htext'
  rw [hashedRequest_eq h] at htext
  rw [hashedRequest_eq h'] at htext'
  exact Except.ok.inj (htext.symm.trans (hmeaning.trans htext'))

def smallNumber (n : ℕ) (h : n < 1000) : JsNumber :=
  .finite (.ofInt n (by rw [abs_lt]; omega))

def weekBudget : ContextBudget where
  profile := utf16 "week"
  maxTokens := smallNumber 800 (by decide)
  maxItems := smallNumber 40 (by decide)
  maxRawEvidence := smallNumber 0 (by decide)

def sinceRequest (id : String) (uses : List ContextAllowedUse) (since : String) :
    ContextRequest where
  id := utf16 id
  orgId := utf16 "org"
  principal := ⟨.human, utf16 "ada"⟩
  consumerId := utf16 "desk"
  purpose := utf16 "review"
  allowedUses := uses
  filters := some { occurredAfter := some (utf16 since) }
  temporal := .current
  budget := weekBudget

def londonRequest : ContextRequest :=
  sinceRequest "one" [.display, .reason] "2024-01-01T00:00Z"

/-- Four tenths of a millisecond later. -/
def parisRequest : ContextRequest :=
  sinceRequest "two" [.reason, .display] "2024-01-01T01:00:00.0004+01:00"

theorem cityRequests_schema :
    contextRequestSchema londonRequest = true ∧ contextRequestSchema parisRequest = true := by
  decide +kernel

theorem cityRequests_same : SameRequest SameDate londonRequest parisRequest where
  orgId := rfl
  principal := rfl
  consumerId := rfl
  purpose := rfl
  allowedUses := List.Perm.swap _ _ _
  query := rfl
  searchKind := rfl
  anchors := .none
  filters := .some {
    sources := .none
    threadIds := .none
    actorIds := .none
    occurredAfter := .some (by unfold SameDate; decide +kernel)
    occurredBefore := .none }
  temporal := trivial
  budget := {
    profile := rfl
    maxTokens := rfl
    maxItems := rfl
    maxRawEvidence := rfl
    maxAgeDays := .none
    sectionTokens := .none }
  requestedKinds := .none

theorem cityRequests_apart (sha256 : Sha256) : TellsApart sha256 londonRequest parisRequest :=
  tellsApart_of_same sha256 (requestParts cityRequests_schema.1)
    (requestParts cityRequests_schema.2) cityRequests_same

def signedTotal : JsValue :=
  .object [(utf16 "total", .number .negativeZero), (utf16 "note", .undefined)]

def plainTotal : JsValue := .object [(utf16 "total", .number (.finite .zero))]

theorem isJson_signedTotal : IsJson signedTotal :=
  ⟨by simp [utf16_injective.eq_iff], .inr rfl, .inl rfl, trivial⟩

theorem isJson_plainTotal : IsJson plainTotal := ⟨by simp, .inr rfl, trivial⟩

end Regenic.Context.Canonical
