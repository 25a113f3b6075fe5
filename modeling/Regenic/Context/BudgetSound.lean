import Mathlib.Algebra.Order.Ring.Unbundled.Rat
import Regenic.Context.Budget
import Regenic.Lib.Greedy
import Regenic.Lib.Group

/-!
The loop of the assembly is a greedy selection by one predicate on what has been taken so far.
From that: the limits hold, the ledger counts every candidate once, and nothing that would have
fitted is left out.
-/

namespace Regenic.Context.Assembly

open Lib Ingest

/-! ## Sums -/

def tokensOf (values : List ScoredRetrievedCandidate) : Nat :=
  (values.map (·.item.estimatedTokens)).sum

def inSection (kind : ContextSectionKind) (values : List ScoredRetrievedCandidate) :
    List ScoredRetrievedCandidate :=
  values.filter fun value => value.section = kind

@[simp] theorem tokensOf_nil : tokensOf [] = 0 := rfl

@[simp] theorem tokensOf_concat (values : List ScoredRetrievedCandidate)
    (value : ScoredRetrievedCandidate) :
    tokensOf (values ++ [value]) = tokensOf values + value.item.estimatedTokens := by
  simp [tokensOf]

theorem tokensOf_append (first second : List ScoredRetrievedCandidate) :
    tokensOf (first ++ second) = tokensOf first + tokensOf second := by
  simp [tokensOf]

theorem tokensOf_perm {first second : List ScoredRetrievedCandidate} (h : first.Perm second) :
    tokensOf first = tokensOf second :=
  (h.map _).sum_nat

@[simp] theorem inSection_nil (kind : ContextSectionKind) : inSection kind [] = [] := rfl

theorem inSection_concat_self (values : List ScoredRetrievedCandidate)
    (value : ScoredRetrievedCandidate) :
    inSection value.section (values ++ [value]) = inSection value.section values ++ [value] := by
  simp [inSection]

theorem inSection_concat_of_ne {kind : ContextSectionKind} {value : ScoredRetrievedCandidate}
    (h : value.section ≠ kind) (values : List ScoredRetrievedCandidate) :
    inSection kind (values ++ [value]) = inSection kind values := by
  simp [inSection, h]

theorem inSection_eq_nil {kind : ContextSectionKind} {values : List ScoredRetrievedCandidate} :
    inSection kind values = [] ↔ ∀ value ∈ values, value.section ≠ kind := by
  simp [inSection, List.filter_eq_nil_iff]

/-! ## The ledgers before the loop -/

@[simp] theorem SectionLedgers.of_kind (ledgers : SectionLedgers) (kind : ContextSectionKind) :
    (ledgers.of kind).kind = kind := by
  unfold SectionLedgers.of
  cases hget : ledgers.get? kind with
  | none => rfl
  | some row => exact (Table.get?_eq_some.mp hget).2

theorem get?_requestTokens (ledgers : SectionLedgers) (value : ScoredRetrievedCandidate)
    (kind : ContextSectionKind) :
    (requestTokens ledgers value).get? kind =
      if value.section = kind then
        some { ledgers.of kind with
          requestedTokens := (ledgers.of kind).requestedTokens + value.item.estimatedTokens }
      else ledgers.get? kind := by
  unfold requestTokens
  rw [Table.get?_put]
  by_cases hkind : value.section = kind
  · subst hkind
    rw [if_pos (SectionLedgers.of_kind _ _), if_pos rfl]
  · rw [if_neg (by simpa using hkind), if_neg hkind]

theorem requested_ledgers (candidates : List ScoredRetrievedCandidate)
    (kind : ContextSectionKind) :
    (candidates.foldl requestTokens ∅).get? kind =
      if inSection kind candidates = [] then none
      else some { emptySectionLedger kind with
        requestedTokens := tokensOf (inSection kind candidates) } := by
  induction candidates using List.reverseRecOn with
  | nil => simp
  | append_singleton values value ih =>
    rw [List.foldl_concat, get?_requestTokens]
    by_cases hkind : value.section = kind
    · subst hkind
      rw [if_pos rfl, inSection_concat_self, if_neg (by simp), tokensOf_concat]
      unfold SectionLedgers.of
      rw [ih]
      by_cases hnone : inSection value.section values = []
      · simp [hnone, emptySectionLedger]
      · simp [hnone]
    · rw [if_neg hkind, inSection_concat_of_ne hkind]
      exact ih

/-! ## What the loop does -/

/-- What a candidate has to meet to be taken, said of the candidates taken before it. -/
def Fits (budget : ContextBudget) (kept : List ScoredRetrievedCandidate)
    (value : ScoredRetrievedCandidate) : Prop :=
  kept.length < budget.maxItems ∧
    tokensOf kept + value.item.estimatedTokens ≤ budget.maxTokens ∧
    tokensOf (inSection value.section kept) + value.item.estimatedTokens ≤
      sectionLimit budget value.section ∧
    (isRawEvidence value = false ∨ kept.countP isRawEvidence < budget.maxRawEvidence)

instance decidableFits (budget : ContextBudget) (kept : List ScoredRetrievedCandidate)
    (value : ScoredRetrievedCandidate) : Decidable (Fits budget kept value) :=
  inferInstanceAs (Decidable (_ ∧ _ ∧ _ ∧ (_ ∨ _)))

/-- The row of a section: every candidate of it asked for, and each of them taken or truncated. -/
def sectionLedger (candidates selected truncated : List ScoredRetrievedCandidate)
    (kind : ContextSectionKind) : ContextBudgetSectionLedger where
  kind := kind
  requestedTokens := tokensOf (inSection kind candidates)
  selectedTokens := tokensOf (inSection kind selected)
  reservedTokens := 0
  selectedItems := (inSection kind selected).length
  truncatedItems := (inSection kind truncated).length

/-- The counters of the loop say what was taken and what was truncated. -/
structure Represents (candidates : List ScoredRetrievedCandidate) (protectedEventIds : List String)
    (s : BudgetState) (picked : List ScoredRetrievedCandidate × List ScoredRetrievedCandidate) :
    Prop where
  selected : s.selected = picked.1
  tokens : s.selectedTokens = tokensOf picked.1
  raw : s.selectedRawEvidence = picked.1.countP isRawEvidence
  ledgers : ∀ kind, s.sectionLedgers.get? kind =
    if inSection kind candidates = [] then none
    else some (sectionLedger candidates picked.1 picked.2 kind)
  unprotected : ∀ value ∈ picked.2, value.candidate.resourceId ∉ protectedEventIds

section Loop

variable {profile : ContextAssemblyProfile} {budget : ContextBudget}
  {candidates : List ScoredRetrievedCandidate} {protectedEventIds : List String}
  {s s' : BudgetState} {picked : List ScoredRetrievedCandidate × List ScoredRetrievedCandidate}
  {value : ScoredRetrievedCandidate}

theorem represents_start :
    Represents candidates protectedEventIds
      { sectionLedgers := candidates.foldl requestTokens ∅, selected := [], selectedTokens := 0,
        selectedRawEvidence := 0 } ([], []) where
  selected := rfl
  tokens := rfl
  raw := rfl
  ledgers kind := requested_ledgers candidates kind
  unprotected := by simp

theorem Represents.ledger_of (h : Represents candidates protectedEventIds s picked)
    (hvalue : value ∈ candidates) :
    s.sectionLedgers.of value.section =
      sectionLedger candidates picked.1 picked.2 value.section := by
  have hsome : inSection value.section candidates ≠ [] := fun hnone =>
    inSection_eq_nil.mp hnone value hvalue rfl
  unfold SectionLedgers.of
  rw [h.ledgers, if_neg hsome]
  rfl

/-- A row that is put for the section of a candidate is the row of that section alone. -/
theorem Represents.put_ledger (h : Represents candidates protectedEventIds s picked)
    (hvalue : value ∈ candidates) {row : ContextBudgetSectionLedger}
    {selected truncated : List ScoredRetrievedCandidate}
    (hrow : row = sectionLedger candidates selected truncated value.section)
    (hothers : ∀ kind, value.section ≠ kind → inSection kind selected = inSection kind picked.1 ∧
      inSection kind truncated = inSection kind picked.2) (kind : ContextSectionKind) :
    (s.sectionLedgers.put row).get? kind =
      if inSection kind candidates = [] then none
      else some (sectionLedger candidates selected truncated kind) := by
  subst hrow
  rw [Table.get?_put]
  by_cases hkind : value.section = kind
  · subst hkind
    have hsome : inSection value.section candidates ≠ [] := fun hnone =>
      inSection_eq_nil.mp hnone value hvalue rfl
    rw [if_neg hsome]
    exact if_pos rfl
  · obtain ⟨hselected, htruncated⟩ := hothers kind hkind
    have hkey : (sectionLedger candidates selected truncated value.section).kind ≠ kind := hkind
    rw [if_neg hkey, h.ledgers]
    unfold sectionLedger
    rw [hselected, htruncated]

/-- One turn of the loop is one step of the greedy selection by `Fits`. -/
theorem takeCandidate_represents (hvalue : value ∈ candidates)
    (h : Represents candidates protectedEventIds s picked)
    (hstep : takeCandidate budget protectedEventIds s value = .ok s') :
    Represents candidates protectedEventIds s' (greedyStep (Fits budget) picked value) := by
  unfold takeCandidate at hstep
  have hfits : (s.selected.length < budget.maxItems ∧
      s.selectedTokens + value.item.estimatedTokens ≤ budget.maxTokens ∧
      (s.sectionLedgers.of value.section).selectedTokens + value.item.estimatedTokens ≤
        sectionLimit budget value.section ∧
      (isRawEvidence value = false ∨ s.selectedRawEvidence < budget.maxRawEvidence)) ↔
      Fits budget picked.1 value := by
    rw [h.selected, h.tokens, h.raw, h.ledger_of hvalue]
    rfl
  simp only [hfits] at hstep
  unfold greedyStep
  by_cases hpick : Fits budget picked.1 value
  · rw [if_pos hpick] at hstep ⊢
    cases hstep
    exact {
      selected := by rw [h.selected]
      tokens := by rw [h.tokens, tokensOf_concat]
      raw := by
        rw [h.raw, List.countP_append]
        cases hraw : isRawEvidence value <;> simp [hraw]
      ledgers := by
        apply h.put_ledger hvalue
        · rw [h.ledger_of hvalue]
          simp [sectionLedger, inSection_concat_self]
        · intro kind hkind
          exact ⟨inSection_concat_of_ne hkind picked.1, rfl⟩
      unprotected := h.unprotected }
  · rw [if_neg hpick] at hstep ⊢
    split at hstep
    · cases hstep
    · next hfree =>
      cases hstep
      exact {
        selected := h.selected
        tokens := h.tokens
        raw := h.raw
        ledgers := by
          apply h.put_ledger hvalue
          · rw [h.ledger_of hvalue]
            simp [sectionLedger, inSection_concat_self]
          · intro kind hkind
            exact ⟨rfl, inSection_concat_of_ne hkind picked.2⟩
        unprotected := by
          intro skipped hskipped
          rcases List.mem_append.mp hskipped with hold | hnew
          · exact h.unprotected skipped hold
          · obtain rfl := List.mem_singleton.mp hnew
            simpa using hfree }

/-- The order in which the loop goes through the candidates. -/
def consideredOrder (profile : ContextAssemblyProfile)
    (candidates : List ScoredRetrievedCandidate) : List ScoredRetrievedCandidate :=
  candidates.insertionSort (assemblyOrder profile.effectiveSectionOrder)

/-- What the loop takes and what it truncates. -/
def pickedOf (profile : ContextAssemblyProfile) (budget : ContextBudget)
    (candidates : List ScoredRetrievedCandidate) :
    List ScoredRetrievedCandidate × List ScoredRetrievedCandidate :=
  greedy (Fits budget) (consideredOrder profile candidates)

theorem consideredOrder_perm (profile : ContextAssemblyProfile)
    (candidates : List ScoredRetrievedCandidate) :
    (consideredOrder profile candidates).Perm candidates :=
  List.perm_insertionSort _ candidates

theorem pickedOf_perm (profile : ContextAssemblyProfile) (budget : ContextBudget)
    (candidates : List ScoredRetrievedCandidate) :
    ((pickedOf profile budget candidates).1 ++ (pickedOf profile budget candidates).2).Perm
      candidates :=
  (greedy_perm (Fits budget) _).trans (consideredOrder_perm profile candidates)

theorem assembleBudget_represents {assembled : BudgetAssembly}
    (h : assembleBudget profile budget candidates protectedEventIds = .ok assembled) :
    ∃ s, Represents candidates protectedEventIds s (pickedOf profile budget candidates) ∧
      assembled.selected = s.selected ∧
      assembled.sections = profile.effectiveSectionOrder.filterMap (sectionFor s.selected) ∧
      assembled.ledger.sections = s.sectionLedgers.rows.insertionSort ledgerOrder ∧
      assembled.ledger.selectedTokens = s.selectedTokens ∧
      assembled.ledger.selectedItems = s.selected.length ∧
      assembled.ledger.reservedTokens = 0 ∧
      assembled.ledger.requestedTokens =
        (assembled.ledger.sections.map (·.requestedTokens)).sum ∧
      assembled.ledger.truncatedItems = (assembled.ledger.sections.map (·.truncatedItems)).sum := by
  unfold assembleBudget at h
  obtain ⟨s, hrun, h⟩ := sequence_ok h
  cases h
  refine ⟨s, ?_, rfl, rfl, rfl, rfl, rfl, rfl, rfl, rfl⟩
  apply foldlM_simulates (Represents candidates protectedEventIds) _ _ _ _ represents_start hrun
  intro s picked value s' hmem hrep hstep
  have hvalue := (consideredOrder_perm profile candidates).mem_iff.mp hmem
  exact takeCandidate_represents hvalue hrep hstep

end Loop

/-! ## The limits -/

section Limits

variable (budget : ContextBudget)

/-- The four limits of a budget. -/
structure WithinLimits (selected : List ScoredRetrievedCandidate) : Prop where
  items : selected.length ≤ budget.maxItems
  tokens : tokensOf selected ≤ budget.maxTokens
  raw : selected.countP isRawEvidence ≤ budget.maxRawEvidence
  sections : ∀ kind, tokensOf (inSection kind selected) ≤ sectionLimit budget kind

theorem withinLimits_nil : WithinLimits budget [] where
  items := Nat.zero_le _
  tokens := Nat.zero_le _
  raw := Nat.zero_le _
  sections _ := Nat.zero_le _

variable {budget}

theorem WithinLimits.concat {kept : List ScoredRetrievedCandidate}
    {value : ScoredRetrievedCandidate} (h : WithinLimits budget kept)
    (hfits : Fits budget kept value) : WithinLimits budget (kept ++ [value]) := by
  obtain ⟨hitems, htokens, hsection, hraw⟩ := hfits
  constructor
  · rw [List.length_append, List.length_singleton]
    omega
  · rw [tokensOf_concat]
    exact htokens
  · have hold := h.raw
    rw [List.countP_append]
    rcases hraw with hraw | hraw
    · simp [hraw, hold]
    · have hone : [value].countP isRawEvidence ≤ 1 := List.countP_le_length
      omega
  · intro kind
    by_cases hkind : value.section = kind
    · subst hkind
      rw [inSection_concat_self, tokensOf_concat]
      exact hsection
    · rw [inSection_concat_of_ne hkind]
      exact h.sections kind

theorem pickedOf_withinLimits (profile : ContextAssemblyProfile)
    (candidates : List ScoredRetrievedCandidate) :
    WithinLimits budget (pickedOf profile budget candidates).1 :=
  greedy_invariant (Fits budget) (withinLimits_nil budget)
    (fun _ _ h hfits => h.concat hfits) _

end Limits

/-! ## The ledger -/

section Ledger

theorem tokensOf_flatMap (kinds : List ContextSectionKind)
    (f : ContextSectionKind → List ScoredRetrievedCandidate) :
    tokensOf (kinds.flatMap f) = (kinds.map fun kind => tokensOf (f kind)).sum := by
  induction kinds with
  | nil => rfl
  | cons kind rest ih =>
    rw [List.flatMap_cons, tokensOf_append, ih, List.map_cons, List.sum_cons]

variable {kinds : List ContextSectionKind} {values : List ScoredRetrievedCandidate}

/-- Sums over the sections are sums over the candidates. -/
theorem sum_tokensOf_inSection (hnodup : kinds.Nodup)
    (hkinds : ∀ value ∈ values, value.section ∈ kinds) :
    (kinds.map fun kind => tokensOf (inSection kind values)).sum = tokensOf values := by
  rw [← tokensOf_flatMap]
  exact tokensOf_perm (flatMap_keys_perm hnodup hkinds)

theorem sum_length_inSection (hnodup : kinds.Nodup)
    (hkinds : ∀ value ∈ values, value.section ∈ kinds) :
    (kinds.map fun kind => (inSection kind values).length).sum = values.length := by
  rw [← List.length_flatMap]
  exact (flatMap_keys_perm hnodup hkinds).length_eq

/-- Each candidate is counted once, as selected or as truncated, in its section and in total. -/
structure LedgerCounts (candidates selected truncated : List ScoredRetrievedCandidate)
    (ledger : ContextBudgetLedger) : Prop where
  partition : (selected ++ truncated).Perm candidates
  rows : ∀ row ∈ ledger.sections, row = sectionLedger candidates selected truncated row.kind
  nodup : (ledger.sections.map (·.kind)).Nodup
  covered : ∀ kind, kind ∈ ledger.sections.map (·.kind) ↔
    ∃ value ∈ candidates, value.section = kind
  requested : ledger.requestedTokens = tokensOf candidates
  selectedTokens : ledger.selectedTokens = tokensOf selected
  selectedItems : ledger.selectedItems = selected.length
  truncated : ledger.truncatedItems = truncated.length
  reserved : ledger.reservedTokens = 0

variable {candidates selected truncated : List ScoredRetrievedCandidate}
  {ledger : ContextBudgetLedger}

/-- A column of the ledger adds up as the sections do. -/
theorem sum_column (hrows : ∀ row ∈ ledger.sections,
      row = sectionLedger candidates selected truncated row.kind)
    (column : ContextBudgetSectionLedger → Nat) :
    (ledger.sections.map column).sum =
      ((ledger.sections.map (·.kind)).map fun kind =>
        column (sectionLedger candidates selected truncated kind)).sum := by
  rw [List.map_map]
  congr 1
  apply List.map_congr_left
  intro row hrow
  rw [Function.comp_apply, ← hrows row hrow]

/-- The totals of a ledger are the sums of its columns. -/
theorem LedgerCounts.sums (h : LedgerCounts candidates selected truncated ledger) :
    (ledger.sections.map (·.requestedTokens)).sum = ledger.requestedTokens ∧
      (ledger.sections.map (·.selectedTokens)).sum = ledger.selectedTokens ∧
      (ledger.sections.map (·.selectedItems)).sum = ledger.selectedItems ∧
      (ledger.sections.map (·.truncatedItems)).sum = ledger.truncatedItems := by
  have hall : ∀ value ∈ candidates, value.section ∈ ledger.sections.map (·.kind) :=
    fun value hvalue => (h.covered value.section).mpr ⟨value, hvalue, rfl⟩
  have hselected : ∀ value ∈ selected, value.section ∈ ledger.sections.map (·.kind) :=
    fun value hvalue => hall value (h.partition.subset (List.mem_append_left _ hvalue))
  have htruncated : ∀ value ∈ truncated, value.section ∈ ledger.sections.map (·.kind) :=
    fun value hvalue => hall value (h.partition.subset (List.mem_append_right _ hvalue))
  rw [h.requested, h.selectedTokens, h.selectedItems, h.truncated]
  refine ⟨?_, ?_, ?_, ?_⟩
  · rw [sum_column h.rows]
    exact sum_tokensOf_inSection h.nodup hall
  · rw [sum_column h.rows]
    exact sum_tokensOf_inSection h.nodup hselected
  · rw [sum_column h.rows]
    exact sum_length_inSection h.nodup hselected
  · rw [sum_column h.rows]
    exact sum_length_inSection h.nodup htruncated

variable {profile : ContextAssemblyProfile} {budget : ContextBudget}
  {protectedEventIds : List String} {assembled : BudgetAssembly}

theorem assembleBudget_ledger
    (h : assembleBudget profile budget candidates protectedEventIds = .ok assembled) :
    LedgerCounts candidates assembled.selected (pickedOf profile budget candidates).2
      assembled.ledger := by
  obtain ⟨s, hrep, hselected, -, hsections, htokens, hitems, hreserved, hrequested, htruncated⟩ :=
    assembleBudget_represents h
  have hpicked : assembled.selected = (pickedOf profile budget candidates).1 :=
    hselected.trans hrep.selected
  have hperm : assembled.ledger.sections.Perm s.sectionLedgers.rows := by
    rw [hsections]
    exact List.perm_insertionSort _ _
  have hrows : ∀ row ∈ assembled.ledger.sections, row = sectionLedger candidates
      assembled.selected (pickedOf profile budget candidates).2 row.kind := by
    intro row hrow
    have hget := Table.get?_key (hperm.mem_iff.mp hrow)
    rw [hrep.ledgers] at hget
    split at hget
    · cases hget
    · rw [hpicked]
      exact (Option.some.inj hget).symm
  have hnodup : (assembled.ledger.sections.map (·.kind)).Nodup :=
    (hperm.map _).nodup_iff.mpr s.sectionLedgers.nodup
  have hcovered : ∀ kind, kind ∈ assembled.ledger.sections.map (·.kind) ↔
      ∃ value ∈ candidates, value.section = kind := by
    intro kind
    rw [(hperm.map _).mem_iff, List.mem_map]
    constructor
    · rintro ⟨row, hrow, rfl⟩
      have hget := Table.get?_key hrow
      rw [hrep.ledgers] at hget
      by_contra hnone
      rw [if_pos (inSection_eq_nil.mpr fun value hvalue hkind =>
        hnone ⟨value, hvalue, hkind⟩)] at hget
      cases hget
    · rintro ⟨value, hvalue, rfl⟩
      have hget := hrep.ledgers value.section
      rw [if_neg fun hnone => inSection_eq_nil.mp hnone value hvalue rfl] at hget
      exact ⟨_, (Table.get?_eq_some.mp hget).1, rfl⟩
  have hpartition := pickedOf_perm profile budget candidates
  rw [← hpicked] at hpartition
  have hall : ∀ value ∈ candidates, value.section ∈ assembled.ledger.sections.map (·.kind) :=
    fun value hvalue => (hcovered value.section).mpr ⟨value, hvalue, rfl⟩
  exact {
    partition := hpartition
    rows := hrows
    nodup := hnodup
    covered := hcovered
    requested := by
      rw [hrequested, sum_column hrows]
      exact sum_tokensOf_inSection hnodup hall
    selectedTokens := by rw [htokens, hrep.tokens, hpicked]
    selectedItems := by rw [hitems, hselected]
    truncated := by
      rw [htruncated, sum_column hrows]
      apply sum_length_inSection hnodup
      intro value hvalue
      exact hall value (hpartition.subset (List.mem_append_right _ hvalue))
    reserved := hreserved }

end Ledger

/-! ## The sections of the bundle -/

section Sections

theorem ContextSectionKind.name_injective : Function.Injective ContextSectionKind.name := by
  intro kind kind' h
  cases kind <;> cases kind' <;> first | rfl | exact absurd h (by decide)

theorem mem_uniqueSorted {value : String} {values : List String} :
    value ∈ uniqueSorted values ↔ value ∈ values :=
  (List.perm_insertionSort _ _).mem_iff.trans mem_keepFirst_id

/-- A profile orders all the sections, each once. -/
theorem ContextAssemblyProfile.sectionOrder_perm (profile : ContextAssemblyProfile) :
    profile.sectionOrder.Perm contextSectionKinds := by
  have hvalid := profile.valid
  simp only [validAssemblyProfile, Bool.and_eq_true, decide_eq_true_eq] at hvalid
  obtain ⟨⟨-, hnames⟩, hlength⟩ := hvalid
  have hsubset : contextSectionKinds ⊆ profile.sectionOrder := by
    intro kind hkind
    have hname : kind.name ∈ profile.sectionOrder.map ContextSectionKind.name := by
      rw [← mem_uniqueSorted, hnames, mem_uniqueSorted]
      exact List.mem_map_of_mem hkind
    obtain ⟨same, hsame, heq⟩ := List.mem_map.mp hname
    exact ContextSectionKind.name_injective heq ▸ hsame
  have hsubperm := List.Nodup.subperm (by decide : contextSectionKinds.Nodup) hsubset
  exact (hsubperm.perm_of_length_le (Nat.le_of_eq hlength)).symm

theorem ContextAssemblyProfile.effectiveSectionOrder_nodup (profile : ContextAssemblyProfile) :
    profile.effectiveSectionOrder.Nodup := by
  have hnodup : profile.sectionOrder.Nodup :=
    profile.sectionOrder_perm.nodup_iff.mpr (by decide)
  apply List.nodup_cons.mpr
  exact ⟨by simp, hnodup.filter _⟩

theorem ContextAssemblyProfile.mem_effectiveSectionOrder (profile : ContextAssemblyProfile)
    (kind : ContextSectionKind) : kind ∈ profile.effectiveSectionOrder := by
  have hmem : kind ∈ profile.sectionOrder := by
    apply profile.sectionOrder_perm.mem_iff.mpr
    cases kind <;> decide
  unfold ContextAssemblyProfile.effectiveSectionOrder
  by_cases hpolicy : kind = .policy
  · simp [hpolicy]
  · simp [hpolicy, hmem]

instance rankOrder_trans : IsTrans ScoredRetrievedCandidate rankOrder := by
  constructor
  intro a b c hab hbc
  unfold rankOrder at *
  rcases hab with hab | ⟨hab, hab'⟩ <;> rcases hbc with hbc | ⟨hbc, hbc'⟩
  · exact .inl (hbc.trans hab)
  · exact .inl (hbc ▸ hab)
  · exact .inl (hab ▸ hbc)
  · exact .inr ⟨hab.trans hbc, hab'.trans hbc'⟩

instance rankOrder_total : Std.Total rankOrder := by
  constructor
  intro a b
  unfold rankOrder
  rcases lt_trichotomy a.rankScore b.rankScore with hrank | hrank | hrank
  · exact .inr (.inl hrank)
  · rcases le_total (codeUnits a.candidate.candidateId) (codeUnits b.candidate.candidateId)
      with hid | hid
    · exact .inl (.inr ⟨hrank, hid⟩)
    · exact .inr (.inr ⟨hrank.symm, hid⟩)
  · exact .inl (.inl hrank)

variable (order : List ContextSectionKind)

instance assemblyOrder_trans : IsTrans ScoredRetrievedCandidate (assemblyOrder order) := by
  constructor
  intro a b c hab hbc
  unfold assemblyOrder at *
  rcases hab with hab | ⟨hab, hab'⟩ <;> rcases hbc with hbc | ⟨hbc, hbc'⟩
  · exact .inl (by omega)
  · exact .inl (by omega)
  · exact .inl (by omega)
  · exact .inr ⟨by omega, IsTrans.trans a b c hab' hbc'⟩

instance assemblyOrder_total : Std.Total (assemblyOrder order) := by
  constructor
  intro a b
  unfold assemblyOrder
  rcases Nat.lt_trichotomy (order.idxOf a.section) (order.idxOf b.section) with h | h | h
  · exact .inl (.inl h)
  · rcases Std.Total.total (r := rankOrder) a b with hrank | hrank
    · exact .inl (.inr ⟨h, hrank⟩)
    · exact .inr (.inr ⟨h.symm, hrank⟩)
  · exact .inr (.inl h)

theorem flatMap_items_sectionFor (selected : List ScoredRetrievedCandidate) :
    (order.filterMap (sectionFor selected)).flatMap (·.items) =
      (order.flatMap fun kind => inSection kind selected).map (·.item) := by
  induction order with
  | nil => rfl
  | cons kind rest ih =>
    rw [List.flatMap_cons, List.map_append, ← ih, List.filterMap_cons]
    unfold sectionFor
    by_cases hnone : (selected.filter fun value => value.section = kind).map (·.item) = []
    · simp only [hnone, if_true]
      have hempty : (inSection kind selected).map (·.item) = [] := hnone
      rw [hempty, List.nil_append]
    · simp only [hnone, if_false, List.flatMap_cons]
      rfl

variable {profile : ContextAssemblyProfile} {budget : ContextBudget}
  {candidates : List ScoredRetrievedCandidate} {protectedEventIds : List String}
  {assembled : BudgetAssembly}

/-- The bundle regroups the selection and does not reorder it. -/
theorem assembleBudget_items
    (h : assembleBudget profile budget candidates protectedEventIds = .ok assembled) :
    assembled.sections.flatMap (·.items) = assembled.selected.map (·.item) := by
  obtain ⟨s, hrep, hselected, hsections, -⟩ := assembleBudget_represents h
  rw [hsections, hselected, flatMap_items_sectionFor]
  congr 1
  apply flatMap_keys_of_pairwise profile.effectiveSectionOrder_nodup
  · intro value _
    exact profile.mem_effectiveSectionOrder value.section
  · rw [hrep.selected]
    have hsorted := List.pairwise_insertionSort
      (assemblyOrder profile.effectiveSectionOrder) candidates
    apply List.Pairwise.sublist (greedy_sublist (Fits budget) _)
    apply hsorted.imp
    intro a b hab
    rcases hab with hlt | ⟨heq, -⟩
    · exact Nat.le_of_lt hlt
    · exact Nat.le_of_eq heq

end Sections

/-! ## Soundness -/

section Sound

variable (profile : ContextAssemblyProfile) (budget : ContextBudget)
  (candidates : List ScoredRetrievedCandidate)

/-- The selection is within the budget, its ledger counts every candidate once, its sections are
the selection, and a candidate is out of it only because it did not fit when it was
considered. -/
structure BudgetSound (assembled : BudgetAssembly) : Prop where
  limits : WithinLimits budget assembled.selected
  ledger : ∃ truncated, LedgerCounts candidates assembled.selected truncated assembled.ledger
  sums : (assembled.ledger.sections.map (·.requestedTokens)).sum =
      assembled.ledger.requestedTokens ∧
    (assembled.ledger.sections.map (·.selectedTokens)).sum = assembled.ledger.selectedTokens ∧
    (assembled.ledger.sections.map (·.selectedItems)).sum = assembled.ledger.selectedItems ∧
    (assembled.ledger.sections.map (·.truncatedItems)).sum = assembled.ledger.truncatedItems
  items : assembled.sections.flatMap (·.items) = assembled.selected.map (·.item)
  maximal : ∀ before value after, consideredOrder profile candidates = before ++ value :: after →
    (value ∈ assembled.selected ↔
      Fits budget (before.filter (· ∈ assembled.selected)) value)

/-- Every protected event is an event item of the bundle. -/
def ProtectedSelected (protectedEventIds : List String) (assembled : BudgetAssembly) : Prop :=
  ∀ eventId ∈ protectedEventIds, ∃ item ∈ assembled.sections.flatMap (·.items),
    item.kind = .event ∧ item.resourceId = eventId

instance decidableProtectedSelected (protectedEventIds : List String)
    (assembled : BudgetAssembly) : Decidable (ProtectedSelected protectedEventIds assembled) :=
  inferInstanceAs (Decidable (∀ eventId ∈ protectedEventIds,
    ∃ item ∈ assembled.sections.flatMap (·.items),
      item.kind = .event ∧ item.resourceId = eventId))

/-- Every protected event was retrieved as an event. -/
def ProtectedRetrieved (protectedEventIds : List String) : Prop :=
  ∀ eventId ∈ protectedEventIds, ∃ value ∈ candidates,
    value.candidate.kind = .event ∧ value.candidate.resourceId = eventId

variable {profile budget candidates} {protectedEventIds : List String}
  {assembled : BudgetAssembly}

theorem assembleBudget_sound (hnodup : candidates.Nodup)
    (h : assembleBudget profile budget candidates protectedEventIds = .ok assembled) :
    BudgetSound profile budget candidates assembled := by
  obtain ⟨s, hrep, hselected, -⟩ := assembleBudget_represents h
  have hpicked : assembled.selected = (pickedOf profile budget candidates).1 :=
    hselected.trans hrep.selected
  have hledger := assembleBudget_ledger h
  exact {
    limits := by
      rw [hpicked]
      exact pickedOf_withinLimits profile candidates
    ledger := ⟨_, hledger⟩
    sums := hledger.sums
    items := assembleBudget_items h
    maximal := by
      intro before value after hsplit
      have hconsidered : (before ++ value :: after).Nodup := by
        rw [← hsplit]
        exact (consideredOrder_perm profile candidates).nodup_iff.mpr hnodup
      have hgreedy : assembled.selected =
          (greedy (Fits budget) (before ++ value :: after)).1 := by
        rw [hpicked, ← hsplit]
        rfl
      rw [hgreedy]
      exact mem_greedy_iff (Fits budget) hconsidered }

theorem Fused.item_eq {value : RetrievedContextCandidate} (h : Fused value) :
    value.item.kind = value.candidate.kind ∧ value.item.resourceId = value.candidate.resourceId ∧
      value.item.candidateId = value.candidate.candidateId ∧
      value.item.contentHash = value.candidate.contentHash := by
  have hagrees := h.agrees
  simp only [itemMatchesCandidate, Bool.and_eq_true, decide_eq_true_eq] at hagrees
  exact ⟨hagrees.1.1.1.1.2, hagrees.1.1.1.1.1.2, hagrees.1.1.1.1.1.1, hagrees.1.1.2⟩

/-- What is protected was either taken or stopped the assembly. -/
theorem protectedSelected_iff
    (hfused : ∀ value ∈ candidates, Fused value.toRetrievedContextCandidate)
    (h : assembleBudget profile budget candidates protectedEventIds = .ok assembled) :
    ProtectedSelected protectedEventIds assembled ↔
      ProtectedRetrieved candidates protectedEventIds := by
  obtain ⟨s, hrep, hselected, -⟩ := assembleBudget_represents h
  have hpicked : assembled.selected = (pickedOf profile budget candidates).1 :=
    hselected.trans hrep.selected
  have hpartition := pickedOf_perm profile budget candidates
  unfold ProtectedSelected ProtectedRetrieved
  rw [assembleBudget_items h, hpicked]
  constructor
  · intro hall eventId hprotected
    obtain ⟨item, hitem, hkind, hid⟩ := hall eventId hprotected
    obtain ⟨value, hvalue, rfl⟩ := List.mem_map.mp hitem
    have hin : value ∈ candidates := hpartition.subset (List.mem_append_left _ hvalue)
    obtain ⟨hkindEq, hidEq, -⟩ := (hfused value hin).item_eq
    exact ⟨value, hin, hkindEq ▸ hkind, hidEq ▸ hid⟩
  · intro hall eventId hprotected
    obtain ⟨value, hin, hkind, hid⟩ := hall eventId hprotected
    obtain ⟨hkindEq, hidEq, -⟩ := (hfused value hin).item_eq
    have htaken : value ∈ (pickedOf profile budget candidates).1 := by
      rcases List.mem_append.mp (hpartition.mem_iff.mpr hin) with htaken | htruncated
      · exact htaken
      · exact absurd (hid ▸ hprotected) (hrep.unprotected value htruncated)
    exact ⟨value.item, List.mem_map_of_mem htaken, hkindEq.trans hkind, hidEq.trans hid⟩

end Sound

end Regenic.Context.Assembly
