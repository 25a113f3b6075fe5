import Regenic.Context.Candidates

/-!
What of the fused candidates goes into a bundle: section by section in the order of the profile,
best first, each one that still fits the budget, with a ledger of what was left out.
-/

namespace Regenic.Context.Assembly

open Lib Ingest
open Customer (nonBlank)

/-! ## Budget and ledger -/

/-- `max_age_days` stands with the rest of the request. -/
structure ContextBudget where
  profile : String
  maxTokens : Nat
  maxItems : Nat
  maxRawEvidence : Nat
  sectionTokens : ContextSectionKind → Option Nat := fun _ => none

structure ContextBudgetSectionLedger where
  kind : ContextSectionKind
  requestedTokens : Nat
  selectedTokens : Nat
  reservedTokens : Nat
  selectedItems : Nat
  truncatedItems : Nat
  deriving DecidableEq, Repr

def emptySectionLedger (kind : ContextSectionKind) : ContextBudgetSectionLedger where
  kind := kind
  requestedTokens := 0
  selectedTokens := 0
  reservedTokens := 0
  selectedItems := 0
  truncatedItems := 0

structure ContextBudgetLedger where
  profile : String
  maxTokens : Nat
  maxItems : Nat
  maxRawEvidence : Nat
  requestedTokens : Nat
  selectedTokens : Nat
  reservedTokens : Nat
  selectedItems : Nat
  truncatedItems : Nat
  sections : List ContextBudgetSectionLedger
  deriving DecidableEq, Repr

structure ContextRedaction where
  «section» : ContextSectionKind
  category : String
  count : Nat
  deriving DecidableEq, Repr

structure ContextBundleSection where
  kind : ContextSectionKind
  items : List ContextBundleItem
  tokens : Nat
  deriving DecidableEq, Repr

structure BudgetAssembly where
  selected : List ScoredRetrievedCandidate
  sections : List ContextBundleSection
  ledger : ContextBudgetLedger
  redactions : List ContextRedaction
  deriving DecidableEq

/-- `validateProfiles`, as far as the assembly profile goes. -/
def validAssemblyProfile (version : String) (sectionOrder : List ContextSectionKind) : Bool :=
  nonBlank version &&
    uniqueSorted (sectionOrder.map ContextSectionKind.name) =
      uniqueSorted (contextSectionKinds.map ContextSectionKind.name) &&
    sectionOrder.length = contextSectionKinds.length

/-- The engine is not built with a profile that is not valid. -/
structure ContextAssemblyProfile where
  version : String
  sectionOrder : List ContextSectionKind
  valid : validAssemblyProfile version sectionOrder = true

/-- The policy comes first, whatever the profile says. -/
def ContextAssemblyProfile.effectiveSectionOrder (profile : ContextAssemblyProfile) :
    List ContextSectionKind :=
  .policy :: profile.sectionOrder.filter (· ≠ .policy)

/-! ## Assembly -/

def assertProtectedCandidates (protectedEventIds : List String)
    (candidates : List ScoredRetrievedCandidate) : Except AssemblyFailure Unit :=
  protectedEventIds.forM fun eventId =>
    throwUnless (candidates.any fun value => value.candidate.resourceId = eventId)
      (invalidCandidate ("Protected Event was not retrieved: " ++ eventId))

/-- An event with its text. -/
def isRawEvidence (value : ScoredRetrievedCandidate) : Bool :=
  value.item.kind = .event && value.item.text.isSome

def sectionLimit (budget : ContextBudget) (kind : ContextSectionKind) : Nat :=
  (budget.sectionTokens kind).getD budget.maxTokens

abbrev SectionLedgers : Type := Table ContextBudgetSectionLedger.kind

def SectionLedgers.of (ledgers : SectionLedgers) (kind : ContextSectionKind) :
    ContextBudgetSectionLedger :=
  (ledgers.get? kind).getD (emptySectionLedger kind)

def requestTokens (ledgers : SectionLedgers) (value : ScoredRetrievedCandidate) :
    SectionLedgers :=
  let ledger := ledgers.of value.section
  ledgers.put
    { ledger with requestedTokens := ledger.requestedTokens + value.item.estimatedTokens }

structure BudgetState where
  sectionLedgers : SectionLedgers
  selected : List ScoredRetrievedCandidate
  selectedTokens : Nat
  selectedRawEvidence : Nat

/-- One candidate of the loop: taken if it fits, counted as truncated if it does not. -/
def takeCandidate (budget : ContextBudget) (protectedEventIds : List String) (s : BudgetState)
    (value : ScoredRetrievedCandidate) : Except AssemblyFailure BudgetState :=
  let ledger := s.sectionLedgers.of value.section
  let tokens := value.item.estimatedTokens
  if s.selected.length < budget.maxItems ∧ s.selectedTokens + tokens ≤ budget.maxTokens ∧
      ledger.selectedTokens + tokens ≤ sectionLimit budget value.section ∧
      (isRawEvidence value = false ∨ s.selectedRawEvidence < budget.maxRawEvidence) then
    .ok { sectionLedgers := s.sectionLedgers.put
            { ledger with
              selectedTokens := ledger.selectedTokens + tokens
              selectedItems := ledger.selectedItems + 1 }
          selected := s.selected ++ [value]
          selectedTokens := s.selectedTokens + tokens
          selectedRawEvidence := s.selectedRawEvidence + (isRawEvidence value).toNat }
  else if protectedEventIds.contains value.candidate.resourceId then
    .error (.invalidRequest
      ("Context budget cannot fit protected Event: " ++ value.candidate.resourceId))
  else
    .ok { s with
          sectionLedgers := s.sectionLedgers.put
            { ledger with truncatedItems := ledger.truncatedItems + 1 } }

/-- Section after section, the best of a section first. -/
def assemblyOrder (order : List ContextSectionKind) (left right : ScoredRetrievedCandidate) :
    Prop :=
  order.idxOf left.section < order.idxOf right.section ∨
    order.idxOf left.section = order.idxOf right.section ∧ rankOrder left right

instance decidableAssemblyOrder (order : List ContextSectionKind)
    (left right : ScoredRetrievedCandidate) : Decidable (assemblyOrder order left right) :=
  inferInstanceAs (Decidable (order.idxOf left.section < order.idxOf right.section ∨
    order.idxOf left.section = order.idxOf right.section ∧ rankOrder left right))

def sectionFor (selected : List ScoredRetrievedCandidate) (kind : ContextSectionKind) :
    Option ContextBundleSection :=
  let items := (selected.filter fun value => value.section = kind).map (·.item)
  if items = [] then none
  else some { kind, items, tokens := (items.map (·.estimatedTokens)).sum }

def ledgerOrder (left right : ContextBudgetSectionLedger) : Prop :=
  codeUnits left.kind.name ≤ codeUnits right.kind.name

instance decidableLedgerOrder (left right : ContextBudgetSectionLedger) :
    Decidable (ledgerOrder left right) :=
  inferInstanceAs (Decidable (codeUnits left.kind.name ≤ codeUnits right.kind.name))

def assembleBudget (profile : ContextAssemblyProfile) (budget : ContextBudget)
    (candidates : List ScoredRetrievedCandidate) (protectedEventIds : List String) :
    Except AssemblyFailure BudgetAssembly := do
  let order := profile.effectiveSectionOrder
  let s ← (candidates.insertionSort (assemblyOrder order)).foldlM
    (takeCandidate budget protectedEventIds)
    { sectionLedgers := candidates.foldl requestTokens ∅, selected := [], selectedTokens := 0,
      selectedRawEvidence := 0 }
  let sections := s.sectionLedgers.rows.insertionSort ledgerOrder
  return {
    selected := s.selected
    sections := order.filterMap (sectionFor s.selected)
    ledger := {
      profile := budget.profile
      maxTokens := budget.maxTokens
      maxItems := budget.maxItems
      maxRawEvidence := budget.maxRawEvidence
      requestedTokens := (sections.map (·.requestedTokens)).sum
      selectedTokens := s.selectedTokens
      reservedTokens := 0
      selectedItems := s.selected.length
      truncatedItems := (sections.map (·.truncatedItems)).sum
      sections }
    redactions := (sections.filter fun row => 0 < row.truncatedItems).map fun row =>
      { «section» := row.kind, category := "budget", count := row.truncatedItems } }

end Regenic.Context.Assembly
