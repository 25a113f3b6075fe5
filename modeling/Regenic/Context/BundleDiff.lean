import Regenic.Context.Replay
import Regenic.Lib.CanonicalJson

/-!
What changed between two bundles. Candidates are compared by the canonical JSON of their section
and item; a changed one is given with its reasons, each a comparison of some of its fields.
-/

namespace Regenic.Context.Assembly

open Lib Ingest
open Customer (ActorRef ActorType nonBlank)

/-! ## The schema of a bundle -/

section Schema

variable (isTimestamp : String → Bool)

/-- `Number.MAX_SAFE_INTEGER` -/
def maxSafeInteger : Nat := 9007199254740991

def validBundleEvidence (evidence : EvidenceReference) : Bool :=
  nonBlank evidence.eventId && nonBlank evidence.source && nonBlank evidence.externalId &&
    isTimestamp evidence.occurredAt && evidence.contentHash.all isSha256Hex

/-- A snippet has its range, and is as long as it; nothing else has a range. -/
def validSearchMatch (found : ContextSearchMatch) : Bool :=
  found.partIndex.all (fun index => -1 ≤ index ∧ index ≤ (maxSafeInteger : ℤ)) &&
    found.contentHash.all isSha256Hex && found.via ≠ [] &&
    found.snippet.all (fun snippet => utf16Length snippet ≤ 960) &&
    found.start.all (fun start => start ≤ maxSafeInteger) &&
    found.finish.all (fun finish => finish ≤ maxSafeInteger) &&
    !(found.kind = .file && (found.partIndex.isNone || (present found.mediaType).isNone)) &&
    match found.snippet, found.start, found.finish with
    | none, none, none => true
    | some snippet, some start, some finish => (finish : ℤ) - start = utf16Length snippet
    | _, _, _ => false

def validBundleItem (item : ContextBundleItem) : Bool :=
  nonBlank item.candidateId && nonBlank item.resourceId &&
    item.searchMatches.all (fun found => found.all validSearchMatch) &&
    item.contentHash.all isSha256Hex && item.evidence ≠ [] && item.evidence.length ≤ 10000 &&
    item.evidence.all (validBundleEvidence isTimestamp) && item.estimatedTokens ≤ maxSafeInteger &&
    !(item.text.isNone && item.contentHash.isNone)

def validBundleSection (part : ContextBundleSection) : Bool :=
  part.items.length ≤ 10000 && part.items.all (validBundleItem isTimestamp) &&
    part.tokens = (part.items.map (·.estimatedTokens)).sum

def validSectionLedger (part : ContextBudgetSectionLedger) : Bool :=
  [part.requestedTokens, part.selectedTokens, part.reservedTokens, part.selectedItems,
    part.truncatedItems].all (· ≤ maxSafeInteger) &&
    part.selectedTokens + part.reservedTokens ≤ part.requestedTokens

def validBudgetLedger (ledger : ContextBudgetLedger) : Bool :=
  nonBlank ledger.profile && 0 < ledger.maxTokens && 0 < ledger.maxItems &&
    [ledger.maxTokens, ledger.maxItems, ledger.maxRawEvidence, ledger.requestedTokens,
      ledger.selectedTokens, ledger.reservedTokens, ledger.selectedItems,
      ledger.truncatedItems].all (· ≤ maxSafeInteger) &&
    ledger.sections.length ≤ contextSectionKinds.length &&
    ledger.sections.all validSectionLedger && (ledger.sections.map (·.kind)).Nodup &&
    ledger.selectedTokens + ledger.reservedTokens ≤ ledger.maxTokens &&
    ledger.selectedTokens + ledger.reservedTokens ≤ ledger.requestedTokens &&
    ledger.selectedItems ≤ ledger.maxItems &&
    (ledger.sections.map (·.selectedTokens)).sum = ledger.selectedTokens &&
    (ledger.sections.map (·.requestedTokens)).sum = ledger.requestedTokens &&
    (ledger.sections.map (·.reservedTokens)).sum = ledger.reservedTokens &&
    (ledger.sections.map (·.selectedItems)).sum = ledger.selectedItems &&
    (ledger.sections.map (·.truncatedItems)).sum = ledger.truncatedItems

def validConflict (conflict : ContextConflict) : Bool :=
  nonBlank conflict.code && conflict.candidateIds.all nonBlank &&
    2 ≤ conflict.candidateIds.length

def validRedaction (redaction : ContextRedaction) : Bool :=
  nonBlank redaction.category && 0 < redaction.count && redaction.count ≤ maxSafeInteger

def ContextBundle.items (bundle : ContextBundle) : List ContextBundleItem :=
  bundle.sections.flatMap (·.items)

/-- Each section has its ledger, of its tokens and its number of items. -/
def sectionLedgersMatch (bundle : ContextBundle) : Bool :=
  bundle.sections.all fun part =>
    match bundle.budgetLedger.sections.find? fun ledger => ledger.kind = part.kind with
    | none => false
    | some ledger =>
      ledger.selectedTokens = part.tokens && ledger.selectedItems = part.items.length

/-- `validateContextBundle` -/
def validateContextBundle (canonical : CanonicalEnv) (bundle : ContextBundle) : Bool :=
  bundle.schemaVersion = "2.0" && nonBlank bundle.snapshotId && nonBlank bundle.orgId &&
    nonBlank bundle.principal.actorId && nonBlank bundle.consumerId && nonBlank bundle.purpose &&
    bundle.allowedUses ≠ [] && bundle.allowedUses.length ≤ 4 &&
    bundle.sections.length ≤ contextSectionKinds.length &&
    bundle.sections.all (validBundleSection isTimestamp) &&
    bundle.citations.length ≤ 10000 &&
    bundle.citations.all (validBundleEvidence isTimestamp) &&
    bundle.conflicts.length ≤ 1000 && bundle.conflicts.all validConflict &&
    bundle.redactions.length ≤ 1000 && bundle.redactions.all validRedaction &&
    validBudgetLedger bundle.budgetLedger &&
    bundle.degradationFlags.length ≤ 100 && bundle.degradationFlags.all nonBlank &&
    isSha256Hex bundle.contentHash &&
    (bundle.sections.map (·.kind)).Nodup && bundle.allowedUses.Nodup &&
    (bundle.items.map (·.candidateId)).Nodup &&
    (bundle.sections.map (·.tokens)).sum = bundle.budgetLedger.selectedTokens &&
    bundle.items.length = bundle.budgetLedger.selectedItems &&
    (bundle.items.filter fun item => item.kind = .event && item.text.isSome).length ≤
      bundle.budgetLedger.maxRawEvidence &&
    sectionLedgersMatch bundle && (bundle.citations.map (·.eventId)).Nodup &&
    (bundle.redactions.map fun redaction => (redaction.section, redaction.category)).Nodup &&
    bundle.degradationFlags.Nodup && bundle.contentHash = hashContextBundle canonical bundle

end Schema

/-! ## Canonical JSON -/

def candidateKindName : ContextCandidateKind → String
  | .event => "event"
  | .digest => "digest"
  | .claim => "claim"
  | .entity => "entity"
  | .edge => "edge"
  | .artifact => "artifact"

def eventStatusName : EventStatus → String
  | .current => "current"
  | .superseded => "superseded"
  | .retracted => "retracted"

def operationName : IngestOperation → String
  | .create => "create"
  | .revise => "revise"
  | .tombstone => "tombstone"

def SearchMatchKind.name : SearchMatchKind → String
  | .message => "message"
  | .file => "file"
  | .event => "event"

def SearchVia.name : SearchVia → String
  | .filename => "filename"
  | .metadata => "metadata"
  | .text => "text"
  | .semantic => "semantic"
  | .visual => "visual"

def actorTypeName : ActorType → String
  | .human => "human"
  | .agent => "agent"
  | .system => "system"

def integerJson (value : ℤ) : JsonValue := .number (toString value)

def evidenceFields (evidence : EvidenceReference) : List (String × Option JsonValue) :=
  [("event_id", some (.string evidence.eventId)),
   ("source", some (.string evidence.source)),
   ("external_id", some (.string evidence.externalId)),
   ("operation", some (.string (operationName evidence.operation))),
   ("occurred_at", some (.string evidence.occurredAt)),
   ("content_hash", evidence.contentHash.map .string)]

def evidenceJson (evidence : EvidenceReference) : JsonValue := Json.record (evidenceFields evidence)

def searchMatchFields (found : ContextSearchMatch) : List (String × Option JsonValue) :=
  [("kind", some (.string found.kind.name)),
   ("part_index", found.partIndex.map integerJson),
   ("media_type", found.mediaType.map .string),
   ("filename", found.filename.map .string),
   ("content_hash", found.contentHash.map .string),
   ("via", some (.array (found.via.map fun via => .string via.name))),
   ("snippet", found.snippet.map .string),
   ("start", found.start.map fun start : ℕ => integerJson start),
   ("end", found.finish.map fun finish : ℕ => integerJson finish)]

def searchMatchJson (found : ContextSearchMatch) : JsonValue := Json.record (searchMatchFields found)

def itemFields (item : ContextBundleItem) : List (String × Option JsonValue) :=
  [("candidate_id", some (.string item.candidateId)),
   ("resource_id", some (.string item.resourceId)),
   ("kind", some (.string (candidateKindName item.kind))),
   ("status", item.status.map fun status => .string (eventStatusName status)),
   ("text", item.text.map .string),
   ("search_matches", item.searchMatches.map fun found => .array (found.map searchMatchJson)),
   ("content_hash", item.contentHash.map .string),
   ("evidence", some (.array (item.evidence.map evidenceJson))),
   ("estimated_tokens", some (integerJson item.estimatedTokens))]

def itemJson (item : ContextBundleItem) : JsonValue := Json.record (itemFields item)

def actorFields (actor : ActorRef) : List (String × Option JsonValue) :=
  [("actor_type", some (.string (actorTypeName actor.actorType))),
   ("actor_id", some (.string actor.actorId))]

def actorJson (actor : ActorRef) : JsonValue := Json.record (actorFields actor)

/-! ## The diff -/

structure IndexedBundleItem where
  «section» : ContextSectionKind
  item : ContextBundleItem
  deriving DecidableEq, Repr

def IndexedBundleItem.id (indexed : IndexedBundleItem) : String := indexed.item.candidateId

def IndexedBundleItem.fields (indexed : IndexedBundleItem) : List (String × Option JsonValue) :=
  [("section", some (.string indexed.section.name)), ("item", some (itemJson indexed.item))]

def IndexedBundleItem.json (indexed : IndexedBundleItem) : JsonValue :=
  Json.record indexed.fields

structure ContextBundleDiffItem where
  candidateId : String
  resourceId : String
  kind : ContextCandidateKind
  «section» : ContextSectionKind
  contentHash : Option String := none
  deriving DecidableEq, Repr

inductive ContextBundleDiffChangeReason where
  | sectionChanged
  | resourceChanged
  | kindChanged
  | contentChanged
  | evidenceChanged
  | statusChanged
  | tokenEstimateChanged
  deriving DecidableEq, Repr

structure ContextBundleDiffChange where
  before : ContextBundleDiffItem
  after : ContextBundleDiffItem
  reasons : List ContextBundleDiffChangeReason
  deriving DecidableEq, Repr

structure ContextBundleDiffSummary where
  added : Nat
  removed : Nat
  changed : Nat
  unchanged : Nat
  deriving DecidableEq, Repr

structure ContextBundleDiff where
  fromSnapshotId : String
  toSnapshotId : String
  summary : ContextBundleDiffSummary := ⟨0, 0, 0, 0⟩
  added : List ContextBundleDiffItem := []
  removed : List ContextBundleDiffItem := []
  changed : List ContextBundleDiffChange := []
  unchanged : List ContextBundleDiffItem := []
  deriving DecidableEq, Repr

def ContextBundle.entries (bundle : ContextBundle) : List IndexedBundleItem :=
  bundle.sections.flatMap fun part => part.items.map fun item => ⟨part.kind, item⟩

/-- The last item of a candidate counts. -/
def indexBundle (bundle : ContextBundle) : Table IndexedBundleItem.id :=
  bundle.entries.foldl Table.put ∅

def toDiffItem (indexed : IndexedBundleItem) : ContextBundleDiffItem where
  candidateId := indexed.item.candidateId
  resourceId := indexed.item.resourceId
  kind := indexed.item.kind
  «section» := indexed.section
  contentHash := present indexed.item.contentHash

def changeReasons (before after : IndexedBundleItem) : List ContextBundleDiffChangeReason :=
  (if before.section ≠ after.section then [.sectionChanged] else []) ++
    (if before.item.resourceId ≠ after.item.resourceId then [.resourceChanged] else []) ++
    (if before.item.kind ≠ after.item.kind then [.kindChanged] else []) ++
    (if before.item.contentHash ≠ after.item.contentHash ∨ before.item.text ≠ after.item.text then
      [.contentChanged] else []) ++
    (if Json.canonical (.array (before.item.evidence.map evidenceJson)) ≠
        Json.canonical (.array (after.item.evidence.map evidenceJson)) then
      [.evidenceChanged] else []) ++
    (if before.item.status ≠ after.item.status then [.statusChanged] else []) ++
    (if before.item.estimatedTokens ≠ after.item.estimatedTokens then
      [.tokenEstimateChanged] else [])

def classifyCandidate (before after : Table IndexedBundleItem.id) (diff : ContextBundleDiff)
    (candidateId : String) : ContextBundleDiff :=
  match before.get? candidateId, after.get? candidateId with
  -- a candidate is of one of the two
  | none, none => diff
  | none, some next => { diff with added := diff.added ++ [toDiffItem next] }
  | some previous, none => { diff with removed := diff.removed ++ [toDiffItem previous] }
  | some previous, some next =>
    if Json.canonical previous.json = Json.canonical next.json then
      { diff with unchanged := diff.unchanged ++ [toDiffItem next] }
    else
      { diff with changed := diff.changed ++
          [⟨toDiffItem previous, toDiffItem next, changeReasons previous next⟩] }

def candidateIds (before after : Table IndexedBundleItem.id) : List String :=
  sortStrings (keepFirst id (before.rows.map (·.id) ++ after.rows.map (·.id)))

/-- What two bundles must have in common to be compared. -/
def authorizationScope (bundle : ContextBundle) : String :=
  Json.canonical (Json.record
    [("org_id", some (.string bundle.orgId)),
     ("principal", some (actorJson bundle.principal)),
     ("consumer_id", some (.string bundle.consumerId)),
     ("purpose", some (.string bundle.purpose)),
     ("allowed_uses", some (.array
        ((sortStrings (bundle.allowedUses.map ContextAllowedUse.name)).map .string)))])

variable (isTimestamp : String → Bool) (canonical : CanonicalEnv)

def diffContextBundles (fromBundle toBundle : ContextBundle) : Except String ContextBundleDiff := do
  throwUnless (validateContextBundle isTimestamp canonical fromBundle)
    "Cannot diff invalid from Context bundle"
  throwUnless (validateContextBundle isTimestamp canonical toBundle)
    "Cannot diff invalid to Context bundle"
  throwUnless (authorizationScope fromBundle = authorizationScope toBundle)
    "Cannot diff Context bundles from different authorization scopes"
  let before := indexBundle fromBundle
  let after := indexBundle toBundle
  let diff := (candidateIds before after).foldl (classifyCandidate before after)
    { fromSnapshotId := fromBundle.snapshotId
      toSnapshotId := toBundle.snapshotId }
  return { diff with
    summary := ⟨diff.added.length, diff.removed.length, diff.changed.length,
      diff.unchanged.length⟩ }

/-! ## What canonical JSON tells apart -/

theorem candidateKindName_injective : Function.Injective candidateKindName := by
  intro left right h
  cases left <;> cases right <;> first | rfl | exact absurd h (by decide)

theorem eventStatusName_injective : Function.Injective eventStatusName := by
  intro left right h
  cases left <;> cases right <;> first | rfl | exact absurd h (by decide)

theorem operationName_injective : Function.Injective operationName := by
  intro left right h
  cases left <;> cases right <;> first | rfl | exact absurd h (by decide)

theorem SearchMatchKind.name_injective : Function.Injective SearchMatchKind.name := by
  intro left right h
  cases left <;> cases right <;> first | rfl | exact absurd h (by decide)

theorem SearchVia.name_injective : Function.Injective SearchVia.name := by
  intro left right h
  cases left <;> cases right <;> first | rfl | exact absurd h (by decide)

/-- A way of writing values whose sorted JSON tells them apart. -/
def Distinct {α : Type} (json : α → JsonValue) : Prop :=
  Function.Injective fun value => Json.sortKeys (json value)

theorem distinct_string {α : Type} {name : α → String} (h : Function.Injective name) :
    Distinct fun value => .string (name value) :=
  fun _ _ heq => h (JsonValue.string.inj heq)

theorem distinct_integer : Distinct integerJson := fun _ _ heq =>
  toString_int_injective (JsonValue.number.inj heq)

theorem distinct_natural : Distinct fun value : ℕ => integerJson value := fun _ _ heq =>
  Int.ofNat.inj (distinct_integer heq)

theorem Distinct.array {α : Type} {json : α → JsonValue} (h : Distinct json) :
    Distinct fun values : List α => .array (values.map json) := by
  intro left right heq
  have hitems := JsonValue.array.inj heq
  rw [Json.sortItems_eq, Json.sortItems_eq, List.map_map, List.map_map] at hitems
  exact List.map_injective_iff.mpr h hitems

theorem Distinct.optional {α : Type} {json : α → JsonValue} (h : Distinct json) :
    Function.Injective fun value : Option α => (value.map json).map Json.sortKeys := by
  intro left right heq
  simp only [Option.map_map] at heq
  exact Option.map_injective h heq

theorem distinct_record {α : Type} (fields : α → List (String × Option JsonValue))
    (hnames : ∀ left right, (fields left).map Prod.fst = (fields right).map Prod.fst)
    (hnodup : ∀ value, ((fields value).map Prod.fst).Nodup)
    (hvalues : ∀ left right, Json.sortValues (fields left) = Json.sortValues (fields right) →
      left = right) :
    Distinct fun value => Json.record (fields value) :=
  fun left right heq =>
    hvalues left right ((Json.sortKeys_record_iff (hnames left right) (hnodup left)).mp heq)

theorem distinct_text : Distinct JsonValue.string :=
  distinct_string Function.injective_id

theorem distinct_evidence : Distinct evidenceJson := by
  apply distinct_record evidenceFields (fun _ _ => rfl)
  · intro value
    simp [evidenceFields]
  · intro left right h
    simp only [evidenceFields, Json.sortValues, List.map_cons, List.map_nil, List.cons.injEq,
      Prod.mk.injEq, true_and, and_true, Option.map_some, Option.some.injEq] at h
    obtain ⟨hevent, hsource, hexternal, hoperation, hoccurred, hhash⟩ := h
    have hoperations := distinct_string operationName_injective hoperation
    have hhashes := distinct_text.optional hhash
    cases left
    cases right
    simp only [Json.sortKeys, JsonValue.string.injEq] at hevent hsource hexternal hoccurred
    simp only at hoperations hhashes
    rw [hevent, hsource, hexternal, hoperations, hoccurred, hhashes]

theorem distinct_searchMatch : Distinct searchMatchJson := by
  apply distinct_record searchMatchFields (fun _ _ => rfl)
  · intro value
    simp [searchMatchFields]
  · intro left right h
    simp only [searchMatchFields, Json.sortValues, List.map_cons, List.map_nil, List.cons.injEq,
      Prod.mk.injEq, true_and, and_true, Option.map_some, Option.some.injEq] at h
    obtain ⟨hkind, hpart, hmedia, hfilename, hhash, hvia, hsnippet, hstart, hfinish⟩ := h
    have hkinds := distinct_string SearchMatchKind.name_injective hkind
    have hparts := distinct_integer.optional hpart
    have hmedias := distinct_text.optional hmedia
    have hfilenames := distinct_text.optional hfilename
    have hhashes := distinct_text.optional hhash
    have hvias := (distinct_string SearchVia.name_injective).array hvia
    have hsnippets := distinct_text.optional hsnippet
    have hstarts := distinct_natural.optional hstart
    have hfinishes := distinct_natural.optional hfinish
    cases left
    cases right
    simp only at hkinds hparts hmedias hfilenames hhashes hvias hsnippets hstarts hfinishes
    rw [hkinds, hparts, hmedias, hfilenames, hhashes, hvias, hsnippets, hstarts, hfinishes]

theorem distinct_item : Distinct itemJson := by
  apply distinct_record itemFields (fun _ _ => rfl)
  · intro value
    simp [itemFields]
  · intro left right h
    simp only [itemFields, Json.sortValues, List.map_cons, List.map_nil, List.cons.injEq,
      Prod.mk.injEq, true_and, and_true, Option.map_some, Option.some.injEq] at h
    obtain ⟨hcandidate, hresource, hkind, hstatus, htext, hmatches, hhash, hevidence, htokens⟩ := h
    have hkinds := distinct_string candidateKindName_injective hkind
    have hstatuses := (distinct_string eventStatusName_injective).optional hstatus
    have htexts := distinct_text.optional htext
    have hmatched := distinct_searchMatch.array.optional hmatches
    have hhashes := distinct_text.optional hhash
    have hreferences := distinct_evidence.array hevidence
    have hestimates := distinct_natural htokens
    cases left
    cases right
    simp only [Json.sortKeys, JsonValue.string.injEq] at hcandidate hresource
    simp only at hkinds hstatuses htexts hmatched hhashes hreferences hestimates
    rw [hcandidate, hresource, hkinds, hstatuses, htexts, hmatched, hhashes, hreferences,
      hestimates]

theorem distinct_indexed : Distinct IndexedBundleItem.json := by
  apply distinct_record IndexedBundleItem.fields (fun _ _ => rfl)
  · intro value
    simp [IndexedBundleItem.fields]
  · intro left right h
    simp only [IndexedBundleItem.fields, Json.sortValues, List.map_cons, List.map_nil,
      List.cons.injEq, Prod.mk.injEq, true_and, and_true, Option.map_some, Option.some.injEq] at h
    obtain ⟨hsection, hitem⟩ := h
    have hsections := distinct_string ContextSectionKind.name_injective hsection
    have hitems := distinct_item hitem
    cases left
    cases right
    simp only at hsections hitems
    rw [hsections, hitems]

theorem printable_integer (value : ℤ) : Json.Printable (integerJson value) :=
  Json.isNumber_toString value

theorem printable_array {α : Type} {json : α → JsonValue}
    (h : ∀ value, Json.Printable (json value)) (values : List α) :
    Json.Printable (.array (values.map json)) := by
  rw [Json.Printable, Json.printableItems_iff]
  intro item hitem
  obtain ⟨value, -, rfl⟩ := List.mem_map.mp hitem
  exact h value

theorem printable_optional {α : Type} {json : α → JsonValue}
    (h : ∀ value, Json.Printable (json value)) (value : Option α) :
    ∀ item ∈ value.map json, Json.Printable item := by
  intro item hitem
  obtain ⟨found, -, rfl⟩ := Option.map_eq_some_iff.mp hitem
  exact h found

theorem printable_present {item : JsonValue} (h : Json.Printable item) :
    ∀ found ∈ some item, Json.Printable found := by
  rintro found ⟨⟩
  exact h

theorem printable_string (value : String) : Json.Printable (.string value) := trivial

theorem printable_evidence (evidence : EvidenceReference) :
    Json.Printable (evidenceJson evidence) := by
  apply Json.printable_record
  simp only [evidenceFields, List.forall_mem_cons]
  refine ⟨printable_present trivial, printable_present trivial, printable_present trivial,
    printable_present trivial, printable_present trivial, printable_optional printable_string _,
    List.forall_mem_nil _⟩

theorem printable_searchMatch (found : ContextSearchMatch) :
    Json.Printable (searchMatchJson found) := by
  have hvia := printable_array (fun via : SearchVia => printable_string via.name) found.via
  have hnatural := fun value : ℕ => printable_integer value
  apply Json.printable_record
  simp only [searchMatchFields, List.forall_mem_cons]
  refine ⟨printable_present trivial, printable_optional printable_integer _,
    printable_optional printable_string _, printable_optional printable_string _,
    printable_optional printable_string _, printable_present hvia,
    printable_optional printable_string _, printable_optional hnatural _,
    printable_optional hnatural _, List.forall_mem_nil _⟩

theorem printable_item (item : ContextBundleItem) : Json.Printable (itemJson item) := by
  have hstatus := fun status : EventStatus => printable_string (eventStatusName status)
  apply Json.printable_record
  simp only [itemFields, List.forall_mem_cons]
  refine ⟨printable_present trivial, printable_present trivial, printable_present trivial,
    printable_optional hstatus _, printable_optional printable_string _,
    printable_optional (printable_array printable_searchMatch) _,
    printable_optional printable_string _,
    printable_present (printable_array printable_evidence _),
    printable_present (printable_integer _), List.forall_mem_nil _⟩

theorem printable_indexed (indexed : IndexedBundleItem) : Json.Printable indexed.json := by
  apply Json.printable_record
  simp only [IndexedBundleItem.fields, List.forall_mem_cons]
  exact ⟨printable_present trivial, printable_present (printable_item _), List.forall_mem_nil _⟩

/-- Canonical texts are equal of equal sections and items only. -/
theorem canonical_indexed_iff {left right : IndexedBundleItem} :
    Json.canonical left.json = Json.canonical right.json ↔ left = right := by
  rw [Json.canonical_eq_iff (printable_indexed left) (printable_indexed right)]
  exact distinct_indexed.eq_iff

theorem canonical_evidence_iff {left right : List EvidenceReference} :
    Json.canonical (.array (left.map evidenceJson)) =
      Json.canonical (.array (right.map evidenceJson)) ↔ left = right := by
  rw [Json.canonical_eq_iff (printable_array printable_evidence left)
    (printable_array printable_evidence right)]
  exact distinct_evidence.array.eq_iff

end Regenic.Context.Assembly
