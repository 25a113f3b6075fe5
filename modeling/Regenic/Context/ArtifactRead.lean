import Regenic.Context.Packed

/-!
An artifact is read back from the fields of its record, in whatever order they are: as it was, with
the fields of its attributes in order.
-/

namespace Regenic.Context.Artifacts

open Lib Ingest Assembly

/-! ## Values of the schema -/

theorem isNumberText_iff {text : String} : isNumberText text = true ↔ Json.IsNumber text := by
  unfold isNumberText Json.IsNumber
  constructor
  · intro h
    split at h
    · next found hnumber =>
      rw [hnumber, of_decide_eq_true h]
    · cases h
  · intro h
    rw [h]
    exact decide_eq_true rfl

mutual

theorem isJsonValue_iff : ∀ item : JsonValue, isJsonValue item = true ↔ Json.Printable item
  | .null => ⟨fun _ => trivial, fun _ => rfl⟩
  | .bool _ => ⟨fun _ => trivial, fun _ => rfl⟩
  | .string _ => ⟨fun _ => trivial, fun _ => rfl⟩
  | .number _ => isNumberText_iff
  | .array items => areJsonValues_iff items
  | .object fields => haveJsonValues_iff fields

theorem areJsonValues_iff : ∀ items : List JsonValue,
    areJsonValues items = true ↔ Json.PrintableItems items
  | [] => ⟨fun _ => trivial, fun _ => rfl⟩
  | item :: rest => by
    rw [areJsonValues, Bool.and_eq_true, isJsonValue_iff item, areJsonValues_iff rest]
    rfl

theorem haveJsonValues_iff : ∀ fields : List (String × JsonValue),
    haveJsonValues fields = true ↔ Json.PrintableMembers fields
  | [] => ⟨fun _ => trivial, fun _ => rfl⟩
  | (_, item) :: rest => by
    rw [haveJsonValues, Bool.and_eq_true, isJsonValue_iff item, haveJsonValues_iff rest]
    rfl

end

/-! ## Reading fields -/

theorem hasOnly_of_perm {row : List (String × JsonValue)} {fields : List (String × Option JsonValue)}
    (hperm : row.Perm (Json.presentFields fields)) {names : List String}
    (hnames : ∀ name ∈ fields.map Prod.fst, name ∈ names) : hasOnly names row = true := by
  refine List.all_eq_true.mpr fun field hfield => decide_eq_true ?_
  have hmem : (field.1, field.2) ∈ Json.presentFields fields := hperm.mem_iff.mp hfield
  exact hnames _ (List.mem_map_of_mem (Json.mem_presentFields_iff.mp hmem))

theorem optionalString_of_property {row : List (String × JsonValue)} {name : String}
    {value : Option String} (h : property row name = value.map .string) :
    optionalString row name = some value := by
  unfold optionalString
  rw [h]
  cases value <;> rfl

/-! ## Rows -/

/-- The fields of a record in any order, what they hold in order. -/
def RowOf (fields : List (String × Option JsonValue)) (row : List (String × JsonValue)) : Prop :=
  row.Perm (Json.presentFields (Json.sortValues fields)) ∧ (fields.map Prod.fst).Nodup

section Row

variable {fields : List (String × Option JsonValue)} {row : List (String × JsonValue)}
  (hrow : RowOf fields row) {name : String}

include hrow

theorem property_row {value : Option JsonValue} (hfield : (name, value) ∈ fields) :
    property row name = value.map Json.sortKeys := by
  apply property_of_perm hrow.1
  · rw [Json.names_sortValues]
    exact hrow.2
  · exact List.mem_map.mpr ⟨(name, value), hfield, rfl⟩

theorem requiredString_row {value : String} (hfield : (name, some (.string value)) ∈ fields) :
    requiredString row name = some value := by
  rw [requiredString, property_row hrow hfield]
  rfl

theorem optionalString_row {value : Option String}
    (hfield : (name, value.map .string) ∈ fields) : optionalString row name = some value := by
  apply optionalString_of_property
  rw [property_row hrow hfield, Option.map_map]
  rfl

theorem hasOnly_row : hasOnly (fields.map Prod.fst) row = true := by
  apply hasOnly_of_perm hrow.1
  rw [Json.names_sortValues]
  exact fun _ hname => hname

end Row

theorem find_operation (operation : IngestOperation) :
    (ingestOperations.find? fun known => operationName known = operationName operation) =
      some operation := by
  cases operation <;> decide

theorem find_kind (kind : ContextArtifactKind) :
    (contextArtifactKinds.find? fun known => known.name = kind.name) = some kind := by
  cases kind <;> decide

theorem find_status (status : ContextArtifactStatus) :
    (contextArtifactStatuses.find? fun known => known.name = status.name) = some status := by
  cases status <;> decide

theorem evidence_names (evidence : Assembly.EvidenceReference) :
    (evidenceFields evidence).map Prod.fst =
      ["event_id", "source", "external_id", "operation", "occurred_at", "content_hash"] := rfl

/-- A reference is read back from its record in order. -/
theorem readEvidence_sorted (evidence : Assembly.EvidenceReference) :
    readEvidence (Json.sortKeys (evidenceJson evidence)) = some evidence := by
  have hnodup : ((evidenceFields evidence).map Prod.fst).Nodup := by
    rw [evidence_names]
    decide
  have hrow : RowOf (evidenceFields evidence) (parsedFields (evidenceFields evidence)) :=
    ⟨parsedFields_perm _, hnodup⟩
  have honly := hasOnly_row hrow
  rw [evidence_names] at honly
  have hsorted : Json.sortKeys (evidenceJson evidence) =
      .object (parsedFields (evidenceFields evidence)) := Json.sortKeys_record _
  have heventId := @requiredString_row _ _ hrow "event_id" evidence.eventId
    (by simp [evidenceFields])
  have hsource := @requiredString_row _ _ hrow "source" evidence.source (by simp [evidenceFields])
  have hexternalId := @requiredString_row _ _ hrow "external_id" evidence.externalId
    (by simp [evidenceFields])
  have hoperation := @requiredString_row _ _ hrow "operation" (operationName evidence.operation)
    (by simp [evidenceFields])
  have hoccurredAt := @requiredString_row _ _ hrow "occurred_at" evidence.occurredAt
    (by simp [evidenceFields])
  have hcontentHash := @optionalString_row _ _ hrow "content_hash" evidence.contentHash
    (by simp [evidenceFields])
  rw [hsorted, readEvidence, if_neg (by rw [honly]; decide)]
  simp only [heventId, hsource, hexternalId, hoperation, hoccurredAt, hcontentHash,
    find_operation, Option.bind_eq_bind, Option.bind_some]
  rfl

/-! ## Artifacts -/

/-- An artifact with the fields of its attributes in order. -/
def ContextArtifact.sorted (artifact : ContextArtifact) : ContextArtifact :=
  { artifact with attrs := artifact.attrs.map Json.sortKeys }

theorem artifact_names (artifact : ContextArtifact) :
    artifact.fields.map Prod.fst =
      ["id", "org_id", "kind", "schema_version", "algorithm_version", "generation", "input_refs",
        "input_hash", "body_hash", "body_storage", "status", "required_scope_ids", "recorded_at",
        "supersedes_id", "attrs"] := rfl

theorem mapM_sorted {α : Type} {read : JsonValue → Option α} {make : α → JsonValue}
    (h : ∀ value, read (Json.sortKeys (make value)) = some value) (values : List α) :
    ((values.map make).map Json.sortKeys).mapM read = some values := by
  induction values with
  | nil => rfl
  | cons value rest ih =>
    rw [List.map_cons, List.map_cons, List.mapM_cons, h, ih]
    rfl

/-- An artifact is read back from its fields. -/
theorem readArtifact_row {artifact : ContextArtifact} {row : List (String × JsonValue)}
    (hrow : RowOf artifact.fields row) : readArtifact row = some artifact.sorted := by
  have honly := hasOnly_row hrow
  rw [artifact_names] at honly
  have hid := @requiredString_row _ _ hrow "id" artifact.id (by simp [ContextArtifact.fields])
  have horgId := @requiredString_row _ _ hrow "org_id" artifact.orgId
    (by simp [ContextArtifact.fields])
  have hkind := @requiredString_row _ _ hrow "kind" artifact.kind.name
    (by simp [ContextArtifact.fields])
  have hschemaVersion := @requiredString_row _ _ hrow "schema_version" artifact.schemaVersion
    (by simp [ContextArtifact.fields])
  have halgorithmVersion := @requiredString_row _ _ hrow "algorithm_version"
    artifact.algorithmVersion (by simp [ContextArtifact.fields])
  have hgeneration := @requiredString_row _ _ hrow "generation" artifact.generation
    (by simp [ContextArtifact.fields])
  have hinputHash := @requiredString_row _ _ hrow "input_hash" artifact.inputHash
    (by simp [ContextArtifact.fields])
  have hbodyHash := @optionalString_row _ _ hrow "body_hash" artifact.bodyHash
    (by simp [ContextArtifact.fields])
  have hstatus := @requiredString_row _ _ hrow "status" artifact.status.name
    (by simp [ContextArtifact.fields])
  have hrecordedAt := @requiredString_row _ _ hrow "recorded_at" artifact.recordedAt
    (by simp [ContextArtifact.fields])
  have hsupersedesId := @optionalString_row _ _ hrow "supersedes_id" artifact.supersedesId
    (by simp [ContextArtifact.fields])
  have hattrs := @property_row _ _ hrow "attrs" artifact.attrs (by simp [ContextArtifact.fields])
  have hinputRefs := @property_row _ _ hrow "input_refs"
    (some (.array (artifact.inputRefs.map evidenceJson))) (by simp [ContextArtifact.fields])
  have hscopes := @property_row _ _ hrow "required_scope_ids"
    (some (.array (artifact.requiredScopeIds.map .string))) (by simp [ContextArtifact.fields])
  have hstorage : readBodyStorage row = some artifact.bodyStorage := by
    have hfound := @property_row _ _ hrow "body_storage"
      (if artifact.bodyStorage then some (.string "artifact") else none)
      (by simp [ContextArtifact.fields])
    unfold readBodyStorage
    rw [hfound]
    cases artifact.bodyStorage <;> rfl
  have hreferences : ((artifact.inputRefs.map evidenceJson).map Json.sortKeys).mapM readEvidence =
      some artifact.inputRefs := mapM_sorted readEvidence_sorted _
  have hscopeIds : ((artifact.requiredScopeIds.map JsonValue.string).map Json.sortKeys).mapM
      JsonValue.string? = some artifact.requiredScopeIds := mapM_sorted (fun _ => rfl) _
  rw [Option.map_some, Json.sortKeys, Json.sortItems_eq] at hinputRefs hscopes
  rw [readArtifact, if_neg (by rw [honly]; decide)]
  simp only [hid, horgId, hkind, hschemaVersion, halgorithmVersion, hgeneration, hinputHash,
    hbodyHash, hstatus, hrecordedAt, hsupersedesId, hattrs, hinputRefs, hscopes, hstorage,
    hreferences, hscopeIds, find_kind, find_status, arrayOf?, Option.bind_eq_bind,
    Option.bind_some]
  rfl

variable {sha256 : Sha256} {isTimestamp : String → Bool}

theorem validArtifact_attrs {artifact : ContextArtifact}
    (h : validArtifact sha256 isTimestamp artifact = true) :
    artifact.attrs.all isJsonValue = true := by
  unfold validArtifact at h
  simp only [Bool.and_eq_true] at h
  obtain ⟨⟨⟨⟨⟨-, hattrs⟩, -⟩, -⟩, -⟩, -⟩ := h
  exact hattrs

/-- The order of the fields of its attributes makes no artifact invalid. -/
theorem validArtifact_sorted {artifact : ContextArtifact}
    (h : validArtifact sha256 isTimestamp artifact = true) :
    validArtifact sha256 isTimestamp artifact.sorted = true := by
  have hvalues : (artifact.attrs.map Json.sortKeys).all isJsonValue = artifact.attrs.all isJsonValue := by
    have hattrs := validArtifact_attrs h
    rw [hattrs]
    cases hsome : artifact.attrs with
    | none => rfl
    | some attrs =>
      rw [hsome] at hattrs
      exact (isJsonValue_iff _).mpr (Json.printable_sortKeys _ ((isJsonValue_iff _).mp hattrs))
  have hhashes : (artifact.attrs.map Json.sortKeys).map (hashCanonicalContext sha256) =
      artifact.attrs.map (hashCanonicalContext sha256) := by
    rw [Option.map_map]
    congr 1
    funext attrs
    rw [Function.comp_apply, hashCanonicalContext, Json.canonical, Json.sortKeys_sortKeys]
    rfl
  have hsame : validArtifact sha256 isTimestamp artifact.sorted =
      validArtifact sha256 isTimestamp artifact := by
    unfold validArtifact ContextArtifact.sorted
    simp only [hvalues, hhashes, Option.isNone_map]
  rw [hsame, h]

/-- A valid artifact is valid as it is read back. -/
theorem validated_row {artifact : ContextArtifact} {row : List (String × JsonValue)}
    (hrow : RowOf artifact.fields row) (hvalid : validArtifact sha256 isTimestamp artifact = true)
    (message : String) : validated sha256 isTimestamp row message = .ok artifact.sorted := by
  unfold validated validateContextArtifact
  rw [readArtifact_row hrow, Option.filter_some, if_pos (validArtifact_sorted hvalid)]

end Regenic.Context.Artifacts
