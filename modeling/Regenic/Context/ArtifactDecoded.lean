import Regenic.Context.ArtifactRead

/-!
A packed artifact is decoded to what it was, from any shelf that has its segments; and also from
what was loaded of a shelf in rounds, which is everything below the references of its row.
-/

namespace Regenic.Context.Artifacts

open Lib Ingest Assembly

variable {sha256 : Sha256} {isTimestamp : String → Bool}

/-! ## The row of an artifact -/

theorem attrs_printable {artifact : ContextArtifact}
    (h : validArtifact sha256 isTimestamp artifact = true) :
    ∀ attrs ∈ artifact.attrs, Json.Printable attrs := by
  intro attrs hattrs
  have hall := validArtifact_attrs h
  rw [Option.mem_def.mp hattrs] at hall
  exact (isJsonValue_iff attrs).mp hall

theorem printable_refs (artifact : ContextArtifact) : Json.Printable artifact.refsJson :=
  printable_array printable_evidence _

theorem printable_scopes (artifact : ContextArtifact) : Json.Printable artifact.scopesJson :=
  printable_array printable_string _

theorem fields_printable {artifact : ContextArtifact}
    (h : ∀ attrs ∈ artifact.attrs, Json.Printable attrs) :
    ∀ field ∈ artifact.fields, ∀ item ∈ field.2, Json.Printable item := by
  have hstorage : ∀ item ∈ (if artifact.bodyStorage then some (JsonValue.string "artifact")
      else none), Json.Printable item := by
    cases artifact.bodyStorage with
    | true => exact printable_present trivial
    | false => exact fun _ hitem => absurd hitem (by simp)
  simp only [ContextArtifact.fields, List.forall_mem_cons]
  exact ⟨printable_present trivial, printable_present trivial, printable_present trivial,
    printable_present trivial, printable_present trivial, printable_present trivial,
    printable_present (printable_refs artifact), printable_present trivial,
    printable_optional printable_string _, hstorage, printable_present trivial,
    printable_present (printable_scopes artifact), printable_present trivial,
    printable_optional printable_string _, h, List.forall_mem_nil _⟩

theorem fields_nodup (artifact : ContextArtifact) : (artifact.fields.map Prod.fst).Nodup := by
  rw [artifact_names]
  decide

/-- The fields of the stored row of a packed artifact. -/
def packedFields (sha256 : Sha256) (artifact : ContextArtifact) : List (String × Option JsonValue) :=
  artifact.manifest ++ [("_shared", some (Json.record (artifact.shared sha256)))]

theorem manifest_names (artifact : ContextArtifact) :
    artifact.manifest.map Prod.fst =
      ["id", "org_id", "kind", "schema_version", "algorithm_version", "generation", "input_hash",
        "body_hash", "body_storage", "status", "recorded_at", "supersedes_id"] := by
  simp [ContextArtifact.manifest, ContextArtifact.fields, sharedNames]

theorem packed_names (artifact : ContextArtifact) :
    (packedFields sha256 artifact).map Prod.fst =
      artifact.manifest.map Prod.fst ++ ["_shared"] := by
  unfold packedFields
  rw [List.map_append]
  rfl

theorem packed_nodup (artifact : ContextArtifact) :
    ((packedFields sha256 artifact).map Prod.fst).Nodup := by
  rw [packed_names, manifest_names]
  decide

theorem mem_packed {artifact : ContextArtifact} {name : String} {value : Option JsonValue}
    (h : (name, value) ∈ artifact.fields) (hname : name ∉ sharedNames) :
    (name, value) ∈ packedFields sha256 artifact :=
  List.mem_append_left _ (List.mem_filter.mpr ⟨h, decide_eq_true hname⟩)

/-! ## References of the row -/

variable (sha256) in
theorem packed_refs (artifact : ContextArtifact) :
    Packed sha256 (reference sha256 artifact.refsJson) :=
  packed_reference _ (printable_refs artifact)

variable (sha256) in
theorem packed_scopes (artifact : ContextArtifact) :
    Packed sha256 (reference sha256 artifact.scopesJson) :=
  packed_reference _ (printable_scopes artifact)

theorem shared_printable {artifact : ContextArtifact}
    (h : ∀ attrs ∈ artifact.attrs, Json.Printable attrs) :
    Json.Printable (Json.record (artifact.shared sha256)) := by
  have hattrs : ∀ item ∈ artifact.attrs.map fun attrs => (reference sha256 attrs).1.json,
      Json.Printable item := by
    intro item hitem
    obtain ⟨attrs, hsome, rfl⟩ := Option.map_eq_some_iff.mp hitem
    exact printable_reference (packed_reference attrs (h attrs hsome)).sound
  apply Json.printable_record
  simp only [ContextArtifact.shared, List.forall_mem_cons]
  exact ⟨printable_present isNumber_digits.2,
    printable_present (printable_reference (packed_refs sha256 artifact).sound),
    printable_present (printable_reference (packed_scopes sha256 artifact).sound), hattrs,
    List.forall_mem_nil _⟩

theorem shared_nodup (artifact : ContextArtifact) :
    ((artifact.shared sha256).map Prod.fst).Nodup := by
  simp [ContextArtifact.shared]

/-- The references that an artifact is packed as. -/
def sharedOf (sha256 : Sha256) (artifact : ContextArtifact) : SharedReferences where
  inputRefs := (reference sha256 artifact.refsJson).1
  requiredScopeIds := (reference sha256 artifact.scopesJson).1
  attrs := artifact.attrs.map fun attrs => (reference sha256 attrs).1

/-- The row of an artifact is one of its organisation. -/
theorem ownRow_canonical {fields : List (String × Option JsonValue)} {orgId : String}
    (h : Json.Printable (Json.record fields))
    (horg : requiredString (parsedFields fields) "org_id" = some orgId) :
    ownRow orgId (Json.canonical (Json.record fields)) = .ok (parsedFields fields) := by
  rw [ownRow, parsedRecord_canonical h]
  generalize parsedFields fields = row at horg
  change (throwUnless (decide _) _ >>= fun _ => Except.ok row) = _
  rw [decide_eq_true horg]
  rfl

theorem sharedReferences_of {row shared : List (String × JsonValue)} {refs scopes : Reference}
    {attrs : Option Reference} (hstorage : requiredString row "body_storage" = some "artifact")
    (hversion : isVersionOne (property shared "version") = true)
    (hrefs : referenceProperty shared "input_refs" = .ok refs)
    (hscopes : referenceProperty shared "required_scope_ids" = .ok scopes)
    (hattrs : optionalReference shared "attrs" = .ok attrs) :
    sharedReferences row (.object shared) =
      .ok { inputRefs := refs, requiredScopeIds := scopes, attrs := attrs } := by
  have hparsed : parsedRecord (.object shared) = .ok shared := rfl
  rw [sharedReferences, hparsed]
  simp only [bind, Except.bind, hstorage, hversion, hrefs, hscopes, hattrs, decide_true,
    Bool.and_self, throwUnless_true]
  rfl

variable (sha256) in
/-- The row of a packed artifact, parsed. -/
theorem row_of_packed {artifact : ContextArtifact}
    (h : ∀ attrs ∈ artifact.attrs, Json.Printable attrs) (hstorage : artifact.bodyStorage = true) :
    ownRow artifact.orgId (packContextArtifact sha256 artifact).payload =
        .ok (parsedFields (packedFields sha256 artifact)) ∧
      property (parsedFields (packedFields sha256 artifact)) "_shared" =
        some (.object (parsedFields (artifact.shared sha256))) ∧
      sharedReferences (parsedFields (packedFields sha256 artifact))
        (.object (parsedFields (artifact.shared sha256))) = .ok (sharedOf sha256 artifact) := by
  have hrow : RowOf (packedFields sha256 artifact) (parsedFields (packedFields sha256 artifact)) :=
    ⟨parsedFields_perm _, packed_nodup artifact⟩
  have hshared : RowOf (artifact.shared sha256) (parsedFields (artifact.shared sha256)) :=
    ⟨parsedFields_perm _, shared_nodup artifact⟩
  refine ⟨?_, ?_, ?_⟩
  · have hprintable : Json.Printable (Json.record (packedFields sha256 artifact)) := by
      apply Json.printable_record
      intro field hfield
      rcases List.mem_append.mp hfield with hmanifest | hlast
      · exact fields_printable h field (List.mem_filter.mp hmanifest).1
      · obtain rfl := List.mem_singleton.mp hlast
        exact printable_present (shared_printable h)
    have horg : requiredString (parsedFields (packedFields sha256 artifact)) "org_id" =
        some artifact.orgId :=
      requiredString_row hrow (mem_packed (by simp [ContextArtifact.fields]) (by decide))
    have hpayload : (packContextArtifact sha256 artifact).payload =
        Json.canonical (Json.record (packedFields sha256 artifact)) := if_pos hstorage
    rw [hpayload]
    exact ownRow_canonical hprintable horg
  · rw [@property_row _ _ hrow "_shared" (some (Json.record (artifact.shared sha256)))
      (List.mem_append_right _ (List.mem_singleton_self _)), Option.map_some,
      Json.sortKeys_record]
    rfl
  · have hstored : requiredString (parsedFields (packedFields sha256 artifact)) "body_storage" =
        some "artifact" :=
      requiredString_row hrow (mem_packed (by simp [ContextArtifact.fields, hstorage]) (by decide))
    have hversion := @property_row _ _ hshared "version" (some (.number "1"))
      (by simp [ContextArtifact.shared])
    have hrefs := @property_row _ _ hshared "input_refs"
      (some (reference sha256 artifact.refsJson).1.json) (by simp [ContextArtifact.shared])
    have hscopes := @property_row _ _ hshared "required_scope_ids"
      (some (reference sha256 artifact.scopesJson).1.json) (by simp [ContextArtifact.shared])
    have hattrs := @property_row _ _ hshared "attrs"
      (artifact.attrs.map fun attrs => (reference sha256 attrs).1.json)
      (by simp [ContextArtifact.shared])
    have hoptional : optionalReference (parsedFields (artifact.shared sha256)) "attrs" =
        .ok (artifact.attrs.map fun attrs => (reference sha256 attrs).1) := by
      unfold optionalReference
      rw [hattrs]
      cases hsome : artifact.attrs with
      | none => rfl
      | some attrs =>
        simp only [Option.map_some, sortKeys_reference]
        rw [parseReference_json (packed_reference attrs (h attrs hsome)).sound]
        rfl
    have hfirst : referenceProperty (parsedFields (artifact.shared sha256)) "input_refs" =
        .ok (reference sha256 artifact.refsJson).1 := by
      unfold referenceProperty
      rw [hrefs, Option.map_some, sortKeys_reference]
      exact parseReference_json (packed_refs sha256 artifact).sound
    have hsecond : referenceProperty (parsedFields (artifact.shared sha256)) "required_scope_ids" =
        .ok (reference sha256 artifact.scopesJson).1 := by
      unfold referenceProperty
      rw [hscopes, Option.map_some, sortKeys_reference]
      exact parseReference_json (packed_scopes sha256 artifact).sound
    have hone : isVersionOne (property (parsedFields (artifact.shared sha256)) "version") = true := by
      rw [hversion]
      rfl
    exact sharedReferences_of hstored hone hfirst hsecond hoptional

/-! ## The row put together again -/

theorem sortedFields_perm {fields fields' : List (String × Option JsonValue)}
    (h : fields.Perm fields') : (Json.presentFields (Json.sortValues fields)).Perm
      (Json.presentFields (Json.sortValues fields')) :=
  (h.map _).filterMap _

theorem sortedFields_append (fields fields' : List (String × Option JsonValue)) :
    Json.presentFields (Json.sortValues (fields ++ fields')) =
      Json.presentFields (Json.sortValues fields) ++
        Json.presentFields (Json.sortValues fields') := by
  unfold Json.presentFields Json.sortValues
  rw [List.map_append, List.filterMap_append]

theorem name_of_mem_sortedFields {fields : List (String × Option JsonValue)}
    {member : String × JsonValue} (h : member ∈ Json.presentFields (Json.sortValues fields)) :
    member.1 ∈ fields.map Prod.fst := by
  have hfield := List.mem_map_of_mem (f := Prod.fst)
    (Json.mem_presentFields_iff.mp (show (member.1, member.2) ∈ _ from h))
  rwa [Json.names_sortValues] at hfield

theorem spread_new {fields : List (String × JsonValue)} {name : String} {value : JsonValue}
    (h : ∀ field ∈ fields, field.1 ≠ name) : spread fields name value = fields ++ [(name, value)] := by
  unfold spread
  rw [if_neg]
  rw [List.any_eq_true]
  rintro ⟨field, hfield, hname⟩
  exact h field hfield (of_decide_eq_true hname)

theorem fields_perm (artifact : ContextArtifact) :
    artifact.fields.Perm (artifact.manifest ++
      [("input_refs", some artifact.refsJson), ("required_scope_ids", some artifact.scopesJson),
        ("attrs", artifact.attrs)]) := by
  have hrest : artifact.fields.filter (fun field => !decide (field.1 ∉ sharedNames)) =
      [("input_refs", some artifact.refsJson), ("required_scope_ids", some artifact.scopesJson),
        ("attrs", artifact.attrs)] := by
    simp [ContextArtifact.fields, sharedNames, ContextArtifact.refsJson,
      ContextArtifact.scopesJson]
  rw [← hrest]
  exact (List.filter_append_perm (fun field => decide (field.1 ∉ sharedNames)) artifact.fields).symm

variable (sha256) in
/-- The manifest of a row with what was restored is the row of the artifact. -/
theorem rowOf_restored (artifact : ContextArtifact) :
    RowOf artifact.fields (
      let manifest := (parsedFields (packedFields sha256 artifact)).filter
        fun field => field.1 ≠ "_shared"
      let restored := spread (spread manifest "input_refs" (Json.sortKeys artifact.refsJson))
        "required_scope_ids" (Json.sortKeys artifact.scopesJson)
      match artifact.attrs.map Json.sortKeys with
      | some attrs => spread restored "attrs" attrs
      | none => restored) := by
  generalize hmanifest : (parsedFields (packedFields sha256 artifact)).filter
    (fun field => field.1 ≠ "_shared") = manifest
  have hmanifests : manifest.Perm (Json.presentFields (Json.sortValues artifact.manifest)) := by
    have hall := (parsedFields_perm (packedFields sha256 artifact)).filter
      fun field => field.1 ≠ "_shared"
    unfold packedFields at hall
    rw [sortedFields_append, List.filter_append] at hall
    have hkept : (Json.presentFields (Json.sortValues artifact.manifest)).filter
        (fun field => field.1 ≠ "_shared") =
          Json.presentFields (Json.sortValues artifact.manifest) := by
      refine List.filter_eq_self.mpr fun member hmember => decide_eq_true fun hname => ?_
      have hin := name_of_mem_sortedFields hmember
      rw [manifest_names, hname] at hin
      exact absurd hin (by decide)
    have hdropped : (Json.presentFields (Json.sortValues [("_shared",
        some (Json.record (artifact.shared sha256)))])).filter
          (fun field => field.1 ≠ "_shared") = [] := rfl
    rw [hkept, hdropped, List.append_nil] at hall
    rw [← hmanifest]
    exact hall
  have hnames : ∀ field ∈ manifest, field.1 ∈ artifact.manifest.map Prod.fst := fun field hfield =>
    name_of_mem_sortedFields (hmanifests.mem_iff.mp hfield)
  have hfresh : ∀ name, name ∉ artifact.manifest.map Prod.fst → ∀ field ∈ manifest, field.1 ≠ name :=
    fun name hname field hfield hsame => hname (hsame ▸ hnames field hfield)
  have hfirst : spread manifest "input_refs" (Json.sortKeys artifact.refsJson) =
      manifest ++ [("input_refs", Json.sortKeys artifact.refsJson)] :=
    spread_new (hfresh _ (by rw [manifest_names]; decide))
  have hsecond : spread (manifest ++ [("input_refs", Json.sortKeys artifact.refsJson)])
      "required_scope_ids" (Json.sortKeys artifact.scopesJson) =
        manifest ++ [("input_refs", Json.sortKeys artifact.refsJson),
          ("required_scope_ids", Json.sortKeys artifact.scopesJson)] := by
    rw [spread_new, List.append_assoc]
    · rfl
    · intro field hfield
      rcases List.mem_append.mp hfield with hold | hnew
      · exact hfresh _ (by rw [manifest_names]; decide) field hold
      · obtain rfl := List.mem_singleton.mp hnew
        simp
  have hthird : ∀ attrs, spread (manifest ++ [("input_refs", Json.sortKeys artifact.refsJson),
      ("required_scope_ids", Json.sortKeys artifact.scopesJson)]) "attrs" attrs =
        manifest ++ [("input_refs", Json.sortKeys artifact.refsJson),
          ("required_scope_ids", Json.sortKeys artifact.scopesJson), ("attrs", attrs)] := by
    intro attrs
    rw [spread_new, List.append_assoc]
    · rfl
    · intro field hfield
      rcases List.mem_append.mp hfield with hold | hnew
      · exact hfresh _ (by rw [manifest_names]; decide) field hold
      · simp only [List.mem_cons, List.not_mem_nil, or_false] at hnew
        rcases hnew with rfl | rfl <;> simp
  refine ⟨?_, fields_nodup artifact⟩
  have hperm := sortedFields_perm (fields_perm artifact)
  rw [sortedFields_append] at hperm
  refine List.Perm.trans ?_ hperm.symm
  simp only [hfirst, hsecond]
  cases hattrs : artifact.attrs with
  | none => exact hmanifests.append_right _
  | some attrs =>
    simp only [Option.map_some, hthird]
    exact hmanifests.append_right _

/-! ## Decoding -/

section Decoded

variable {known : List Segment} {entries : List (String × String)}
  {load : String → Option String}

theorem restored_of_packed (hshelf : Shelf sha256 known entries)
    (hload : ∀ entry ∈ entries, load entry.1 = some entry.2) {item : JsonValue}
    (hprintable : Json.Printable item)
    (hstored : ∀ segment ∈ (reference sha256 item).2, segment.entry sha256 ∈ entries)
    {fuel : Nat} (hfuel : entries.length ≤ fuel) :
    restore sha256 load fuel [] (reference sha256 item).1 = .ok (Json.sortKeys item) := by
  apply restores_reference hshelf hload item hprintable hstored
  intro hash hhash
  obtain ⟨segment, hsegment, rfl⟩ :=
    List.mem_map.mp ((packed_reference item hprintable).own hash hhash)
  have hname : segment.hash sha256 ∈ entries.map Prod.fst :=
    List.mem_map_of_mem (f := Prod.fst) (hstored segment hsegment)
  exact ⟨(rank_lt_length hname).trans_le hfuel, fun _ habove => absurd habove List.not_mem_nil⟩

/-- An artifact whose segments are on the shelf is decoded to what it was. -/
theorem decoded_of_stored (hshelf : Shelf sha256 known entries)
    (hload : ∀ entry ∈ entries, load entry.1 = some entry.2) {artifact : ContextArtifact}
    (hvalid : validArtifact sha256 isTimestamp artifact = true)
    (hstored : ∀ segment ∈ artifact.stored sha256, segment.entry sha256 ∈ entries)
    {fuel : Nat} (hfuel : entries.length ≤ fuel) :
    contextArtifactDecoder sha256 load isTimestamp fuel artifact.orgId
      (packContextArtifact sha256 artifact).payload = .ok artifact.sorted := by
  have hattrs := attrs_printable hvalid
  unfold contextArtifactDecoder
  by_cases hstorage : artifact.bodyStorage = true
  · obtain ⟨hrow, hpacked, hshared⟩ := row_of_packed sha256 hattrs hstorage
    unfold ContextArtifact.stored at hstored
    rw [if_pos hstorage] at hstored
    have hrefs := restored_of_packed hshelf hload (printable_refs artifact)
      (fun segment hsegment => hstored segment
        (List.mem_append_left _ (List.mem_append_left _ hsegment))) hfuel
    have hscopes := restored_of_packed hshelf hload (printable_scopes artifact)
      (fun segment hsegment => hstored segment
        (List.mem_append_left _ (List.mem_append_right _ hsegment))) hfuel
    have hoptional : restoreOptional sha256 load fuel (sharedOf sha256 artifact).attrs =
        .ok (artifact.attrs.map Json.sortKeys) := by
      unfold sharedOf
      cases hsome : artifact.attrs with
      | none => rfl
      | some attrs =>
        have hrestored := restored_of_packed hshelf hload (hattrs attrs hsome)
          (fun segment hsegment => hstored segment (List.mem_append_right _ (by
            rw [hsome]
            exact hsegment))) hfuel
        simp only [Option.map_some, restoreOptional, hrestored]
        rfl
    have hvalidated := validated_row (rowOf_restored sha256 artifact) hvalid
      "Invalid shared Context artifact manifest"
    simp only [hrow, bind, Except.bind, hpacked, hshared, hoptional]
    simp only [sharedOf, hrefs, hscopes]
    exact hvalidated
  · have hfields := fields_printable hattrs
    have hrow : RowOf artifact.fields (parsedFields artifact.fields) :=
      ⟨parsedFields_perm _, fields_nodup artifact⟩
    have hpayload : (packContextArtifact sha256 artifact).payload =
        Json.canonical (Json.record artifact.fields) := if_neg hstorage
    have hown : ownRow artifact.orgId (packContextArtifact sha256 artifact).payload =
        .ok (parsedFields artifact.fields) := by
      rw [hpayload]
      exact ownRow_canonical (Json.printable_record hfields)
        (requiredString_row hrow (by simp [ContextArtifact.fields]))
    have habsent : property (parsedFields artifact.fields) "_shared" = none := by
      apply property_parsed_absent
      rw [artifact_names]
      decide
    simp only [hown, bind, Except.bind, habsent]
    exact validated_row hrow hvalid _

end Decoded

/-! ## Decoding from a part -/

section Part

variable {load part : String → Option String} {closed : String → Prop}
  (hagree : ∀ hash, closed hash → part hash = load hash)
  (hclosed : ∀ hash, closed hash → ∀ segment, checkedSegment sha256 hash (load hash) = .ok segment →
    ∀ link ∈ segment.links, closed link)

include hagree hclosed

/-- What follows references restores the same from a part that holds all below them. -/
theorem restore_congr (fuel : Nat) (visiting : List String) (value : Reference)
    (hvalue : ∀ hash, value = .stored hash → closed hash) :
    restore sha256 part fuel visiting value = restore sha256 load fuel visiting value := by
  induction fuel generalizing visiting value with
  | zero => cases value <;> rfl
  | succ fuel ih =>
    cases value with
    | scalar value => rfl
    | stored hash =>
      have hhash := hvalue hash rfl
      rw [restore, restore, hagree hash hhash]
      cases hchecked : checkedSegment sha256 hash (load hash) with
      | error thrown => rfl
      | ok segment =>
        have hlinks := hclosed hash hhash segment hchecked
        have hbelow : ∀ value : Reference, (∀ below, value = .stored below → below ∈ segment.links) →
            restore sha256 part fuel (hash :: visiting) value =
              restore sha256 load fuel (hash :: visiting) value := fun value hin =>
          ih (hash :: visiting) value fun below hsame => hlinks below (hin below hsame)
        cases segment with
        | object entries =>
          have hsame : entries.mapM (fun entry : String × Reference =>
              (restore sha256 part fuel (hash :: visiting) entry.2).map fun value =>
                (entry.1, value)) =
              entries.mapM fun entry : String × Reference =>
                (restore sha256 load fuel (hash :: visiting) entry.2).map fun value =>
                  (entry.1, value) := by
            apply mapM_congr
            intro entry hentry
            rw [hbelow entry.2 fun below hsame => mem_references (by
              rw [← hsame]
              exact List.mem_map_of_mem hentry)]
          exact congrArg (fun made : Except ArtifactFailure (List (String × JsonValue)) =>
            throwUnless (hash ∉ visiting) (.error "Context artifact segment cycle") >>= fun _ =>
              made >>= fun fields => .ok (JsonValue.object fields)) hsame
        | array items =>
          have hsame : items.mapM (restore sha256 part fuel (hash :: visiting)) =
              items.mapM (restore sha256 load fuel (hash :: visiting)) := by
            apply mapM_congr
            intro item hitem
            exact hbelow item fun below hsame => mem_references (hsame ▸ hitem)
          exact congrArg (fun made : Except ArtifactFailure (List JsonValue) =>
            throwUnless (hash ∉ visiting) (.error "Context artifact segment cycle") >>= fun _ =>
              made >>= fun values => .ok (JsonValue.array values)) hsame
        | concat children =>
          have hsame : children.mapM (fun child =>
              itemsOf (restore sha256 part fuel (hash :: visiting) (.stored child))) =
              children.mapM fun child =>
                itemsOf (restore sha256 load fuel (hash :: visiting) (.stored child)) := by
            apply mapM_congr
            intro child hchild
            rw [hbelow (.stored child) fun below hsame => by
              cases hsame
              exact hchild]
          exact congrArg (fun made : Except ArtifactFailure (List (List JsonValue)) =>
            throwUnless (hash ∉ visiting) (.error "Context artifact segment cycle") >>= fun _ =>
              made >>= fun values => .ok (JsonValue.array values.flatten)) hsame

theorem decoder_congr {fuel : Nat} {orgId payload : String} {roots : List String}
    (hroots : rootsOf orgId payload = .ok roots) (hin : ∀ root ∈ roots, closed root) :
    contextArtifactDecoder sha256 part isTimestamp fuel orgId payload =
      contextArtifactDecoder sha256 load isTimestamp fuel orgId payload := by
  unfold rootsOf at hroots
  unfold contextArtifactDecoder
  obtain ⟨row, hrow, hroots⟩ := sequence_ok hroots
  simp only [hrow, bind, Except.bind]
  cases hpacked : property row "_shared" with
  | none => rfl
  | some packed =>
    simp only [hpacked] at hroots
    obtain ⟨shared, hshared, hroots⟩ := sequence_ok hroots
    cases hroots
    simp only [hshared]
    have hsame : ∀ value, value ∈ [shared.inputRefs, shared.requiredScopeIds] ++
        shared.attrs.toList → restore sha256 part fuel [] value =
          restore sha256 load fuel [] value := fun value hvalue =>
      restore_congr hagree hclosed fuel [] value fun hash hhash =>
        hin hash (mem_references (hhash ▸ hvalue))
    have hattrs : restoreOptional sha256 part fuel shared.attrs =
        restoreOptional sha256 load fuel shared.attrs := by
      cases hsome : shared.attrs with
      | none => rfl
      | some attrs =>
        rw [restoreOptional, restoreOptional, hsame attrs (by rw [hsome]; simp)]
    rw [hsame shared.inputRefs (by simp), hsame shared.requiredScopeIds (by simp), hattrs]

end Part

end Regenic.Context.Artifacts
