import Regenic.Context.ArtifactHistory

/-!
Shared storage loses nothing: after any history of calls, the row of every artifact that was put is
decoded to it, alone or with others; a list comes back from the tree of its segments as it was, and
a longer one has the full leaves of the shorter.
-/

namespace Regenic.Context.Artifacts

open Lib Ingest Assembly

variable {sha256 : Sha256} {isTimestamp : String → Bool}

variable (sha256) (isTimestamp) in
/-- An artifact of a history whose call came to its end. -/
def Accepted (history : List ContextArtifact) (artifact : ContextArtifact) : Prop :=
  ∃ before after, history = before ++ artifact :: after ∧
    ∃ next, putArtifact sha256 isTimestamp (putAll sha256 isTimestamp {} before) artifact = .ok next

/-- The payload of the row of an artifact. -/
def storedPayload (tables : ArtifactTables) (artifact : ContextArtifact) : Option String :=
  (tables.artifacts.get? (artifact.orgId, artifact.id)).map (·.payloadJson)

/-- All that a history packs. -/
def packedBy (sha256 : Sha256) (history : List ContextArtifact) : List Segment :=
  history.flatMap fun artifact => artifact.stored sha256

theorem subset_packedBy {history : List ContextArtifact} {artifact : ContextArtifact}
    (h : artifact ∈ history) : artifact.stored sha256 ⊆ packedBy sha256 history :=
  fun _ hsegment => List.mem_flatMap.mpr ⟨artifact, h, hsegment⟩

theorem shelved_empty (known : List Segment) : Shelved sha256 known {} := fun _ =>
  ⟨List.nodup_nil, .nil, fun _ h => absurd h List.not_mem_nil⟩

section History

variable {history : List ContextArtifact} (hfree : CollisionFree sha256 (packedBy sha256 history))

include hfree

theorem shelved_putAll : Shelved sha256 (packedBy sha256 history)
    (putAll sha256 isTimestamp {} history) :=
  (putAll_holds hfree (shelved_empty _) fun _ h => subset_packedBy h).1

/-- What was put is held ever after. -/
theorem holds_of_accepted {artifact : ContextArtifact}
    (h : Accepted sha256 isTimestamp history artifact) :
    Holds sha256 isTimestamp (putAll sha256 isTimestamp {} history) artifact := by
  obtain ⟨before, after, rfl, next, hput⟩ := h
  have hknown : ∀ other ∈ before ++ artifact :: after,
      other.stored sha256 ⊆ packedBy sha256 (before ++ artifact :: after) := fun _ h =>
    subset_packedBy h
  have hbefore : Shelved sha256 (packedBy sha256 (before ++ artifact :: after))
      (putAll sha256 isTimestamp {} before) :=
    (putAll_holds hfree (shelved_empty _) fun other h =>
      hknown other (List.mem_append_left _ h)).1
  obtain ⟨hnext, hholds, -⟩ := putArtifact_holds hfree hbefore
    (hknown artifact (List.mem_append_right _ List.mem_cons_self)) hput
  have hstep : putStep sha256 isTimestamp (putAll sha256 isTimestamp {} before) artifact = next := by
    unfold putStep
    rw [hput]
    rfl
  have hrun : putAll sha256 isTimestamp {} (before ++ artifact :: after) =
      putAll sha256 isTimestamp next after := by
    unfold putAll at hstep ⊢
    rw [List.foldl_append, List.foldl_cons, hstep]
  rw [hrun]
  exact (putAll_holds hfree hnext fun other h =>
    hknown other (List.mem_append_right _ (List.mem_cons_of_mem _ h))).2 artifact hholds

end History

theorem length_orgEntries_le (segments : Table SegmentRow.key) (orgId : String) :
    (orgEntries segments orgId).length ≤ segments.rows.length := by
  unfold orgEntries
  rw [List.length_map]
  exact List.length_filter_le _ _

/-- The roots of the row of an artifact are on the shelf of its organisation. -/
theorem rootsOf_held {tables : ArtifactTables} {artifact : ContextArtifact}
    (h : Holds sha256 isTimestamp tables artifact) :
    ∃ roots, rootsOf artifact.orgId (packContextArtifact sha256 artifact).payload = .ok roots ∧
      ∀ root ∈ roots, root ∈ (orgEntries tables.segments artifact.orgId).map Prod.fst := by
  have hattrs := attrs_printable h.valid
  unfold rootsOf
  by_cases hstorage : artifact.bodyStorage = true
  · obtain ⟨hrow, hpacked, hshared⟩ := row_of_packed sha256 hattrs hstorage
    simp only [hrow, bind, Except.bind, hpacked, hshared]
    refine ⟨_, rfl, ?_⟩
    intro root hroot
    have hown : ∀ {item}, Json.Printable item →
        (∀ segment ∈ (reference sha256 item).2, segment ∈ artifact.stored sha256) →
        (reference sha256 item).1 = .stored root →
        root ∈ (orgEntries tables.segments artifact.orgId).map Prod.fst := by
      intro item hitem hin hsame
      obtain ⟨segment, hsegment, rfl⟩ := List.mem_map.mp ((packed_reference item hitem).own root hsame)
      exact List.mem_map_of_mem (f := Prod.fst) (h.segments segment (hin segment hsegment))
    obtain ⟨value, hvalue, hstored⟩ := List.mem_filterMap.mp hroot
    have hroot : value = .stored root := by
      cases value with
      | scalar value => cases hstored
      | stored hash =>
        cases hstored
        rfl
    subst hroot
    unfold ContextArtifact.stored at hown
    rw [if_pos hstorage] at hown
    unfold sharedOf at hvalue
    rcases List.mem_append.mp hvalue with hboth | hlast
    · rcases List.mem_cons.mp hboth with hfirst | hsecond
      · exact hown (printable_refs artifact)
          (fun segment hsegment => List.mem_append_left _ (List.mem_append_left _ hsegment))
          hfirst.symm
      · exact hown (printable_scopes artifact)
          (fun segment hsegment => List.mem_append_left _ (List.mem_append_right _ hsegment))
          (List.mem_singleton.mp hsecond).symm
    · obtain ⟨attrs, hsome, hsame⟩ := Option.map_eq_some_iff.mp (Option.mem_toList.mp hlast)
      refine hown (hattrs attrs hsome) (fun segment hsegment => List.mem_append_right _ ?_) hsame
      rw [hsome]
      exact hsegment
  · have hrow : RowOf artifact.fields (parsedFields artifact.fields) :=
      ⟨parsedFields_perm _, fields_nodup artifact⟩
    have hpayload : (packContextArtifact sha256 artifact).payload =
        Json.canonical (Json.record artifact.fields) := if_neg hstorage
    have hown : ownRow artifact.orgId (packContextArtifact sha256 artifact).payload =
        .ok (parsedFields artifact.fields) := by
      rw [hpayload]
      exact ownRow_canonical (Json.printable_record (fields_printable hattrs))
        (requiredString_row hrow (by simp [ContextArtifact.fields]))
    have habsent : property (parsedFields artifact.fields) "_shared" = none := by
      apply property_parsed_absent
      rw [artifact_names]
      decide
    simp only [hown, bind, Except.bind, habsent]
    exact ⟨[], rfl, fun _ hroot => absurd hroot List.not_mem_nil⟩

section Held

variable {known : List Segment} {tables : ArtifactTables}
  (hshelved : Shelved sha256 known tables)

include hshelved

theorem decoded_of_held {artifact : ContextArtifact} (h : Holds sha256 isTimestamp tables artifact)
    {fuel : Nat} (hfuel : tables.segments.rows.length ≤ fuel) :
    contextArtifactDecoder sha256 (loadSegment tables artifact.orgId) isTimestamp fuel
      artifact.orgId (packContextArtifact sha256 artifact).payload = .ok artifact.sorted :=
  decoded_of_stored (hshelved artifact.orgId) loadSegment_of_entry h.valid h.segments
    ((length_orgEntries_le _ _).trans hfuel)

/-- Artifacts decoded together, from what was loaded for all of them. -/
theorem decodedAll_of_held {orgId : String} {artifacts : List ContextArtifact}
    (h : ∀ artifact ∈ artifacts, Holds sha256 isTimestamp tables artifact ∧ artifact.orgId = orgId)
    {fuel : Nat} (hfuel : tables.segments.rows.length ≤ fuel) :
    decodeContextArtifacts sha256 (loadSegment tables orgId) isTimestamp fuel orgId
      (artifacts.map fun artifact => (packContextArtifact sha256 artifact).payload) =
        .ok (artifacts.map (·.sorted)) := by
  have hroots : ∃ roots, (artifacts.map fun artifact =>
      (packContextArtifact sha256 artifact).payload).mapM (rootsOf orgId) = .ok roots := by
    apply exists_mapM_iff.mpr
    intro payload hpayload
    obtain ⟨artifact, hartifact, rfl⟩ := List.mem_map.mp hpayload
    obtain ⟨hholds, rfl⟩ := h artifact hartifact
    obtain ⟨roots, hroots, -⟩ := rootsOf_held hholds
    exact ⟨roots, hroots⟩
  obtain ⟨roots, hroots⟩ := hroots
  have hstart : Loading (orgEntries tables.segments orgId) (keepFirst id roots.flatten) ∅
      (keepFirst id roots.flatten) := by
    refine ⟨fun _ hrow => absurd hrow List.not_mem_nil, ?_,
      fun _ hrow => absurd hrow List.not_mem_nil, fun _ hroot => .inr hroot⟩
    intro root hroot
    obtain ⟨own, hown, hin⟩ := List.mem_flatten.mp (mem_keepFirst_id.mp hroot)
    obtain ⟨payload, hpayload, hmade⟩ := exists_of_mem_mapM hroots hown
    obtain ⟨artifact, hartifact, rfl⟩ := List.mem_map.mp hpayload
    obtain ⟨hholds, rfl⟩ := h artifact hartifact
    obtain ⟨found, hfound, hall⟩ := rootsOf_held hholds
    obtain rfl : found = own := Except.ok.inj (hfound.symm.trans hmade)
    exact hall root hin
  have henough : (orgEntries tables.segments orgId).length ≤
      fuel + (∅ : SegmentMap).rows.length := by
    have hlength := length_orgEntries_le tables.segments orgId
    omega
  obtain ⟨loaded, hloaded, hlast⟩ := loadAll_loading (hshelved orgId) loadSegment_of_entry hstart
    (fun _ _ => rfl) henough
  unfold decodeContextArtifacts
  simp only [hroots, bind, Except.bind, hloaded]
  apply mapM_map_ok
  intro artifact hartifact
  obtain ⟨hholds, rfl⟩ := h artifact hartifact
  obtain ⟨own, hown, -⟩ := rootsOf_held hholds
  have hin : ∀ root ∈ own, root ∈ keepFirst id roots.flatten := by
    intro root hroot
    have hmem : own ∈ roots := by
      have hpayload := List.mem_map_of_mem
        (f := fun artifact => (packContextArtifact sha256 artifact).payload) hartifact
      exact mem_of_mapM_ok hroots hpayload hown
    exact mem_keepFirst_id.mpr (List.mem_flatten.mpr ⟨own, hmem, hroot⟩)
  rw [decoded_of_loaded (hshelved artifact.orgId) loadSegment_of_entry hlast hown hin]
  exact decoded_of_held hshelved hholds hfuel

end Held

/-! ## Lists -/

variable (sha256) in
/-- The references that the items of a list are packed as. -/
def itemReferences (items : List JsonValue) : List Reference :=
  items.map fun item => (reference sha256 item).1

/-- What a value is packed into, in a `Map` of its own, restores the value. -/
theorem restored_of_own {item : JsonValue} (hprintable : Json.Printable item)
    (hfree : CollisionFree sha256 (reference sha256 item).2) {fuel : Nat}
    (hfuel : (storeAll sha256 (reference sha256 item).2).rows.length ≤ fuel) :
    restore sha256 (fun hash => ((storeAll sha256 (reference sha256 item).2).get? hash).map Prod.snd)
      fuel [] (reference sha256 item).1 = .ok (Json.sortKeys item) := by
  have hpacked : Packed sha256 (reference sha256 item) := packed_reference item hprintable
  obtain ⟨hshelf, hall⟩ := shelf_storeAll hfree (List.Subset.refl _) hpacked.segments hpacked.built
  refine restored_of_packed hshelf ?_ hprintable hall hfuel
  intro entry hentry
  rw [Table.get?_key hentry]
  rfl

variable (sha256) in
/-- A full leaf of a list is one of every list that begins with it. -/
theorem leaf_of_full (items more : List JsonValue) {k : Nat}
    (h : segmentWidth * k + segmentWidth ≤ items.length) :
    ∃ leaf, (leaves (itemReferences sha256 items))[k]? = some leaf ∧
      (leaves (itemReferences sha256 (items ++ more)))[k]? = some leaf := by
  have hcount : ∀ {whole : List JsonValue}, items.length ≤ whole.length →
      k < turns segmentWidth (max 1 (itemReferences sha256 whole).length) := by
    intro whole hlength
    have hbound := le_mul_turns (show 0 < segmentWidth by decide)
      (max 1 (itemReferences sha256 whole).length)
    have hsame : (itemReferences sha256 whole).length = whole.length := by
      unfold itemReferences
      rw [List.length_map]
    have hwidth : 0 < segmentWidth := by decide
    rw [hsame] at hbound ⊢
    by_contra hless
    have hsmall := Nat.mul_le_mul_left segmentWidth (not_lt.mp hless)
    omega
  have happend : itemReferences sha256 (items ++ more) =
      itemReferences sha256 items ++ itemReferences sha256 more := by
    unfold itemReferences
    rw [List.map_append]
  have hfull : segmentWidth * k + segmentWidth ≤ (itemReferences sha256 items).length := by
    unfold itemReferences
    rw [List.length_map]
    exact h
  refine ⟨.array (slice (itemReferences sha256 items) (segmentWidth * k) segmentWidth), ?_, ?_⟩
  · unfold leaves
    rw [List.getElem?_map, getElem?_chunks _ (hcount (le_refl _)), Option.map_some]
  · unfold leaves
    rw [List.getElem?_map, getElem?_chunks _ (hcount (by rw [List.length_append]; omega)),
      Option.map_some, happend, slice_append_of_le hfull]

theorem mem_reference_of_leaf {items : List JsonValue} {leaf : Segment}
    (h : leaf ∈ leaves (itemReferences sha256 items)) :
    leaf ∈ (reference sha256 (.array items)).2 := by
  rw [reference_array]
  exact List.mem_append_right _ (List.mem_append_left _ h)

/-- Shared storage loses nothing. After any history the row of each artifact that was put is
decoded to it, alone and among others; a packed list is restored with its items in their order; and
a list with more items at its end has every full leaf of the shorter one. -/
theorem shared_artifacts_lossless {history : List ContextArtifact}
    (hfree : CollisionFree sha256 (packedBy sha256 history)) :
    (∀ artifact, Accepted sha256 isTimestamp history artifact →
      ∃ payload, storedPayload (putAll sha256 isTimestamp {} history) artifact = some payload ∧
        ∀ fuel, (putAll sha256 isTimestamp {} history).segments.rows.length ≤ fuel →
          contextArtifactDecoder sha256
            (loadSegment (putAll sha256 isTimestamp {} history) artifact.orgId) isTimestamp fuel
            artifact.orgId payload = .ok artifact.sorted) ∧
    (∀ (orgId : String) (artifacts : List ContextArtifact),
      (∀ artifact ∈ artifacts, Accepted sha256 isTimestamp history artifact ∧
        artifact.orgId = orgId) →
      ∃ payloads, artifacts.map (storedPayload (putAll sha256 isTimestamp {} history)) =
          payloads.map some ∧
        ∀ fuel, (putAll sha256 isTimestamp {} history).segments.rows.length ≤ fuel →
          decodeContextArtifacts sha256
            (loadSegment (putAll sha256 isTimestamp {} history) orgId) isTimestamp fuel orgId
            payloads = .ok (artifacts.map (·.sorted))) ∧
    (∀ items : List JsonValue, Json.Printable (.array items) →
      CollisionFree sha256 (reference sha256 (.array items)).2 →
      ∀ fuel, (storeAll sha256 (reference sha256 (.array items)).2).rows.length ≤ fuel →
        restore sha256
          (fun hash => ((storeAll sha256 (reference sha256 (.array items)).2).get? hash).map Prod.snd)
          fuel [] (reference sha256 (.array items)).1 =
            .ok (.array (items.map Json.sortKeys))) ∧
    (∀ (items more : List JsonValue) (k : Nat), segmentWidth * k + segmentWidth ≤ items.length →
      ∃ leaf, (leaves (itemReferences sha256 items))[k]? = some leaf ∧
        (leaves (itemReferences sha256 (items ++ more)))[k]? = some leaf ∧
        leaf ∈ (reference sha256 (.array items)).2 ∧
        leaf ∈ (reference sha256 (.array (items ++ more))).2) := by
  have hshelved : Shelved sha256 (packedBy sha256 history) (putAll sha256 isTimestamp {} history) :=
    shelved_putAll hfree
  have hpayload : ∀ {artifact}, Accepted sha256 isTimestamp history artifact →
      storedPayload (putAll sha256 isTimestamp {} history) artifact =
        some (packContextArtifact sha256 artifact).payload := by
    intro artifact haccepted
    unfold storedPayload
    rw [(holds_of_accepted hfree haccepted).row]
    rfl
  refine ⟨?_, ?_, ?_, ?_⟩
  · intro artifact haccepted
    exact ⟨_, hpayload haccepted, fun fuel hfuel =>
      decoded_of_held hshelved (holds_of_accepted hfree haccepted) hfuel⟩
  · intro orgId artifacts hall
    refine ⟨artifacts.map fun artifact => (packContextArtifact sha256 artifact).payload, ?_, ?_⟩
    · rw [List.map_map]
      exact List.map_congr_left fun artifact hartifact => hpayload (hall artifact hartifact).1
    · exact fun fuel hfuel => decodedAll_of_held hshelved
        (fun artifact hartifact => ⟨holds_of_accepted hfree (hall artifact hartifact).1,
          (hall artifact hartifact).2⟩) hfuel
  · intro items hprintable hown fuel hfuel
    have hrestored := restored_of_own hprintable hown hfuel
    rwa [Json.sortKeys, Json.sortItems_eq] at hrestored
  · intro items more k hfull
    obtain ⟨leaf, hshort, hlong⟩ := leaf_of_full sha256 items more hfull
    exact ⟨leaf, hshort, hlong, mem_reference_of_leaf (List.mem_of_getElem? hshort),
      mem_reference_of_leaf (List.mem_of_getElem? hlong)⟩

/-! ## A packed artifact -/

def emptyLeafHash : String := "94f7e5929b5f85263d2d6ea6dd80f61fc67300366ee851e4d6474e485f593b1d"

def emptyListHash : String := "4f53cda18c2baa0c0354bb5f9a3ecbe5ed12ab4d8e11ba873c2f11161202b945"

def listBodyHash : String := "3617db225ae74d5ac76cbeb155742e2a651442e5c8afbbdad984b2aa8a4b2cfb"

/-- The digests of the texts of one artifact and of its segments. -/
def artifactDigests : Sha256 :=
  .ofDigests
    [(utf8Encode "[]", emptyListHash),
     (utf8Encode "\x7b\"k\":[]\x7d", listBodyHash),
     (utf8Encode "\x7b\"items\":[],\"kind\":\"array\"\x7d", emptyLeafHash),
     (utf8Encode "\x7b\"items\":[[0,\"s\"]],\"kind\":\"array\"\x7d",
       "87cdd94924b8ec3108e78d16f8067417a183d7f3af0c9dcd8ebb567c840bad5e"),
     (utf8Encode ("\x7b\"entries\":[[\"k\",[1,\"" ++ emptyLeafHash ++
         "\"]]],\"kind\":\"object\"\x7d"),
       "cfe5d48ae46c0f2bfc2a28fe8f236c965ce6696cbe7c715ba8d8032db62dd68e")]

def listArtifact : ContextArtifact where
  id := "a"
  orgId := "o"
  kind := .threadSummary
  schemaVersion := "1.0"
  algorithmVersion := "v"
  generation := "g"
  inputRefs := []
  inputHash := emptyListHash
  bodyHash := some listBodyHash
  bodyStorage := true
  status := .proposed
  requiredScopeIds := ["s"]
  recordedAt := "2026-01-01T00:00:00.000Z"
  attrs := some (.object [("k", .array [])])

def isNewYear (text : String) : Bool := text = "2026-01-01T00:00:00.000Z"

theorem listArtifact_collisionFree :
    CollisionFree artifactDigests (packedBy artifactDigests [listArtifact]) := by
  unfold CollisionFree
  decide +kernel

theorem listArtifact_accepted : Accepted artifactDigests isNewYear [listArtifact] listArtifact := by
  obtain ⟨next, hput, -⟩ := ok_of_any
    (x := putArtifact artifactDigests isNewYear (putAll artifactDigests isNewYear {} []) listArtifact)
    (p := fun _ => true) (by decide +kernel)
  exact ⟨[], [], rfl, next, hput⟩

theorem shared_artifacts_lossless_list :
    ∃ payload, storedPayload (putAll artifactDigests isNewYear {} [listArtifact]) listArtifact =
        some payload ∧
      ∀ fuel,
        (putAll artifactDigests isNewYear {} [listArtifact]).segments.rows.length ≤ fuel →
          contextArtifactDecoder artifactDigests
            (loadSegment (putAll artifactDigests isNewYear {} [listArtifact]) listArtifact.orgId)
            isNewYear fuel listArtifact.orgId payload = .ok listArtifact.sorted :=
  (shared_artifacts_lossless listArtifact_collisionFree).1 listArtifact listArtifact_accepted

end Regenic.Context.Artifacts
