import Regenic.Context.SegmentsRestored

/-!
Values packed into segments. Every segment is well formed and refers only to segments stored before
it; a value is restored from any shelf that has its segments.
-/

namespace Regenic.Context.Artifacts

open Lib Ingest Assembly

variable {sha256 : Sha256}

theorem referenceItems_eq (items : List JsonValue) :
    referenceItems sha256 items = items.map (reference sha256) := by
  induction items with
  | nil => rfl
  | cons item rest ih => rw [referenceItems, ih, List.map_cons]

theorem referenceFields_eq (fields : List (String × JsonValue)) :
    referenceFields sha256 fields =
      fields.map fun field => (field.1, reference sha256 field.2) := by
  induction fields with
  | nil => rfl
  | cons field rest ih => rw [referenceFields, ih, List.map_cons]

/-- The entries of an object, in the order of their names. -/
theorem sorted_referenceFields (fields : List (String × JsonValue)) :
    (referenceFields sha256 fields).insertionSort entryLe =
      (fields.insertionSort Json.nameLe).map fun field =>
        (field.1, reference sha256 field.2) := by
  rw [referenceFields_eq]
  exact (List.map_insertionSort Json.nameLe entryLe
    (fun field => (field.1, reference sha256 field.2)) fields fun _ _ _ _ => Iff.rfl).symm

/-- An object packed, its entries in the order of their names. -/
theorem reference_object (fields : List (String × JsonValue)) :
    reference sha256 (.object fields) =
      (.stored ((Segment.object ((fields.insertionSort Json.nameLe).map fun field =>
          (field.1, (reference sha256 field.2).1))).hash sha256),
        (fields.insertionSort Json.nameLe).flatMap (fun field => (reference sha256 field.2).2) ++
          [Segment.object ((fields.insertionSort Json.nameLe).map fun field =>
            (field.1, (reference sha256 field.2).1))]) := by
  rw [reference, sorted_referenceFields, List.map_map, List.flatMap_map]
  rfl

theorem reference_array (items : List JsonValue) :
    reference sha256 (.array items) =
      (.stored (packItems sha256 (items.map fun item => (reference sha256 item).1)).1,
        items.flatMap (fun item => (reference sha256 item).2) ++
          (packItems sha256 (items.map fun item => (reference sha256 item).1)).2) := by
  rw [reference, referenceItems_eq, List.map_map, List.flatMap_map]
  rfl

theorem sortKeys_object (fields : List (String × JsonValue)) :
    Json.sortKeys (.object fields) =
      .object ((fields.insertionSort Json.nameLe).map fun field =>
        (field.1, Json.sortKeys field.2)) := by
  rw [Json.sortKeys, Json.sortMembers_eq]
  congr 1
  exact (List.map_insertionSort Json.nameLe Json.nameLe
    (fun field : String × JsonValue => (field.1, Json.sortKeys field.2)) fields
    fun _ _ _ _ => Iff.rfl).symm

/-! ## Segments are well formed -/

theorem isSha256Hex_hash (segment : Segment) : isSha256Hex (segment.hash sha256) = true :=
  sha256.shape _

theorem sound_leaves {items : List Reference} (h : ∀ item ∈ items, item.Sound) :
    ∀ segment ∈ leaves items, segment.Sound := by
  intro segment hsegment
  obtain ⟨piece, hpiece, rfl⟩ := List.mem_map.mp hsegment
  exact ⟨length_le_of_mem_chunks hpiece, fun item hitem => h item (mem_of_mem_chunks hpiece hitem)⟩

theorem sound_parents {level : List String} (h : ∀ hash ∈ level, isSha256Hex hash = true) :
    ∀ segment ∈ parents level, segment.Sound := by
  intro segment hsegment
  obtain ⟨piece, hpiece, rfl⟩ := List.mem_map.mp hsegment
  exact ⟨length_le_of_mem_chunks hpiece, fun hash hhash => h hash (mem_of_mem_chunks hpiece hhash)⟩

theorem sound_raise (fuel : Nat) {level : List String} (h : ∀ hash ∈ level, isSha256Hex hash = true) :
    ∀ segment ∈ (raise sha256 fuel level).1, segment.Sound := by
  induction fuel generalizing level with
  | zero => exact fun _ hsegment => absurd hsegment List.not_mem_nil
  | succ fuel ih =>
    rw [raise]
    split
    · intro segment hsegment
      rcases List.mem_append.mp hsegment with hparent | habove
      · exact sound_parents h segment hparent
      · refine ih ?_ segment habove
        intro hash hhash
        obtain ⟨parent, -, rfl⟩ := List.mem_map.mp hhash
        exact isSha256Hex_hash parent
    · exact fun _ hsegment => absurd hsegment List.not_mem_nil

theorem hashes_of_map (segments : List Segment) :
    ∀ hash ∈ segments.map (Segment.hash sha256), isSha256Hex hash = true := by
  intro hash hhash
  obtain ⟨segment, -, rfl⟩ := List.mem_map.mp hhash
  exact isSha256Hex_hash segment

theorem sound_packItems {items : List Reference} (h : ∀ item ∈ items, item.Sound) :
    ∀ segment ∈ (packItems sha256 items).2, segment.Sound := by
  intro segment hsegment
  rcases List.mem_append.mp hsegment with hleaf | habove
  · exact sound_leaves h segment hleaf
  · exact sound_raise _ (hashes_of_map _) segment habove

variable (sha256) in
/-- The last of the levels is one segment. -/
theorem raise_last (fuel : Nat) {level : List String} (h : level ≠ []) :
    (raise sha256 fuel level).2 ≠ [] := by
  induction fuel generalizing level with
  | zero => exact h
  | succ fuel ih =>
    rw [raise]
    split
    · next hlong =>
      apply ih
      have hpos := turns_pos (show 0 < segmentWidth by decide) (Nat.zero_lt_of_lt hlong)
      apply List.ne_nil_of_length_pos
      rw [List.length_map, parents, List.length_map, length_chunks]
      exact hpos
    · exact h

/-! ## Segments are stored before those that refer to them -/

variable (sha256) in
/-- Segments in an order in which each refers only to those before it. -/
def Built (segments : List Segment) : Prop :=
  Grounded Segment.links (segments.map fun segment => (segment.hash sha256, segment))

theorem names_built (segments : List Segment) :
    (segments.map fun segment => (segment.hash sha256, segment)).map Prod.fst =
      segments.map (Segment.hash sha256) := by
  rw [List.map_map]
  rfl

theorem Built.append {segments more : List Segment} (h : Built sha256 segments)
    (hmore : Built sha256 more) : Built sha256 (segments ++ more) := by
  unfold Built
  rw [List.map_append]
  exact Grounded.append h hmore

theorem Built.extend {segments more : List Segment} (h : Built sha256 segments)
    (hmore : ∀ segment ∈ more, ∀ link ∈ segment.links, link ∈ segments.map (Segment.hash sha256)) :
    Built sha256 (segments ++ more) := by
  unfold Built
  rw [List.map_append]
  apply Grounded.extend h
  intro entry hentry link hlink
  obtain ⟨segment, hsegment, rfl⟩ := List.mem_map.mp hentry
  rw [names_built]
  exact hmore segment hsegment link hlink

theorem Built.flatMap {γ : Type} {make : γ → List Segment} {items : List γ}
    (h : ∀ item ∈ items, Built sha256 (make item)) : Built sha256 (items.flatMap make) := by
  unfold Built
  rw [List.map_flatMap]
  exact Grounded.flatMap h

theorem built_raise (fuel : Nat) {segments : List Segment} (level : List String)
    (h : Built sha256 segments) (hlevel : ∀ hash ∈ level, hash ∈ segments.map (Segment.hash sha256)) :
    Built sha256 (segments ++ (raise sha256 fuel level).1) ∧
      ∀ hash ∈ (raise sha256 fuel level).2,
        hash ∈ (segments ++ (raise sha256 fuel level).1).map (Segment.hash sha256) := by
  induction fuel generalizing segments level with
  | zero =>
    simp only [raise, List.append_nil]
    exact ⟨h, hlevel⟩
  | succ fuel ih =>
    rw [raise]
    split
    · have hparents : Built sha256 (segments ++ parents level) := by
        apply h.extend
        intro segment hsegment link hlink
        obtain ⟨piece, hpiece, rfl⟩ := List.mem_map.mp hsegment
        exact hlevel link (mem_of_mem_chunks hpiece hlink)
      have habove := ih ((parents level).map (Segment.hash sha256)) hparents (by
        intro hash hhash
        rw [List.map_append]
        exact List.mem_append_right _ hhash)
      simp only
      rw [← List.append_assoc]
      exact habove
    · rw [List.append_nil]
      exact ⟨h, hlevel⟩

theorem built_packItems {segments : List Segment} (items : List Reference)
    (h : Built sha256 segments)
    (hitems : ∀ hash, Reference.stored hash ∈ items → hash ∈ segments.map (Segment.hash sha256)) :
    Built sha256 (segments ++ (packItems sha256 items).2) ∧
      (packItems sha256 items).1 ∈
        (segments ++ (packItems sha256 items).2).map (Segment.hash sha256) := by
  have hleaves : Built sha256 (segments ++ leaves items) := by
    apply h.extend
    intro segment hsegment link hlink
    obtain ⟨piece, hpiece, rfl⟩ := List.mem_map.mp hsegment
    obtain ⟨value, hvalue, hstored⟩ := List.mem_filterMap.mp hlink
    cases value with
    | scalar value => cases hstored
    | stored below =>
      cases hstored
      exact hitems link (mem_of_mem_chunks hpiece hvalue)
  have habove := built_raise ((leaves items).map (Segment.hash sha256)).length
    ((leaves items).map (Segment.hash sha256)) hleaves (by
      intro hash hhash
      rw [List.map_append]
      exact List.mem_append_right _ hhash)
  rw [List.append_assoc] at habove
  refine ⟨habove.1, habove.2 _ ?_⟩
  have hne : (leaves items).map (Segment.hash sha256) ≠ [] := by
    have hpos := turns_pos (show 0 < segmentWidth by decide) (show 0 < max 1 items.length by omega)
    apply List.ne_nil_of_length_pos
    rw [List.length_map, leaves, List.length_map, length_chunks]
    exact hpos
  obtain ⟨hash, rest, hlast⟩ := List.exists_cons_of_ne_nil
    (raise_last sha256 ((leaves items).map (Segment.hash sha256)).length hne)
  unfold packItems
  simp only [hlast, List.headD_cons]
  exact List.mem_cons_self

/-- What the references of a packed value are: well formed, and stored before they are used. -/
structure Packed (sha256 : Sha256) (packed : Reference × List Segment) : Prop where
  sound : packed.1.Sound
  segments : ∀ segment ∈ packed.2, segment.Sound
  built : Built sha256 packed.2
  own : ∀ hash, packed.1 = .stored hash → hash ∈ packed.2.map (Segment.hash sha256)

theorem packed_scalar {value : Scalar} (h : Json.Printable value.json) :
    Packed sha256 (.scalar value, []) where
  sound := h
  segments := fun _ hsegment => absurd hsegment List.not_mem_nil
  built := .nil
  own := nofun

theorem own_of_flatMap {γ : Type} {pack : γ → Reference × List Segment} {items : List γ}
    (h : ∀ item ∈ items, Packed sha256 (pack item)) {hash : String}
    (hhash : Reference.stored hash ∈ items.map fun item => (pack item).1) :
    hash ∈ (items.flatMap fun item => (pack item).2).map (Segment.hash sha256) := by
  obtain ⟨item, hitem, hstored⟩ := List.mem_map.mp hhash
  obtain ⟨segment, hsegment, rfl⟩ := List.mem_map.mp ((h item hitem).own hash hstored)
  exact List.mem_map_of_mem (List.mem_flatMap.mpr ⟨item, hitem, hsegment⟩)

mutual

theorem packed_reference : ∀ item : JsonValue, Json.Printable item →
    Packed sha256 (reference sha256 item)
  | .null, h => packed_scalar h
  | .bool _, h => packed_scalar h
  | .number _, h => packed_scalar h
  | .string _, h => packed_scalar h
  | .array items, h => by
    have hitems := packed_items items h
    have hbelow : Built sha256 (items.flatMap fun item => (reference sha256 item).2) :=
      Built.flatMap fun item hitem => (hitems item hitem).built
    have hbuilt := built_packItems (items.map fun item => (reference sha256 item).1) hbelow
      fun hash hhash => own_of_flatMap hitems hhash
    rw [reference_array]
    refine ⟨?_, ?_, hbuilt.1, ?_⟩
    · obtain ⟨segment, -, hsame⟩ := List.mem_map.mp hbuilt.2
      exact hsame ▸ isSha256Hex_hash segment
    · intro segment hsegment
      rcases List.mem_append.mp hsegment with hbelow | hown
      · obtain ⟨item, hitem, hin⟩ := List.mem_flatMap.mp hbelow
        exact (hitems item hitem).segments segment hin
      · refine sound_packItems ?_ segment hown
        intro value hvalue
        obtain ⟨item, hitem, rfl⟩ := List.mem_map.mp hvalue
        exact (hitems item hitem).sound
    · rintro hash ⟨⟩
      exact hbuilt.2
  | .object fields, h => by
    have hfields := packed_fields fields h
    have hsorted : ∀ field ∈ fields.insertionSort Json.nameLe,
        Packed sha256 (reference sha256 field.2) := fun field hfield =>
      hfields field ((List.mem_insertionSort Json.nameLe).mp hfield)
    rw [reference_object]
    refine ⟨isSha256Hex_hash _, ?_, ?_, ?_⟩
    · intro segment hsegment
      rcases List.mem_append.mp hsegment with hbelow | hown
      · obtain ⟨field, hfield, hin⟩ := List.mem_flatMap.mp hbelow
        exact (hsorted field hfield).segments segment hin
      · obtain rfl := List.mem_singleton.mp hown
        intro entry hentry
        obtain ⟨field, hfield, rfl⟩ := List.mem_map.mp hentry
        exact (hsorted field hfield).sound
    · apply (Built.flatMap fun field hfield => (hsorted field hfield).built).extend
      intro segment hsegment link hlink
      obtain rfl := List.mem_singleton.mp hsegment
      obtain ⟨value, hvalue, hstored⟩ := List.mem_filterMap.mp hlink
      rw [List.map_map] at hvalue
      cases value with
      | scalar value => cases hstored
      | stored below =>
        cases hstored
        exact own_of_flatMap hsorted hvalue
    · rintro hash ⟨⟩
      rw [List.map_append]
      exact List.mem_append_right _ (List.mem_singleton_self _)

theorem packed_items : ∀ items : List JsonValue, Json.PrintableItems items →
    ∀ item ∈ items, Packed sha256 (reference sha256 item)
  | [], _ => fun _ hitem => absurd hitem List.not_mem_nil
  | item :: rest, h =>
    List.forall_mem_cons.mpr ⟨packed_reference item h.1, packed_items rest h.2⟩

theorem packed_fields : ∀ fields : List (String × JsonValue), Json.PrintableMembers fields →
    ∀ field ∈ fields, Packed sha256 (reference sha256 field.2)
  | [], _ => fun _ hfield => absurd hfield List.not_mem_nil
  | (_, item) :: rest, h =>
    List.forall_mem_cons.mpr ⟨packed_reference item h.1, packed_fields rest h.2⟩

end

/-! ## Values are restored -/

section Restored

variable {known : List Segment} {entries : List (String × String)}
  {load : String → Option String}

mutual

/-- A packed value is restored with the fields of its objects in order. -/
theorem restores_reference (hshelf : Shelf sha256 known entries)
    (hload : ∀ entry ∈ entries, load entry.1 = some entry.2) : ∀ item : JsonValue, Json.Printable item →
    (∀ segment ∈ (reference sha256 item).2, segment.entry sha256 ∈ entries) →
      Restores sha256 load entries (reference sha256 item).1 (Json.sortKeys item)
  | .null, _, _ => restores_scalar load entries .null
  | .bool value, _, _ => restores_scalar load entries (.bool value)
  | .number text, _, _ => restores_scalar load entries (.number text)
  | .string value, _, _ => restores_scalar load entries (.string value)
  | .array items, h, hstored => by
    have hpacked : Packed sha256 (reference sha256 (.array items)) :=
      packed_reference (.array items) h
    rw [reference_array] at hstored hpacked ⊢
    rw [Json.sortKeys, Json.sortItems_eq]
    apply restores_packItems hshelf hload
    · exact restores_items hshelf hload items h fun item hitem segment hsegment =>
        hstored segment (List.mem_append_left _ (List.mem_flatMap.mpr ⟨item, hitem, hsegment⟩))
    · intro segment hsegment
      have hin := List.mem_append_right
        (items.flatMap fun item => (reference sha256 item).2) hsegment
      exact ⟨hstored segment hin, hpacked.segments segment hin⟩
  | .object fields, h, hstored => by
    have hpacked : Packed sha256 (reference sha256 (.object fields)) :=
      packed_reference (.object fields) h
    rw [reference_object] at hstored hpacked ⊢
    rw [sortKeys_object]
    have hlast := List.mem_append_right
      ((fields.insertionSort Json.nameLe).flatMap fun field => (reference sha256 field.2).2)
      (List.mem_singleton_self (Segment.object ((fields.insertionSort Json.nameLe).map
        fun field => (field.1, (reference sha256 field.2).1))))
    apply restores_object hshelf hload _ (hstored _ hlast) (hpacked.segments _ hlast)
    intro field hfield
    apply restores_fields hshelf hload fields h _ field ((List.mem_insertionSort Json.nameLe).mp hfield)
    intro other hother segment hsegment
    have hsorted := (List.mem_insertionSort Json.nameLe).mpr hother
    exact hstored segment (List.mem_append_left _ (List.mem_flatMap.mpr ⟨other, hsorted, hsegment⟩))

theorem restores_items (hshelf : Shelf sha256 known entries)
    (hload : ∀ entry ∈ entries, load entry.1 = some entry.2) : ∀ items : List JsonValue, Json.PrintableItems items →
    (∀ item ∈ items, ∀ segment ∈ (reference sha256 item).2, segment.entry sha256 ∈ entries) →
      ∀ item ∈ items, Restores sha256 load entries (reference sha256 item).1 (Json.sortKeys item)
  | [], _, _ => fun _ hitem => absurd hitem List.not_mem_nil
  | item :: rest, h, hstored =>
    have hboth := List.forall_mem_cons.mp hstored
    List.forall_mem_cons.mpr
      ⟨restores_reference hshelf hload item h.1 hboth.1,
        restores_items hshelf hload rest h.2 hboth.2⟩

theorem restores_fields (hshelf : Shelf sha256 known entries)
    (hload : ∀ entry ∈ entries, load entry.1 = some entry.2) : ∀ fields : List (String × JsonValue), Json.PrintableMembers fields →
    (∀ field ∈ fields, ∀ segment ∈ (reference sha256 field.2).2, segment.entry sha256 ∈ entries) →
      ∀ field ∈ fields,
        Restores sha256 load entries (reference sha256 field.2).1 (Json.sortKeys field.2)
  | [], _, _ => fun _ hfield => absurd hfield List.not_mem_nil
  | (_, item) :: rest, h, hstored =>
    have hboth := List.forall_mem_cons.mp hstored
    List.forall_mem_cons.mpr
      ⟨restores_reference hshelf hload item h.1 hboth.1,
        restores_fields hshelf hload rest h.2 hboth.2⟩

end

end Restored

end Regenic.Context.Artifacts
