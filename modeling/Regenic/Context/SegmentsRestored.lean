import Regenic.Context.ArtifactDecoder

/-!
What was stored is restored. A segment reads back from its text; the segments of a value are stored
before those that refer to them, so the way down never comes back to a segment it is in; and the
values put together on the way up are those that were taken apart.
-/

namespace Regenic.Context.Artifacts

open Lib Ingest Assembly

/-! ## Properties of records -/

theorem property_eq (row : List (String × JsonValue)) (name : String) :
    property row name = (row.reverse.find? fun field => field.1 = name).map Prod.snd := rfl

/-- A property of the fields of a record in any order. -/
theorem property_of_perm {row : List (String × JsonValue)} {fields : List (String × Option JsonValue)}
    (hperm : row.Perm (Json.presentFields fields)) (hnodup : (fields.map Prod.fst).Nodup)
    {name : String} {value : Option JsonValue} (hfield : (name, value) ∈ fields) :
    property row name = value := by
  have hrow : ∀ item, (name, item) ∈ row ↔ value = some item := by
    intro item
    rw [hperm.mem_iff, Json.mem_presentFields_iff]
    constructor
    · intro hitem
      exact (Prod.mk.inj (List.inj_on_of_nodup_map hnodup hfield hitem rfl)).2
    · rintro rfl
      exact hfield
  rw [property_eq]
  cases hfound : row.reverse.find? fun field => field.1 = name with
  | none =>
    cases value with
    | none => rfl
    | some item =>
      have hmem := List.mem_reverse.mpr ((hrow item).mpr rfl)
      have hnot := List.find?_eq_none.mp hfound _ hmem
      simp at hnot
  | some field =>
    have hmem := List.mem_reverse.mp (List.mem_of_find?_eq_some hfound)
    have hname : field.1 = name := by simpa using List.find?_some hfound
    have hitem : (name, field.2) ∈ row := by rw [← hname]; exact hmem
    rw [(hrow field.2).mp hitem]
    rfl

theorem property_of_perm_absent {row : List (String × JsonValue)}
    {fields : List (String × Option JsonValue)} (hperm : row.Perm (Json.presentFields fields))
    {name : String} (hname : name ∉ fields.map Prod.fst) : property row name = none := by
  rw [property_eq]
  have hnone : (row.reverse.find? fun field => field.1 = name) = none := by
    refine List.find?_eq_none.mpr fun field hfield => ?_
    rw [decide_eq_true_eq]
    intro hsame
    have hmem : (field.1, field.2) ∈ Json.presentFields fields :=
      hperm.mem_iff.mp (List.mem_reverse.mp hfield)
    apply hname
    rw [← hsame]
    exact List.mem_map_of_mem (Json.mem_presentFields_iff.mp hmem)
  rw [hnone]
  rfl

/-- The fields of a parsed record. -/
def parsedFields (fields : List (String × Option JsonValue)) : List (String × JsonValue) :=
  (Json.presentFields (Json.sortValues fields)).insertionSort Json.nameLe

theorem parsedFields_perm (fields : List (String × Option JsonValue)) :
    (parsedFields fields).Perm (Json.presentFields (Json.sortValues fields)) :=
  List.perm_insertionSort _ _

theorem property_parsed {fields : List (String × Option JsonValue)}
    (hnodup : (fields.map Prod.fst).Nodup) {name : String} {value : Option JsonValue}
    (hfield : (name, value) ∈ fields) :
    property (parsedFields fields) name = value.map Json.sortKeys := by
  apply property_of_perm (parsedFields_perm fields)
  · rw [Json.names_sortValues]
    exact hnodup
  · exact List.mem_map.mpr ⟨(name, value), hfield, rfl⟩

theorem property_parsed_absent {fields : List (String × Option JsonValue)} {name : String}
    (hname : name ∉ fields.map Prod.fst) : property (parsedFields fields) name = none := by
  apply property_of_perm_absent (parsedFields_perm fields)
  rw [Json.names_sortValues]
  exact hname

/-- The canonical text of a record is parsed into its fields in order. -/
theorem parsedRecord_canonical {fields : List (String × Option JsonValue)}
    (h : Json.Printable (Json.record fields)) :
    parsedRecord (.string (Json.canonical (Json.record fields))) = .ok (parsedFields fields) := by
  have hparse := Json.parse_canonical h
  rw [Json.sortKeys_record] at hparse
  unfold parsedRecord
  simp only [hparse]
  rfl

/-! ## Segments read back -/

/-- A reference as `reference` makes them. -/
def Reference.Sound : Reference → Prop
  | .scalar value => Json.Printable value.json
  | .stored hash => isSha256Hex hash = true

def Segment.Sound : Segment → Prop
  | .object entries => ∀ entry ∈ entries, entry.2.Sound
  | .array items => items.length ≤ segmentWidth ∧ ∀ item ∈ items, item.Sound
  | .concat children =>
    children.length ≤ segmentWidth ∧ ∀ child ∈ children, isSha256Hex child = true

theorem isNumber_digits : Json.IsNumber "0" ∧ Json.IsNumber "1" :=
  ⟨Json.isNumber_natRepr 0, Json.isNumber_natRepr 1⟩

theorem printable_reference {value : Reference} (h : value.Sound) : Json.Printable value.json := by
  cases value with
  | scalar value => exact ⟨isNumber_digits.1, h, trivial⟩
  | stored hash => exact ⟨isNumber_digits.2, trivial, trivial⟩

theorem sortKeys_scalar (value : Scalar) : Json.sortKeys value.json = value.json := by
  cases value <;> rfl

theorem sortKeys_reference (value : Reference) : Json.sortKeys value.json = value.json := by
  cases value with
  | scalar value =>
    rw [Reference.json, Json.sortKeys, Json.sortItems_eq]
    simp only [List.map_cons, List.map_nil, sortKeys_scalar, Json.sortKeys]
  | stored hash => rfl

theorem sortKeys_array {α : Type} {json : α → JsonValue}
    (h : ∀ value, Json.sortKeys (json value) = json value) (values : List α) :
    Json.sortKeys (.array (values.map json)) = .array (values.map json) := by
  rw [Json.sortKeys, Json.sortItems_eq, List.map_map]
  congr 1
  exact List.map_congr_left fun value _ => h value

theorem sortKeys_entry (entry : String × Reference) :
    Json.sortKeys (entryJson entry) = entryJson entry := by
  rw [entryJson, Json.sortKeys, Json.sortItems_eq]
  simp only [List.map_cons, List.map_nil, sortKeys_reference, Json.sortKeys]

theorem printable_segment {segment : Segment} (h : segment.Sound) : Json.Printable segment.json := by
  have harray : ∀ {α : Type} {json : α → JsonValue} {values : List α},
      (∀ value ∈ values, Json.Printable (json value)) →
        Json.Printable (.array (values.map json)) := by
    intro α json values hvalues
    rw [Json.Printable, Json.printableItems_iff]
    intro item hitem
    obtain ⟨value, hvalue, rfl⟩ := List.mem_map.mp hitem
    exact hvalues value hvalue
  apply Json.printable_record
  cases segment with
  | object entries =>
    have hentries : ∀ entry ∈ entries, Json.Printable (entryJson entry) := fun entry hentry =>
      ⟨trivial, printable_reference (h entry hentry), trivial⟩
    simp only [Segment.fields, List.forall_mem_cons]
    exact ⟨printable_present trivial, printable_present (harray hentries), List.forall_mem_nil _⟩
  | array items =>
    have hitems : ∀ item ∈ items, Json.Printable item.json := fun item hitem =>
      printable_reference (h.2 item hitem)
    simp only [Segment.fields, List.forall_mem_cons]
    exact ⟨printable_present trivial, printable_present (harray hitems), List.forall_mem_nil _⟩
  | concat children =>
    have hchildren : ∀ child ∈ children, Json.Printable (.string child) := fun _ _ => trivial
    simp only [Segment.fields, List.forall_mem_cons]
    exact ⟨printable_present trivial, printable_present (harray hchildren), List.forall_mem_nil _⟩

theorem scalarOf?_json (value : Scalar) : scalarOf? value.json = some value := by
  cases value <;> rfl

theorem parseReference_json {value : Reference} (h : value.Sound) :
    parseReference value.json = .ok value := by
  cases value with
  | scalar value =>
    have htag : ¬ ("0" = "1" ∧ isHash value.json = true) := fun h => absurd h.1 (by decide)
    rw [Reference.json, parseReference, if_neg htag, scalarOf?_json]
    rfl
  | stored hash =>
    have hhash : isHash (.string hash) = true := h
    rw [Reference.json, parseReference, if_pos ⟨rfl, hhash⟩]
    rfl

theorem parseEntry_json {entry : String × Reference} (h : entry.2.Sound) :
    parseEntry (entryJson entry) = .ok entry := by
  rw [entryJson, parseEntry, parseReference_json h]
  rfl

theorem segment_names (segment : Segment) : (segment.fields.map Prod.fst).Nodup := by
  cases segment <;> simp [Segment.fields]

theorem readSegment_parsed {segment : Segment} (h : segment.Sound) :
    readSegment (parsedFields segment.fields) = .ok segment := by
  have hproperty : ∀ name {value}, (name, value) ∈ segment.fields →
      property (parsedFields segment.fields) name = value.map Json.sortKeys := fun _ _ hfield =>
    property_parsed (segment_names segment) hfield
  have habsent : ∀ name, name ∉ segment.fields.map Prod.fst →
      property (parsedFields segment.fields) name = none := fun _ => property_parsed_absent
  unfold readSegment
  cases segment with
  | object entries =>
    have hkind := hproperty "kind" List.mem_cons_self
    have hentries := hproperty "entries" (List.mem_cons_of_mem _ List.mem_cons_self)
    rw [Option.map_some, sortKeys_array sortKeys_entry] at hentries
    have hread : (entries.map entryJson).mapM parseEntry = .ok (entries.map id) :=
      mapM_map_ok fun entry hentry => parseEntry_json (h entry hentry)
    rw [List.map_id] at hread
    simp only [kindOf, hkind, hentries, Option.map_some, Option.bind_some, arrayOf?, Json.sortKeys,
      JsonValue.string?, Option.filter_some, decide_true, if_true, hread]
    rfl
  | array items =>
    have hkind := hproperty "kind" List.mem_cons_self
    have hitems := hproperty "items" (List.mem_cons_of_mem _ List.mem_cons_self)
    have hnone := habsent "entries" (by simp [Segment.fields])
    rw [Option.map_some, sortKeys_array sortKeys_reference] at hitems
    have hread : (items.map Reference.json).mapM parseReference = .ok (items.map id) :=
      mapM_map_ok fun item hitem => parseReference_json (h.2 item hitem)
    rw [List.map_id] at hread
    simp only [kindOf, shortArray, hkind, hitems, hnone, Option.map_some, Option.bind_some,
      Option.bind_none, arrayOf?, Json.sortKeys, JsonValue.string?, Option.filter_some,
      Option.filter_none, List.length_map, h.1, decide_true, if_true, hread]
    rfl
  | concat children =>
    have hkind := hproperty "kind" List.mem_cons_self
    have hchildren := hproperty "children" (List.mem_cons_of_mem _ List.mem_cons_self)
    have hentries := habsent "entries" (by simp [Segment.fields])
    have hitems := habsent "items" (by simp [Segment.fields])
    rw [Option.map_some, sortKeys_array fun _ => rfl] at hchildren
    have hhashes : (children.map JsonValue.string).all isHash = true := by
      rw [List.all_map, List.all_eq_true]
      exact h.2
    have hread : (children.map JsonValue.string).filterMap JsonValue.string? = children := by
      rw [List.filterMap_map]
      exact List.filterMap_some
    simp only [kindOf, shortArray, hkind, hchildren, hentries, hitems, Option.map_some,
      Option.bind_some, Option.bind_none, arrayOf?, Json.sortKeys, JsonValue.string?,
      Option.filter_some, Option.filter_none, List.length_map, h.1, decide_true, if_true, hhashes,
      Bool.and_self, hread]

theorem parsedRecord_segment {segment : Segment} (h : segment.Sound) :
    parsedRecord (.string segment.text) = .ok (parsedFields segment.fields) :=
  parsedRecord_canonical (printable_segment h)

variable {sha256 : Sha256}

/-- A stored segment passes its check. -/
theorem checkedSegment_text {segment : Segment} (h : segment.Sound) :
    checkedSegment sha256 (segment.hash sha256) (some segment.text) = .ok segment := by
  have hhash : hashCanonicalContext sha256 (.object (parsedFields segment.fields)) =
      segment.hash sha256 := by
    have hsorted : JsonValue.object (parsedFields segment.fields) = Json.sortKeys segment.json :=
      (Json.sortKeys_record segment.fields).symm
    rw [hsorted, Segment.hash, hashCanonicalContext, hashCanonicalContext, Json.canonical,
      Json.sortKeys_sortKeys]
    rfl
  have hchecked : throwUnless (hashCanonicalContext sha256
      (.object (parsedFields segment.fields)) = segment.hash sha256)
      (ArtifactFailure.error "Context artifact segment hash mismatch") = .ok () := by
    rw [decide_eq_true hhash]
    rfl
  unfold checkedSegment
  simp only [parsedRecord_segment h]
  change (throwUnless _ _ >>= fun _ => readSegment _) = _
  rw [hchecked]
  exact readSegment_parsed h

/-! ## Shelves -/

/-- The segments that a stored text refers to. -/
def textLinks (text : String) : List String :=
  match parsedRecord (.string text) >>= readSegment with
  | .ok segment => segment.links
  | .error _ => []

theorem textLinks_text {segment : Segment} (h : segment.Sound) :
    textLinks segment.text = segment.links := by
  have hread : parsedRecord (.string segment.text) >>= readSegment = .ok segment := by
    rw [parsedRecord_segment h]
    exact readSegment_parsed h
  unfold textLinks
  simp only [hread]

variable (sha256) in
/-- A segment as it is stored. -/
def Segment.entry (segment : Segment) : String × String := (segment.hash sha256, segment.text)

variable (sha256) in
/-- Stored segments in the order in which they were added, each of them one of those known. -/
structure Shelf (known : List Segment) (entries : List (String × String)) : Prop where
  nodup : (entries.map Prod.fst).Nodup
  grounded : Grounded textLinks entries
  sound : ∀ entry ∈ entries, ∃ segment ∈ known, segment.Sound ∧ entry = segment.entry sha256

variable (sha256) in
/-- A reference is restored wherever none of the segments below it is being restored. -/
def Restores (load : String → Option String) (entries : List (String × String))
    (value : Reference) (item : JsonValue) : Prop :=
  ∀ fuel visiting, (∀ hash, value = .stored hash →
    rank entries hash < fuel ∧ ∀ above ∈ visiting, rank entries hash < rank entries above) →
      restore sha256 load fuel visiting value = .ok item

theorem restores_scalar (load : String → Option String) (entries : List (String × String))
    (value : Scalar) : Restores sha256 load entries (.scalar value) value.json := by
  intro fuel visiting _
  cases fuel <;> rfl

theorem mem_references {values : List Reference} {hash : String}
    (h : Reference.stored hash ∈ values) : hash ∈ references values :=
  List.mem_filterMap.mpr ⟨_, h, rfl⟩

section Step

variable {known : List Segment} {entries : List (String × String)}
  {load : String → Option String} (hshelf : Shelf sha256 known entries)
  (hload : ∀ entry ∈ entries, load entry.1 = some entry.2)

include hshelf hload

/-- A segment on the shelf is found, and what it refers to stands before it. -/
theorem restore_step {segment : Segment} (hentry : segment.entry sha256 ∈ entries)
    (hsound : segment.Sound) {fuel : Nat} {visiting : List String}
    (hrank : rank entries (segment.hash sha256) < fuel + 1 ∧
      ∀ above ∈ visiting, rank entries (segment.hash sha256) < rank entries above) :
    segment.hash sha256 ∉ visiting ∧
      checkedSegment sha256 (segment.hash sha256) (load (segment.hash sha256)) = .ok segment ∧
      ∀ link ∈ segment.links, rank entries link < fuel ∧
        ∀ above ∈ segment.hash sha256 :: visiting, rank entries link < rank entries above := by
  refine ⟨fun hvisited => lt_irrefl _ (hrank.2 _ hvisited), ?_, ?_⟩
  · have hfound : load (segment.hash sha256) = some segment.text := hload _ hentry
    rw [hfound]
    exact checkedSegment_text hsound
  · intro link hlink
    have hbelow := (hshelf.grounded.rank_lt hshelf.nodup hentry
      (by rw [textLinks_text hsound]; exact hlink)).2
    refine ⟨by omega, ?_⟩
    intro above habove
    rcases List.mem_cons.mp habove with rfl | hvisited
    · exact hbelow
    · exact hbelow.trans (hrank.2 above hvisited)

theorem restores_object {γ : Type} {name : γ → String} {value : γ → Reference}
    {item : γ → JsonValue} {l : List γ} (hrestores : ∀ c ∈ l, Restores sha256 load entries (value c) (item c))
    (hentry : (Segment.object (l.map fun c => (name c, value c))).entry sha256 ∈ entries)
    (hsound : (Segment.object (l.map fun c => (name c, value c))).Sound) :
    Restores sha256 load entries
      (.stored ((Segment.object (l.map fun c => (name c, value c))).hash sha256))
      (.object (l.map fun c => (name c, item c))) := by
  intro fuel visiting hrank
  obtain ⟨hfuel, hvisiting⟩ := hrank _ rfl
  obtain ⟨fuel, rfl⟩ := Nat.exists_eq_succ_of_ne_zero (Nat.ne_of_gt (Nat.zero_lt_of_lt hfuel))
  obtain ⟨hfresh, hchecked, hlinks⟩ := restore_step hshelf hload hentry hsound ⟨hfuel, hvisiting⟩
  have hfields : (l.map fun c => (name c, value c)).mapM (fun entry : String × Reference =>
      (restore sha256 load fuel
        ((Segment.object (l.map fun c => (name c, value c))).hash sha256 :: visiting)
          entry.2).map fun value => (entry.1, value)) =
      .ok (l.map fun c => (name c, item c)) := by
    apply mapM_map_ok
    intro c hc
    have hrestored := hrestores c hc fuel
      ((Segment.object (l.map fun c => (name c, value c))).hash sha256 :: visiting) fun hash hhash =>
        hlinks hash (mem_references (by
          rw [← hhash, List.map_map]
          exact List.mem_map_of_mem (f := fun c => value c) hc))
    rw [hrestored]
    rfl
  rw [restore, decide_eq_true hfresh, throwUnless_true, hchecked]
  exact congrArg (fun made : Except ArtifactFailure (List (String × JsonValue)) =>
    made >>= fun fields => .ok (JsonValue.object fields)) hfields

theorem restores_array {γ : Type} {value : γ → Reference} {item : γ → JsonValue} {l : List γ}
    (hrestores : ∀ c ∈ l, Restores sha256 load entries (value c) (item c))
    (hentry : (Segment.array (l.map value)).entry sha256 ∈ entries)
    (hsound : (Segment.array (l.map value)).Sound) :
    Restores sha256 load entries (.stored ((Segment.array (l.map value)).hash sha256))
      (.array (l.map item)) := by
  intro fuel visiting hrank
  obtain ⟨hfuel, hvisiting⟩ := hrank _ rfl
  obtain ⟨fuel, rfl⟩ := Nat.exists_eq_succ_of_ne_zero (Nat.ne_of_gt (Nat.zero_lt_of_lt hfuel))
  obtain ⟨hfresh, hchecked, hlinks⟩ := restore_step hshelf hload hentry hsound ⟨hfuel, hvisiting⟩
  have hvalues : (l.map value).mapM (restore sha256 load fuel
      ((Segment.array (l.map value)).hash sha256 :: visiting)) = .ok (l.map item) := by
    apply mapM_map_ok
    intro c hc
    exact hrestores c hc fuel _ fun hash hhash => hlinks hash (mem_references (by
      rw [← hhash]
      exact List.mem_map_of_mem hc))
  rw [restore, decide_eq_true hfresh, throwUnless_true, hchecked]
  exact congrArg (fun made : Except ArtifactFailure (List JsonValue) =>
    made >>= fun values => .ok (JsonValue.array values)) hvalues

theorem restores_concat {γ : Type} {hash : γ → String} {items : γ → List JsonValue} {l : List γ}
    (hrestores : ∀ c ∈ l, Restores sha256 load entries (.stored (hash c)) (.array (items c)))
    (hentry : (Segment.concat (l.map hash)).entry sha256 ∈ entries)
    (hsound : (Segment.concat (l.map hash)).Sound) :
    Restores sha256 load entries (.stored ((Segment.concat (l.map hash)).hash sha256))
      (.array (l.map items).flatten) := by
  intro fuel visiting hrank
  obtain ⟨hfuel, hvisiting⟩ := hrank _ rfl
  obtain ⟨fuel, rfl⟩ := Nat.exists_eq_succ_of_ne_zero (Nat.ne_of_gt (Nat.zero_lt_of_lt hfuel))
  obtain ⟨hfresh, hchecked, hlinks⟩ := restore_step hshelf hload hentry hsound ⟨hfuel, hvisiting⟩
  have hvalues : (l.map hash).mapM (fun child => itemsOf (restore sha256 load fuel
      ((Segment.concat (l.map hash)).hash sha256 :: visiting) (.stored child))) =
      .ok (l.map items) := by
    apply mapM_map_ok
    intro c hc
    have hrestored := hrestores c hc fuel
      ((Segment.concat (l.map hash)).hash sha256 :: visiting) fun link hlink =>
        hlinks link (by
          cases hlink
          exact List.mem_map_of_mem hc)
    rw [hrestored]
    rfl
  rw [restore, decide_eq_true hfresh, throwUnless_true, hchecked]
  exact congrArg (fun made : Except ArtifactFailure (List (List JsonValue)) =>
    made >>= fun values => .ok (JsonValue.array values.flatten)) hvalues

/-- The levels over a level of lists restore the lists joined. -/
theorem restores_raise (fuel : Nat) (level : List (String × List JsonValue)) (hne : level ≠ [])
    (hfuel : level.length ≤ fuel + 1)
    (hrestores : ∀ c ∈ level, Restores sha256 load entries (.stored c.1) (.array c.2))
    (hstored : ∀ segment ∈ (raise sha256 fuel (level.map Prod.fst)).1,
      segment.entry sha256 ∈ entries ∧ segment.Sound) :
    ∃ hash, (raise sha256 fuel (level.map Prod.fst)).2 = [hash] ∧
      Restores sha256 load entries (.stored hash) (.array (level.map Prod.snd).flatten) := by
  have hsingle : ∀ {level : List (String × List JsonValue)}, level ≠ [] → level.length ≤ 1 →
      (∀ c ∈ level, Restores sha256 load entries (.stored c.1) (.array c.2)) →
      ∃ hash, level.map Prod.fst = [hash] ∧
        Restores sha256 load entries (.stored hash) (.array (level.map Prod.snd).flatten) := by
    intro level hne hshort hrestores
    obtain ⟨c, rfl⟩ : ∃ c, level = [c] := by
      apply List.length_eq_one_iff.mp
      have hpos := List.length_pos_of_ne_nil hne
      omega
    refine ⟨c.1, rfl, ?_⟩
    have hrestored := hrestores c List.mem_cons_self
    simpa using hrestored
  induction fuel generalizing level with
  | zero => exact hsingle hne hfuel hrestores
  | succ fuel ih =>
    rw [raise]
    rw [raise] at hstored
    by_cases hlong : (level.map Prod.fst).length > 1
    · rw [if_pos hlong] at hstored ⊢
      rw [List.length_map] at hlong
      generalize hpieces : chunks segmentWidth (turns segmentWidth level.length) level = pieces
      have hparents : parents (level.map Prod.fst) =
          pieces.map fun piece => Segment.concat (piece.map Prod.fst) := by
        unfold parents
        rw [List.length_map, chunks_map, List.map_map, hpieces]
        rfl
      generalize habove : (pieces.map fun piece =>
        ((Segment.concat (piece.map Prod.fst)).hash sha256, (piece.map Prod.snd).flatten)) = above
      have hhashes : (parents (level.map Prod.fst)).map (Segment.hash sha256) =
          above.map Prod.fst := by
        rw [hparents, ← habove, List.map_map, List.map_map]
        rfl
      have hjoined : (above.map Prod.snd).flatten = (level.map Prod.snd).flatten := by
        have hall : pieces.flatten = level := by
          rw [← hpieces]
          exact flatten_chunks_of_le (le_mul_turns (by decide) _)
        rw [← habove, ← hall, List.map_map, List.map_flatten, List.flatten_flatten, List.map_map]
        rfl
      have hlength : above.length = turns segmentWidth level.length := by
        rw [← habove, List.length_map, ← hpieces, length_chunks]
      have hshorter : turns segmentWidth level.length < level.length :=
        turns_lt (by decide) hlong
      rw [hhashes] at hstored ⊢
      rw [← hjoined]
      apply ih
      · have hpos := turns_pos (show 0 < segmentWidth by decide) (Nat.zero_lt_of_lt hlong)
        rw [← hlength] at hpos
        exact List.ne_nil_of_length_pos hpos
      · omega
      · intro c hc
        rw [← habove] at hc
        obtain ⟨piece, hpiece, rfl⟩ := List.mem_map.mp hc
        have hin : Segment.concat (piece.map Prod.fst) ∈ parents (level.map Prod.fst) := by
          rw [hparents]
          exact List.mem_map_of_mem hpiece
        obtain ⟨hentry, hsound⟩ := hstored _ (List.mem_append_left _ hin)
        rw [← hpieces] at hpiece
        exact restores_concat hshelf hload
          (fun below hbelow => hrestores below (mem_of_mem_chunks hpiece hbelow)) hentry hsound
      · exact fun segment hsegment => hstored segment (List.mem_append_right _ hsegment)
    · rw [if_neg hlong]
      rw [List.length_map] at hlong
      exact hsingle hne (by omega) hrestores

/-- A list packed is restored, its items in their order. -/
theorem restores_packItems {γ : Type} {value : γ → Reference} {item : γ → JsonValue} {l : List γ}
    (hrestores : ∀ c ∈ l, Restores sha256 load entries (value c) (item c))
    (hstored : ∀ segment ∈ (packItems sha256 (l.map value)).2,
      segment.entry sha256 ∈ entries ∧ segment.Sound) :
    Restores sha256 load entries (.stored (packItems sha256 (l.map value)).1)
      (.array (l.map item)) := by
  generalize hpieces : chunks segmentWidth (turns segmentWidth (max 1 l.length)) l = pieces
  have hleaves : leaves (l.map value) = pieces.map fun piece => Segment.array (piece.map value) := by
    unfold leaves
    rw [List.length_map, chunks_map, List.map_map, hpieces]
    rfl
  generalize hlevel : (pieces.map fun piece =>
    ((Segment.array (piece.map value)).hash sha256, piece.map item)) = level
  have hhashes : (leaves (l.map value)).map (Segment.hash sha256) = level.map Prod.fst := by
    rw [hleaves, ← hlevel, List.map_map, List.map_map]
    rfl
  have hjoined : (level.map Prod.snd).flatten = l.map item := by
    have hall : pieces.flatten = l := by
      rw [← hpieces]
      refine flatten_chunks_of_le (le_trans (le_max_right 1 _) (le_mul_turns (by decide) _))
    rw [← hlevel, ← hall, List.map_map, List.map_flatten]
    rfl
  have hne : level ≠ [] := by
    have hpos := turns_pos (show 0 < segmentWidth by decide)
      (show 0 < max 1 l.length by omega)
    have hlength : level.length = turns segmentWidth (max 1 l.length) := by
      rw [← hlevel, List.length_map, ← hpieces, length_chunks]
    rw [← hlength] at hpos
    exact List.ne_nil_of_length_pos hpos
  unfold packItems at hstored ⊢
  rw [hhashes] at hstored ⊢
  obtain ⟨hash, hlast, hrestored⟩ := restores_raise hshelf hload (level.map Prod.fst).length
    level hne (by rw [List.length_map]; omega)
    (by
      intro c hc
      rw [← hlevel] at hc
      obtain ⟨piece, hpiece, rfl⟩ := List.mem_map.mp hc
      have hin : Segment.array (piece.map value) ∈ leaves (l.map value) := by
        rw [hleaves]
        exact List.mem_map_of_mem hpiece
      obtain ⟨hentry, hsound⟩ := hstored _ (List.mem_append_left _ hin)
      rw [← hpieces] at hpiece
      exact restores_array hshelf hload
        (fun below hbelow => hrestores below (mem_of_mem_chunks hpiece hbelow)) hentry hsound)
    (fun segment hsegment => hstored segment (List.mem_append_right _ hsegment))
  rw [hjoined] at hrestored
  simp only [hlast, List.headD_cons]
  exact hrestored

end Step

end Regenic.Context.Artifacts
