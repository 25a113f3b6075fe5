import Mathlib.Data.List.Sort
import Regenic.Lib.JsonText
import Regenic.Lib.Utf16

/-!
Canonical JSON text: the fields of every object in the order of their names, which is that of
their code units. Values have one canonical text exactly when they are the same up to the order
of their fields; a record, of fields that may be missing, is known field by field from it.
-/

namespace Regenic.Lib

/-! ## The order of strings -/

/-- `left <= right` of the code units of two strings. -/
def unitsLe : List ℕ → List ℕ → Bool
  | [], _ => true
  | _ :: _, [] => false
  | a :: left, b :: right => a < b || (a = b && unitsLe left right)

theorem unitsLe_total (left right : List ℕ) :
    unitsLe left right = true ∨ unitsLe right left = true := by
  induction left generalizing right with
  | nil => exact .inl rfl
  | cons a left ih =>
    cases right with
    | nil => exact .inr rfl
    | cons b right =>
      simp only [unitsLe, Bool.or_eq_true, Bool.and_eq_true, decide_eq_true_eq]
      rcases Nat.lt_trichotomy a b with hlt | rfl | hgt
      · exact .inl (.inl hlt)
      · exact (ih right).imp (fun h => .inr ⟨rfl, h⟩) fun h => .inr ⟨rfl, h⟩
      · exact .inr (.inl hgt)

theorem unitsLe_trans {left mid right : List ℕ} (h : unitsLe left mid = true)
    (h' : unitsLe mid right = true) : unitsLe left right = true := by
  induction left generalizing mid right with
  | nil => rfl
  | cons a left ih =>
    cases mid with
    | nil => cases h
    | cons b mid =>
      cases right with
      | nil => cases h'
      | cons c right =>
        simp only [unitsLe, Bool.or_eq_true, Bool.and_eq_true, decide_eq_true_eq] at h h' ⊢
        rcases h with h | ⟨rfl, h⟩
        · rcases h' with h' | ⟨rfl, h'⟩ <;> omega
        · rcases h' with h' | ⟨rfl, h'⟩
          · exact .inl h'
          · exact .inr ⟨rfl, ih h h'⟩

theorem unitsLe_antisymm {left right : List ℕ} (h : unitsLe left right = true)
    (h' : unitsLe right left = true) : left = right := by
  induction left generalizing right with
  | nil =>
    cases right with
    | nil => rfl
    | cons b right => cases h'
  | cons a left ih =>
    cases right with
    | nil => cases h
    | cons b right =>
      simp only [unitsLe, Bool.or_eq_true, Bool.and_eq_true, decide_eq_true_eq] at h h'
      rcases h with h | ⟨rfl, h⟩
      · omega
      · rcases h' with h' | ⟨-, h'⟩
        · omega
        · rw [ih h h']

/-- `left <= right` of two strings. -/
def stringLe (left right : String) : Bool := unitsLe (codeUnits left) (codeUnits right)

/-- `Array.prototype.sort` of strings. -/
def sortStrings (values : List String) : List String :=
  values.insertionSort fun left right => stringLe left right = true

theorem sortStrings_perm (values : List String) : (sortStrings values).Perm values :=
  List.perm_insertionSort _ values

/-- The order in which strings stand does not matter. -/
theorem sortStrings_eq_of_perm {values values' : List String} (h : values.Perm values') :
    sortStrings values = sortStrings values' := by
  have htotal : Std.Total fun left right : String => stringLe left right = true :=
    ⟨fun left right => unitsLe_total (codeUnits left) (codeUnits right)⟩
  have htrans : IsTrans String fun left right => stringLe left right = true :=
    ⟨fun _ _ _ => unitsLe_trans⟩
  refine List.Perm.eq_of_pairwise ?_ (List.pairwise_insertionSort _ values)
    (List.pairwise_insertionSort _ values')
    ((sortStrings_perm values).trans (h.trans (sortStrings_perm values').symm))
  intro left right _ _ hle hge
  exact codeUnits_injective (unitsLe_antisymm hle hge)

namespace Json

def nameLe (left right : String × JsonValue) : Prop := stringLe left.1 right.1 = true

instance : DecidableRel nameLe :=
  fun left right => inferInstanceAs (Decidable (stringLe left.1 right.1 = true))

instance : Std.Total nameLe := ⟨fun left right => unitsLe_total (codeUnits left.1) (codeUnits right.1)⟩

instance : IsTrans (String × JsonValue) nameLe := ⟨fun _ _ _ => unitsLe_trans⟩

mutual

/-- The fields of every object in the order of their names. -/
def sortKeys : JsonValue → JsonValue
  | .array items => .array (sortItems items)
  | .object fields => .object ((sortMembers fields).insertionSort nameLe)
  | value => value

def sortItems : List JsonValue → List JsonValue
  | [] => []
  | item :: rest => sortKeys item :: sortItems rest

def sortMembers : List (String × JsonValue) → List (String × JsonValue)
  | [] => []
  | (name, item) :: rest => (name, sortKeys item) :: sortMembers rest

end

/-- The text of a value with its fields in order. -/
def canonical (value : JsonValue) : String := stringify (sortKeys value)

theorem sortItems_eq (items : List JsonValue) : sortItems items = items.map sortKeys := by
  induction items with
  | nil => rfl
  | cons item rest ih => rw [sortItems, ih, List.map_cons]

theorem sortMembers_eq (fields : List (String × JsonValue)) :
    sortMembers fields = fields.map fun field => (field.1, sortKeys field.2) := by
  induction fields with
  | nil => rfl
  | cons field rest ih => rw [sortMembers, ih, List.map_cons]

/-- Putting fields in order and ordering what they hold are independent. -/
theorem sortMembers_insertionSort (fields : List (String × JsonValue)) :
    sortMembers (fields.insertionSort nameLe) = (sortMembers fields).insertionSort nameLe := by
  rw [sortMembers_eq, sortMembers_eq]
  exact List.map_insertionSort nameLe nameLe _ fields fun _ _ _ _ => Iff.rfl

theorem sorted_sorted (fields : List (String × JsonValue)) :
    (fields.insertionSort nameLe).insertionSort nameLe = fields.insertionSort nameLe :=
  (List.pairwise_insertionSort nameLe fields).insertionSort_eq

mutual

/-- What is in order stays as it is. -/
theorem sortKeys_sortKeys : ∀ item : JsonValue, sortKeys (sortKeys item) = sortKeys item
  | .null => rfl
  | .bool _ => rfl
  | .number _ => rfl
  | .string _ => rfl
  | .array items => by
    rw [sortKeys, sortKeys, sortItems_sortItems items]
  | .object fields => by
    rw [sortKeys, sortKeys, sortMembers_insertionSort, sortMembers_sortMembers fields,
      sorted_sorted]

theorem sortItems_sortItems : ∀ items : List JsonValue, sortItems (sortItems items) = sortItems items
  | [] => rfl
  | item :: rest => by
    rw [sortItems, sortItems, sortKeys_sortKeys item, sortItems_sortItems rest]

theorem sortMembers_sortMembers : ∀ fields : List (String × JsonValue),
    sortMembers (sortMembers fields) = sortMembers fields
  | [] => rfl
  | (name, item) :: rest => by
    rw [sortMembers, sortMembers, sortKeys_sortKeys item, sortMembers_sortMembers rest]

end

theorem printableMembers_iff {fields : List (String × JsonValue)} :
    PrintableMembers fields ↔ ∀ field ∈ fields, Printable field.2 := by
  induction fields with
  | nil => exact ⟨fun _ _ h => absurd h List.not_mem_nil, fun _ => trivial⟩
  | cons field rest ih => rw [PrintableMembers, ih, List.forall_mem_cons]

theorem printableItems_iff {items : List JsonValue} :
    PrintableItems items ↔ ∀ item ∈ items, Printable item := by
  induction items with
  | nil => exact ⟨fun _ _ h => absurd h List.not_mem_nil, fun _ => trivial⟩
  | cons item rest ih => rw [PrintableItems, ih, List.forall_mem_cons]

mutual

theorem printable_sortKeys : ∀ item : JsonValue, Printable item → Printable (sortKeys item)
  | .null, _ => trivial
  | .bool _, _ => trivial
  | .number _, h => h
  | .string _, _ => trivial
  | .array items, h => by
    rw [sortKeys]
    exact printable_sortItems items h
  | .object fields, h => by
    have hmembers := printableMembers_iff.mp (printable_sortMembers fields h)
    rw [sortKeys, Printable, printableMembers_iff]
    intro field hfield
    exact hmembers field ((List.mem_insertionSort nameLe).mp hfield)

theorem printable_sortItems : ∀ items : List JsonValue, PrintableItems items →
    PrintableItems (sortItems items)
  | [], _ => trivial
  | item :: rest, h => ⟨printable_sortKeys item h.1, printable_sortItems rest h.2⟩

theorem printable_sortMembers : ∀ fields : List (String × JsonValue), PrintableMembers fields →
    PrintableMembers (sortMembers fields)
  | [], _ => trivial
  | (_, item) :: rest, h => ⟨printable_sortKeys item h.1, printable_sortMembers rest h.2⟩

end

/-- The canonical text reads back as the value with its fields in order. -/
theorem parse_canonical {item : JsonValue} (h : Printable item) :
    parse (canonical item) = some (sortKeys item) :=
  parse_stringify _ (printable_sortKeys item h)

/-- Values of one canonical text are the same up to the order of their fields. -/
theorem canonical_eq_iff {left right : JsonValue} (h : Printable left) (h' : Printable right) :
    canonical left = canonical right ↔ sortKeys left = sortKeys right := by
  constructor
  · intro htext
    have hparsed := parse_canonical h
    rw [htext, parse_canonical h'] at hparsed
    exact (Option.some.inj hparsed).symm
  · intro hsorted
    rw [canonical, canonical, hsorted]

/-! ## Records -/

/-- The fields of a record that are there. -/
def presentFields (fields : List (String × Option JsonValue)) : List (String × JsonValue) :=
  fields.filterMap fun field => field.2.map fun item => (field.1, item)

/-- An object of fields that may be missing. -/
def record (fields : List (String × Option JsonValue)) : JsonValue :=
  .object (presentFields fields)

theorem mem_presentFields_iff {fields : List (String × Option JsonValue)} {name : String}
    {item : JsonValue} : (name, item) ∈ presentFields fields ↔ (name, some item) ∈ fields := by
  unfold presentFields
  rw [List.mem_filterMap]
  constructor
  · rintro ⟨⟨_, value⟩, hfield, hitem⟩
    obtain ⟨found, rfl, hpair⟩ := Option.map_eq_some_iff.mp hitem
    obtain ⟨rfl, rfl⟩ := Prod.mk.inj hpair
    exact hfield
  · exact fun hfield => ⟨(name, some item), hfield, rfl⟩

theorem mem_presentFields {fields : List (String × Option JsonValue)}
    (hnodup : (fields.map Prod.fst).Nodup) {i : Nat} (hi : i < fields.length)
    {item : JsonValue} :
    (fields[i].1, item) ∈ presentFields fields ↔ fields[i].2 = some item := by
  unfold presentFields
  rw [List.mem_filterMap]
  constructor
  · rintro ⟨field, hfield, hitem⟩
    obtain ⟨value, hvalue, hpair⟩ := Option.map_eq_some_iff.mp hitem
    obtain ⟨hname, rfl⟩ := Prod.mk.inj hpair
    have hsame := List.inj_on_of_nodup_map hnodup hfield (List.getElem_mem hi) hname
    rw [← hsame, hvalue]
  · intro hitem
    exact ⟨fields[i], List.getElem_mem hi, by rw [hitem]; rfl⟩

/-- The values of the fields with what they hold in order. -/
def sortValues (fields : List (String × Option JsonValue)) : List (String × Option JsonValue) :=
  fields.map fun field => (field.1, field.2.map sortKeys)

theorem sortMembers_presentFields (fields : List (String × Option JsonValue)) :
    sortMembers (presentFields fields) = presentFields (sortValues fields) := by
  unfold presentFields sortValues
  rw [sortMembers_eq, List.map_filterMap, List.filterMap_map]
  congr 1
  funext field
  simp only [Function.comp_apply, Option.map_map]
  rfl

/-- A record with its fields in order. -/
theorem sortKeys_record (fields : List (String × Option JsonValue)) :
    sortKeys (record fields) =
      .object ((presentFields (sortValues fields)).insertionSort nameLe) := by
  rw [← sortMembers_presentFields]
  rfl

theorem printable_record {fields : List (String × Option JsonValue)}
    (h : ∀ field ∈ fields, ∀ item ∈ field.2, Printable item) : Printable (record fields) := by
  unfold record presentFields
  rw [Printable, printableMembers_iff]
  intro member hmember
  obtain ⟨field, hfield, hitem⟩ := List.mem_filterMap.mp hmember
  obtain ⟨item, hvalue, rfl⟩ := Option.map_eq_some_iff.mp hitem
  exact h field hfield item hvalue

theorem names_sortValues (fields : List (String × Option JsonValue)) :
    (sortValues fields).map Prod.fst = fields.map Prod.fst := by
  unfold sortValues
  rw [List.map_map]
  rfl

/-- Records of the same names are the same up to the order of fields exactly when their fields
are. -/
theorem sortKeys_record_iff {fields fields' : List (String × Option JsonValue)}
    (hnames : fields.map Prod.fst = fields'.map Prod.fst) (hnodup : (fields.map Prod.fst).Nodup) :
    sortKeys (record fields) = sortKeys (record fields') ↔
      sortValues fields = sortValues fields' := by
  rw [sortKeys_record, sortKeys_record]
  constructor
  · intro hsorted
    have hlists := JsonValue.object.inj hsorted
    have hmem : ∀ member, member ∈ presentFields (sortValues fields) ↔
        member ∈ presentFields (sortValues fields') := by
      intro member
      rw [← List.mem_insertionSort nameLe, hlists, List.mem_insertionSort nameLe]
    have hnames' : (sortValues fields).map Prod.fst = (sortValues fields').map Prod.fst := by
      rw [names_sortValues, names_sortValues, hnames]
    have hlength : (sortValues fields).length = (sortValues fields').length := by
      simpa using congrArg List.length hnames'
    apply List.ext_getElem hlength
    intro i hi hi'
    have hname : (sortValues fields)[i].1 = (sortValues fields')[i].1 := by
      have hat := congrArg (fun names => names[i]?) hnames'
      simpa [hi, hi'] using hat
    apply Prod.ext hname
    apply Option.ext
    intro item
    rw [← mem_presentFields (by rw [names_sortValues]; exact hnodup) hi, hmem, hname,
      mem_presentFields (by rw [names_sortValues, ← hnames]; exact hnodup) hi']
  · intro hvalues
    rw [hvalues]

end Json

end Regenic.Lib
