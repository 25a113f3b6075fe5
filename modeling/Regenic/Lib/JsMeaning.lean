import Regenic.Lib.CanonicalJson
import Regenic.Lib.JsText

/-!
What a JSON value means. An object means a family of values over their names, so that neither
the order of its fields counts nor a field without a value; a number means what it is worth,
whatever the sign of zero. One value of every meaning is tidy, and what is written of it is read
back.
-/

namespace Regenic.Lib

inductive Meaning where
  | null
  | bool (value : Bool)
  | number (value : ℚ)
  | string (value : CodeUnits)
  | array (items : List (Option Meaning))
  | object (fields : CodeUnits → Option Meaning)

/-! ## The order of names -/

def codeUnitsLe (left right : CodeUnits) : Bool :=
  unitsLe (left.map UInt16.toNat) (right.map UInt16.toNat)

theorem codeUnitsLe_total (left right : CodeUnits) :
    codeUnitsLe left right = true ∨ codeUnitsLe right left = true := unitsLe_total _ _

theorem codeUnitsLe_trans {left mid right : CodeUnits} (h : codeUnitsLe left mid = true)
    (h' : codeUnitsLe mid right = true) : codeUnitsLe left right = true := unitsLe_trans h h'

theorem codeUnitsLe_antisymm {left right : CodeUnits} (h : codeUnitsLe left right = true)
    (h' : codeUnitsLe right left = true) : left = right :=
  List.map_injective_iff.mpr (fun _ _ => UInt16.toNat_inj.mp) (unitsLe_antisymm h h')

/-- `left <= right` of what `name` calls two elements. -/
def NamedLe {α : Type} (name : α → CodeUnits) (left right : α) : Prop :=
  codeUnitsLe (name left) (name right) = true

section Sorting

variable {α : Type} (name : α → CodeUnits)

instance : DecidableRel (NamedLe name) :=
  fun left right => inferInstanceAs (Decidable (codeUnitsLe (name left) (name right) = true))

instance : Std.Total (NamedLe name) := ⟨fun left right => codeUnitsLe_total (name left) (name right)⟩

instance : IsTrans α (NamedLe name) := ⟨fun _ _ _ => codeUnitsLe_trans⟩

/-- `Array.prototype.sort` by names. -/
def sortNamed (elements : List α) : List α := elements.insertionSort (NamedLe name)

variable {name}

theorem mem_sortNamed {elements : List α} {element : α} :
    element ∈ sortNamed name elements ↔ element ∈ elements := List.mem_insertionSort _

theorem perm_sortNamed (elements : List α) : (sortNamed name elements).Perm elements :=
  List.perm_insertionSort _ elements

/-- Elements of names that differ stand in one order only. -/
theorem sortNamed_eq_of_perm {left right : List α} (h : left.Perm right)
    (hinj : ∀ a ∈ left, ∀ b ∈ left, name a = name b → a = b) :
    sortNamed name left = sortNamed name right := by
  refine List.Perm.eq_of_pairwise ?_ (List.pairwise_insertionSort _ left)
    (List.pairwise_insertionSort _ right)
    ((perm_sortNamed left).trans (h.trans (perm_sortNamed right).symm))
  intro a b ha hb hle hge
  exact hinj a (mem_sortNamed.mp ha) b (h.mem_iff.mpr (mem_sortNamed.mp hb))
    (codeUnitsLe_antisymm hle hge)

/-- Sorting commutes with a map that keeps the names. -/
theorem map_sortNamed {β : Type} {name' : β → CodeUnits} (f : α → β)
    (hf : ∀ a, name' (f a) = name a) (elements : List α) :
    (sortNamed name elements).map f = sortNamed name' (elements.map f) := by
  refine List.map_insertionSort (NamedLe name) (NamedLe name') f elements ?_
  intro a _ b _
  unfold NamedLe
  rw [hf, hf]

end Sorting

namespace JsNumber

theorem rational?_unsigned (x : JsNumber) : x.unsigned.rational? = x.rational? := by
  cases x <;> rfl

theorem unsigned_unsigned (x : JsNumber) : x.unsigned.unsigned = x.unsigned := by
  cases x <;> rfl

theorem isFinite_unsigned {x : JsNumber} (h : x.isFinite = true) : x.unsigned.isFinite = true := by
  unfold isFinite
  rw [rational?_unsigned]
  exact h

/-- Numbers that are worth the same are the same, up to the sign of zero. -/
theorem unsigned_eq {x y : JsNumber} (hx : x.isFinite = true) (h : x.rational? = y.rational?) :
    x.unsigned = y.unsigned := by
  rw [← rational?_unsigned x, ← rational?_unsigned y] at h
  have hfinite : ∀ z : JsNumber, z.unsigned.rational?.isSome → ∃ d, z.unsigned = .finite d := by
    intro z hz
    cases z with
    | nan => cases hz
    | infinity negative => cases hz
    | negativeZero => exact ⟨.zero, rfl⟩
    | finite d => exact ⟨d, rfl⟩
  have hsome := isFinite_unsigned hx
  obtain ⟨d, hd⟩ := hfinite x hsome
  obtain ⟨d', hd'⟩ := hfinite y (h ▸ hsome)
  rw [hd, hd'] at h ⊢
  exact congrArg JsNumber.finite (Double.ext_value (Option.some.inj h))

end JsNumber

/-! ## Meanings -/

namespace JsValue

mutual

/-- A value that is undefined means none. -/
def meaning : JsValue → Option Meaning
  | .null => some .null
  | .bool value => some (.bool value)
  | .number x => x.rational?.map .number
  | .string s => some (.string s)
  | .array items => some (.array (itemMeanings items))
  | .object fields => some (.object (fieldMeanings fields))
  | _ => none

def itemMeanings : List JsValue → List (Option Meaning)
  | [] => []
  | item :: rest => meaning item :: itemMeanings rest

def fieldMeanings : List (CodeUnits × JsValue) → CodeUnits → Option Meaning
  | [] => fun _ => none
  | (name, item) :: rest => fun other =>
    if other = name then meaning item else fieldMeanings rest other

end

def isUndefined : JsValue → Bool
  | .undefined => true
  | _ => false

mutual

/-- A JSON value with finite numbers; the fields of its objects may be undefined. -/
def IsJson : JsValue → Prop
  | .null | .bool _ | .string _ => True
  | .number x => x.isFinite = true
  | .array items => JsonItems items
  | .object fields => (fields.map Prod.fst).Nodup ∧ JsonFields fields
  | _ => False

def JsonItems : List JsValue → Prop
  | [] => True
  | item :: rest => IsJson item ∧ JsonItems rest

def JsonFields : List (CodeUnits × JsValue) → Prop
  | [] => True
  | (_, item) :: rest => (item.isUndefined = true ∨ IsJson item) ∧ JsonFields rest

end

mutual

/-- No field undefined, every object in the order of its names, and no sign of zero. -/
def tidy : JsValue → JsValue
  | .number x => .number x.unsigned
  | .array items => .array (tidyItems items)
  | .object fields => .object (sortNamed Prod.fst (tidyFields fields))
  | value => value

def tidyItems : List JsValue → List JsValue
  | [] => []
  | item :: rest => tidy item :: tidyItems rest

def tidyFields : List (CodeUnits × JsValue) → List (CodeUnits × JsValue)
  | [] => []
  | (name, item) :: rest =>
    if item.isUndefined then tidyFields rest else (name, tidy item) :: tidyFields rest

end

theorem jsonFields_iff {fields : List (CodeUnits × JsValue)} :
    JsonFields fields ↔ ∀ field ∈ fields, field.2.isUndefined = true ∨ IsJson field.2 := by
  induction fields with
  | nil => exact ⟨fun _ _ h => absurd h List.not_mem_nil, fun _ => trivial⟩
  | cons field rest ih => rw [JsonFields, ih, List.forall_mem_cons]

theorem plainMembers_iff {fields : List (CodeUnits × JsValue)} :
    PlainMembers fields ↔ ∀ field ∈ fields, Plain field.2 := by
  induction fields with
  | nil => exact ⟨fun _ _ h => absurd h List.not_mem_nil, fun _ => trivial⟩
  | cons field rest ih => rw [PlainMembers, ih, List.forall_mem_cons]

theorem mem_tidyFields {fields : List (CodeUnits × JsValue)} {name : CodeUnits}
    {tidied : JsValue} : (name, tidied) ∈ tidyFields fields ↔
      ∃ item, (name, item) ∈ fields ∧ item.isUndefined = false ∧ tidied = tidy item := by
  induction fields with
  | nil => simp [tidyFields]
  | cons field rest ih =>
    obtain ⟨name', item'⟩ := field
    rw [tidyFields]
    cases hundefined : item'.isUndefined with
    | true =>
      rw [if_pos rfl, ih]
      constructor
      · rintro ⟨item, hmem, hitem⟩
        exact ⟨item, List.mem_cons_of_mem _ hmem, hitem⟩
      · rintro ⟨item, hmem, hdefined, htidied⟩
        rcases List.mem_cons.mp hmem with heq | hmem
        · cases heq
          rw [hundefined] at hdefined
          cases hdefined
        · exact ⟨item, hmem, hdefined, htidied⟩
    | false =>
      rw [if_neg (by decide), List.mem_cons, ih]
      constructor
      · rintro (heq | ⟨item, hmem, hitem⟩)
        · cases heq
          exact ⟨item', List.mem_cons_self, hundefined, rfl⟩
        · exact ⟨item, List.mem_cons_of_mem _ hmem, hitem⟩
      · rintro ⟨item, hmem, hdefined, htidied⟩
        rcases List.mem_cons.mp hmem with heq | hmem
        · cases heq
          exact .inl (by rw [htidied])
        · exact .inr ⟨item, hmem, hdefined, htidied⟩

theorem sublist_tidyFields (fields : List (CodeUnits × JsValue)) :
    ((tidyFields fields).map Prod.fst).Sublist (fields.map Prod.fst) := by
  induction fields with
  | nil => exact List.Sublist.slnil
  | cons field rest ih =>
    obtain ⟨name, item⟩ := field
    rw [tidyFields]
    split
    · exact ih.cons _
    · exact ih.cons_cons _

/-- The names of an object's fields still differ when it is tidy. -/
theorem nodup_tidyFields {fields : List (CodeUnits × JsValue)}
    (h : (fields.map Prod.fst).Nodup) : ((tidyFields fields).map Prod.fst).Nodup :=
  h.sublist (sublist_tidyFields fields)

theorem fieldMeanings_cons (name : CodeUnits) (item : JsValue) (rest : List (CodeUnits × JsValue))
    (other : CodeUnits) : fieldMeanings ((name, item) :: rest) other =
      if other = name then meaning item else fieldMeanings rest other := by
  rw [fieldMeanings]

theorem fieldMeanings_eq_some {fields : List (CodeUnits × JsValue)}
    (hnodup : (fields.map Prod.fst).Nodup) {name : CodeUnits} {m : Meaning} :
    fieldMeanings fields name = some m ↔
      ∃ item, (name, item) ∈ fields ∧ meaning item = some m := by
  induction fields with
  | nil => simp [fieldMeanings]
  | cons field rest ih =>
    obtain ⟨name', item'⟩ := field
    rw [List.map_cons, List.nodup_cons] at hnodup
    rw [fieldMeanings_cons]
    by_cases hname : name = name'
    · subst hname
      rw [if_pos rfl]
      constructor
      · exact fun hm => ⟨item', List.mem_cons_self, hm⟩
      · rintro ⟨item, hmem, hm⟩
        rcases List.mem_cons.mp hmem with heq | hmem
        · cases heq
          exact hm
        · exact absurd (List.mem_map_of_mem (f := Prod.fst) hmem) hnodup.1
    · rw [if_neg hname, ih hnodup.2]
      constructor
      · rintro ⟨item, hmem, hm⟩
        exact ⟨item, List.mem_cons_of_mem _ hmem, hm⟩
      · rintro ⟨item, hmem, hm⟩
        rcases List.mem_cons.mp hmem with heq | hmem
        · exact absurd (Prod.mk.inj heq).1 hname
        · exact ⟨item, hmem, hm⟩

/-- The value that a meaning is of. -/
theorem eq_of_meaning {a : JsValue} {m : Meaning} (h : meaning a = some m) :
    match m with
    | .null => a = .null
    | .bool value => a = .bool value
    | .number q => ∃ x : JsNumber, a = .number x ∧ x.rational? = some q
    | .string s => a = .string s
    | .array meanings => ∃ items, a = .array items ∧ itemMeanings items = meanings
    | .object meanings => ∃ fields, a = .object fields ∧ fieldMeanings fields = meanings := by
  cases a with
  | undefined => cases h
  | null =>
    cases h
    rfl
  | bool value =>
    cases h
    rfl
  | number x =>
    obtain ⟨q, hq, rfl⟩ := Option.map_eq_some_iff.mp h
    exact ⟨x, rfl, hq⟩
  | string s =>
    cases h
    rfl
  | array items =>
    cases h
    exact ⟨items, rfl, rfl⟩
  | object fields =>
    cases h
    exact ⟨fields, rfl, rfl⟩
  | exotic => cases h
  | primitive => cases h

/-- A JSON value means something. -/
theorem exists_meaning {a : JsValue} (h : IsJson a) : ∃ m, meaning a = some m := by
  cases a with
  | undefined => cases h
  | number x =>
    obtain ⟨q, hq⟩ := Option.isSome_iff_exists.mp h
    exact ⟨.number q, by rw [meaning, hq]; rfl⟩
  | exotic => cases h
  | primitive => cases h
  | _ => exact ⟨_, by rw [meaning]⟩

theorem isUndefined_of_isJson {a : JsValue} (h : IsJson a) : a.isUndefined = false := by
  cases a with
  | undefined => cases h
  | _ => rfl

/-- What means something is defined. -/
theorem isJson_of_meaning {a : JsValue} {m : Meaning} (h : a.isUndefined = true ∨ IsJson a)
    (hm : meaning a = some m) : IsJson a := by
  rcases h with hundefined | hjson
  · cases a with
    | undefined => cases hm
    | _ => cases hundefined
  · exact hjson

/-! ## Tidy values -/

mutual

theorem plain_tidy : ∀ a : JsValue, IsJson a → Plain (tidy a)
  | .undefined, h => h.elim
  | .null, _ => trivial
  | .bool _, _ => trivial
  | .number x, h => ⟨JsNumber.isFinite_unsigned h, JsNumber.unsigned_unsigned x⟩
  | .string _, _ => trivial
  | .array items, h => by
    rw [tidy]
    exact plain_tidyItems items h
  | .object fields, h => by
    have hmembers := plainMembers_iff.mp (plain_tidyFields fields h.2)
    rw [tidy, Plain, plainMembers_iff]
    constructor
    · exact ((perm_sortNamed _).map Prod.fst).nodup_iff.mpr (nodup_tidyFields h.1)
    · intro field hfield
      exact hmembers field (mem_sortNamed.mp hfield)
  | .exotic, h => h.elim
  | .primitive, h => h.elim

theorem plain_tidyItems : ∀ items : List JsValue, JsonItems items → PlainItems (tidyItems items)
  | [], _ => trivial
  | item :: rest, h => ⟨plain_tidy item h.1, plain_tidyItems rest h.2⟩

theorem plain_tidyFields : ∀ fields : List (CodeUnits × JsValue), JsonFields fields →
    PlainMembers (tidyFields fields)
  | [], _ => trivial
  | (name, item) :: rest, h => by
    rw [tidyFields]
    split
    · exact plain_tidyFields rest h.2
    · next hdefined =>
      exact ⟨plain_tidy item (h.1.resolve_left hdefined), plain_tidyFields rest h.2⟩

end

mutual

/-- To tidy a value changes nothing that counts. -/
theorem meaning_tidy : ∀ a : JsValue, IsJson a → meaning (tidy a) = meaning a
  | .undefined, _ => rfl
  | .null, _ => rfl
  | .bool _, _ => rfl
  | .number x, _ => by rw [tidy, meaning, meaning, JsNumber.rational?_unsigned]
  | .string _, _ => rfl
  | .array items, h => by rw [tidy, meaning, meaning, itemMeanings_tidyItems items h]
  | .object fields, h => by
    have hnames : ((sortNamed Prod.fst (tidyFields fields)).map Prod.fst).Nodup :=
      ((perm_sortNamed _).map Prod.fst).nodup_iff.mpr (nodup_tidyFields h.1)
    have hsame := meaning_tidyFields fields h.2
    rw [tidy, meaning, meaning]
    congr 2
    funext name
    apply Option.ext
    intro m
    rw [fieldMeanings_eq_some hnames, fieldMeanings_eq_some h.1]
    constructor
    · rintro ⟨tidied, hmem, hm⟩
      obtain ⟨item, hitem, hdefined, rfl⟩ := mem_tidyFields.mp (mem_sortNamed.mp hmem)
      exact ⟨item, hitem, by rw [← hsame _ hitem hdefined, hm]⟩
    · rintro ⟨item, hitem, hm⟩
      have hdefined := isUndefined_of_isJson (isJson_of_meaning (jsonFields_iff.mp h.2 _ hitem) hm)
      exact ⟨tidy item, mem_sortNamed.mpr (mem_tidyFields.mpr ⟨item, hitem, hdefined, rfl⟩),
        by rw [hsame _ hitem hdefined, hm]⟩
  | .exotic, _ => rfl
  | .primitive, _ => rfl

theorem itemMeanings_tidyItems : ∀ items : List JsValue, JsonItems items →
    itemMeanings (tidyItems items) = itemMeanings items
  | [], _ => rfl
  | item :: rest, h => by
    rw [tidyItems, itemMeanings, itemMeanings, meaning_tidy item h.1,
      itemMeanings_tidyItems rest h.2]

theorem meaning_tidyFields : ∀ fields : List (CodeUnits × JsValue), JsonFields fields →
    ∀ field ∈ fields, field.2.isUndefined = false → meaning (tidy field.2) = meaning field.2
  | [], _ => fun _ h => absurd h List.not_mem_nil
  | (name, item) :: rest, h => by
    intro field hfield hdefined
    rcases List.mem_cons.mp hfield with rfl | hmem
    · refine meaning_tidy item (h.1.resolve_left ?_)
      rw [hdefined]
      decide
    · exact meaning_tidyFields rest h.2 field hmem hdefined

end

/-- Every field of an object stands in another that means the same. -/
theorem tidyFields_subset {fields fields' : List (CodeUnits × JsValue)}
    (hjson : JsonFields fields) (hnodup : (fields.map Prod.fst).Nodup)
    (hjson' : JsonFields fields') (hnodup' : (fields'.map Prod.fst).Nodup)
    (hsame : fieldMeanings fields = fieldMeanings fields')
    (htidy : ∀ field ∈ fields, ∀ field' ∈ fields', IsJson field.2 → IsJson field'.2 →
      meaning field.2 = meaning field'.2 → tidy field.2 = tidy field'.2) :
    ∀ field ∈ tidyFields fields, field ∈ tidyFields fields' := by
  rintro ⟨name, tidied⟩ hmem
  obtain ⟨item, hitem, hdefined, rfl⟩ := mem_tidyFields.mp hmem
  have hitemJson : IsJson item := (jsonFields_iff.mp hjson _ hitem).resolve_left (by
    rw [hdefined]
    decide)
  obtain ⟨m, hm⟩ := exists_meaning hitemJson
  have hfound : fieldMeanings fields name = some m :=
    (fieldMeanings_eq_some hnodup).mpr ⟨item, hitem, hm⟩
  rw [hsame] at hfound
  obtain ⟨item', hitem', hm'⟩ := (fieldMeanings_eq_some hnodup').mp hfound
  have hitemJson' := isJson_of_meaning (jsonFields_iff.mp hjson' _ hitem') hm'
  rw [htidy _ hitem _ hitem' hitemJson hitemJson' (hm.trans hm'.symm)]
  exact mem_tidyFields.mpr ⟨item', hitem', isUndefined_of_isJson hitemJson', rfl⟩

mutual

/-- Values that mean the same are the same when they are tidy. -/
theorem tidy_eq : ∀ a : JsValue, IsJson a → ∀ b : JsValue, IsJson b → meaning a = meaning b →
    tidy a = tidy b
  | .undefined, h => h.elim
  | .null, _ => fun b _ h => by rw [eq_of_meaning h.symm]
  | .bool _, _ => fun b _ h => by rw [eq_of_meaning h.symm]
  | .number x, ha => fun b _ h => by
    obtain ⟨q, hq⟩ := Option.isSome_iff_exists.mp ha
    have hx : meaning (.number x) = some (.number q) := by rw [meaning, hq]; rfl
    obtain ⟨y, rfl, hy⟩ := eq_of_meaning (h.symm.trans hx)
    rw [tidy, tidy, JsNumber.unsigned_eq ha (hq.trans hy.symm)]
  | .string _, _ => fun b _ h => by rw [eq_of_meaning h.symm]
  | .array items, ha => fun b hb h => by
    obtain ⟨items', rfl, hitems⟩ := eq_of_meaning h.symm
    rw [tidy, tidy, tidyItems_eq items ha items' hb hitems.symm]
  | .object fields, ha => fun b hb h => by
    obtain ⟨fields', rfl, hfields⟩ := eq_of_meaning h.symm
    have hitems := tidyFields_eq fields ha.2
    have hsubset := tidyFields_subset ha.2 ha.1 hb.2 hb.1 hfields.symm
      fun field hfield field' _ hjson hjson' hm => hitems field hfield hjson _ hjson' hm
    have hsubset' := tidyFields_subset hb.2 hb.1 ha.2 ha.1 hfields
      fun field _ field' hfield' hjson hjson' hm =>
        (hitems field' hfield' hjson' _ hjson hm.symm).symm
    have hnodup := (nodup_tidyFields ha.1).of_map
    have hperm : (tidyFields fields).Perm (tidyFields fields') :=
      (List.perm_ext_iff_of_nodup hnodup (nodup_tidyFields hb.1).of_map).mpr
        fun field => ⟨hsubset field, hsubset' field⟩
    rw [tidy, tidy, sortNamed_eq_of_perm hperm fun field hfield field' hfield' hname =>
      List.inj_on_of_nodup_map (nodup_tidyFields ha.1) hfield hfield' hname]
  | .exotic, h => h.elim
  | .primitive, h => h.elim

theorem tidyItems_eq : ∀ items : List JsValue, JsonItems items → ∀ items' : List JsValue,
    JsonItems items' → itemMeanings items = itemMeanings items' → tidyItems items = tidyItems items'
  | [], _ => fun items' _ h => by
    cases items' with
    | nil => rfl
    | cons item' rest' => cases h
  | item :: rest, ha => fun items' hb h => by
    cases items' with
    | nil => cases h
    | cons item' rest' =>
      rw [itemMeanings, itemMeanings, List.cons.injEq] at h
      rw [tidyItems, tidyItems, tidy_eq item ha.1 item' hb.1 h.1,
        tidyItems_eq rest ha.2 rest' hb.2 h.2]

theorem tidyFields_eq : ∀ fields : List (CodeUnits × JsValue), JsonFields fields →
    ∀ field ∈ fields, IsJson field.2 → ∀ b, IsJson b → meaning field.2 = meaning b →
      tidy field.2 = tidy b
  | [], _ => fun _ h => absurd h List.not_mem_nil
  | (name, item) :: rest, h => by
    intro field hfield hjson b hb hm
    rcases List.mem_cons.mp hfield with rfl | hmem
    · exact tidy_eq item hjson b hb hm
    · exact tidyFields_eq rest h.2 field hmem hjson b hb hm

end

/-- Tidy values are the same exactly when they mean the same. -/
theorem tidy_eq_iff {a b : JsValue} (ha : IsJson a) (hb : IsJson b) :
    tidy a = tidy b ↔ meaning a = meaning b := by
  constructor
  · intro h
    rw [← meaning_tidy a ha, h, meaning_tidy b hb]
  · exact tidy_eq a ha b hb

/-! ## Records -/

/-- The fields of a record that are there. -/
def presentFields (fields : List (CodeUnits × Option JsValue)) : List (CodeUnits × JsValue) :=
  fields.filterMap fun field => field.2.map fun item => (field.1, item)

/-- An object of fields that may be missing. -/
def record (fields : List (CodeUnits × Option JsValue)) : JsValue := .object (presentFields fields)

theorem sublist_presentFields (fields : List (CodeUnits × Option JsValue)) :
    ((presentFields fields).map Prod.fst).Sublist (fields.map Prod.fst) := by
  induction fields with
  | nil => exact List.Sublist.slnil
  | cons field rest ih =>
    obtain ⟨name, value⟩ := field
    cases value with
    | none => exact ih.cons _
    | some item => exact ih.cons_cons _

/-- A field that is there holds a JSON value. -/
def HoldsJson (value : Option JsValue) : Prop := ∀ item ∈ value, IsJson item

theorem holdsJson_some {item : JsValue} (h : IsJson item) : HoldsJson (some item) := by
  rintro _ ⟨⟩
  exact h

theorem holdsJson_map {α : Type} {encode : α → JsValue} {value : Option α}
    (h : ∀ a ∈ value, IsJson (encode a)) : HoldsJson (value.map encode) := by
  intro item hitem
  obtain ⟨a, ha, rfl⟩ := Option.map_eq_some_iff.mp hitem
  exact h a ha

theorem isJson_record {fields : List (CodeUnits × Option JsValue)}
    (hnodup : (fields.map Prod.fst).Nodup) (h : (fields.map Prod.snd).Forall HoldsJson) :
    IsJson (record fields) := by
  refine ⟨hnodup.sublist (sublist_presentFields fields), jsonFields_iff.mpr ?_⟩
  intro member hmember
  obtain ⟨field, hfield, hitem⟩ := List.mem_filterMap.mp hmember
  obtain ⟨item, hvalue, rfl⟩ := Option.map_eq_some_iff.mp hitem
  exact .inr (List.forall_iff_forall_mem.mp h field.2 (List.mem_map_of_mem hfield) item hvalue)

/-- No field of a record has a name that the record does not know. -/
theorem fieldMeanings_unknown {fields : List (CodeUnits × Option JsValue)} {name : CodeUnits}
    (h : name ∉ fields.map Prod.fst) : fieldMeanings (presentFields fields) name = none := by
  induction fields with
  | nil => rfl
  | cons field rest ih =>
    obtain ⟨other, value⟩ := field
    rw [List.map_cons, List.mem_cons, not_or] at h
    cases value with
    | none => exact ih h.2
    | some item =>
      have hread := fieldMeanings_cons other item (presentFields rest) name
      rw [if_neg h.1, ih h.2] at hread
      exact hread

theorem fieldMeanings_known {rest : List (CodeUnits × Option JsValue)} {name : CodeUnits}
    (h : name ∉ rest.map Prod.fst) (value : Option JsValue) (other : CodeUnits) :
    fieldMeanings (presentFields ((name, value) :: rest)) other =
      if other = name then value.bind meaning else fieldMeanings (presentFields rest) other := by
  cases value with
  | none =>
    change fieldMeanings (presentFields rest) other = _
    split
    · next heq =>
      rw [heq, fieldMeanings_unknown h]
      rfl
    · rfl
  | some item => exact fieldMeanings_cons name item (presentFields rest) other

/-- Records of the same names mean the same exactly when their fields do. -/
theorem meaning_record_iff {fields fields' : List (CodeUnits × Option JsValue)}
    (hnames : fields.map Prod.fst = fields'.map Prod.fst) (hnodup : (fields.map Prod.fst).Nodup) :
    meaning (record fields) = meaning (record fields') ↔
      (fields.map fun field => field.2.bind meaning) =
        fields'.map fun field => field.2.bind meaning := by
  have hobject : meaning (record fields) = meaning (record fields') ↔
      fieldMeanings (presentFields fields) = fieldMeanings (presentFields fields') := by
    rw [record, record, meaning, meaning, Option.some.injEq, Meaning.object.injEq]
  rw [hobject]
  clear hobject
  induction fields generalizing fields' with
  | nil =>
    cases fields' with
    | nil => exact ⟨fun _ => rfl, fun _ => rfl⟩
    | cons field' rest' => cases hnames
  | cons field rest ih =>
    cases fields' with
    | nil => cases hnames
    | cons field' rest' =>
      obtain ⟨name, value⟩ := field
      obtain ⟨name', value'⟩ := field'
      rw [List.map_cons, List.map_cons, List.cons.injEq] at hnames
      obtain ⟨rfl, hrest⟩ : name = name' ∧ rest.map Prod.fst = rest'.map Prod.fst := hnames
      rw [List.map_cons, List.nodup_cons] at hnodup
      have hfresh' : name ∉ rest'.map Prod.fst := hrest ▸ hnodup.1
      have htail := ih hrest hnodup.2
      rw [List.map_cons, List.map_cons, List.cons.injEq]
      constructor
      · intro h
        refine ⟨?_, htail.mp ?_⟩
        · have hat := congrFun h name
          rw [fieldMeanings_known hnodup.1, fieldMeanings_known hfresh', if_pos rfl,
            if_pos rfl] at hat
          exact hat
        · funext other
          by_cases hother : other = name
          · rw [hother, fieldMeanings_unknown hnodup.1, fieldMeanings_unknown hfresh']
          · have hat := congrFun h other
            rw [fieldMeanings_known hnodup.1, fieldMeanings_known hfresh', if_neg hother,
              if_neg hother] at hat
            exact hat
      · rintro ⟨hvalue, hvalues⟩
        have hmeanings := htail.mpr hvalues
        funext other
        rw [fieldMeanings_known hnodup.1, fieldMeanings_known hfresh', hvalue, hmeanings]

/-! ## Fields -/

theorem meaning_string_iff {s s' : CodeUnits} :
    meaning (.string s) = meaning (.string s') ↔ s = s' := by
  rw [meaning, meaning, Option.some.injEq, Meaning.string.injEq]

theorem itemMeanings_eq (items : List JsValue) : itemMeanings items = items.map meaning := by
  induction items with
  | nil => rfl
  | cons item rest ih => rw [itemMeanings, ih, List.map_cons]

/-- Arrays of encoded elements mean the same exactly when the elements are the same. -/
theorem meaning_array_iff {α : Type} {encode : α → JsValue} {l l' : List α}
    (hencode : ∀ a b, meaning (encode a) = meaning (encode b) ↔ a = b) :
    meaning (.array (l.map encode)) = meaning (.array (l'.map encode)) ↔ l = l' := by
  have hinjective : Function.Injective (meaning ∘ encode) := fun a b h => (hencode a b).mp h
  rw [meaning, meaning, Option.some.injEq, Meaning.array.injEq, itemMeanings_eq, itemMeanings_eq,
    List.map_map, List.map_map, (List.map_injective_iff.mpr hinjective).eq_iff]

/-- A field that may be missing tells whether it is there, and what it holds. -/
theorem meaning_option_iff {α : Type} {encode : α → JsValue} {Same : α → α → Prop}
    {value value' : Option α}
    (hencode : ∀ a ∈ value, ∀ b ∈ value', meaning (encode a) = meaning (encode b) ↔ Same a b)
    (hjson : HoldsJson (value.map encode)) (hjson' : HoldsJson (value'.map encode)) :
    (value.map encode).bind meaning = (value'.map encode).bind meaning ↔
      Option.Rel Same value value' := by
  cases value with
  | none =>
    cases value' with
    | none => exact ⟨fun _ => .none, fun _ => rfl⟩
    | some b =>
      obtain ⟨m, hm⟩ := exists_meaning (hjson' (encode b) rfl)
      constructor
      · intro h
        rw [Option.map_some, Option.bind_some, hm] at h
        cases h
      · exact nofun
  | some a =>
    cases value' with
    | none =>
      obtain ⟨m, hm⟩ := exists_meaning (hjson (encode a) rfl)
      constructor
      · intro h
        rw [Option.map_some, Option.bind_some, hm] at h
        cases h
      · exact nofun
    | some b =>
      rw [Option.map_some, Option.map_some, Option.bind_some, Option.bind_some,
        hencode a rfl b rfl, Option.rel_some_some]

end JsValue

end Regenic.Lib
