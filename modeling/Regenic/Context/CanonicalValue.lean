import Regenic.Ingest.Content
import Regenic.Lib.Checked
import Regenic.Lib.JsMeaning

/-!
The canonical JSON text of a value and its digest. Two values have one text exactly when they
mean the same, and the text is read back as a value that means the same.
-/

namespace Regenic.Context.Canonical

open Lib Ingest
open JsValue (quote render closeItems closeMembers isUndefined tidy tidyItems tidyFields IsJson
  JsonItems JsonFields meaning)

/-- The message of a `TypeError`. -/
abbrev CanonicalError : Type := CodeUnits

/-- `texts.join(",")`. -/
def joinComma (texts : List (List Char)) : List Char := [','].intercalate texts

/-- `JSON.stringify(key)`, a colon and what the key holds. -/
def quoteMember (member : CodeUnits × Except CanonicalError (List Char)) :
    Except CanonicalError (List Char) := do
  let text ← member.2
  return quote member.1 ++ ':' :: text

mutual

def canonicalValue : JsValue → CodeUnits → Except CanonicalError (List Char)
  | .null, _ => .ok (render .null)
  | .bool value, _ => .ok (render (.bool value))
  | .string value, _ => .ok (quote value)
  | .number value, path => do
    throwUnless value.isFinite (utf16 "Non-finite number at " ++ path)
    return numberText value.unsigned
  | .array items, path => do
    let texts ← canonicalItems items path 0
    return '[' :: (joinComma texts ++ [']'])
  | .exotic, path => .error (utf16 "Unsupported object at " ++ path)
  | .object fields, path => do
    let texts ← (sortNamed Prod.fst (canonicalFields fields path)).mapM quoteMember
    return '\x7b' :: (joinComma texts ++ ['\x7d'])
  | .undefined, path => .error (utf16 "Unsupported value at " ++ path)
  | .primitive, path => .error (utf16 "Unsupported value at " ++ path)

def canonicalItems : List JsValue → CodeUnits → ℕ → Except CanonicalError (List (List Char))
  | [], _, _ => .ok []
  | item :: rest, path, index => do
    let text ← canonicalValue item (path ++ utf16 "[" ++ utf16 (Nat.repr index) ++ utf16 "]")
    let texts ← canonicalItems rest path (index + 1)
    return text :: texts

/-- The fields that are defined; the first error is that of the first name in order. -/
def canonicalFields : List (CodeUnits × JsValue) → CodeUnits →
    List (CodeUnits × Except CanonicalError (List Char))
  | [], _ => []
  | (name, item) :: rest, path =>
    if item.isUndefined then canonicalFields rest path
    else (name, canonicalValue item (path ++ utf16 "." ++ name)) :: canonicalFields rest path

end

def canonicalContextJson (value : JsValue) : Except CanonicalError String := do
  let text ← canonicalValue value (utf16 "$")
  return String.ofList text

variable (sha256 : Sha256)

def hashCanonicalContext (value : JsValue) : Except CanonicalError String := do
  let text ← canonicalContextJson value
  return sha256.hex (utf8Encode text)

/-! ## The text is that of the tidy value -/

theorem joinComma_items (items : List JsValue) :
    '[' :: (joinComma (items.map render) ++ [']']) = render (.array items) := by
  unfold joinComma
  cases items with
  | nil => rfl
  | cons item rest =>
    rw [render]
    congr 1
    induction rest generalizing item with
    | nil => simp [closeItems]
    | cons next rest ih =>
      rw [closeItems, ← ih next]
      simp [List.intercalate]

theorem joinComma_members (fields : List (CodeUnits × JsValue)) :
    '\x7b' :: (joinComma (fields.map fun field => quote field.1 ++ ':' :: render field.2) ++
      ['\x7d']) = render (.object fields) := by
  unfold joinComma
  cases fields with
  | nil => rfl
  | cons field rest =>
    obtain ⟨name, item⟩ := field
    rw [render]
    congr 1
    induction rest generalizing name item with
    | nil => simp [closeMembers]
    | cons next rest ih =>
      obtain ⟨name', item'⟩ := next
      rw [closeMembers, ← ih name' item']
      simp [List.intercalate]

mutual

/-- What is written of a JSON value is what its tidy value reads. -/
theorem canonicalValue_eq : ∀ (a : JsValue) (path : CodeUnits), IsJson a →
    canonicalValue a path = .ok (render (tidy a))
  | .undefined, _, h => h.elim
  | .null, _, _ => rfl
  | .bool _, _, _ => rfl
  | .number x, path, h => by
    have hx : x.isFinite = true := h
    rw [canonicalValue, hx, tidy, render]
    rfl
  | .string _, _, _ => rfl
  | .array items, path, h => by
    rw [canonicalValue, canonicalItems_eq items path 0 h, tidy, ← joinComma_items]
    rfl
  | .object fields, path, h => by
    have hsorted := @map_sortNamed _ Prod.fst _ Prod.fst
      (fun field : CodeUnits × JsValue =>
        (field.1, (Except.ok (render field.2) : Except CanonicalError (List Char))))
      (fun _ => rfl) (tidyFields fields)
    have htexts : ((sortNamed Prod.fst (tidyFields fields)).map fun field : CodeUnits × JsValue =>
        (field.1, Except.ok (render field.2))).mapM quoteMember = .ok
          ((sortNamed Prod.fst (tidyFields fields)).map fun field =>
            quote field.1 ++ ':' :: render field.2) := mapM_map_ok fun _ _ => rfl
    rw [canonicalValue, canonicalFields_eq fields path h.2, ← hsorted, htexts, tidy,
      ← joinComma_members]
    rfl
  | .exotic, _, h => h.elim
  | .primitive, _, h => h.elim

theorem canonicalItems_eq : ∀ (items : List JsValue) (path : CodeUnits) (index : ℕ),
    JsonItems items → canonicalItems items path index = .ok ((tidyItems items).map render)
  | [], _, _, _ => rfl
  | item :: rest, path, index, h => by
    rw [canonicalItems, canonicalValue_eq item _ h.1, canonicalItems_eq rest path _ h.2]
    rfl

theorem canonicalFields_eq : ∀ (fields : List (CodeUnits × JsValue)) (path : CodeUnits),
    JsonFields fields → canonicalFields fields path =
      (tidyFields fields).map fun field => (field.1, .ok (render field.2))
  | [], _, _ => rfl
  | (name, item) :: rest, path, h => by
    rw [canonicalFields, tidyFields]
    split
    · exact canonicalFields_eq rest path h.2
    · next hdefined =>
      rw [canonicalValue_eq item _ (h.1.resolve_left hdefined), canonicalFields_eq rest path h.2]
      rfl

end

theorem canonicalContextJson_eq {a : JsValue} (h : IsJson a) :
    canonicalContextJson a = .ok (String.ofList (render (tidy a))) := by
  rw [canonicalContextJson, canonicalValue_eq a _ h]
  rfl

/-- The text of a JSON value is read back as a value that means the same. -/
theorem canonicalContextJson_reads {a : JsValue} (h : IsJson a) :
    ∃ text back, canonicalContextJson a = .ok text ∧ JsValue.parse text = some back ∧
      meaning back = meaning a :=
  ⟨_, tidy a, canonicalContextJson_eq h, JsValue.parse_render (JsValue.plain_tidy a h),
    JsValue.meaning_tidy a h⟩

/-- JSON values have one text exactly when they mean the same. -/
theorem canonicalContextJson_eq_iff {a b : JsValue} (ha : IsJson a) (hb : IsJson b) :
    canonicalContextJson a = canonicalContextJson b ↔ meaning a = meaning b := by
  rw [canonicalContextJson_eq ha, canonicalContextJson_eq hb, ← JsValue.tidy_eq_iff ha hb]
  constructor
  · intro h
    have hread := JsValue.parse_render (JsValue.plain_tidy a ha)
    rw [Except.ok.inj h, JsValue.parse_render (JsValue.plain_tidy b hb)] at hread
    exact (Option.some.inj hread).symm
  · intro h
    rw [h]

theorem hashCanonicalContext_ok {a : JsValue} (h : IsJson a) :
    ∃ hash, hashCanonicalContext sha256 a = .ok hash := by
  unfold hashCanonicalContext
  rw [canonicalContextJson_eq h]
  exact ⟨_, rfl⟩

variable {sha256} in
/-- Where SHA-256 tells two texts apart, so do the digests of the values. -/
theorem hashCanonicalContext_eq_iff {a b : JsValue} (ha : IsJson a) (hb : IsJson b)
    (hinjective : ∀ text text', canonicalContextJson a = .ok text →
      canonicalContextJson b = .ok text' →
      sha256.hex (utf8Encode text) = sha256.hex (utf8Encode text') → text = text') :
    hashCanonicalContext sha256 a = hashCanonicalContext sha256 b ↔ meaning a = meaning b := by
  rw [← canonicalContextJson_eq_iff ha hb]
  have hleft := canonicalContextJson_eq ha
  have hright := canonicalContextJson_eq hb
  constructor
  · intro h
    unfold hashCanonicalContext at h
    rw [hleft, hright] at h
    rw [hleft, hright, hinjective _ _ hleft hright (Except.ok.inj h)]
  · intro h
    unfold hashCanonicalContext
    rw [h]

end Regenic.Context.Canonical
