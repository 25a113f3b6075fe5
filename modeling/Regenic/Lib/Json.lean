import Mathlib.Data.List.Basic

/-!
JSON text: the parser of `JSON.parse` over code points, and `JSON.stringify` of a list of
flat records of strings, which the parser reads back. A lone surrogate escape reads as the
replacement character, as its UTF-8 bytes would.
-/

namespace Regenic.Lib

/-- A number keeps its text. -/
inductive JsonValue where
  | null
  | bool (value : Bool)
  | number (text : String)
  | string (value : String)
  | array (items : List JsonValue)
  | object (fields : List (String × JsonValue))

namespace Json

def isSpace (c : Char) : Bool := c = ' ' || c = '\t' || c = '\n' || c = '\r'

def skipSpace (cs : List Char) : List Char := cs.dropWhile isSpace

def hexDigit? (c : Char) : Option Nat :=
  let n := c.toNat
  if 0x30 ≤ n ∧ n ≤ 0x39 then some (n - 0x30)
  else if 0x61 ≤ n ∧ n ≤ 0x66 then some (n - 0x61 + 10)
  else if 0x41 ≤ n ∧ n ≤ 0x46 then some (n - 0x41 + 10)
  else none

/-- The code unit of a one-letter escape. -/
def escapeUnit? (c : Char) : Option Nat :=
  if c = '"' ∨ c = '\\' ∨ c = '/' then some c.toNat
  else if c = 'b' then some 8
  else if c = 'f' then some 12
  else if c = 'n' then some 10
  else if c = 'r' then some 13
  else if c = 't' then some 9
  else none

/-- The code units of a string literal after its opening quote. -/
def stringUnits : List Char → Option (List Nat × List Char)
  | [] => none
  | c :: rest =>
    if c = '"' then some ([], rest)
    else if c = '\\' then
      match rest with
      | [] => none
      | e :: rest =>
        if e = 'u' then
          match rest with
          | h1 :: h2 :: h3 :: h4 :: rest => do
            let d1 ← hexDigit? h1
            let d2 ← hexDigit? h2
            let d3 ← hexDigit? h3
            let d4 ← hexDigit? h4
            let (units, rest) ← stringUnits rest
            some ((((d1 * 16 + d2) * 16 + d3) * 16 + d4) :: units, rest)
          | _ => none
        else do
          let unit ← escapeUnit? e
          let (units, rest) ← stringUnits rest
          some (unit :: units, rest)
    else if c.toNat < 0x20 then none
    else do
      let (units, rest) ← stringUnits rest
      some (c.toNat :: units, rest)
termination_by structural cs => cs

def isHighSurrogate (n : Nat) : Bool := 0xD800 ≤ n && n ≤ 0xDBFF

def isLowSurrogate (n : Nat) : Bool := 0xDC00 ≤ n && n ≤ 0xDFFF

def unitChar (n : Nat) : Char :=
  if isHighSurrogate n || isLowSurrogate n then Char.ofNat 0xFFFD else Char.ofNat n

/-- Surrogate pairs become one character. -/
def unitChars : List Nat → List Char
  | [] => []
  | [n] => [unitChar n]
  | high :: low :: rest =>
    if isHighSurrogate high && isLowSurrogate low then
      Char.ofNat (0x10000 + (high - 0xD800) * 0x400 + (low - 0xDC00)) :: unitChars rest
    else unitChar high :: unitChars (low :: rest)

def stringLiteral (cs : List Char) : Option (String × List Char) :=
  (stringUnits cs).map fun (units, rest) => (String.ofList (unitChars units), rest)

def digits (cs : List Char) : List Char × List Char := cs.span Char.isDigit

/-- `int` of the grammar: no leading zero. -/
def integerPart (cs : List Char) : Option (List Char × List Char) :=
  match digits cs with
  | ([], _) => none
  | ('0' :: [], rest) => some (['0'], rest)
  | ('0' :: _, _) => none
  | found => some found

def fractionPart : List Char → Option (List Char × List Char)
  | '.' :: rest =>
    match digits rest with
    | ([], _) => none
    | (found, rest) => some ('.' :: found, rest)
  | rest => some ([], rest)

def exponentSign : List Char → List Char × List Char
  | '+' :: rest => (['+'], rest)
  | '-' :: rest => (['-'], rest)
  | rest => ([], rest)

def exponentPart : List Char → Option (List Char × List Char)
  | c :: rest =>
    if c = 'e' ∨ c = 'E' then
      let (sign, rest) := exponentSign rest
      match digits rest with
      | ([], _) => none
      | (found, rest) => some (c :: sign ++ found, rest)
    else some ([], c :: rest)
  | [] => some ([], [])

def minusPart : List Char → List Char × List Char
  | '-' :: rest => (['-'], rest)
  | rest => ([], rest)

def number (cs : List Char) : Option (JsonValue × List Char) := do
  let (sign, rest) := minusPart cs
  let (whole, rest) ← integerPart rest
  let (fraction, rest) ← fractionPart rest
  let (exponent, rest) ← exponentPart rest
  some (.number (String.ofList (sign ++ whole ++ fraction ++ exponent)), rest)

mutual

/-- The fuel counts nested calls; `parse` gives two for each character, and a call that
does not take one is followed by a call that does. -/
def value : Nat → List Char → Option (JsonValue × List Char)
  | 0, _ => none
  | fuel + 1, cs =>
    match skipSpace cs with
    | [] => none
    | c :: rest =>
      if c = '"' then (stringLiteral rest).map fun (s, rest) => (.string s, rest)
      else if c = '[' then
        match skipSpace rest with
        | ']' :: rest => some (.array [], rest)
        | _ => (items fuel rest).map fun (found, rest) => (.array found, rest)
      else if c = '{' then
        match skipSpace rest with
        | '}' :: rest => some (.object [], rest)
        | _ => (fields fuel rest).map fun (found, rest) => (.object found, rest)
      else
        match c :: rest with
        | 't' :: 'r' :: 'u' :: 'e' :: rest => some (.bool true, rest)
        | 'f' :: 'a' :: 'l' :: 's' :: 'e' :: rest => some (.bool false, rest)
        | 'n' :: 'u' :: 'l' :: 'l' :: rest => some (.null, rest)
        | cs => number cs

def items : Nat → List Char → Option (List JsonValue × List Char)
  | 0, _ => none
  | fuel + 1, cs => do
    let (item, rest) ← value fuel cs
    match skipSpace rest with
    | ',' :: rest => (items fuel rest).map fun (found, rest) => (item :: found, rest)
    | ']' :: rest => some ([item], rest)
    | _ => none

def fields : Nat → List Char → Option (List (String × JsonValue) × List Char)
  | 0, _ => none
  | fuel + 1, cs =>
    match skipSpace cs with
    | '"' :: rest => do
      let (name, rest) ← stringLiteral rest
      match skipSpace rest with
      | ':' :: rest => do
        let (item, rest) ← value fuel rest
        match skipSpace rest with
        | ',' :: rest => (fields fuel rest).map fun (found, rest) => ((name, item) :: found, rest)
        | '}' :: rest => some ([(name, item)], rest)
        | _ => none
      | _ => none
    | _ => none

end

/-- `JSON.parse`; none when it throws. -/
def parse (text : String) : Option JsonValue :=
  match value (2 * text.toList.length + 2) text.toList with
  | some (found, rest) => if skipSpace rest = [] then some found else none
  | none => none

/-! ## `JSON.stringify` of records of strings -/

def hexChar (n : Nat) : Char :=
  if n < 10 then Char.ofNat (0x30 + n) else Char.ofNat (0x61 + (n - 10))

def quoteChar (c : Char) : List Char :=
  if c = '"' then ['\\', '"']
  else if c = '\\' then ['\\', '\\']
  else if c.toNat = 8 then ['\\', 'b']
  else if c.toNat = 12 then ['\\', 'f']
  else if c.toNat = 10 then ['\\', 'n']
  else if c.toNat = 13 then ['\\', 'r']
  else if c.toNat = 9 then ['\\', 't']
  else if c.toNat < 0x20 then ['\\', 'u', '0', '0', hexChar (c.toNat / 16), hexChar (c.toNat % 16)]
  else [c]

def quote (s : String) : List Char := '"' :: s.toList.flatMap quoteChar ++ ['"']

def quoteField (field : String × String) : List Char := quote field.1 ++ ':' :: quote field.2

/-- The fields of a record after its opening brace, the closing brace included. -/
def closeFields : List (String × String) → List Char
  | [] => ['}']
  | [field] => quoteField field ++ ['}']
  | field :: rest => quoteField field ++ ',' :: closeFields rest

def quoteRecord (record : List (String × String)) : List Char := '{' :: closeFields record

def closeRecords : List (List (String × String)) → List Char
  | [] => [']']
  | [record] => quoteRecord record ++ [']']
  | record :: rest => quoteRecord record ++ ',' :: closeRecords rest

def stringifyRecords (records : List (List (String × String))) : String :=
  String.ofList ('[' :: closeRecords records)

def ofRecord (record : List (String × String)) : JsonValue :=
  .object (record.map fun field => (field.1, .string field.2))

def ofRecords (records : List (List (String × String))) : JsonValue :=
  .array (records.map ofRecord)

/-! ## The parser reads the records back -/

theorem hexDigit?_hexChar_all : ∀ n < 16, hexDigit? (hexChar n) = some n := by decide

theorem hexDigit?_hexChar {n : Nat} (h : n < 16) : hexDigit? (hexChar n) = some n :=
  hexDigit?_hexChar_all n h

/-- The units read so far, put before the rest of a literal. -/
def prepend (n : Nat) (found : Option (List Nat × List Char)) : Option (List Nat × List Char) :=
  found.map fun found => (n :: found.1, found.2)

theorem stringUnits_plain {c : Char} (hquote : c ≠ '"') (hslash : c ≠ '\\')
    (hplain : ¬ c.toNat < 0x20) (rest : List Char) :
    stringUnits (c :: rest) = prepend c.toNat (stringUnits rest) := by
  rw [stringUnits.eq_def]
  simp only [hquote, hslash, hplain, if_false]
  cases stringUnits rest <;> rfl

theorem stringUnits_escape {e : Char} {n : Nat} (hu : e ≠ 'u') (hn : escapeUnit? e = some n)
    (rest : List Char) :
    stringUnits ('\\' :: e :: rest) = prepend n (stringUnits rest) := by
  have hquote : ('\\' : Char) ≠ '"' := by decide
  rw [stringUnits.eq_def]
  simp only [hquote, hu, hn, if_false, if_true]
  cases stringUnits rest <;> rfl

theorem stringUnits_hex {h3 h4 : Char} {d3 d4 : Nat} (hd3 : hexDigit? h3 = some d3)
    (hd4 : hexDigit? h4 = some d4) (rest : List Char) :
    stringUnits ('\\' :: 'u' :: '0' :: '0' :: h3 :: h4 :: rest) =
      prepend (d3 * 16 + d4) (stringUnits rest) := by
  have hquote : ('\\' : Char) ≠ '"' := by decide
  have hzero : hexDigit? '0' = some 0 := by decide
  rw [stringUnits.eq_def]
  simp only [hquote, hzero, hd3, hd4, if_false, if_true]
  cases stringUnits rest with
  | none => rfl
  | some found => simp [prepend]

/-- One quoted character reads as its code point. -/
theorem stringUnits_quoteChar (c : Char) (rest : List Char) :
    stringUnits (quoteChar c ++ rest) = prepend c.toNat (stringUnits rest) := by
  unfold quoteChar
  split
  · next h =>
    subst h
    exact stringUnits_escape (by decide) (by decide) rest
  split
  · next h =>
    subst h
    exact stringUnits_escape (by decide) (by decide) rest
  split
  · next h =>
    rw [h]
    exact stringUnits_escape (by decide) (by decide) rest
  split
  · next h =>
    rw [h]
    exact stringUnits_escape (by decide) (by decide) rest
  split
  · next h =>
    rw [h]
    exact stringUnits_escape (by decide) (by decide) rest
  split
  · next h =>
    rw [h]
    exact stringUnits_escape (by decide) (by decide) rest
  split
  · next h =>
    rw [h]
    exact stringUnits_escape (by decide) (by decide) rest
  split
  · next h =>
    have hhigh : hexDigit? (hexChar (c.toNat / 16)) = some (c.toNat / 16) :=
      hexDigit?_hexChar (by omega)
    have hlow : hexDigit? (hexChar (c.toNat % 16)) = some (c.toNat % 16) :=
      hexDigit?_hexChar (by omega)
    have hread := stringUnits_hex hhigh hlow rest
    have hsum : c.toNat / 16 * 16 + c.toNat % 16 = c.toNat := by omega
    rw [hsum] at hread
    exact hread
  · next hquote hslash _ _ _ _ _ hplain =>
    exact stringUnits_plain hquote hslash hplain rest

theorem stringUnits_quoted (cs rest : List Char) :
    stringUnits (cs.flatMap quoteChar ++ '"' :: rest) = some (cs.map Char.toNat, rest) := by
  induction cs with
  | nil =>
    rw [List.flatMap_nil, List.nil_append, stringUnits.eq_def]
    rfl
  | cons c cs ih =>
    rw [List.flatMap_cons, List.append_assoc, stringUnits_quoteChar, ih]
    rfl

theorem notSurrogate (c : Char) :
    isHighSurrogate c.toNat = false ∧ isLowSurrogate c.toNat = false := by
  have hvalid : c.toNat < 0xD800 ∨ 0xDFFF < c.toNat ∧ c.toNat < 0x110000 := c.valid
  simp only [isHighSurrogate, isLowSurrogate, Bool.and_eq_false_iff, decide_eq_false_iff_not]
  omega

theorem unitChar_toNat (c : Char) : unitChar c.toNat = c := by
  obtain ⟨hhigh, hlow⟩ := notSurrogate c
  simp only [unitChar, hhigh, hlow, Bool.or_self, Bool.false_eq_true, if_false]
  exact Char.ofNat_toNat c

theorem unitChars_toNat (cs : List Char) : unitChars (cs.map Char.toNat) = cs := by
  induction cs with
  | nil => rfl
  | cons c cs ih =>
    cases cs with
    | nil => simp [unitChars, unitChar_toNat]
    | cons d cs =>
      simp only [List.map_cons] at ih ⊢
      simp only [unitChars, (notSurrogate c).1, Bool.false_and, Bool.false_eq_true, if_false,
        unitChar_toNat, ih]

theorem stringLiteral_quoted (s : String) (rest : List Char) :
    stringLiteral (s.toList.flatMap quoteChar ++ '"' :: rest) = some (s, rest) := by
  simp [stringLiteral, stringUnits_quoted, unitChars_toNat]

theorem quote_append (s : String) (rest : List Char) :
    quote s ++ rest = '"' :: (s.toList.flatMap quoteChar ++ '"' :: rest) := by
  simp [quote]

theorem skipSpace_of_not {c : Char} (h : isSpace c = false) (rest : List Char) :
    skipSpace (c :: rest) = c :: rest := by
  simp [skipSpace, h]

theorem value_quote (fuel : Nat) (s : String) (rest : List Char) :
    value (fuel + 1) (quote s ++ rest) = some (.string s, rest) := by
  rw [quote_append, value, skipSpace_of_not (by decide)]
  simp [stringLiteral_quoted]

theorem length_quote (s : String) : 2 ≤ (quote s).length := by
  simp only [quote, List.length_cons, List.length_append, List.length_nil]
  omega

/-- The fields of a record, read from the quote of the first name to the brace. -/
theorem fields_closeFields (record : List (String × String)) (hne : record ≠ [])
    (fuel : Nat) (rest : List Char) (hfuel : (closeFields record).length ≤ fuel) :
    fields fuel (closeFields record ++ rest) =
      some (record.map fun field => (field.1, .string field.2), rest) := by
  induction record generalizing fuel with
  | nil => exact absurd rfl hne
  | cons field record ih =>
    have hname := length_quote field.1
    have hvalue := length_quote field.2
    have hcolon : skipSpace (':' :: (quote field.2 ++ ',' :: (closeFields record ++ rest))) =
        ':' :: (quote field.2 ++ ',' :: (closeFields record ++ rest)) :=
      skipSpace_of_not (by decide) _
    cases record with
    | nil =>
      simp only [closeFields, quoteField, List.length_append, List.length_cons,
        List.length_nil] at hfuel
      obtain ⟨fuel, rfl⟩ : ∃ n, fuel = n + 2 := ⟨fuel - 2, by omega⟩
      simp only [closeFields, quoteField, List.append_assoc, List.cons_append, List.nil_append]
      rw [quote_append, fields, skipSpace_of_not (by decide)]
      simp only [stringLiteral_quoted, Option.bind_eq_bind, Option.bind_some]
      rw [skipSpace_of_not (by decide)]
      simp only [value_quote, Option.bind_some]
      rw [skipSpace_of_not (by decide)]
      rfl
    | cons next record =>
      simp only [closeFields, quoteField, List.length_append, List.length_cons] at hfuel
      obtain ⟨fuel, rfl⟩ : ∃ n, fuel = n + 2 := ⟨fuel - 2, by omega⟩
      have hrest := ih (by simp) (fuel + 1) (by omega)
      simp only [closeFields, quoteField, List.append_assoc, List.cons_append]
      rw [quote_append, fields, skipSpace_of_not (by decide)]
      simp only [stringLiteral_quoted, Option.bind_eq_bind, Option.bind_some]
      rw [skipSpace_of_not (by decide)]
      simp only [value_quote, Option.bind_some]
      rw [skipSpace_of_not (by decide)]
      simp only [hrest]
      rfl

theorem value_brace (fuel : Nat) (rest : List Char) :
    value (fuel + 1) ('{' :: rest) = match skipSpace rest with
      | '}' :: rest => some (.object [], rest)
      | _ => (fields fuel rest).map fun (found, rest) => (.object found, rest) := by
  rw [value, skipSpace_of_not (by decide)]
  rfl

theorem value_bracket (fuel : Nat) (rest : List Char) :
    value (fuel + 1) ('[' :: rest) = match skipSpace rest with
      | ']' :: rest => some (.array [], rest)
      | _ => (items fuel rest).map fun (found, rest) => (.array found, rest) := by
  rw [value, skipSpace_of_not (by decide)]
  rfl

theorem closeFields_head (field : String × String) (record : List (String × String))
    (rest : List Char) :
    ∃ more, closeFields (field :: record) ++ rest = '"' :: more := by
  cases record with
  | nil => exact ⟨_, by simp only [closeFields, quoteField, quote, List.cons_append]; rfl⟩
  | cons next record =>
    exact ⟨_, by simp only [closeFields, quoteField, quote, List.cons_append]; rfl⟩

theorem value_quoteRecord (record : List (String × String)) (fuel : Nat) (rest : List Char)
    (hfuel : (quoteRecord record).length ≤ fuel) :
    value fuel (quoteRecord record ++ rest) = some (ofRecord record, rest) := by
  obtain ⟨fuel, rfl⟩ : ∃ n, fuel = n + 1 := by
    simp only [quoteRecord, List.length_cons] at hfuel
    exact ⟨fuel - 1, by omega⟩
  simp only [quoteRecord, List.length_cons, Nat.add_le_add_iff_right] at hfuel
  simp only [quoteRecord, List.cons_append]
  rw [value_brace]
  cases record with
  | nil =>
    simp only [closeFields, List.cons_append, List.nil_append]
    rw [skipSpace_of_not (by decide)]
    rfl
  | cons field record =>
    have hread := fields_closeFields (field :: record) (by simp) fuel rest hfuel
    obtain ⟨more, hmore⟩ := closeFields_head field record rest
    rw [hmore] at hread ⊢
    rw [skipSpace_of_not (by decide)]
    simp only [hread]
    rfl

theorem length_quoteRecord (record : List (String × String)) :
    1 ≤ (quoteRecord record).length := by
  simp [quoteRecord]

theorem items_closeRecords (records : List (List (String × String))) (hne : records ≠ [])
    (fuel : Nat) (rest : List Char) (hfuel : (closeRecords records).length ≤ fuel) :
    items fuel (closeRecords records ++ rest) = some (records.map ofRecord, rest) := by
  induction records generalizing fuel with
  | nil => exact absurd rfl hne
  | cons record records ih =>
    have hone := length_quoteRecord record
    cases records with
    | nil =>
      simp only [closeRecords, List.length_append, List.length_cons, List.length_nil] at hfuel
      obtain ⟨fuel, rfl⟩ : ∃ n, fuel = n + 1 := ⟨fuel - 1, by omega⟩
      simp only [closeRecords, List.append_assoc, List.cons_append, List.nil_append]
      rw [items, value_quoteRecord record fuel _ (by omega)]
      simp only [Option.bind_eq_bind, Option.bind_some]
      rw [skipSpace_of_not (by decide)]
      rfl
    | cons next records =>
      simp only [closeRecords, List.length_append, List.length_cons] at hfuel ih
      obtain ⟨fuel, rfl⟩ : ∃ n, fuel = n + 1 := ⟨fuel - 1, by omega⟩
      have hrest := ih (by simp) fuel (by omega)
      simp only [closeRecords, List.append_assoc, List.cons_append]
      rw [items, value_quoteRecord record fuel _ (by omega)]
      simp only [Option.bind_eq_bind, Option.bind_some]
      rw [skipSpace_of_not (by decide)]
      simp only [hrest]
      rfl

theorem closeRecords_head (record : List (String × String))
    (records : List (List (String × String))) :
    ∃ more, closeRecords (record :: records) = '{' :: more := by
  cases records with
  | nil => exact ⟨_, by simp only [closeRecords, quoteRecord, List.cons_append]; rfl⟩
  | cons next records =>
    exact ⟨_, by simp only [closeRecords, quoteRecord, List.cons_append]; rfl⟩

/-- What `stringify` writes of a list of records, `parse` reads. -/
theorem parse_stringifyRecords (records : List (List (String × String))) :
    parse (stringifyRecords records) = some (ofRecords records) := by
  have hread : ∀ fuel, (closeRecords records).length ≤ fuel →
      value (fuel + 1) ('[' :: closeRecords records) = some (ofRecords records, []) := by
    intro fuel hfuel
    rw [value_bracket]
    cases records with
    | nil =>
      simp only [closeRecords]
      rw [skipSpace_of_not (by decide)]
      rfl
    | cons record records =>
      have hitems := items_closeRecords (record :: records) (by simp) fuel [] hfuel
      rw [List.append_nil] at hitems
      obtain ⟨more, hmore⟩ := closeRecords_head record records
      rw [hmore] at hitems ⊢
      rw [skipSpace_of_not (by decide)]
      simp only [hitems]
      rfl
  unfold parse stringifyRecords
  rw [String.toList_ofList, hread _ (by simp only [List.length_cons]; omega)]
  rfl

end Json

/-- A property of an object; the last of two fields of one name counts. -/
def JsonValue.field? (name : String) : JsonValue → Option JsonValue
  | .object fields => (fields.reverse.find? fun field => field.1 = name).map Prod.snd
  | _ => none

def JsonValue.string? : JsonValue → Option String
  | .string value => some value
  | _ => none

end Regenic.Lib
