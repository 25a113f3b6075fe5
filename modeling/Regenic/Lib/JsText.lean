import Regenic.Lib.NumberText
import Regenic.Lib.Utf16

/-!
The values of JavaScript and their JSON text: strings are sequences of code units, numbers are
doubles. What is written of a value, `JSON.parse` reads back.
-/

namespace Regenic.Lib

inductive JsValue where
  | undefined
  | null
  | bool (value : Bool)
  | number (value : JsNumber)
  | string (value : CodeUnits)
  | array (items : List JsValue)
  /-- The own fields of a plain object. -/
  | object (fields : List (CodeUnits × JsValue))
  /-- An object with a prototype of its own. -/
  | exotic
  /-- A function, a symbol or a `bigint`. -/
  | primitive

namespace JsValue

open Json (stringUnits quoteChar hexChar hexDigit? hexDigit?_hexChar skipSpace skipSpace_of_not
  prepend stringUnits_plain stringUnits_quoteChar jsNumber isSpace EndsNumber endsNumber_nil
  endsNumber_comma endsNumber_bracket endsNumber_brace)

/-! ## Strings -/

/-- The code units of a code point. -/
def pointUnits (n : ℕ) : CodeUnits :=
  if n < 0x10000 then [UInt16.ofNat n]
  else [UInt16.ofNat (0xD800 + (n - 0x10000) / 0x400), UInt16.ofNat (0xDC00 + (n - 0x10000) % 0x400)]

/-- A lone surrogate is escaped. -/
def quotePoint : CodeUnits → List Char
  | [unit] =>
    if isHighSurrogate unit || isLowSurrogate unit then
      let n := unit.toNat
      ['\\', 'u', hexChar (n / 0x1000), hexChar (n / 0x100 % 16), hexChar (n / 16 % 16),
        hexChar (n % 16)]
    else quoteChar (Char.ofNat unit.toNat)
  | [high, low] =>
    [Char.ofNat (0x10000 + (high.toNat - 0xD800) * 0x400 + (low.toNat - 0xDC00))]
  | _ => []

/-- `JSON.stringify` of a string. -/
def quote (units : CodeUnits) : List Char := '"' :: (codePoints units).flatMap quotePoint ++ ['"']

def stringLiteral (cs : List Char) : Option (CodeUnits × List Char) :=
  (stringUnits cs).map fun (points, rest) => (points.flatMap pointUnits, rest)

/-! ## Reading a value -/

/-- `record[name] = item`. -/
def setField (fields : List (CodeUnits × JsValue)) (field : CodeUnits × JsValue) :
    List (CodeUnits × JsValue) :=
  if fields.any fun other => other.1 = field.1 then
    fields.map fun other => if other.1 = field.1 then field else other
  else fields ++ [field]

mutual

/-- The fuel counts nested calls; `parse` gives two for each character, and a call that
does not take one is followed by a call that does. -/
def value : Nat → List Char → Option (JsValue × List Char)
  | 0, _ => none
  | fuel + 1, cs =>
    match skipSpace cs with
    | [] => none
    | c :: rest =>
      if c = '"' then (stringLiteral rest).map fun (s, rest) => (.string s, rest)
      else if c = '[' then
        match skipSpace rest with
        | ']' :: rest => some (.array [], rest)
        | _ => (items fuel rest).map fun (found, rest) => (.array found, rest)
      else if c = '{' then
        match skipSpace rest with
        | '}' :: rest => some (.object [], rest)
        | _ => (fields fuel rest).map fun (found, rest) => (.object (found.foldl setField []), rest)
      else
        match c :: rest with
        | 't' :: 'r' :: 'u' :: 'e' :: rest => some (.bool true, rest)
        | 'f' :: 'a' :: 'l' :: 's' :: 'e' :: rest => some (.bool false, rest)
        | 'n' :: 'u' :: 'l' :: 'l' :: rest => some (.null, rest)
        | cs => (jsNumber cs).map fun (x, rest) => (.number x, rest)

def items : Nat → List Char → Option (List JsValue × List Char)
  | 0, _ => none
  | fuel + 1, cs => do
    let (item, rest) ← value fuel cs
    match skipSpace rest with
    | ',' :: rest => (items fuel rest).map fun (found, rest) => (item :: found, rest)
    | ']' :: rest => some ([item], rest)
    | _ => none

def fields : Nat → List Char → Option (List (CodeUnits × JsValue) × List Char)
  | 0, _ => none
  | fuel + 1, cs =>
    match skipSpace cs with
    | '"' :: rest => do
      let (name, rest) ← stringLiteral rest
      match skipSpace rest with
      | ':' :: rest => do
        let (item, rest) ← value fuel rest
        match skipSpace rest with
        | ',' :: rest => (fields fuel rest).map fun (found, rest) => ((name, item) :: found, rest)
        | '}' :: rest => some ([(name, item)], rest)
        | _ => none
      | _ => none
    | _ => none

end

/-- `JSON.parse`; none when it throws. -/
def parse (text : String) : Option JsValue :=
  match value (2 * text.toList.length + 2) text.toList with
  | some (found, rest) => if skipSpace rest = [] then some found else none
  | none => none

/-! ## Writing a value -/

mutual

/-- The text of a value that JSON can hold, of its numbers those without a sign of zero. -/
def render : JsValue → List Char
  | .null => ['n', 'u', 'l', 'l']
  | .bool true => ['t', 'r', 'u', 'e']
  | .bool false => ['f', 'a', 'l', 's', 'e']
  | .number x => numberText x
  | .string s => quote s
  | .array [] => ['[', ']']
  | .array (item :: rest) => '[' :: (render item ++ closeItems rest)
  | .object [] => ['{', '}']
  | .object ((name, item) :: rest) => '{' :: (quote name ++ ':' :: (render item ++ closeMembers rest))
  | _ => []

/-- The items after the first one, the closing bracket included. -/
def closeItems : List JsValue → List Char
  | [] => [']']
  | item :: rest => ',' :: (render item ++ closeItems rest)

def closeMembers : List (CodeUnits × JsValue) → List Char
  | [] => ['}']
  | (name, item) :: rest => ',' :: (quote name ++ ':' :: (render item ++ closeMembers rest))

end

mutual

/-- A value that JSON holds as it is. -/
def Plain : JsValue → Prop
  | .null | .bool _ | .string _ => True
  | .number x => x.isFinite = true ∧ x.unsigned = x
  | .array items => PlainItems items
  | .object fields => (fields.map Prod.fst).Nodup ∧ PlainMembers fields
  | _ => False

def PlainItems : List JsValue → Prop
  | [] => True
  | item :: rest => Plain item ∧ PlainItems rest

def PlainMembers : List (CodeUnits × JsValue) → Prop
  | [] => True
  | (_, item) :: rest => Plain item ∧ PlainMembers rest

end

/-! ## Strings are read back -/

theorem pointUnits_unit {unit : UInt16} : pointUnits unit.toNat = [unit] := by
  have hlt : unit.toNat < 0x10000 := unit.toNat_lt
  rw [pointUnits, if_pos hlt, UInt16.ofNat_toNat]

theorem surrogate_bounds {high low : UInt16}
    (h : (isHighSurrogate high && isLowSurrogate low) = true) :
    0xD800 ≤ high.toNat ∧ high.toNat ≤ 0xDBFF ∧ 0xDC00 ≤ low.toNat ∧ low.toNat ≤ 0xDFFF := by
  simp only [isHighSurrogate, isLowSurrogate, Bool.and_eq_true, decide_eq_true_eq,
    UInt16.le_iff_toNat_le] at h
  obtain ⟨⟨hhigh, hhigh'⟩, hlow, hlow'⟩ := h
  exact ⟨hhigh, hhigh', hlow, hlow'⟩

theorem pointUnits_pair {high low : UInt16}
    (h : (isHighSurrogate high && isLowSurrogate low) = true) :
    pointUnits (0x10000 + (high.toNat - 0xD800) * 0x400 + (low.toNat - 0xDC00)) = [high, low] := by
  obtain ⟨hhigh, hhigh', hlow, hlow'⟩ := surrogate_bounds h
  unfold pointUnits
  rw [if_neg (by omega)]
  have hfirst : 0xD800 + (0x10000 + (high.toNat - 0xD800) * 0x400 + (low.toNat - 0xDC00) - 0x10000) /
      0x400 = high.toNat := by omega
  have hsecond : 0xDC00 + (0x10000 + (high.toNat - 0xD800) * 0x400 + (low.toNat - 0xDC00) - 0x10000) %
      0x400 = low.toNat := by omega
  rw [hfirst, hsecond, UInt16.ofNat_toNat, UInt16.ofNat_toNat]

theorem stringUnits_hex4 {n : ℕ} (hn : n < 0x10000) (rest : List Char) :
    stringUnits ('\\' :: 'u' :: hexChar (n / 0x1000) :: hexChar (n / 0x100 % 16) ::
      hexChar (n / 16 % 16) :: hexChar (n % 16) :: rest) = prepend n (stringUnits rest) := by
  have hquote : ('\\' : Char) ≠ '"' := by decide
  have h1 : hexDigit? (hexChar (n / 0x1000)) = some (n / 0x1000) := hexDigit?_hexChar (by omega)
  have h2 : hexDigit? (hexChar (n / 0x100 % 16)) = some (n / 0x100 % 16) :=
    hexDigit?_hexChar (by omega)
  have h3 : hexDigit? (hexChar (n / 16 % 16)) = some (n / 16 % 16) := hexDigit?_hexChar (by omega)
  have h4 : hexDigit? (hexChar (n % 16)) = some (n % 16) := hexDigit?_hexChar (by omega)
  have hsum : ((n / 0x1000 * 16 + n / 0x100 % 16) * 16 + n / 16 % 16) * 16 + n % 16 = n := by omega
  rw [Json.stringUnits.eq_def]
  simp only [hquote, if_false, if_true, h1, h2, h3, h4]
  cases stringUnits rest with
  | none => rfl
  | some found => simp [prepend, hsum]

theorem toNat_ofNat {n : ℕ} (h : n.isValidChar) : (Char.ofNat n).toNat = n := by
  rw [Char.ofNat, dif_pos h]
  rfl

/-- One quoted code point is read as its code units. -/
theorem stringUnits_quotePoint {point : CodeUnits} {n : ℕ} (rest : List Char)
    (h : point = [UInt16.ofNat n] ∧ n < 0x10000 ∨
      ∃ high low, (isHighSurrogate high && isLowSurrogate low) = true ∧ point = [high, low] ∧
        n = 0x10000 + (high.toNat - 0xD800) * 0x400 + (low.toNat - 0xDC00)) :
    stringUnits (quotePoint point ++ rest) = prepend n (stringUnits rest) := by
  rcases h with ⟨rfl, hn⟩ | ⟨high, low, hpair, rfl, hn⟩
  · have hunit : (UInt16.ofNat n).toNat = n := UInt16.toNat_ofNat_of_lt' hn
    rw [quotePoint]
    split
    · rw [hunit]
      exact stringUnits_hex4 hn rest
    · next hplain =>
      simp only [isHighSurrogate, isLowSurrogate, Bool.or_eq_true, Bool.and_eq_true,
        decide_eq_true_eq, UInt16.le_iff_toNat_le, hunit, UInt16.reduceToNat] at hplain
      have hvalid : n.isValidChar := by
        unfold Nat.isValidChar
        omega
      rw [hunit, stringUnits_quoteChar, toNat_ofNat hvalid]
  · obtain ⟨hhigh, hhigh', hlow, hlow'⟩ := surrogate_bounds hpair
    have hvalid : n.isValidChar := by
      unfold Nat.isValidChar
      omega
    have hnat : (Char.ofNat n).toNat = n := toNat_ofNat hvalid
    have hplain : quotePoint [high, low] ++ rest = Char.ofNat n :: rest := by rw [hn]; rfl
    rw [hplain, stringUnits_plain _ _ _ rest, hnat]
    · intro hquote
      rw [hquote] at hnat
      have hvalue : ('"' : Char).toNat = 34 := rfl
      omega
    · intro hslash
      rw [hslash] at hnat
      have hvalue : ('\\' : Char).toNat = 92 := rfl
      omega
    · omega

/-- A quoted string is read up to its closing quote. -/
theorem stringUnits_quoted (units : CodeUnits) (rest : List Char) :
    ∃ points, stringUnits ((codePoints units).flatMap quotePoint ++ '"' :: rest) =
      some (points, rest) ∧ points.flatMap pointUnits = units := by
  induction units using codePoints.induct with
  | case1 =>
    refine ⟨[], ?_, rfl⟩
    rw [codePoints, List.flatMap_nil, List.nil_append, Json.stringUnits.eq_def]
    rfl
  | case2 unit =>
    refine ⟨[unit.toNat], ?_, by rw [List.flatMap_singleton, pointUnits_unit]⟩
    rw [codePoints, List.flatMap_singleton,
      stringUnits_quotePoint _ (.inl ⟨by rw [UInt16.ofNat_toNat], unit.toNat_lt⟩),
      Json.stringUnits.eq_def]
    rfl
  | case3 unit next rest' hpair ih =>
    obtain ⟨points, hread, hpoints⟩ := ih
    refine ⟨_ :: points, ?_, by rw [List.flatMap_cons, pointUnits_pair hpair, hpoints]; rfl⟩
    rw [codePoints, if_pos hpair, List.flatMap_cons, List.append_assoc,
      stringUnits_quotePoint _ (.inr ⟨unit, next, hpair, rfl, rfl⟩), hread]
    rfl
  | case4 unit next rest' hpair ih =>
    obtain ⟨points, hread, hpoints⟩ := ih
    refine ⟨unit.toNat :: points, ?_, by
      rw [List.flatMap_cons, pointUnits_unit, hpoints]; rfl⟩
    rw [codePoints, if_neg hpair, List.flatMap_cons, List.append_assoc,
      stringUnits_quotePoint _ (.inl ⟨by rw [UInt16.ofNat_toNat], unit.toNat_lt⟩), hread]
    rfl

theorem stringLiteral_quoted (units : CodeUnits) (rest : List Char) :
    stringLiteral ((codePoints units).flatMap quotePoint ++ '"' :: rest) = some (units, rest) := by
  obtain ⟨points, hread, hpoints⟩ := stringUnits_quoted units rest
  rw [stringLiteral, hread, Option.map_some]
  exact congrArg some (Prod.ext hpoints rfl)

theorem quote_append (units : CodeUnits) (rest : List Char) :
    quote units ++ rest = '"' :: ((codePoints units).flatMap quotePoint ++ '"' :: rest) := by
  simp [quote]

theorem value_quote (fuel : Nat) (units : CodeUnits) (rest : List Char) :
    value (fuel + 1) (quote units ++ rest) = some (.string units, rest) := by
  rw [quote_append, value, skipSpace_of_not (by decide)]
  simp [stringLiteral_quoted]

/-! ## Values are read back -/

/-- The text of a number begins with its sign or a digit. -/
theorem numberText_head {x : JsNumber} (hx : x.isFinite = true) :
    ∃ c cs, numberText x = c :: cs ∧ (c = '-' ∨ c.isDigit = true) := by
  have hdecimal : ∀ d : Decimal, 0 < d.significand →
      ∃ c cs, decimalText d = c :: cs ∧ c.isDigit = true := by
    intro d hd
    obtain ⟨whole, fraction, exponent, hparts, htext, _⟩ := decimalText_parts hd
    obtain ⟨c, cs, hcs⟩ := List.exists_cons_of_ne_nil hparts.whole.ne_nil
    have hdigit : c.isDigit = true := by
      apply hparts.whole.digits
      rw [hcs]
      exact List.mem_cons_self
    exact ⟨c, _, by rw [htext, numeral, hcs]; rfl, hdigit⟩
  cases x with
  | nan => cases hx
  | infinity negative => cases hx
  | negativeZero => exact ⟨'0', [], rfl, .inr (by decide)⟩
  | finite x =>
    rw [numberText]
    split
    · exact ⟨'0', [], rfl, .inr (by decide)⟩
    · next hne =>
      split
      · exact ⟨'-', _, rfl, .inl rfl⟩
      · next hpos =>
        have hpositive : 0 < x.value := lt_of_le_of_ne (not_lt.mp hpos) (Ne.symm hne)
        obtain ⟨c, cs, hcs, hdigit⟩ := hdecimal _ (shortest_spec hpositive x.held).1
        exact ⟨c, cs, hcs, .inr hdigit⟩

theorem value_number {x : JsNumber} (hx : x.isFinite = true) (fuel : Nat) {rest : List Char}
    (hrest : EndsNumber rest) :
    value (fuel + 1) (numberText x ++ rest) = some (.number x.unsigned, rest) := by
  have hread := jsNumber_numberText hx hrest
  obtain ⟨c, cs, hcs, hhead⟩ := numberText_head hx
  obtain ⟨hspace, hquote, hbracket, hbrace, ht, hf, hn⟩ := Json.number_starts hhead
  rw [hcs, List.cons_append] at hread ⊢
  rw [value, skipSpace_of_not hspace]
  simp only [hquote, hbracket, hbrace, if_false]
  split
  · next heq => exact absurd (List.cons.inj heq).1 ht
  · next heq => exact absurd (List.cons.inj heq).1 hf
  · next heq => exact absurd (List.cons.inj heq).1 hn
  · rw [hread]
    rfl

theorem closeItems_ends (items : List JsValue) (rest : List Char) :
    EndsNumber (closeItems items ++ rest) := by
  cases items with
  | nil => exact endsNumber_bracket rest
  | cons item items => exact endsNumber_comma _

theorem closeMembers_ends (fields : List (CodeUnits × JsValue)) (rest : List Char) :
    EndsNumber (closeMembers fields ++ rest) := by
  cases fields with
  | nil => exact endsNumber_brace rest
  | cons field fields => exact endsNumber_comma _

/-- The head of what is rendered is no blank and closes no bracket. -/
theorem render_head (item : JsValue) (h : Plain item) (rest : List Char) :
    ∃ c more, render item ++ rest = c :: more ∧ isSpace c = false ∧ c ≠ ']' := by
  cases item with
  | undefined => cases h
  | null => exact ⟨'n', _, rfl, by decide, by decide⟩
  | bool value =>
    cases value with
    | true => exact ⟨'t', _, rfl, by decide, by decide⟩
    | false => exact ⟨'f', _, rfl, by decide, by decide⟩
  | number x =>
    obtain ⟨c, cs, hcs, hhead⟩ := numberText_head h.1
    refine ⟨c, cs ++ rest, by rw [render, hcs]; rfl, (Json.number_starts hhead).1, ?_⟩
    rintro rfl
    revert hhead
    decide
  | string s => exact ⟨'"', _, quote_append s rest, by decide, by decide⟩
  | array items =>
    cases items with
    | nil => exact ⟨'[', _, rfl, by decide, by decide⟩
    | cons item items => exact ⟨'[', _, by rw [render]; rfl, by decide, by decide⟩
  | object fields =>
    cases fields with
    | nil => exact ⟨'{', _, rfl, by decide, by decide⟩
    | cons field fields => exact ⟨'{', _, by rw [render]; rfl, by decide, by decide⟩
  | exotic => cases h
  | primitive => cases h

/-- The items after one that can be read. -/
theorem items_next {fuel : Nat} {item : JsValue} {more : List JsValue} {rest : List Char}
    (hvalue : ∀ tail, EndsNumber tail → value fuel (render item ++ tail) = some (item, tail))
    (hmore : ∀ next following, more = next :: following →
      items fuel (render next ++ (closeItems following ++ rest)) = some (more, rest)) :
    items (fuel + 1) (render item ++ (closeItems more ++ rest)) = some (item :: more, rest) := by
  rw [items, hvalue _ (closeItems_ends more rest)]
  simp only [Option.bind_eq_bind, Option.bind_some]
  cases more with
  | nil =>
    simp only [closeItems, List.cons_append, List.nil_append]
    rw [skipSpace_of_not (by decide)]
    rfl
  | cons next following =>
    have hread := hmore next following rfl
    simp only [closeItems, List.cons_append, List.append_assoc]
    rw [skipSpace_of_not (by decide)]
    simp only [hread, Option.map_some]

theorem fields_next {fuel : Nat} {name : CodeUnits} {item : JsValue}
    {more : List (CodeUnits × JsValue)} {rest : List Char}
    (hvalue : ∀ tail, EndsNumber tail → value fuel (render item ++ tail) = some (item, tail))
    (hmore : ∀ other next following, more = (other, next) :: following →
      fields fuel (quote other ++ ':' :: (render next ++ (closeMembers following ++ rest))) =
        some (more, rest)) :
    fields (fuel + 1) (quote name ++ ':' :: (render item ++ (closeMembers more ++ rest))) =
      some ((name, item) :: more, rest) := by
  rw [quote_append, fields, skipSpace_of_not (by decide)]
  simp only [stringLiteral_quoted, Option.bind_eq_bind, Option.bind_some]
  rw [skipSpace_of_not (by decide)]
  simp only [hvalue _ (closeMembers_ends more rest), Option.bind_some]
  cases more with
  | nil =>
    simp only [closeMembers, List.cons_append, List.nil_append]
    rw [skipSpace_of_not (by decide)]
    rfl
  | cons field following =>
    obtain ⟨other, next⟩ := field
    have hread := hmore other next following rfl
    simp only [closeMembers, List.cons_append, List.append_assoc]
    rw [skipSpace_of_not (by decide)]
    simp only [hread, Option.map_some]

theorem length_closeItems (items : List JsValue) : 1 ≤ (closeItems items).length := by
  cases items with
  | nil => exact Nat.le_refl 1
  | cons item items => simp [closeItems]

theorem length_closeMembers (fields : List (CodeUnits × JsValue)) :
    1 ≤ (closeMembers fields).length := by
  cases fields with
  | nil => exact Nat.le_refl 1
  | cons field fields => simp [closeMembers]

theorem length_render (item : JsValue) (h : Plain item) : 1 ≤ (render item).length := by
  obtain ⟨c, more, hmore, _⟩ := render_head item h []
  rw [List.append_nil] at hmore
  rw [hmore]
  simp

/-- A bracket whose items can be read. -/
theorem value_items {fuel : Nat} {item : JsValue} {more : List JsValue} {rest : List Char}
    (hitem : Plain item)
    (hread : items fuel (render item ++ (closeItems more ++ rest)) = some (item :: more, rest)) :
    value (fuel + 1) (render (.array (item :: more)) ++ rest) =
      some (.array (item :: more), rest) := by
  rw [render, List.cons_append, List.append_assoc, value, skipSpace_of_not (by decide)]
  obtain ⟨c, tail, htail, hspace, hclose⟩ := render_head item hitem (closeItems more ++ rest)
  have hbracket : ('[' : Char) ≠ '"' := by decide
  rw [htail] at hread ⊢
  simp only [hbracket, if_false, if_true, skipSpace_of_not hspace]
  split
  · next heq => exact absurd (List.cons.inj heq).1 hclose
  · rw [hread]
    rfl

/-- Fields of names that differ are set one after another. -/
theorem foldl_setField {found others : List (CodeUnits × JsValue)}
    (h : ((others ++ found).map Prod.fst).Nodup) :
    found.foldl setField others = others ++ found := by
  induction found generalizing others with
  | nil => rw [List.foldl_nil, List.append_nil]
  | cons field found ih =>
    have hfresh : (others.any fun other => other.1 = field.1) = false := by
      rw [List.any_eq_false]
      intro other hother hname
      rw [List.map_append, List.nodup_append] at h
      exact h.2.2 other.1 (List.mem_map_of_mem hother) field.1
        (List.mem_map_of_mem List.mem_cons_self) (by simpa using hname)
    have hset : setField others field = others ++ [field] := by
      rw [setField, hfresh]
      rfl
    have hassoc : others ++ field :: found = others ++ [field] ++ found := by simp
    rw [List.foldl_cons, hset, hassoc]
    rw [hassoc] at h
    exact ih h

theorem value_fields {fuel : Nat} {name : CodeUnits} {item : JsValue}
    {more : List (CodeUnits × JsValue)} {rest : List Char}
    (hnames : (((name, item) :: more).map Prod.fst).Nodup)
    (hread : fields fuel (quote name ++ ':' :: (render item ++ (closeMembers more ++ rest))) =
      some ((name, item) :: more, rest)) :
    value (fuel + 1) (render (.object ((name, item) :: more)) ++ rest) =
      some (.object ((name, item) :: more), rest) := by
  rw [render, List.cons_append, List.append_assoc, List.cons_append, List.append_assoc, value,
    skipSpace_of_not (by decide)]
  have hquote : ('{' : Char) ≠ '"' := by decide
  have hbracket : ('{' : Char) ≠ '[' := by decide
  rw [quote_append] at hread ⊢
  simp only [hquote, hbracket, if_false, if_true, skipSpace_of_not (c := '"') (by decide)]
  rw [hread, Option.map_some, @foldl_setField _ [] hnames]
  rfl

/-- With this much fuel whatever is rendered in as many characters is read. -/
structure Reads (fuel : Nat) : Prop where
  value : ∀ item rest, Plain item → EndsNumber rest → (render item).length ≤ fuel →
    JsValue.value fuel (render item ++ rest) = some (item, rest)
  items : ∀ item more rest, Plain item → PlainItems more →
    (render item).length + (closeItems more).length ≤ fuel →
    JsValue.items fuel (render item ++ (closeItems more ++ rest)) = some (item :: more, rest)
  fields : ∀ name item more rest, Plain item → PlainMembers more →
    (render item).length + (closeMembers more).length ≤ fuel →
    JsValue.fields fuel (quote name ++ ':' :: (render item ++ (closeMembers more ++ rest))) =
      some ((name, item) :: more, rest)

theorem value_step {fuel : Nat} (ih : Reads fuel) (item : JsValue) (rest : List Char)
    (h : Plain item) (hrest : EndsNumber rest) (hfuel : (render item).length ≤ fuel + 1) :
    value (fuel + 1) (render item ++ rest) = some (item, rest) := by
  cases item with
  | undefined => cases h
  | null => rfl
  | bool value =>
    cases value with
    | true => rfl
    | false => rfl
  | number x =>
    obtain ⟨hfinite, hsign⟩ := h
    have hread := value_number hfinite fuel hrest
    rw [hsign] at hread
    exact hread
  | string s => exact value_quote fuel s rest
  | array items =>
    cases items with
    | nil => rfl
    | cons item more =>
      obtain ⟨hitem, hmore⟩ := h
      rw [render, List.length_cons, List.length_append] at hfuel
      exact value_items hitem (ih.items item more rest hitem hmore (by omega))
  | object fields =>
    cases fields with
    | nil => rfl
    | cons field more =>
      obtain ⟨name, item⟩ := field
      obtain ⟨hnames, hitem, hmore⟩ := h
      rw [render, List.length_cons, List.length_append, List.length_cons, List.length_append]
        at hfuel
      exact value_fields hnames (ih.fields name item more rest hitem hmore (by omega))
  | exotic => cases h
  | primitive => cases h

theorem reads (fuel : Nat) : Reads fuel := by
  induction fuel with
  | zero =>
    constructor
    · intro item rest h _ hfuel
      have hlength := length_render item h
      omega
    · intro item more rest _ _ hfuel
      have hlength := length_closeItems more
      omega
    · intro name item more rest _ _ hfuel
      have hlength := length_closeMembers more
      omega
  | succ fuel ih =>
    constructor
    · exact value_step ih
    · intro item more rest hitem hmore hfuel
      have hlength := length_closeItems more
      apply items_next
      · intro tail htail
        exact ih.value item tail hitem htail (by omega)
      · rintro next following rfl
        obtain ⟨hnext, hfollowing⟩ := hmore
        have hitem := length_render item hitem
        rw [closeItems, List.length_cons, List.length_append] at hfuel
        exact ih.items next following rest hnext hfollowing (by omega)
    · intro name item more rest hitem hmore hfuel
      have hlength := length_closeMembers more
      apply fields_next
      · intro tail htail
        exact ih.value item tail hitem htail (by omega)
      · rintro other next following rfl
        obtain ⟨hnext, hfollowing⟩ := hmore
        have hitem := length_render item hitem
        rw [closeMembers, List.length_cons, List.length_append, List.length_cons,
          List.length_append] at hfuel
        exact ih.fields other next following rest hnext hfollowing (by omega)

/-- What is written of a value that JSON holds as it is, `parse` reads. -/
theorem parse_render {item : JsValue} (h : Plain item) :
    parse (String.ofList (render item)) = some item := by
  have hread := (reads (2 * (render item).length + 2)).value item [] h endsNumber_nil (by omega)
  rw [List.append_nil] at hread
  unfold parse
  rw [String.toList_ofList, hread]
  rfl

end JsValue

end Regenic.Lib
