import Mathlib.Data.List.TakeDrop
import Mathlib.Data.List.TakeWhile
import Regenic.Lib.Json

/-!
`JSON.stringify` of any JSON value, which the parser reads back. A number is known by the text
that it is printed as.
-/

namespace Regenic.Lib

namespace Json

mutual

def render : JsonValue → List Char
  | .null => ['n', 'u', 'l', 'l']
  | .bool true => ['t', 'r', 'u', 'e']
  | .bool false => ['f', 'a', 'l', 's', 'e']
  | .number text => text.toList
  | .string s => quote s
  | .array [] => ['[', ']']
  | .array (item :: rest) => '[' :: (render item ++ closeItems rest)
  | .object [] => ['{', '}']
  | .object ((name, item) :: rest) => '{' :: (quote name ++ ':' :: (render item ++ closeMembers rest))

/-- The items after the first one, the closing bracket included. -/
def closeItems : List JsonValue → List Char
  | [] => [']']
  | item :: rest => ',' :: (render item ++ closeItems rest)

def closeMembers : List (String × JsonValue) → List Char
  | [] => ['}']
  | (name, item) :: rest => ',' :: (quote name ++ ':' :: (render item ++ closeMembers rest))

end

def stringify (value : JsonValue) : String := String.ofList (render value)

/-- The text of a number as the grammar has it. -/
def IsNumber (text : String) : Prop := number text.toList = some (.number text, [])

mutual

/-- Every number in the value is one of the grammar. -/
def Printable : JsonValue → Prop
  | .number text => IsNumber text
  | .array items => PrintableItems items
  | .object fields => PrintableMembers fields
  | _ => True

def PrintableItems : List JsonValue → Prop
  | [] => True
  | item :: rest => Printable item ∧ PrintableItems rest

def PrintableMembers : List (String × JsonValue) → Prop
  | [] => True
  | (_, item) :: rest => Printable item ∧ PrintableMembers rest

end

/-! ## Numbers -/

/-- What follows a number in a text: nothing, or a character that ends it. -/
def EndsNumber (rest : List Char) : Prop :=
  ∀ c more, rest = c :: more → c.isDigit = false ∧ c ≠ '.' ∧ c ≠ 'e' ∧ c ≠ 'E'

theorem endsNumber_nil : EndsNumber [] := nofun

theorem endsNumber_comma (rest : List Char) : EndsNumber (',' :: rest) := by
  intro c more h
  cases h
  decide

theorem endsNumber_bracket (rest : List Char) : EndsNumber (']' :: rest) := by
  intro c more h
  cases h
  decide

theorem endsNumber_brace (rest : List Char) : EndsNumber ('}' :: rest) := by
  intro c more h
  cases h
  decide

section Numbers

variable {rest : List Char} (hrest : EndsNumber rest)

include hrest

theorem digits_append {cs found left : List Char} (h : digits cs = (found, left)) :
    digits (cs ++ rest) = (found, left ++ rest) := by
  unfold digits at h ⊢
  rw [List.span_eq_takeWhile_dropWhile] at h ⊢
  cases h
  induction cs with
  | nil =>
    cases rest with
    | nil => rfl
    | cons c more =>
      obtain ⟨hdigit, _⟩ := hrest c more rfl
      simp [hdigit]
  | cons c cs ih =>
    simp only [Prod.mk.injEq] at ih
    cases hdigit : c.isDigit with
    | true => simp [hdigit, ih.1, ih.2]
    | false => simp [hdigit]

theorem integerPart_append {cs found left : List Char}
    (h : integerPart cs = some (found, left)) :
    integerPart (cs ++ rest) = some (found, left ++ rest) := by
  unfold integerPart at h ⊢
  cases hdigits : digits cs with
  | mk first second =>
    rw [digits_append hrest hdigits]
    rw [hdigits] at h
    split at h
    · cases h
    · next heq =>
      cases heq
      cases h
      rfl
    · cases h
    · next hnil hzero hlong =>
      cases h
      split
      · next heq =>
        cases heq
        exact absurd rfl (hnil _)
      · next heq =>
        cases heq
        exact absurd rfl (hzero _)
      · next heq =>
        cases heq
        exact absurd rfl (hlong _ _)
      · rfl

theorem fractionPart_append {cs found left : List Char}
    (h : fractionPart cs = some (found, left)) :
    fractionPart (cs ++ rest) = some (found, left ++ rest) := by
  cases cs with
  | nil =>
    cases h
    cases rest with
    | nil => rfl
    | cons c more =>
      obtain ⟨_, hdot, _⟩ := hrest c more rfl
      rw [List.nil_append]
      unfold fractionPart
      split
      · next heq =>
        cases heq
        exact absurd rfl hdot
      · rfl
  | cons c cs =>
    rw [List.cons_append]
    unfold fractionPart at h ⊢
    split at h
    · next heq =>
      cases heq
      cases hdigits : digits cs with
      | mk first second =>
        rw [hdigits] at h
        simp only [digits_append hrest hdigits]
        cases first with
        | nil => cases h
        | cons d more =>
          cases h
          rfl
    · next hdot =>
      cases h
      split
      · next heq =>
        cases heq
        exact absurd rfl (hdot _)
      · rfl

omit hrest in
theorem exponentSign_append {cs : List Char} (hne : cs ≠ []) :
    exponentSign (cs ++ rest) = ((exponentSign cs).1, (exponentSign cs).2 ++ rest) := by
  cases cs with
  | nil => exact absurd rfl hne
  | cons c cs =>
    rw [List.cons_append]
    unfold exponentSign
    split
    · next heq =>
      cases heq
      rfl
    · next heq =>
      cases heq
      rfl
    · next hplus hminus =>
      split
      · next heq =>
        cases heq
        exact absurd rfl (hplus _)
      · next heq =>
        cases heq
        exact absurd rfl (hminus _)
      · rfl

theorem exponentPart_append {cs found left : List Char}
    (h : exponentPart cs = some (found, left)) :
    exponentPart (cs ++ rest) = some (found, left ++ rest) := by
  cases cs with
  | nil =>
    cases h
    cases rest with
    | nil => rfl
    | cons c more =>
      obtain ⟨_, _, hlower, hupper⟩ := hrest c more rfl
      simp [exponentPart, hlower, hupper]
  | cons c cs =>
    rw [List.cons_append]
    unfold exponentPart at h ⊢
    by_cases hc : c = 'e' ∨ c = 'E'
    · simp only [hc, if_true] at h ⊢
      cases cs with
      | nil => cases h
      | cons d cs =>
        rw [exponentSign_append (List.cons_ne_nil d cs)]
        cases hdigits : digits (exponentSign (d :: cs)).2 with
        | mk first second =>
          rw [hdigits] at h
          simp only [digits_append hrest hdigits]
          cases first with
          | nil => cases h
          | cons e more =>
            cases h
            rfl
    · simp only [hc, if_false] at h ⊢
      cases h
      rfl

omit hrest in
theorem minusPart_append {cs : List Char} (hne : cs ≠ []) :
    minusPart (cs ++ rest) = ((minusPart cs).1, (minusPart cs).2 ++ rest) := by
  cases cs with
  | nil => exact absurd rfl hne
  | cons c cs =>
    rw [List.cons_append]
    unfold minusPart
    split
    · next heq =>
      cases heq
      rfl
    · next hminus =>
      split
      · next heq =>
        cases heq
        exact absurd rfl (hminus _)
      · rfl

/-- A number is read to its end and no further. -/
theorem number_append {cs left : List Char} {value : JsonValue}
    (h : number cs = some (value, left)) : number (cs ++ rest) = some (value, left ++ rest) := by
  cases cs with
  | nil => exact absurd h (by simp [number, minusPart, integerPart, digits, List.span, List.span.loop])
  | cons c cs =>
    unfold number at h ⊢
    simp only [Option.bind_eq_bind, Option.bind_eq_some_iff, Prod.exists] at h
    obtain ⟨whole, afterWhole, hwhole, fraction, afterFraction, hfraction, exponent, afterExponent,
      hexponent, h⟩ := h
    rw [minusPart_append (List.cons_ne_nil c cs)]
    simp only [Option.bind_eq_bind, integerPart_append hrest hwhole, Option.bind_some,
      fractionPart_append hrest hfraction, exponentPart_append hrest hexponent]
    cases h
    rfl

end Numbers

/-! ## Values -/

/-- No number begins as another value does. -/
theorem number_head {c : Char} {cs : List Char} {value : JsonValue} {left : List Char}
    (h : number (c :: cs) = some (value, left)) : c = '-' ∨ c.isDigit = true := by
  by_cases hminus : c = '-'
  · exact Or.inl hminus
  · apply Or.inr
    cases hdigit : c.isDigit with
    | true => rfl
    | false =>
      have hsign : minusPart (c :: cs) = ([], c :: cs) := by
        unfold minusPart
        split
        · next heq =>
          cases heq
          exact absurd rfl hminus
        · rfl
      have hdigits : digits (c :: cs) = ([], c :: cs) := by
        unfold digits
        rw [List.span_eq_takeWhile_dropWhile]
        simp [hdigit]
      simp [number, hsign, integerPart, hdigits] at h

theorem number_starts {c : Char} (h : c = '-' ∨ c.isDigit = true) :
    isSpace c = false ∧ c ≠ '"' ∧ c ≠ '[' ∧ c ≠ '{' ∧ c ≠ 't' ∧ c ≠ 'f' ∧ c ≠ 'n' := by
  refine ⟨?_, ?_, ?_, ?_, ?_, ?_, ?_⟩
  · cases hspace : isSpace c with
    | false => rfl
    | true =>
      simp only [isSpace, Bool.or_eq_true, decide_eq_true_eq] at hspace
      rcases hspace with ((rfl | rfl) | rfl) | rfl
      all_goals
        revert h
        decide
  all_goals
    rintro rfl
    revert h
    decide

theorem value_number {text : String} (htext : IsNumber text) (fuel : Nat) {rest : List Char}
    (hrest : EndsNumber rest) :
    value (fuel + 1) (text.toList ++ rest) = some (.number text, rest) := by
  have hread := number_append hrest htext
  rw [List.nil_append] at hread
  unfold IsNumber at htext
  cases hcs : text.toList with
  | nil =>
    rw [hcs] at htext
    cases htext
  | cons c cs =>
    rw [hcs] at htext hread
    obtain ⟨hspace, hquote, hbracket, hbrace, ht, hf, hn⟩ := number_starts (number_head htext)
    rw [List.cons_append] at hread ⊢
    rw [value, skipSpace_of_not hspace]
    simp only [hquote, hbracket, hbrace, if_false]
    split
    · next heq => exact absurd (List.cons.inj heq).1 ht
    · next heq => exact absurd (List.cons.inj heq).1 hf
    · next heq => exact absurd (List.cons.inj heq).1 hn
    · exact hread

theorem closeItems_ends (items : List JsonValue) (rest : List Char) :
    EndsNumber (closeItems items ++ rest) := by
  cases items with
  | nil => exact endsNumber_bracket rest
  | cons item items => exact endsNumber_comma _

theorem closeMembers_ends (fields : List (String × JsonValue)) (rest : List Char) :
    EndsNumber (closeMembers fields ++ rest) := by
  cases fields with
  | nil => exact endsNumber_brace rest
  | cons field fields => exact endsNumber_comma _

/-- The head of what is rendered is no blank and closes no bracket. -/
theorem render_head (item : JsonValue) (h : Printable item) (rest : List Char) :
    ∃ c more, render item ++ rest = c :: more ∧ isSpace c = false ∧ c ≠ ']' := by
  cases item with
  | null => exact ⟨'n', _, rfl, by decide, by decide⟩
  | bool value =>
    cases value with
    | true => exact ⟨'t', _, rfl, by decide, by decide⟩
    | false => exact ⟨'f', _, rfl, by decide, by decide⟩
  | number text =>
    have htext : IsNumber text := h
    unfold IsNumber at htext
    cases hcs : text.toList with
    | nil =>
      rw [hcs] at htext
      cases htext
    | cons c cs =>
      rw [hcs] at htext
      have hhead := number_head htext
      refine ⟨c, cs ++ rest, by rw [render, hcs]; rfl, (number_starts hhead).1, ?_⟩
      rintro rfl
      revert hhead
      decide
  | string s => exact ⟨'"', _, quote_append s rest, by decide, by decide⟩
  | array items =>
    cases items with
    | nil => exact ⟨'[', _, rfl, by decide, by decide⟩
    | cons item items => exact ⟨'[', _, by rw [render]; rfl, by decide, by decide⟩
  | object fields =>
    cases fields with
    | nil => exact ⟨'{', _, rfl, by decide, by decide⟩
    | cons field fields => exact ⟨'{', _, by rw [render]; rfl, by decide, by decide⟩

/-- The items after one that can be read. -/
theorem items_next {fuel : Nat} {item : JsonValue} {more : List JsonValue} {rest : List Char}
    (hvalue : ∀ tail, EndsNumber tail → value fuel (render item ++ tail) = some (item, tail))
    (hmore : ∀ next following, more = next :: following →
      items fuel (render next ++ (closeItems following ++ rest)) = some (more, rest)) :
    items (fuel + 1) (render item ++ (closeItems more ++ rest)) = some (item :: more, rest) := by
  rw [items, hvalue _ (closeItems_ends more rest)]
  simp only [Option.bind_eq_bind, Option.bind_some]
  cases more with
  | nil =>
    simp only [closeItems, List.cons_append, List.nil_append]
    rw [skipSpace_of_not (by decide)]
    rfl
  | cons next following =>
    have hread := hmore next following rfl
    simp only [closeItems, List.cons_append, List.append_assoc]
    rw [skipSpace_of_not (by decide)]
    simp only [hread, Option.map_some]

theorem fields_next {fuel : Nat} {name : String} {item : JsonValue}
    {more : List (String × JsonValue)} {rest : List Char}
    (hvalue : ∀ tail, EndsNumber tail → value fuel (render item ++ tail) = some (item, tail))
    (hmore : ∀ other next following, more = (other, next) :: following →
      fields fuel (quote other ++ ':' :: (render next ++ (closeMembers following ++ rest))) =
        some (more, rest)) :
    fields (fuel + 1) (quote name ++ ':' :: (render item ++ (closeMembers more ++ rest))) =
      some ((name, item) :: more, rest) := by
  rw [quote_append, fields, skipSpace_of_not (by decide)]
  simp only [stringLiteral_quoted, Option.bind_eq_bind, Option.bind_some]
  rw [skipSpace_of_not (by decide)]
  simp only [hvalue _ (closeMembers_ends more rest), Option.bind_some]
  cases more with
  | nil =>
    simp only [closeMembers, List.cons_append, List.nil_append]
    rw [skipSpace_of_not (by decide)]
    rfl
  | cons field following =>
    obtain ⟨other, next⟩ := field
    have hread := hmore other next following rfl
    simp only [closeMembers, List.cons_append, List.append_assoc]
    rw [skipSpace_of_not (by decide)]
    simp only [hread, Option.map_some]

theorem length_closeItems (items : List JsonValue) : 1 ≤ (closeItems items).length := by
  cases items with
  | nil => exact Nat.le_refl 1
  | cons item items => simp [closeItems]

theorem length_closeMembers (fields : List (String × JsonValue)) :
    1 ≤ (closeMembers fields).length := by
  cases fields with
  | nil => exact Nat.le_refl 1
  | cons field fields => simp [closeMembers]

theorem length_render (item : JsonValue) (h : Printable item) : 1 ≤ (render item).length := by
  obtain ⟨c, more, hmore, _⟩ := render_head item h []
  rw [List.append_nil] at hmore
  rw [hmore]
  simp

/-- A bracket whose items can be read. -/
theorem value_items {fuel : Nat} {item : JsonValue} {more : List JsonValue} {rest : List Char}
    (hitem : Printable item)
    (hread : items fuel (render item ++ (closeItems more ++ rest)) = some (item :: more, rest)) :
    value (fuel + 1) (render (.array (item :: more)) ++ rest) =
      some (.array (item :: more), rest) := by
  rw [render, List.cons_append, List.append_assoc, value_bracket]
  obtain ⟨c, tail, htail, hspace, hclose⟩ := render_head item hitem (closeItems more ++ rest)
  rw [htail] at hread ⊢
  rw [skipSpace_of_not hspace, hread]
  split
  · next heq => exact absurd (List.cons.inj heq).1 hclose
  · rfl

theorem value_fields {fuel : Nat} {name : String} {item : JsonValue}
    {more : List (String × JsonValue)} {rest : List Char}
    (hread : fields fuel (quote name ++ ':' :: (render item ++ (closeMembers more ++ rest))) =
      some ((name, item) :: more, rest)) :
    value (fuel + 1) (render (.object ((name, item) :: more)) ++ rest) =
      some (.object ((name, item) :: more), rest) := by
  rw [render, List.cons_append, List.append_assoc, List.cons_append, List.append_assoc, value_brace]
  rw [quote_append] at hread ⊢
  rw [skipSpace_of_not (by decide), hread]
  rfl

/-- With this much fuel whatever is rendered in as many characters is read. -/
structure Reads (fuel : Nat) : Prop where
  value : ∀ item rest, Printable item → EndsNumber rest → (render item).length ≤ fuel →
    Json.value fuel (render item ++ rest) = some (item, rest)
  items : ∀ item more rest, Printable item → PrintableItems more →
    (render item).length + (closeItems more).length ≤ fuel →
    Json.items fuel (render item ++ (closeItems more ++ rest)) = some (item :: more, rest)
  fields : ∀ name item more rest, Printable item → PrintableMembers more →
    (render item).length + (closeMembers more).length ≤ fuel →
    Json.fields fuel (quote name ++ ':' :: (render item ++ (closeMembers more ++ rest))) =
      some ((name, item) :: more, rest)

theorem value_step {fuel : Nat} (ih : Reads fuel) (item : JsonValue) (rest : List Char)
    (h : Printable item) (hrest : EndsNumber rest) (hfuel : (render item).length ≤ fuel + 1) :
    value (fuel + 1) (render item ++ rest) = some (item, rest) := by
  cases item with
  | null => rfl
  | bool value =>
    cases value with
    | true => rfl
    | false => rfl
  | number text => exact value_number h fuel hrest
  | string s => exact value_quote fuel s rest
  | array items =>
    cases items with
    | nil => rfl
    | cons item more =>
      obtain ⟨hitem, hmore⟩ := h
      rw [render, List.length_cons, List.length_append] at hfuel
      exact value_items hitem (ih.items item more rest hitem hmore (by omega))
  | object fields =>
    cases fields with
    | nil => rfl
    | cons field more =>
      obtain ⟨name, item⟩ := field
      obtain ⟨hitem, hmore⟩ := h
      rw [render, List.length_cons, List.length_append, List.length_cons, List.length_append]
        at hfuel
      exact value_fields (ih.fields name item more rest hitem hmore (by omega))

theorem reads (fuel : Nat) : Reads fuel := by
  induction fuel with
  | zero =>
    constructor
    · intro item rest h _ hfuel
      have hlength := length_render item h
      omega
    · intro item more rest _ _ hfuel
      have hlength := length_closeItems more
      omega
    · intro name item more rest _ _ hfuel
      have hlength := length_closeMembers more
      omega
  | succ fuel ih =>
    constructor
    · exact value_step ih
    · intro item more rest hitem hmore hfuel
      have hlength := length_closeItems more
      apply items_next
      · intro tail htail
        exact ih.value item tail hitem htail (by omega)
      · rintro next following rfl
        obtain ⟨hnext, hfollowing⟩ := hmore
        have hitem := length_render item hitem
        rw [closeItems, List.length_cons, List.length_append] at hfuel
        exact ih.items next following rest hnext hfollowing (by omega)
    · intro name item more rest hitem hmore hfuel
      have hlength := length_closeMembers more
      apply fields_next
      · intro tail htail
        exact ih.value item tail hitem htail (by omega)
      · rintro other next following rfl
        obtain ⟨hnext, hfollowing⟩ := hmore
        have hitem := length_render item hitem
        rw [closeMembers, List.length_cons, List.length_append, List.length_cons,
          List.length_append] at hfuel
        exact ih.fields other next following rest hnext hfollowing (by omega)

/-- What `stringify` writes, `parse` reads. -/
theorem parse_stringify (item : JsonValue) (h : Printable item) :
    parse (stringify item) = some item := by
  have hread := (reads (2 * (render item).length + 2)).value item [] h endsNumber_nil (by omega)
  rw [List.append_nil] at hread
  unfold parse stringify
  rw [String.toList_ofList, hread]
  rfl

/-! ## What is read can be printed -/

/-- The text goes on with no digit. -/
def EndsDigits (rest : List Char) : Prop := ∀ c more, rest = c :: more → c.isDigit = false

theorem digits_spec {cs found left : List Char} (h : digits cs = (found, left)) :
    (∀ c ∈ found, c.isDigit = true) ∧
      ∀ tail, EndsDigits tail → digits (found ++ tail) = (found, tail) := by
  unfold digits at h ⊢
  simp only [List.span_eq_takeWhile_dropWhile] at h ⊢
  cases h
  constructor
  · intro c hmem
    exact List.mem_takeWhile_imp hmem
  · intro tail htail
    induction cs with
    | nil =>
      cases tail with
      | nil => rfl
      | cons c more => simp [htail c more rfl]
    | cons c cs ih =>
      simp only [Prod.mk.injEq] at ih
      cases hdigit : c.isDigit with
      | true => simp [hdigit, ih.1, ih.2]
      | false =>
        cases tail with
        | nil => simp [hdigit]
        | cons d more => simp [hdigit, htail d more rfl]

theorem integerPart_spec {cs whole left : List Char} (h : integerPart cs = some (whole, left))
    (tail : List Char) (htail : EndsDigits tail) :
    integerPart (whole ++ tail) = some (whole, tail) := by
  unfold integerPart at h
  cases hdigits : digits cs with
  | mk first second =>
    have hread := (digits_spec hdigits).2 tail htail
    rw [hdigits] at h
    split at h
    · cases h
    · next heq =>
      cases heq
      cases h
      unfold integerPart
      rw [hread]
      rfl
    · cases h
    · next hnil hzero hlong =>
      cases h
      unfold integerPart
      rw [hread]
      split
      · next heq =>
        cases heq
        exact absurd rfl (hnil _)
      · next heq =>
        cases heq
        exact absurd rfl (hzero _)
      · next heq =>
        cases heq
        exact absurd rfl (hlong _ _)
      · rfl

theorem fractionPart_spec {cs fraction left : List Char}
    (h : fractionPart cs = some (fraction, left)) :
    (fraction = [] ∨ ∃ more, fraction = '.' :: more) ∧
      ∀ tail, EndsNumber tail ∨ (∃ c more, tail = c :: more ∧ (c = 'e' ∨ c = 'E')) →
        fractionPart (fraction ++ tail) = some (fraction, tail) := by
  have hplain : ∀ tail, EndsNumber tail ∨ (∃ c more, tail = c :: more ∧ (c = 'e' ∨ c = 'E')) →
      EndsDigits tail ∧ fractionPart tail = some ([], tail) := by
    intro tail htail
    cases tail with
    | nil => exact ⟨nofun, rfl⟩
    | cons d more =>
      have hd : d.isDigit = false ∧ d ≠ '.' := by
        rcases htail with hends | ⟨c, rest, heq, hc⟩
        · obtain ⟨hdigit, hdot, _⟩ := hends d more rfl
          exact ⟨hdigit, hdot⟩
        · cases heq
          rcases hc with rfl | rfl
          · decide
          · decide
      constructor
      · intro c rest heq
        cases heq
        exact hd.1
      · unfold fractionPart
        split
        · next heq =>
          cases heq
          exact absurd rfl hd.2
        · rfl
  unfold fractionPart at h
  split at h
  · next rest =>
    cases hdigits : digits rest with
    | mk first second =>
      rw [hdigits] at h
      cases first with
      | nil => cases h
      | cons d ds =>
        cases h
        refine ⟨Or.inr ⟨_, rfl⟩, ?_⟩
        intro tail htail
        have hread := (digits_spec hdigits).2 tail (hplain tail htail).1
        rw [List.cons_append]
        unfold fractionPart
        simp only [hread]
  · cases h
    refine ⟨Or.inl rfl, ?_⟩
    intro tail htail
    exact (hplain tail htail).2

theorem exponentSign_spec (cs : List Char) :
    (exponentSign cs).1 = ['+'] ∨ (exponentSign cs).1 = ['-'] ∨ (exponentSign cs).1 = [] := by
  unfold exponentSign
  split
  · exact Or.inl rfl
  · exact Or.inr (Or.inl rfl)
  · exact Or.inr (Or.inr rfl)

theorem exponentPart_spec {cs exponent left : List Char}
    (h : exponentPart cs = some (exponent, left)) :
    (exponent = [] ∨ ∃ c more, exponent = c :: more ∧ (c = 'e' ∨ c = 'E')) ∧
      exponentPart exponent = some (exponent, []) := by
  cases cs with
  | nil =>
    cases h
    exact ⟨Or.inl rfl, rfl⟩
  | cons c cs =>
    unfold exponentPart at h
    by_cases hc : c = 'e' ∨ c = 'E'
    · simp only [hc, if_true] at h
      cases hdigits : digits (exponentSign cs).2 with
      | mk first second =>
        rw [hdigits] at h
        cases first with
        | nil => cases h
        | cons d ds =>
          cases h
          obtain ⟨hall, hread⟩ := digits_spec hdigits
          have hread := hread [] nofun
          have hd := hall d List.mem_cons_self
          rw [List.append_nil] at hread
          refine ⟨Or.inr ⟨c, _, rfl, hc⟩, ?_⟩
          have hsign : exponentSign ((exponentSign cs).1 ++ d :: ds) =
              ((exponentSign cs).1, d :: ds) := by
            rcases exponentSign_spec cs with heq | heq | heq
            · rw [heq]
              rfl
            · rw [heq]
              rfl
            · rw [heq, List.nil_append]
              unfold exponentSign
              split
              · next heq =>
                cases heq
                exact absurd hd (by decide)
              · next heq =>
                cases heq
                exact absurd hd (by decide)
              · rfl
          unfold exponentPart
          simp only [List.cons_append, hc, if_true, hsign, hread]
    · simp only [hc, if_false] at h
      cases h
      exact ⟨Or.inl rfl, rfl⟩

theorem minusPart_spec (cs : List Char) :
    (minusPart cs).1 = ['-'] ∨ (minusPart cs).1 = [] := by
  unfold minusPart
  split
  · exact Or.inl rfl
  · exact Or.inr rfl

/-- A number that is read is one of the grammar. -/
theorem isNumber_of_number {cs left : List Char} {value : JsonValue}
    (h : number cs = some (value, left)) : Printable value := by
  unfold number at h
  simp only [Option.bind_eq_bind, Option.bind_eq_some_iff, Prod.exists] at h
  obtain ⟨whole, afterWhole, hwhole, fraction, afterFraction, hfraction, exponent, afterExponent,
    hexponent, h⟩ := h
  cases h
  obtain ⟨hfractionHead, hfractionRead⟩ := fractionPart_spec hfraction
  obtain ⟨hexponentHead, hexponentRead⟩ := exponentPart_spec hexponent
  have htail : EndsNumber exponent ∨ ∃ c more, exponent = c :: more ∧ (c = 'e' ∨ c = 'E') := by
    rcases hexponentHead with rfl | hhead
    · exact Or.inl endsNumber_nil
    · exact Or.inr hhead
  have hends : EndsDigits (fraction ++ exponent) := by
    intro c more heq
    rcases hfractionHead with rfl | ⟨rest, rfl⟩
    · rw [List.nil_append] at heq
      rcases hexponentHead with rfl | ⟨d, rest, rfl, hd⟩
      · cases heq
      · cases heq
        rcases hd with rfl | rfl
        · decide
        · decide
    · cases heq
      decide
  have hwholeRead := integerPart_spec hwhole (fraction ++ exponent) hends
  change number _ = _
  rw [String.toList_ofList]
  have hsign : ∀ sign, sign = ['-'] ∨ sign = [] →
      number (sign ++ (whole ++ (fraction ++ exponent))) =
        some (.number (String.ofList (sign ++ whole ++ fraction ++ exponent)), []) := by
    intro sign hsign
    have hminus : minusPart (sign ++ (whole ++ (fraction ++ exponent))) =
        (sign, whole ++ (fraction ++ exponent)) := by
      rcases hsign with rfl | rfl
      · rfl
      · rw [List.nil_append]
        unfold minusPart
        split
        · next heq =>
          rw [heq] at hwholeRead
          exact absurd hwholeRead (by simp [integerPart, digits, List.span, List.span.loop])
        · rfl
    unfold number
    simp only [hminus, Option.bind_eq_bind, hwholeRead, Option.bind_some,
      hfractionRead exponent htail, hexponentRead]
  have hread := hsign _ (minusPart_spec cs)
  simpa only [List.append_assoc] using hread

/-- What is read with this much fuel can be printed. -/
structure ReadsPrintable (fuel : Nat) : Prop where
  value : ∀ cs item rest, Json.value fuel cs = some (item, rest) → Printable item
  items : ∀ cs found rest, Json.items fuel cs = some (found, rest) → PrintableItems found
  fields : ∀ cs found rest, Json.fields fuel cs = some (found, rest) → PrintableMembers found

theorem readsPrintable_value {fuel : Nat} (ih : ReadsPrintable fuel) {cs rest : List Char}
    {item : JsonValue} (h : value (fuel + 1) cs = some (item, rest)) : Printable item := by
  rw [value] at h
  split at h
  · cases h
  · next c left _ =>
    split at h
    · obtain ⟨⟨s, more⟩, _, hitem⟩ := Option.map_eq_some_iff.mp h
      cases hitem
      trivial
    · split at h
      · split at h
        · cases h
          trivial
        · obtain ⟨⟨found, more⟩, hfound, hitem⟩ := Option.map_eq_some_iff.mp h
          cases hitem
          exact ih.items left found _ hfound
      · split at h
        · split at h
          · cases h
            trivial
          · obtain ⟨⟨found, more⟩, hfound, hitem⟩ := Option.map_eq_some_iff.mp h
            cases hitem
            exact ih.fields left found _ hfound
        · split at h
          · cases h
            trivial
          · cases h
            trivial
          · cases h
            trivial
          · exact isNumber_of_number h

theorem readsPrintable_items {fuel : Nat} (ih : ReadsPrintable fuel) {cs rest : List Char}
    {found : List JsonValue} (h : items (fuel + 1) cs = some (found, rest)) :
    PrintableItems found := by
  rw [items] at h
  simp only [Option.bind_eq_bind, Option.bind_eq_some_iff, Prod.exists] at h
  obtain ⟨item, left, hitem, h⟩ := h
  have hprintable := ih.value cs item left hitem
  split at h
  · obtain ⟨⟨others, end'⟩, hothers, heq⟩ := Option.map_eq_some_iff.mp h
    cases heq
    exact ⟨hprintable, ih.items _ others end' hothers⟩
  · cases h
    exact ⟨hprintable, trivial⟩
  · cases h

theorem readsPrintable_fields {fuel : Nat} (ih : ReadsPrintable fuel) {cs rest : List Char}
    {found : List (String × JsonValue)} (h : fields (fuel + 1) cs = some (found, rest)) :
    PrintableMembers found := by
  rw [fields] at h
  split at h
  · simp only [Option.bind_eq_bind, Option.bind_eq_some_iff, Prod.exists] at h
    obtain ⟨name, afterName, _, h⟩ := h
    split at h
    · simp only [Option.bind_eq_some_iff, Prod.exists] at h
      obtain ⟨item, left, hitem, h⟩ := h
      have hprintable := ih.value _ item left hitem
      split at h
      · next more _ =>
        obtain ⟨⟨others, end'⟩, hothers, heq⟩ := Option.map_eq_some_iff.mp h
        cases heq
        exact ⟨hprintable, ih.fields more others end' hothers⟩
      · cases h
        exact ⟨hprintable, trivial⟩
      · cases h
    · cases h
  · cases h

theorem readsPrintable (fuel : Nat) : ReadsPrintable fuel := by
  induction fuel with
  | zero =>
    constructor
    · intro cs item rest h
      rw [value] at h
      cases h
    · intro cs found rest h
      rw [items] at h
      cases h
    · intro cs found rest h
      rw [fields] at h
      cases h
  | succ fuel ih =>
    constructor
    · intro cs item rest h
      exact readsPrintable_value ih h
    · intro cs found rest h
      exact readsPrintable_items ih h
    · intro cs found rest h
      exact readsPrintable_fields ih h

/-- What `parse` reads, `stringify` can write. -/
theorem printable_parse {text : String} {item : JsonValue} (h : parse text = some item) :
    Printable item := by
  unfold parse at h
  split at h
  · next found rest hread =>
    split at h
    · cases h
      exact (readsPrintable _).value _ _ _ hread
    · cases h
  · cases h

/-! ## Integers -/

/-- The digits of a positive number do not begin with a zero. -/
theorem toDigits_head {n : ℕ} (h : 0 < n) :
    ∃ first rest, Nat.toDigits 10 n = first :: rest ∧ first ≠ '0' := by
  induction n using Nat.strong_induction_on with
  | _ n ih =>
    rcases Nat.lt_or_ge n 10 with hlt | hge
    · refine ⟨n.digitChar, [], Nat.toDigits_of_lt_base hlt, ?_⟩
      intro hzero
      have hvalue := Nat.toNat_digitChar_sub_48_of_lt_ten hlt
      rw [hzero] at hvalue
      simp at hvalue
      omega
    · obtain ⟨first, rest, hdigits, hfirst⟩ := ih (n / 10) (by omega) (by omega)
      refine ⟨first, rest ++ [(n % 10).digitChar], ?_, hfirst⟩
      rw [Nat.toDigits_of_base_le (by decide) hge, hdigits, List.cons_append]

theorem integerPart_toDigits (n : ℕ) :
    integerPart (Nat.toDigits 10 n) = some (Nat.toDigits 10 n, []) := by
  rcases Nat.eq_zero_or_pos n with rfl | hpos
  · rfl
  · obtain ⟨first, rest, hcs, hfirst⟩ := toDigits_head hpos
    have hall : ∀ c ∈ Nat.toDigits 10 n, c.isDigit = true :=
      fun c hc => Nat.isDigit_of_mem_toDigits (by decide) (by decide) hc
    have hdigits : digits (Nat.toDigits 10 n) = (Nat.toDigits 10 n, []) := by
      unfold digits
      rw [List.span_eq_takeWhile_dropWhile, List.takeWhile_eq_self_iff.mpr hall,
        List.dropWhile_eq_nil_iff.mpr hall]
    unfold integerPart
    rw [hdigits, hcs]
    split
    · next heq => cases heq
    · next heq =>
      cases heq
      exact absurd rfl hfirst
    · next heq =>
      cases heq
      exact absurd rfl hfirst
    · rfl

theorem isNumber_natRepr (n : ℕ) : IsNumber (Nat.repr n) := by
  have hminus : minusPart (Nat.toDigits 10 n) = ([], Nat.toDigits 10 n) := by
    cases hcs : Nat.toDigits 10 n with
    | nil => rfl
    | cons c rest =>
      have hdigit : c.isDigit = true :=
        Nat.isDigit_of_mem_toDigits (by decide) (by decide) (hcs ▸ List.mem_cons_self)
      unfold minusPart
      split
      · next heq =>
        cases heq
        exact absurd hdigit (by decide)
      · rfl
  unfold IsNumber number
  rw [Nat.toList_repr, hminus]
  simp only [Option.bind_eq_bind, integerPart_toDigits, Option.bind_some]
  rw [Nat.repr_eq_ofList_toDigits]
  simp [fractionPart, exponentPart]

theorem isNumber_toString : ∀ n : ℤ, IsNumber (toString n)
  | .ofNat n => isNumber_natRepr n
  | .negSucc n => by
    have htext : (toString (Int.negSucc n)).toList = '-' :: Nat.toDigits 10 n.succ := by
      change ("-" ++ Nat.repr n.succ).toList = _
      simp
    have hof : toString (Int.negSucc n) = String.ofList ('-' :: Nat.toDigits 10 n.succ) := by
      rw [← htext, String.ofList_toList]
    unfold IsNumber number
    rw [htext, hof]
    simp only [Option.bind_eq_bind, minusPart, integerPart_toDigits, Option.bind_some]
    simp [fractionPart, exponentPart]

end Json

end Regenic.Lib
