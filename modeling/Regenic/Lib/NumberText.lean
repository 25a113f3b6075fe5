import Regenic.Lib.Binary64
import Regenic.Lib.JsonText

/-!
The text of a number: `Number::toString`, the shortest decimal that is read as the number, and
the reader of the number literals of JSON, which takes the text back to the number.
-/

namespace Regenic.Lib

/-! ## The shortest decimal -/

structure Decimal where
  significand : ℕ
  exponent : ℤ
  deriving DecidableEq, Repr

def Decimal.value (d : Decimal) : ℚ := d.significand * 10 ^ d.exponent

/-- The integers on both sides of a number, the nearer one first, and the even one of two that
are as near. -/
def neighbours (x : ℚ) : List ℤ :=
  [roundEven x, if roundEven x = ⌊x⌋ then ⌊x⌋ + 1 else ⌊x⌋]

/-- The nearest decimal of so many digits that is read as a positive number. -/
def decimalOfLength (x : ℚ) (length : ℕ) : Option Decimal :=
  let exponent := Int.log 10 x + 1 - length
  ((neighbours (x / 10 ^ exponent)).find? fun (s : ℤ) =>
      binary64.nearest (s * 10 ^ exponent) = x).map fun s =>
    -- A decimal that is rounded up to the next power of ten has that power's digits.
    if s = 10 ^ length then ⟨10 ^ (length - 1), exponent + 1⟩ else ⟨s.toNat, exponent⟩

/-- No number has more digits than this. -/
def digitsBound (x : ℚ) : ℕ := (Int.log 10 x + 1 + 1074).toNat + 1

/-- The shortest decimal that is read as a positive number. -/
def shortest (x : ℚ) : Decimal :=
  ((List.range (digitsBound x)).findSome? fun length => decimalOfLength x (length + 1)).getD ⟨0, 0⟩

/-! ## Its text -/

/-- The parts of a number literal. -/
def numeral (whole fraction exponent : List Char) : List Char :=
  whole ++ ((if fraction = [] then [] else '.' :: fraction) ++ exponent)

/-- Step 6 on of `Number::toString` for a positive number. -/
def decimalText (d : Decimal) : List Char :=
  let digits := Nat.toDigits 10 d.significand
  let k : ℤ := digits.length
  let n := d.exponent + k
  if k ≤ n ∧ n ≤ 21 then numeral (digits ++ List.replicate (n - k).toNat '0') [] []
  else if 0 < n ∧ n ≤ 21 then numeral (digits.take n.toNat) (digits.drop n.toNat) []
  else if -6 < n ∧ n ≤ 0 then numeral ['0'] (List.replicate (-n).toNat '0' ++ digits) []
  else
    let sign := if n < 0 then '-' else '+'
    numeral (digits.take 1) (digits.drop 1) ('e' :: sign :: Nat.toDigits 10 (n - 1).natAbs)

/-- `Number::toString` with radix 10. -/
def numberText : JsNumber → List Char
  | .nan => "NaN".toList
  | .infinity negative => if negative then "-Infinity".toList else "Infinity".toList
  | .negativeZero => ['0']
  | .finite x =>
    if x.value = 0 then ['0']
    else if x.value < 0 then '-' :: decimalText (shortest (-x.value))
    else decimalText (shortest x.value)

/-! ## Reading it -/

namespace Json

def exponentValue (exponent : List Char) : ℤ :=
  let (sign, digits) := exponentSign exponent.tail
  if sign = ['-'] then -(Nat.ofDigitChars 10 digits 0 : ℤ) else Nat.ofDigitChars 10 digits 0

/-- The value of the parts of a literal; the fraction begins with its point and the exponent
with its letter. -/
def numeralValue (negative : Bool) (whole fraction exponent : List Char) : JsNumber :=
  let magnitude : ℚ := Nat.ofDigitChars 10 (whole ++ fraction.tail) 0 *
    10 ^ (exponentValue exponent - fraction.tail.length)
  JsNumber.ofRational negative (if negative then -magnitude else magnitude)

def jsNumber (cs : List Char) : Option (JsNumber × List Char) := do
  let (sign, rest) := minusPart cs
  let (whole, rest) ← integerPart rest
  let (fraction, rest) ← fractionPart rest
  let (exponent, rest) ← exponentPart rest
  some (numeralValue (sign = ['-']) whole fraction exponent, rest)

end Json

/-! ## The shortest decimal is read as the number -/

theorem mem_neighbours_nonneg {x : ℚ} {s : ℤ} (hx : 0 ≤ x) (h : s ∈ neighbours x) : 0 ≤ s := by
  have hfloor : 0 ≤ ⌊x⌋ := Int.floor_nonneg.mpr hx
  have hround : 0 ≤ roundEven x := le_roundEven (by simpa using hx)
  simp only [neighbours, List.mem_cons, List.not_mem_nil, or_false] at h
  rcases h with rfl | rfl
  · exact hround
  · split
    · omega
    · exact hfloor

theorem decimalOfLength_spec {x : ℚ} {length : ℕ} {d : Decimal} (hx : 0 < x)
    (hlength : 0 < length) (h : decimalOfLength x length = some d) :
    0 < d.significand ∧ binary64.nearest d.value = x := by
  unfold decimalOfLength at h
  obtain ⟨s, hfound, hd⟩ := Option.map_eq_some_iff.mp h
  generalize Int.log 10 x + 1 - (length : ℤ) = exponent at hfound hd
  have hpow : (0 : ℚ) < 10 ^ exponent := zpow_pos (by norm_num) _
  have hread : binary64.nearest (s * 10 ^ exponent) = x := by
    simpa using List.find?_some hfound
  have hnonneg : 0 ≤ s :=
    mem_neighbours_nonneg (div_nonneg hx.le hpow.le) (List.mem_of_find?_eq_some hfound)
  have hne : s ≠ 0 := by
    rintro rfl
    rw [Int.cast_zero, zero_mul, nearest_zero] at hread
    exact hx.ne hread
  obtain ⟨n, rfl⟩ := Int.eq_ofNat_of_zero_le hnonneg
  split at hd
  · next hpower =>
    subst hd
    have hvalue : Decimal.value ⟨10 ^ (length - 1), exponent + 1⟩ = ((n : ℤ) : ℚ) * 10 ^ exponent := by
      obtain ⟨k, rfl⟩ : ∃ k, length = k + 1 := ⟨length - 1, by omega⟩
      rw [hpower, Decimal.value, zpow_add₀ (by norm_num), zpow_one]
      rw [Nat.add_sub_cancel]
      push_cast
      ring
    exact ⟨Nat.pow_pos (by decide), by rw [hvalue, hread]⟩
  · subst hd
    refine ⟨by simp only [Int.toNat_natCast]; omega, ?_⟩
    simpa [Decimal.value] using hread

/-- A multiple of a power of one half, counted in a smaller power of one tenth. -/
theorem scaled_multiple {x : ℚ} {digits : ℤ} {least : ℕ} (more : ℕ)
    (hx : x = digits * 2 ^ (-least : ℤ)) :
    x / 10 ^ (-((least + more : ℕ) : ℤ)) = ((digits * 5 ^ (least + more) * 2 ^ more : ℤ) : ℚ) := by
  have hten : (10 : ℚ) = 2 * 5 := by norm_num
  have hne : (2 : ℚ) ^ least ≠ 0 := pow_ne_zero _ two_ne_zero
  rw [hx, zpow_neg, zpow_neg, div_inv_eq_mul, zpow_natCast, zpow_natCast, hten, mul_pow,
    pow_add 2]
  push_cast
  field_simp

/-- A number with all of its digits is the decimal itself. -/
theorem decimalOfLength_isSome {x : ℚ} (hheld : binary64.nearest x = x) {length : ℕ}
    (hlength : Int.log 10 x + 1 - length ≤ -1074) : (decimalOfLength x length).isSome := by
  unfold decimalOfLength
  rw [Option.isSome_map]
  generalize Int.log 10 x + 1 - (length : ℤ) = exponent at hlength
  have hpow : (10 : ℚ) ^ exponent ≠ 0 := zpow_ne_zero _ (by norm_num)
  obtain ⟨digits, hdigits⟩ : ∃ digits : ℤ, x = digits * 2 ^ (-(1074 : ℕ) : ℤ) :=
    binary64.exists_multiple_least hheld
  obtain ⟨more, hmore⟩ : ∃ more : ℕ, exponent = -((1074 + more : ℕ) : ℤ) :=
    ⟨(-1074 - exponent).toNat, by omega⟩
  have hinteger := scaled_multiple more hdigits
  rw [← hmore] at hinteger
  have hround : ((roundEven (x / 10 ^ exponent) : ℤ) : ℚ) * 10 ^ exponent = x := by
    rw [hinteger, roundEven_intCast, ← hinteger, div_mul_cancel₀ x hpow]
  rw [List.find?_isSome]
  refine ⟨_, List.mem_cons_self, ?_⟩
  rw [hround, hheld]
  exact decide_eq_true rfl

theorem shortest_spec {x : ℚ} (hx : 0 < x) (hheld : binary64.nearest x = x) :
    0 < (shortest x).significand ∧ binary64.nearest (shortest x).value = x := by
  unfold shortest
  have hsome : ((List.range (digitsBound x)).findSome? fun length =>
      decimalOfLength x (length + 1)).isSome := by
    rw [List.findSome?_isSome_iff]
    refine ⟨(Int.log 10 x + 1 + 1074).toNat, List.mem_range.mpr (Nat.lt_succ_self _), ?_⟩
    apply decimalOfLength_isSome hheld
    omega
  obtain ⟨d, hd⟩ := Option.isSome_iff_exists.mp hsome
  obtain ⟨length, _, hfound⟩ := List.exists_of_findSome?_eq_some hd
  rw [hd, Option.getD_some]
  exact decimalOfLength_spec hx (Nat.succ_pos length) hfound

/-! ## The parts of a literal are read back -/

namespace Json

theorem digits_of_all {ds tail : List Char} (hds : ∀ c ∈ ds, c.isDigit = true)
    (htail : EndsDigits tail) : digits (ds ++ tail) = (ds, tail) := by
  unfold digits
  rw [List.span_eq_takeWhile_dropWhile, List.takeWhile_append_of_pos hds,
    List.dropWhile_append_of_pos hds]
  cases tail with
  | nil => simp
  | cons c more => simp [htail c more rfl]

/-- Digits without a zero before others. -/
structure IsWhole (ds : List Char) : Prop where
  digits : ∀ c ∈ ds, c.isDigit = true
  ne_nil : ds ≠ []
  head : ds = ['0'] ∨ ds.head? ≠ some '0'

theorem IsWhole.read {ds tail : List Char} (h : IsWhole ds) (htail : EndsDigits tail) :
    integerPart (ds ++ tail) = some (ds, tail) := by
  unfold integerPart
  rw [digits_of_all h.digits htail]
  split
  · next heq =>
    cases heq
    exact absurd rfl h.ne_nil
  · next heq =>
    cases heq
    rfl
  · next heq =>
    cases heq
    rcases h.head with hzero | hhead
    · exact absurd (List.cons.inj hzero).2 ‹_›
    · exact absurd rfl hhead
  · rfl

theorem isWhole_toDigits (n : ℕ) : IsWhole (Nat.toDigits 10 n) where
  digits _ hc := Nat.isDigit_of_mem_toDigits (by decide) (by decide) hc
  ne_nil := Nat.toDigits_ne_nil
  head := by
    rcases Nat.eq_zero_or_pos n with rfl | hpos
    · exact Or.inl (Nat.toDigits_zero 10)
    · obtain ⟨first, rest, hdigits, hfirst⟩ := toDigits_head hpos
      rw [hdigits]
      exact Or.inr fun hhead => hfirst (Option.some.inj hhead)

theorem isWhole_zero : IsWhole ['0'] where
  digits c hc := by
    rw [List.mem_singleton.mp hc]
    decide
  ne_nil := List.cons_ne_nil _ _
  head := Or.inl rfl

/-- An exponent with its letter and its sign. -/
def IsExponent (exponent : List Char) : Prop :=
  ∃ sign ds, exponent = 'e' :: sign :: ds ∧ (sign = '+' ∨ sign = '-') ∧ ds ≠ [] ∧
    ∀ c ∈ ds, c.isDigit = true

theorem IsExponent.read {exponent rest : List Char} (h : IsExponent exponent)
    (hrest : EndsNumber rest) : exponentPart (exponent ++ rest) = some (exponent, rest) := by
  obtain ⟨sign, ds, rfl, hsign, hne, hds⟩ := h
  have hends : EndsDigits rest := fun c more heq => (hrest c more heq).1
  have hread : exponentSign (sign :: ds ++ rest) = ([sign], ds ++ rest) := by
    rcases hsign with rfl | rfl
    · rfl
    · rfl
  rw [List.cons_append]
  unfold exponentPart
  simp only [hread, digits_of_all hds hends]
  cases ds with
  | nil => exact absurd rfl hne
  | cons d ds => rfl

/-- The parts of a number literal. -/
structure IsNumeral (whole fraction exponent : List Char) : Prop where
  whole : IsWhole whole
  fraction : ∀ c ∈ fraction, c.isDigit = true
  exponent : exponent = [] ∨ IsExponent exponent

/-- What the parts of a literal are worth. -/
def partsValue (whole fraction exponent : List Char) : ℚ :=
  Nat.ofDigitChars 10 (whole ++ fraction) 0 * 10 ^ (exponentValue exponent - fraction.length)

variable {whole fraction exponent rest : List Char}

theorem IsNumeral.exponent_read (h : IsNumeral whole fraction exponent)
    (hrest : EndsNumber rest) : exponentPart (exponent ++ rest) = some (exponent, rest) := by
  rcases h.exponent with rfl | hexponent
  · cases rest with
    | nil => rfl
    | cons c more =>
      obtain ⟨_, _, hlower, hupper⟩ := hrest c more rfl
      simp [exponentPart, hlower, hupper]
  · exact hexponent.read hrest

/-- No digit and no point stands where the exponent begins or the literal ends. -/
theorem IsNumeral.exponent_head (h : IsNumeral whole fraction exponent)
    (hrest : EndsNumber rest) {c : Char} {more : List Char} (heq : exponent ++ rest = c :: more) :
    c.isDigit = false ∧ c ≠ '.' := by
  rcases h.exponent with rfl | ⟨sign, ds, rfl, _⟩
  · obtain ⟨hdigit, hdot, _⟩ := hrest c more heq
    exact ⟨hdigit, hdot⟩
  · cases heq
    decide

/-- The literal, read after its sign. -/
theorem IsNumeral.read (h : IsNumeral whole fraction exponent) (hrest : EndsNumber rest)
    (negative : Bool) :
    jsNumber ((if negative then ['-'] else []) ++ numeral whole fraction exponent ++ rest) =
      some (JsNumber.ofRational negative
        (if negative then -partsValue whole fraction exponent
          else partsValue whole fraction exponent), rest) := by
  let point := if fraction = [] then [] else '.' :: fraction
  have htail : point.tail = fraction := by
    by_cases hnil : fraction = []
    · simp [point, hnil]
    · simp [point, hnil]
  have hfraction : fractionPart (point ++ (exponent ++ rest)) = some (point, exponent ++ rest) := by
    have hends : EndsDigits (exponent ++ rest) :=
      fun c more heq => (h.exponent_head hrest heq).1
    cases hcs : fraction with
    | nil =>
      simp only [point, hcs, if_true, List.nil_append]
      cases hmore : exponent ++ rest with
      | nil => rfl
      | cons c more =>
        have hdot := (h.exponent_head hrest hmore).2
        unfold fractionPart
        split
        · next heq =>
          cases heq
          exact absurd rfl hdot
        · rfl
    | cons d ds =>
      simp only [point, hcs, if_neg (List.cons_ne_nil d ds), List.cons_append]
      unfold fractionPart
      rw [← List.cons_append, ← hcs]
      simp only [digits_of_all h.fraction hends]
      rw [hcs]
  have hwhole : integerPart (whole ++ (point ++ (exponent ++ rest))) =
      some (whole, point ++ (exponent ++ rest)) := by
    apply h.whole.read
    intro c more heq
    by_cases hnil : fraction = []
    · simp only [point, hnil, if_true, List.nil_append] at heq
      exact (h.exponent_head hrest heq).1
    · simp only [point, hnil, if_false, List.cons_append, List.cons.injEq] at heq
      rw [← heq.1]
      decide
  have hminus : minusPart ((if negative then ['-'] else []) ++
      (whole ++ (point ++ (exponent ++ rest)))) =
        (if negative then ['-'] else [], whole ++ (point ++ (exponent ++ rest))) := by
    cases negative with
    | true => rfl
    | false =>
      obtain ⟨c, more, hcs⟩ := List.exists_cons_of_ne_nil h.whole.ne_nil
      have hdigit := h.whole.digits c (hcs ▸ List.mem_cons_self)
      rw [hcs]
      simp only [Bool.false_eq_true, if_false, List.nil_append, List.cons_append]
      unfold minusPart
      split
      · next heq =>
        cases heq
        exact absurd hdigit (by decide)
      · rfl
  have htext : (if negative then ['-'] else []) ++ numeral whole fraction exponent ++ rest =
      (if negative then ['-'] else []) ++ (whole ++ (point ++ (exponent ++ rest))) := by
    simp [numeral, point]
  rw [htext]
  unfold jsNumber
  simp only [hminus, Option.bind_eq_bind, hwhole, Option.bind_some, hfraction,
    h.exponent_read hrest]
  unfold numeralValue partsValue
  rw [htail]
  cases negative with
  | true => rfl
  | false => rfl

end Json

/-! ## The text of a number is read back -/

open Json

theorem partsValue_digits (whole fraction : List Char) :
    partsValue whole fraction [] =
      Nat.ofDigitChars 10 (whole ++ fraction) 0 * 10 ^ (-(fraction.length : ℤ)) := by
  simp [partsValue, exponentValue, exponentSign, Nat.ofDigitChars]

theorem isWhole_append {first : Char} {others more : List Char}
    (hdigits : ∀ c ∈ first :: others, c.isDigit = true) (hfirst : first ≠ '0')
    (hmore : ∀ c ∈ more, c.isDigit = true) : IsWhole (first :: others ++ more) where
  digits := by
    intro c hc
    rcases List.mem_append.mp hc with hc | hc
    · exact hdigits c hc
    · exact hmore c hc
  ne_nil := List.cons_ne_nil _ _
  head := Or.inr fun hhead => hfirst (Option.some.inj hhead)

theorem isDigit_replicate_zero {n : ℕ} : ∀ c ∈ List.replicate n '0', c.isDigit = true := by
  intro c hc
  rw [List.eq_of_mem_replicate hc]
  decide

theorem exponentValue_text {n : ℤ} (hn : n < 0 ∨ 0 < n) :
    exponentValue ('e' :: (if n < 0 then '-' else '+') :: Nat.toDigits 10 (n - 1).natAbs) =
      n - 1 := by
  rcases hn with hneg | hpos
  · have hsign : exponentSign ('-' :: Nat.toDigits 10 (n - 1).natAbs) =
        (['-'], Nat.toDigits 10 (n - 1).natAbs) := rfl
    rw [if_pos hneg]
    simp only [exponentValue, List.tail_cons, hsign, if_true, Nat.ofDigitChars_ten_toDigits]
    omega
  · have hsign : exponentSign ('+' :: Nat.toDigits 10 (n - 1).natAbs) =
        (['+'], Nat.toDigits 10 (n - 1).natAbs) := rfl
    rw [if_neg (by omega)]
    have hplus : (['+'] : List Char) ≠ ['-'] := by decide
    simp only [exponentValue, List.tail_cons, hsign, if_neg hplus, Nat.ofDigitChars_ten_toDigits]
    omega

theorem isExponent_text (n : ℤ) :
    IsExponent ('e' :: (if n < 0 then '-' else '+') :: Nat.toDigits 10 (n - 1).natAbs) := by
  refine ⟨_, _, rfl, ?_, Nat.toDigits_ne_nil, (isWhole_toDigits _).digits⟩
  split
  · exact Or.inr rfl
  · exact Or.inl rfl

/-- The text of a positive decimal is a literal that is worth the decimal. -/
theorem decimalText_parts {d : Decimal} (hd : 0 < d.significand) :
    ∃ whole fraction exponent, IsNumeral whole fraction exponent ∧
      decimalText d = numeral whole fraction exponent ∧
      partsValue whole fraction exponent = d.value := by
  obtain ⟨s, e⟩ := d
  have hdigits := (isWhole_toDigits s).digits
  have hvalue : Nat.ofDigitChars 10 (Nat.toDigits 10 s) 0 = s := Nat.ofDigitChars_ten_toDigits
  obtain ⟨first, others, hcs, hfirst⟩ := toDigits_head (n := s) hd
  have hten : (10 : ℚ) ≠ 0 := by norm_num
  unfold decimalText Decimal.value
  simp only
  rw [hcs] at hdigits hvalue ⊢
  simp only [List.length_cons]
  generalize hn : e + ((others.length + 1 : ℕ) : ℤ) = n
  split
  · -- All digits stand before the point, with zeros after them.
    next hlong =>
    refine ⟨_, _, _, ⟨isWhole_append hdigits hfirst isDigit_replicate_zero,
      fun c hc => absurd hc List.not_mem_nil, Or.inl rfl⟩, rfl, ?_⟩
    obtain ⟨z, rfl⟩ := Int.eq_ofNat_of_zero_le (a := e) (by omega)
    have hzeros : (n - ((others.length + 1 : ℕ) : ℤ)).toNat = z := by omega
    rw [hzeros, partsValue_digits, List.append_nil, Nat.ofDigitChars_append, hvalue,
      Nat.ofDigitChars_replicate_zero]
    push_cast
    simp [mul_comm]
  split
  · -- The point stands among the digits.
    next hlong hamong =>
    have hlt : n.toNat < others.length + 1 := by omega
    obtain ⟨taken, htaken⟩ : ∃ taken, n.toNat = taken + 1 := ⟨n.toNat - 1, by omega⟩
    refine ⟨_, _, _, ⟨?_, fun c hc => hdigits c (List.mem_of_mem_drop hc), Or.inl rfl⟩, rfl, ?_⟩
    · rw [htaken, List.take_succ_cons, ← List.append_nil (first :: _)]
      exact isWhole_append
        (fun c hc => hdigits c (by
          rcases List.mem_cons.mp hc with rfl | hc
          · exact List.mem_cons_self
          · exact List.mem_cons_of_mem _ (List.mem_of_mem_take hc))) hfirst
        fun c hc => absurd hc List.not_mem_nil
    · rw [partsValue_digits, List.take_append_drop, hvalue, List.length_drop, List.length_cons]
      congr 2
      omega
  split
  · -- Zeros stand behind the point.
    next hlong hamong hsmall =>
    refine ⟨_, _, _, ⟨isWhole_zero, ?_, Or.inl rfl⟩, rfl, ?_⟩
    · intro c hc
      rcases List.mem_append.mp hc with hc | hc
      · exact isDigit_replicate_zero c hc
      · exact hdigits c hc
    · rw [partsValue_digits, ← List.append_assoc, List.singleton_append, ← List.replicate_succ,
        Nat.ofDigitChars_append, Nat.ofDigitChars_replicate_zero, Nat.mul_zero, hvalue,
        List.length_append, List.length_replicate, List.length_cons]
      congr 2
      omega
  · -- One digit stands before the point, with an exponent.
    next hlong hamong hsmall =>
    refine ⟨_, _, _, ⟨?_, fun c hc => hdigits c (List.mem_of_mem_drop hc),
      Or.inr (isExponent_text n)⟩, rfl, ?_⟩
    · exact @isWhole_append first [] []
        (fun c hc => hdigits c (by rw [List.mem_singleton.mp hc]; exact List.mem_cons_self))
        hfirst fun c hc => absurd hc List.not_mem_nil
    · unfold partsValue
      rw [List.take_append_drop, hvalue, exponentValue_text (by omega), List.drop_one,
        List.tail_cons]
      congr 2
      omega

theorem jsNumber_zero {rest : List Char} (hrest : EndsNumber rest) :
    jsNumber ('0' :: rest) = some (.finite .zero, rest) := by
  have hparts : IsNumeral ['0'] [] [] := ⟨isWhole_zero, by simp, Or.inl rfl⟩
  have hread := hparts.read hrest false
  have hvalue : partsValue ['0'] [] [] = 0 := by simp [partsValue, Nat.ofDigitChars]
  rw [hvalue] at hread
  rw [← JsNumber.ofRational_zero]
  exact hread

/-- The text of a positive number, behind its sign. -/
theorem jsNumber_decimalText {x : Double} (negative : Bool) (hne : x.value ≠ 0)
    (hsign : if negative then x.value < 0 else 0 < x.value) {rest : List Char}
    (hrest : EndsNumber rest) :
    jsNumber ((if negative then ['-'] else []) ++
      decimalText (shortest (if negative then -x.value else x.value)) ++ rest) =
        some (.finite x, rest) := by
  have hpositive : 0 < if negative then -x.value else x.value := by
    cases negative with
    | true => simpa using hsign
    | false => simpa using hsign
  have hheld : binary64.nearest (if negative then -x.value else x.value) =
      if negative then -x.value else x.value := by
    cases negative with
    | true => simp [BinaryFormat.nearest_neg, x.held]
    | false => simp [x.held]
  obtain ⟨hsignificand, hnearest⟩ := shortest_spec hpositive hheld
  obtain ⟨whole, fraction, exponent, hparts, htext, hvalue⟩ := decimalText_parts hsignificand
  rw [htext, hparts.read hrest negative, hvalue]
  congr 2
  apply JsNumber.ofRational_held x _ hne
  cases negative with
  | true =>
    simp only [if_true] at hnearest ⊢
    rw [BinaryFormat.nearest_neg, hnearest, neg_neg]
  | false =>
    simp only [Bool.false_eq_true, if_false] at hnearest ⊢
    exact hnearest

/-- The text of a number is read back, up to the sign of zero, and no further. -/
theorem jsNumber_numberText {x : JsNumber} (hx : x.isFinite = true) {rest : List Char}
    (hrest : EndsNumber rest) : jsNumber (numberText x ++ rest) = some (x.unsigned, rest) := by
  cases x with
  | nan => cases hx
  | infinity negative => cases hx
  | negativeZero => exact jsNumber_zero hrest
  | finite x =>
    rw [numberText]
    split
    · next hzero =>
      have hsame : x = .zero := Double.ext_value hzero
      rw [hsame]
      exact jsNumber_zero hrest
    · next hne =>
      split
      · next hneg => exact jsNumber_decimalText true hne hneg hrest
      · next hpos =>
        have hpositive : 0 < x.value := lt_of_le_of_ne (not_lt.mp hpos) (Ne.symm hne)
        exact jsNumber_decimalText false hne hpositive hrest

end Regenic.Lib
