import Regenic.Lib.NumberText
import Regenic.Lib.Utf16
import Regenic.Recipes.LocalDays

/-!
Timestamps with an offset, as the schemas accept them, and what `Date` makes of them. A `Date`
holds a whole millisecond, and `toISOString` writes it in one way.
-/

namespace Regenic.Context.Canonical

open Lib
open Recipes (CalendarDate dateUTC civilFromDays daysFromCivil msPerDay)

/-! ## Reading a timestamp -/

/-- The parts of a timestamp; the fraction of its second is a list of digits. -/
structure IsoTimestamp where
  date : CalendarDate
  hour : ℕ
  minute : ℕ
  second : ℕ
  fraction : List Char
  offsetMinutes : ℤ

def isLeapYear (year : ℕ) : Bool := year % 4 = 0 && (year % 100 ≠ 0 || year % 400 = 0)

def daysInMonth (year month : ℕ) : ℕ :=
  if month = 2 then if isLeapYear year then 29 else 28
  else if month = 4 ∨ month = 6 ∨ month = 9 ∨ month = 11 then 30
  else 31

/-- So many digits at the head of a text. -/
def readDigits (count : ℕ) (cs : List Char) : Option (ℕ × List Char) :=
  if (cs.take count).length = count ∧ (cs.take count).all Char.isDigit then
    some (Nat.ofDigitChars 10 (cs.take count) 0, cs.drop count)
  else none

/-- Two digits that are worth no more than a bound. -/
def readPair (bound : ℕ) (cs : List Char) : Option (ℕ × List Char) :=
  (readDigits 2 cs).filter fun read => read.1 ≤ bound

def readChar (c : Char) : List Char → Option (List Char)
  | d :: rest => if d = c then some rest else none
  | [] => none

/-- The second and its fraction, which may be left out. -/
def readSecond : List Char → Option (ℕ × List Char × List Char)
  | ':' :: rest => do
    let (second, rest) ← readPair 59 rest
    match rest with
    | '.' :: rest =>
      match Json.digits rest with
      | ([], _) => none
      | (fraction, rest) => some (second, fraction, rest)
    | rest => some (second, [], rest)
  | rest => some (0, [], rest)

def readOffset : List Char → Option ℤ
  | ['Z'] => some 0
  | sign :: rest => do
    let (hours, rest) ← readPair 23 rest
    let rest ← readChar ':' rest
    let (minutes, rest) ← readPair 59 rest
    if rest ≠ [] then none
    else if sign = '+' then some (hours * 60 + minutes)
    else if sign = '-' then some (-(hours * 60 + minutes))
    else none
  | [] => none

/-- `z.string().datetime({ offset: true })`. -/
def readTimestamp (value : CodeUnits) : Option IsoTimestamp := do
  let (year, rest) ← readDigits 4 (value.map fun unit => Char.ofNat unit.toNat)
  let rest ← readChar '-' rest
  let (month, rest) ← (readPair 12 rest).filter fun read => 1 ≤ read.1
  let rest ← readChar '-' rest
  let (day, rest) ← (readPair (daysInMonth year month) rest).filter fun read => 1 ≤ read.1
  let rest ← readChar 'T' rest
  let (hour, rest) ← readPair 23 rest
  let rest ← readChar ':' rest
  let (minute, rest) ← readPair 59 rest
  let (second, fraction, rest) ← readSecond rest
  let offsetMinutes ← readOffset rest
  some { date := ⟨year, month, day⟩, hour, minute, second, fraction, offsetMinutes }

namespace IsoTimestamp

variable (timestamp : IsoTimestamp)

/-- The instant of the whole second. -/
def secondMs : ℤ :=
  dateUTC timestamp.date timestamp.hour timestamp.minute timestamp.second -
    timestamp.offsetMinutes * 60000

/-- The instant that a timestamp denotes, in milliseconds. -/
def instant : ℚ :=
  timestamp.secondMs +
    Nat.ofDigitChars 10 timestamp.fraction 0 * 1000 / 10 ^ timestamp.fraction.length

/-- The milliseconds that V8 reads from the digits of a fraction: of the first nine, the zeros
at the head not counted, it drops those after the third. -/
def milliseconds : ℕ :=
  let number := Nat.ofDigitChars 10 ((timestamp.fraction.dropWhile (· = '0')).take 9) 0
  let length := timestamp.fraction.length
  if length ≤ 3 then number * 10 ^ (3 - length) else number / 10 ^ (min length 9 - 3)

/-- The time value of the `Date`. -/
def time : ℤ := timestamp.secondMs + timestamp.milliseconds

end IsoTimestamp

/-- `Date.parse` of a timestamp that the schemas accept; what else it reads, by rules of its own,
is left out. -/
def dateParse (value : CodeUnits) : Option ℤ := (readTimestamp value).map IsoTimestamp.time

/-! ## Writing a date -/

def padded (width n : ℕ) : List Char :=
  List.replicate (width - (Nat.toDigits 10 n).length) '0' ++ Nat.toDigits 10 n

def yearText (year : ℤ) : List Char :=
  if 0 ≤ year ∧ year ≤ 9999 then padded 4 year.toNat
  else (if year < 0 then '-' else '+') :: padded 6 year.natAbs

def isoText (ms : ℤ) : List Char :=
  let date := civilFromDays (ms / msPerDay)
  let rest := (ms % msPerDay).toNat
  yearText date.year ++ '-' :: (padded 2 date.month.toNat ++ '-' :: (padded 2 date.day.toNat ++
    'T' :: (padded 2 (rest / 3600000) ++ ':' :: (padded 2 (rest / 60000 % 60) ++
      ':' :: (padded 2 (rest / 1000 % 60) ++ '.' :: (padded 3 (rest % 1000) ++ ['Z']))))))

/-- The greatest distance of a `Date` from the epoch. -/
def maxTime : ℤ := 8640000000000000

/-- `Date.prototype.toISOString`. -/
def toISOString (ms : ℤ) : Except CodeUnits CodeUnits :=
  if |ms| ≤ maxTime then .ok (utf16 (String.ofList (isoText ms)))
  else .error (utf16 "Invalid time value")

/-- `new Date(value).toISOString()`. -/
def normalizeTimestamp (value : CodeUnits) : Except CodeUnits CodeUnits :=
  match dateParse value with
  | some ms => toISOString ms
  | none => .error (utf16 "Invalid time value")

/-! ## One text for every instant -/

theorem length_padded {width n : ℕ} (hwidth : 0 < width) (h : n < 10 ^ width) :
    (padded width n).length = width := by
  have hlength := (Nat.length_toDigits_le_iff (by decide) hwidth).mpr h
  rw [padded, List.length_append, List.length_replicate]
  omega

theorem ofDigitChars_padded (width n : ℕ) : Nat.ofDigitChars 10 (padded width n) 0 = n := by
  rw [padded, Nat.ofDigitChars_append, Nat.ofDigitChars_replicate_zero, Nat.mul_zero,
    Nat.ofDigitChars_ten_toDigits]

/-- Numbers of one width are told apart, and what follows them. -/
theorem padded_append_inj {width n n' : ℕ} {rest rest' : List Char} (hwidth : 0 < width)
    (hn : n < 10 ^ width) (hn' : n' < 10 ^ width)
    (h : padded width n ++ rest = padded width n' ++ rest') : n = n' ∧ rest = rest' := by
  have hlength : (padded width n).length = (padded width n').length := by
    rw [length_padded hwidth hn, length_padded hwidth hn']
  obtain ⟨hpadded, hrest⟩ := List.append_inj h hlength
  rw [← ofDigitChars_padded width n, hpadded, ofDigitChars_padded]
  exact ⟨rfl, hrest⟩

/-- The first character of a padded number is a digit. -/
theorem padded_head (width n : ℕ) : ∃ c cs, padded width n = c :: cs ∧ c.isDigit = true := by
  have hall : ∀ c ∈ padded width n, c.isDigit = true := by
    intro c hc
    rcases List.mem_append.mp hc with hc | hc
    · rw [List.eq_of_mem_replicate hc]
      decide
    · exact Nat.isDigit_of_mem_toDigits (by decide) (by decide) hc
  have hne : padded width n ≠ [] := by
    intro hnil
    exact Nat.toDigits_ne_nil (List.append_eq_nil_iff.mp hnil).2
  obtain ⟨c, cs, hcs⟩ := List.exists_cons_of_ne_nil hne
  exact ⟨c, cs, hcs, hall c (hcs ▸ List.mem_cons_self)⟩

theorem yearText_append_inj {year year' : ℤ} {rest rest' : List Char}
    (hyear : |year| < 10 ^ 6) (hyear' : |year'| < 10 ^ 6)
    (h : yearText year ++ rest = yearText year' ++ rest') : year = year' ∧ rest = rest' := by
  have hsigned : ∀ {y : ℤ} {n : ℕ} {left right : List Char},
      (if y < 0 then '-' else '+') :: left ≠ padded 4 n ++ right := by
    intro y n left right heq
    obtain ⟨c, cs, hcs, hdigit⟩ := padded_head 4 n
    rw [hcs] at heq
    have hhead := (List.cons.inj heq).1
    rw [← hhead] at hdigit
    split at hdigit
    · exact absurd hdigit (by decide)
    · exact absurd hdigit (by decide)
  have habs := abs_lt.mp hyear
  have habs' := abs_lt.mp hyear'
  unfold yearText at h
  by_cases hshort : 0 ≤ year ∧ year ≤ 9999
  · by_cases hshort' : 0 ≤ year' ∧ year' ≤ 9999
    · rw [if_pos hshort, if_pos hshort'] at h
      obtain ⟨hsame, hrest⟩ := padded_append_inj (by decide) (by omega) (by omega) h
      exact ⟨by omega, hrest⟩
    · rw [if_pos hshort, if_neg hshort'] at h
      exact absurd h.symm hsigned
  · by_cases hshort' : 0 ≤ year' ∧ year' ≤ 9999
    · rw [if_neg hshort, if_pos hshort'] at h
      exact absurd h hsigned
    · rw [if_neg hshort, if_neg hshort'] at h
      obtain ⟨hsign, htail⟩ := List.cons.inj h
      obtain ⟨hsame, hrest⟩ := padded_append_inj (by decide) (by omega) (by omega) htail
      refine ⟨?_, hrest⟩
      split at hsign
      · split at hsign
        · omega
        · exact absurd hsign (by decide)
      · split at hsign
        · exact absurd hsign (by decide)
        · omega

/-- The month and the day of a date have two digits. -/
theorem civilFromDays_bounds (days : ℤ) :
    1 ≤ (civilFromDays days).month ∧ (civilFromDays days).month ≤ 12 ∧
      1 ≤ (civilFromDays days).day ∧ (civilFromDays days).day ≤ 31 := by
  unfold civilFromDays
  simp only
  generalize hday : days + 719468 - (days + 719468) / 146097 * 146097 = dayOfEra
  obtain ⟨hlow, hhigh⟩ : 0 ≤ dayOfEra ∧ dayOfEra < 146097 := by omega
  generalize hyear :
    (dayOfEra - dayOfEra / 1460 + dayOfEra / 36524 - dayOfEra / 146096) / 365 = yearOfEra
  obtain ⟨hdayLow, hdayHigh⟩ := Recipes.dayOfYear_bounds hlow hhigh hyear.symm
  generalize dayOfEra - (365 * yearOfEra + yearOfEra / 4 - yearOfEra / 100) = dayOfYear at *
  clear hyear hday
  omega

theorem civilFromDays_year {days : ℤ} (h : |days| ≤ 100000000) :
    |(civilFromDays days).year| < 10 ^ 6 := by
  have habs := abs_le.mp h
  unfold civilFromDays
  simp only
  generalize hday : days + 719468 - (days + 719468) / 146097 * 146097 = dayOfEra
  obtain ⟨hlow, hhigh⟩ : 0 ≤ dayOfEra ∧ dayOfEra < 146097 := by omega
  obtain ⟨hyearLow, hyearHigh⟩ := Recipes.yearOfEra_bounds hlow hhigh
  generalize
    (dayOfEra - dayOfEra / 1460 + dayOfEra / 36524 - dayOfEra / 146096) / 365 = yearOfEra at *
  apply abs_lt.mpr
  split
  · omega
  · omega

/-- Dates of one text are the same. -/
theorem isoText_injective {ms ms' : ℤ} (hms : |ms| ≤ maxTime) (hms' : |ms'| ≤ maxTime)
    (h : isoText ms = isoText ms') : ms = ms' := by
  have hbounds := civilFromDays_bounds (ms / 86400000)
  have hbounds' := civilFromDays_bounds (ms' / 86400000)
  have habs := abs_le.mp hms
  have habs' := abs_le.mp hms'
  unfold maxTime at habs habs'
  have hyear := @civilFromDays_year (ms / 86400000) (abs_le.mpr (by omega))
  have hyear' := @civilFromDays_year (ms' / 86400000) (abs_le.mpr (by omega))
  have hday : msPerDay = 86400000 := rfl
  unfold isoText at h
  rw [hday] at h
  obtain ⟨hy, h⟩ := yearText_append_inj hyear hyear' h
  obtain ⟨hm, h⟩ := padded_append_inj (by decide) (by omega) (by omega) (List.cons.inj h).2
  obtain ⟨hd, h⟩ := padded_append_inj (by decide) (by omega) (by omega) (List.cons.inj h).2
  obtain ⟨hhour, h⟩ := padded_append_inj (by decide) (by omega) (by omega) (List.cons.inj h).2
  obtain ⟨hminute, h⟩ := padded_append_inj (by decide) (by omega) (by omega) (List.cons.inj h).2
  obtain ⟨hsecond, h⟩ := padded_append_inj (by decide) (by omega) (by omega) (List.cons.inj h).2
  obtain ⟨hfraction, _⟩ := padded_append_inj (by decide) (by omega) (by omega) (List.cons.inj h).2
  have hdate : civilFromDays (ms / 86400000) = civilFromDays (ms' / 86400000) := by
    generalize civilFromDays (ms / 86400000) = date at *
    generalize civilFromDays (ms' / 86400000) = date' at *
    obtain ⟨year, month, day⟩ := date
    obtain ⟨year', month', day'⟩ := date'
    simp only at hy hm hd hbounds hbounds'
    rw [hy, show month = month' by omega, show day = day' by omega]
  have hdays := Recipes.civilFromDays_injective hdate
  omega

/-! ## What is read of a timestamp -/

theorem ofDigitChars_lt {ds : List Char} (h : ∀ c ∈ ds, c.isDigit = true) :
    Nat.ofDigitChars 10 ds 0 < 10 ^ ds.length := by
  induction ds with
  | nil => simp
  | cons c ds ih =>
    have hrest := ih fun d hd => h d (List.mem_cons_of_mem _ hd)
    have hc := h c List.mem_cons_self
    have hdigit : c.toNat - '0'.toNat ≤ 9 := by
      simp only [Char.isDigit, Bool.and_eq_true, decide_eq_true_eq] at hc
      have hle : c.toNat ≤ 57 := hc.2
      change c.toNat - 48 ≤ 9
      omega
    rw [Nat.ofDigitChars_cons, Nat.ofDigitChars_eq_ofDigitChars_zero, List.length_cons, pow_succ]
    have hhead : 10 ^ ds.length * (10 * 0 + (c.toNat - '0'.toNat)) ≤ 10 ^ ds.length * 9 :=
      Nat.mul_le_mul_left _ (by omega)
    omega

theorem readDigits_lt {count n : ℕ} {cs rest : List Char}
    (h : readDigits count cs = some (n, rest)) : n < 10 ^ count := by
  unfold readDigits at h
  split at h
  · next hread =>
    cases h
    have hlt := ofDigitChars_lt (List.all_eq_true.mp hread.2)
    rw [hread.1] at hlt
    exact hlt
  · cases h

theorem readPair_le {bound n : ℕ} {cs rest : List Char}
    (h : readPair bound cs = some (n, rest)) : n ≤ bound := by
  unfold readPair at h
  obtain ⟨_, hle⟩ := Option.filter_eq_some_iff.mp h
  simpa using hle

theorem readSecond_spec {cs rest fraction : List Char} {second : ℕ}
    (h : readSecond cs = some (second, fraction, rest)) :
    second ≤ 59 ∧ ∀ c ∈ fraction, c.isDigit = true := by
  unfold readSecond at h
  split at h
  · simp only [Option.bind_eq_bind, Option.bind_eq_some_iff, Prod.exists] at h
    obtain ⟨found, afterPair, hpair, h⟩ := h
    split at h
    · cases hdigits : Json.digits _ with
      | mk digits left =>
        rw [hdigits] at h
        split at h
        · cases h
        · next heq =>
          cases heq
          cases h
          exact ⟨readPair_le hpair, (Json.digits_spec hdigits).1⟩
    · cases h
      exact ⟨readPair_le hpair, fun c hc => absurd hc List.not_mem_nil⟩
  · cases h
    exact ⟨Nat.zero_le _, fun c hc => absurd hc List.not_mem_nil⟩

theorem readOffset_le {cs : List Char} {offset : ℤ} (h : readOffset cs = some offset) :
    |offset| ≤ 1439 := by
  unfold readOffset at h
  split at h
  · cases h
    decide
  · simp only [Option.bind_eq_bind, Option.bind_eq_some_iff, Prod.exists] at h
    obtain ⟨hours, _, hhours, _, _, minutes, _, hminutes, h⟩ := h
    have hh := readPair_le hhours
    have hm := readPair_le hminutes
    apply abs_le.mpr
    split at h
    · cases h
    · split at h
      · cases h
        omega
      · split at h
        · cases h
          omega
        · cases h
  · cases h

/-- What the parts of a timestamp are bound by. -/
structure IsoTimestamp.Good (timestamp : IsoTimestamp) : Prop where
  year : 0 ≤ timestamp.date.year ∧ timestamp.date.year ≤ 9999
  month : 1 ≤ timestamp.date.month ∧ timestamp.date.month ≤ 12
  day : 1 ≤ timestamp.date.day ∧ timestamp.date.day ≤ 31
  hour : timestamp.hour ≤ 23
  minute : timestamp.minute ≤ 59
  second : timestamp.second ≤ 59
  fraction : ∀ c ∈ timestamp.fraction, c.isDigit = true
  offset : |timestamp.offsetMinutes| ≤ 1439

theorem daysInMonth_le (year month : ℕ) : daysInMonth year month ≤ 31 := by
  unfold daysInMonth
  split
  · split
    · decide
    · decide
  · split
    · decide
    · decide

theorem readTimestamp_good {value : CodeUnits} {timestamp : IsoTimestamp}
    (h : readTimestamp value = some timestamp) : timestamp.Good := by
  unfold readTimestamp at h
  simp only [Option.bind_eq_bind, Option.bind_eq_some_iff, Prod.exists,
    Option.filter_eq_some_iff] at h
  obtain ⟨year, _, hyear, _, _, month, _, ⟨hmonth, hmonth'⟩, _, _, day, _, ⟨hday, hday'⟩, _, _,
    hour, _, hhour, _, _, minute, _, hminute, second, fraction, _, hsecond, offset, hoffset, h⟩ := h
  cases h
  have hyearLt := readDigits_lt hyear
  have hmonthLe := readPair_le hmonth
  have hdayLe := (readPair_le hday).trans (daysInMonth_le year month)
  obtain ⟨hsecondLe, hfraction⟩ := readSecond_spec hsecond
  simp only [decide_eq_true_eq] at hmonth' hday'
  exact {
    year := by simp only; omega
    month := by simp only; omega
    day := by simp only; omega
    hour := readPair_le hhour
    minute := readPair_le hminute
    second := hsecondLe
    fraction := hfraction
    offset := readOffset_le hoffset }

theorem IsoTimestamp.Good.milliseconds_lt {timestamp : IsoTimestamp} (h : timestamp.Good) :
    timestamp.milliseconds < 10 ^ 12 := by
  unfold IsoTimestamp.milliseconds
  simp only
  have hdigits : ∀ c ∈ (timestamp.fraction.dropWhile (· = '0')).take 9, c.isDigit = true :=
    fun c hc => h.fraction c ((List.dropWhile_sublist _).mem (List.mem_of_mem_take hc))
  have hnumber := ofDigitChars_lt hdigits
  have hpow : 10 ^ ((timestamp.fraction.dropWhile (· = '0')).take 9).length ≤ 10 ^ 9 :=
    Nat.pow_le_pow_right (by decide) (List.length_take_le _ _)
  generalize Nat.ofDigitChars 10 ((timestamp.fraction.dropWhile (· = '0')).take 9) 0 = number at *
  split
  · have hscale : 10 ^ (3 - timestamp.fraction.length) ≤ 10 ^ 3 :=
      Nat.pow_le_pow_right (by decide) (Nat.sub_le _ _)
    calc number * 10 ^ (3 - timestamp.fraction.length) ≤ number * 10 ^ 3 :=
          Nat.mul_le_mul_left _ hscale
      _ < 10 ^ 12 := by omega
  · have hquotient := Nat.div_le_self number (10 ^ (min timestamp.fraction.length 9 - 3))
    omega

/-- A `Date` can hold every timestamp. -/
theorem IsoTimestamp.Good.time_le {timestamp : IsoTimestamp} (h : timestamp.Good) :
    |timestamp.time| ≤ maxTime := by
  have hyear := h.year
  have hmonth := h.month
  have hday := h.day
  have hhour := h.hour
  have hminute := h.minute
  have hsecond := h.second
  have hoffset := abs_le.mp h.offset
  have hms := h.milliseconds_lt
  have hdays : -800000 ≤ daysFromCivil timestamp.date ∧ daysFromCivil timestamp.date ≤ 3000000 := by
    unfold daysFromCivil
    simp only
    generalize timestamp.date.year = year at hyear
    generalize timestamp.date.month = month at hmonth
    generalize timestamp.date.day = day at hday
    split
    · split
      · omega
      · omega
    · split
      · omega
      · omega
  have hmsPerDay : msPerDay = 86400000 := rfl
  unfold IsoTimestamp.time IsoTimestamp.secondMs dateUTC maxTime
  rw [hmsPerDay]
  apply abs_le.mpr
  constructor
  · omega
  · omega

/-! ## Timestamps are told apart by their millisecond -/

/-- A timestamp of the schemas has a normal text. -/
theorem normalizeTimestamp_ok {value : CodeUnits} {timestamp : IsoTimestamp}
    (h : readTimestamp value = some timestamp) :
    normalizeTimestamp value = .ok (utf16 (String.ofList (isoText timestamp.time))) := by
  unfold normalizeTimestamp dateParse
  rw [h]
  simp only [Option.map_some]
  rw [toISOString, if_pos (readTimestamp_good h).time_le]

/-- Timestamps have one normal text exactly when they are read as one millisecond. -/
theorem isoText_time_iff {value value' : CodeUnits} {timestamp timestamp' : IsoTimestamp}
    (h : readTimestamp value = some timestamp) (h' : readTimestamp value' = some timestamp') :
    utf16 (String.ofList (isoText timestamp.time)) =
        utf16 (String.ofList (isoText timestamp'.time)) ↔
      dateParse value = dateParse value' := by
  unfold dateParse
  rw [h, h', Option.map_some, Option.map_some, Option.some.injEq]
  constructor
  · intro htext
    exact isoText_injective (readTimestamp_good h).time_le (readTimestamp_good h').time_le
      (String.ofList_injective (utf16_injective htext))
  · intro htime
    rw [htime]

end Regenic.Context.Canonical
