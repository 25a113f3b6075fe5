import Regenic.Lib.Checked
import Regenic.Recipes.LocalDays

/-!
The days of the daily digest. An event belongs to the date that its instant has in the time zone
of the digest; the digest of a date is said to cover the period from one local midnight to the
next, each found by correcting a guess twice.
-/

namespace Regenic.Context

open Lib Recipes

/-! ## Dates and their text -/

/-- A number by two digits. -/
def twoDigits (n : ℤ) : List Char :=
  if n < 10 then '0' :: (toString n).toList else (toString n).toList

/-- The parts of a date, joined: the year with the digits it has, two for the others. -/
def dateText (date : CalendarDate) : String :=
  String.ofList
    ((toString date.year).toList ++ '-' :: (twoDigits date.month ++ '-' :: twoDigits date.day))

/-- Four digits, two and two. -/
def readLocalDate (localDate : String) : Option CalendarDate :=
  match localDate.toList with
  | [y₁, y₂, y₃, y₄, '-', m₁, m₂, '-', d₁, d₂] =>
    if [y₁, y₂, y₃, y₄, m₁, m₂, d₁, d₂].all Char.isDigit then
      some
        { year := Nat.ofDigitChars 10 [y₁, y₂, y₃, y₄] 0
          month := Nat.ofDigitChars 10 [m₁, m₂] 0
          day := Nat.ofDigitChars 10 [d₁, d₂] 0 }
    else none
  | _ => none

/-- The date of a day that exists. -/
def realDate (date : CalendarDate) : Bool := civilFromDays (daysFromCivil date) = date

/-! ## The period of a digest -/

variable (zones : TimeZones)

def assertTimeZone (timeZone : String) : Except String Unit := do
  throwUnless (jsTrim timeZone ≠ "") "Daily digest time zone is required"
  throwUnless (zones.known timeZone) "Invalid daily digest time zone"

/-- The date of a timestamp, which is none when it is invalid. -/
def localDateAt (timestamp : Option ℤ) (timeZone : String) : Except String String :=
  match timestamp with
  | none => throw "Invalid daily digest timestamp"
  | some time => do
    assertTimeZone zones timeZone
    return dateText (zones.formatToParts time timeZone).toCalendarDate

/-- `Date.UTC`, which takes the years up to 99 to be of the twentieth century. -/
def localTimestamp (parts : ZonedParts) : ℤ :=
  let year := if 0 ≤ parts.year ∧ parts.year ≤ 99 then 1900 + parts.year else parts.year
  dateUTC { parts.toCalendarDate with year := year } parts.hour parts.minute parts.second

def zonedMidnight (localDate : CalendarDate) (timeZone : String) : ℤ :=
  let initial := dateUTC localDate 0 0 0
  let correct := fun timestamp =>
    initial - (localTimestamp (zones.formatToParts timestamp timeZone) - timestamp)
  correct (correct initial)

structure DailyDigestPeriod where
  localDate : String
  timeZone : String
  utcStart : ℤ
  utcEnd : ℤ
  deriving DecidableEq

def dailyDigestPeriod (localDate : String) (timeZone : String) :
    Except String DailyDigestPeriod :=
  match readLocalDate localDate with
  | none => throw "Invalid daily digest local date"
  | some date => do
    assertTimeZone zones timeZone
    -- the parts of an invalid date cannot be formatted
    throwUnless (realDate date) "Invalid time value"
    return {
      localDate := localDate
      timeZone := timeZone
      utcStart := zonedMidnight zones date timeZone
      utcEnd := zonedMidnight zones (addCalendarDays date 1) timeZone }

/-! ## Dates by their text -/

theorem toString_toList {n : ℤ} (h : 0 ≤ n) : (toString n).toList = Nat.toDigits 10 n.toNat := by
  obtain ⟨k, rfl⟩ := Int.eq_ofNat_of_zero_le h
  exact Nat.toList_repr

theorem isDigit_of_mem_toDigits {n : Nat} {c : Char} (h : c ∈ Nat.toDigits 10 n) :
    c.isDigit = true := Nat.isDigit_of_mem_toDigits (by decide) (by decide) h

theorem eq_of_toString_toList {n m : ℤ} (h : 0 ≤ n)
    (htext : (toString n).toList = (toString m).toList) : n = m := by
  rw [toString_toList h] at htext
  cases m with
  | ofNat k =>
    have hdigits : Nat.toDigits 10 n.toNat = Nat.toDigits 10 k := htext.trans Nat.toList_repr
    have hsame := congrArg (fun digits => Nat.ofDigitChars 10 digits 0) hdigits
    simp only [Nat.ofDigitChars_ten_toDigits] at hsame
    change n = (k : ℤ)
    omega
  | negSucc k =>
    rw [toString_negSucc] at htext
    have hsign := isDigit_of_mem_toDigits (htext ▸ List.mem_cons_self)
    exact absurd hsign (by decide)

theorem length_toDigits {n k : Nat} (hlow : 10 ^ k ≤ n) (hhigh : n < 10 ^ (k + 1)) :
    (Nat.toDigits 10 n).length = k + 1 := by
  have hle := (Nat.length_toDigits_le_iff (by decide) (Nat.succ_pos k)).mpr hhigh
  rcases Nat.eq_zero_or_pos k with rfl | hpos
  · have hne := Nat.length_toDigits_pos (b := 10) (n := n)
    omega
  · have hgt := (Nat.length_toDigits_le_iff (n := n) (by decide : 1 < 10) hpos).not.mpr
      (Nat.not_lt.mpr hlow)
    omega

/-- Two digits of a number are two, and those of that number. -/
theorem twoDigits_spec {n : ℤ} (hlow : 0 ≤ n) (hhigh : n < 100) :
    ∃ a b, twoDigits n = [a, b] ∧ a.isDigit = true ∧ b.isDigit = true ∧
      (Nat.ofDigitChars 10 [a, b] 0 : ℤ) = n := by
  obtain ⟨k, rfl⟩ := Int.eq_ofNat_of_zero_le hlow
  unfold twoDigits
  rw [toString_toList hlow, Int.toNat_natCast]
  by_cases hsmall : (k : ℤ) < 10
  · have hlt : k < 10 := by omega
    have hone : Nat.toDigits 10 k = [k.digitChar] := Nat.toDigits_of_lt_base hlt
    refine ⟨'0', k.digitChar, by rw [if_pos hsmall, hone], rfl, ?_, ?_⟩
    · exact isDigit_of_mem_toDigits (by rw [hone]; exact List.mem_cons_self)
    · rw [Nat.ofDigitChars_cons, Nat.ofDigitChars_cons_digitChar_of_lt_ten hlt,
        Nat.ofDigitChars_nil]
      simp
  · obtain ⟨a, b, hab⟩ := List.length_eq_two.mp (length_toDigits (n := k) (k := 1) (by omega)
      (by omega))
    refine ⟨a, b, by rw [if_neg hsmall, hab], ?_, ?_, ?_⟩
    · exact isDigit_of_mem_toDigits (by rw [hab]; exact List.mem_cons_self)
    · exact isDigit_of_mem_toDigits
        (by rw [hab]; exact List.mem_cons_of_mem _ List.mem_cons_self)
    · rw [← hab, Nat.ofDigitChars_ten_toDigits]

/-- The dates whose year has four digits. -/
def FourDigitYear (date : CalendarDate) : Prop := 1000 ≤ date.year ∧ date.year ≤ 9999

instance (date : CalendarDate) : Decidable (FourDigitYear date) :=
  inferInstanceAs (Decidable (1000 ≤ date.year ∧ date.year ≤ 9999))

theorem readLocalDate_dateText {date : CalendarDate} (hyear : FourDigitYear date)
    (hmonth : 0 ≤ date.month) (hmonth' : date.month < 100) (hday : 0 ≤ date.day)
    (hday' : date.day < 100) : readLocalDate (dateText date) = some date := by
  obtain ⟨hlow, hhigh⟩ := hyear
  obtain ⟨year, month, day⟩ := date
  obtain ⟨k, rfl⟩ := Int.eq_ofNat_of_zero_le (show (0 : ℤ) ≤ year by simp only at hlow; omega)
  obtain ⟨m₁, m₂, hm, hm₁, hm₂, hmonths⟩ := twoDigits_spec hmonth hmonth'
  obtain ⟨d₁, d₂, hd, hd₁, hd₂, hdays⟩ := twoDigits_spec hday hday'
  have hlength := length_toDigits (n := k) (k := 3) (by simp only at hlow; omega)
    (by simp only at hhigh; omega)
  have hyears := Nat.ofDigitChars_ten_toDigits (n := k)
  have hdigits : ∀ c ∈ Nat.toDigits 10 k, c.isDigit = true := fun c => isDigit_of_mem_toDigits
  match hcs : Nat.toDigits 10 k, hlength with
  | [y₁, y₂, y₃, y₄], _ =>
    rw [hcs] at hyears hdigits
    unfold readLocalDate dateText
    rw [String.toList_ofList, toString_toList (Int.natCast_nonneg k), Int.toNat_natCast, hcs, hm, hd]
    simp only [List.cons_append, List.nil_append]
    rw [if_pos (by simp [hdigits, hm₁, hm₂, hd₁, hd₂]), hyears, hmonths, hdays]

/-- The text of a date of a four-digit year is that of no other date. -/
theorem dateText_injective {date other : CalendarDate}
    (hmonth : 0 ≤ date.month ∧ date.month < 100) (hday : 0 ≤ date.day ∧ date.day < 100)
    (hmonth' : 0 ≤ other.month ∧ other.month < 100) (hday' : 0 ≤ other.day ∧ other.day < 100)
    (hyear : 0 ≤ date.year) (h : dateText date = dateText other) : date = other := by
  have hlists := congrArg String.toList h
  unfold dateText at hlists
  rw [String.toList_ofList, String.toList_ofList] at hlists
  obtain ⟨m₁, m₂, hm, -, -, hmonths⟩ := twoDigits_spec hmonth.1 hmonth.2
  obtain ⟨m₃, m₄, hn, -, -, hmonths'⟩ := twoDigits_spec hmonth'.1 hmonth'.2
  obtain ⟨d₁, d₂, hd, -, -, hdays⟩ := twoDigits_spec hday.1 hday.2
  obtain ⟨d₃, d₄, he, -, -, hdays'⟩ := twoDigits_spec hday'.1 hday'.2
  rw [hm, hn, hd, he] at hlists
  obtain ⟨hyears, hrest⟩ := List.append_inj' hlists rfl
  simp only [List.cons_append, List.nil_append, List.cons.injEq, true_and, and_true] at hrest
  obtain ⟨hm₁, hm₂, hd₁, hd₂⟩ := hrest
  have hsameYear := eq_of_toString_toList hyear hyears
  have hsameMonth : date.month = other.month := by rw [← hmonths, ← hmonths', hm₁, hm₂]
  have hsameDay : date.day = other.day := by rw [← hdays, ← hdays', hd₁, hd₂]
  cases date
  cases other
  simp only at hsameYear hsameMonth hsameDay
  rw [hsameYear, hsameMonth, hsameDay]

/-! ## Days by their date -/

/-- The year of a day, by the four centuries it lies in. -/
theorem civilFromDays_year (days : ℤ) :
    (days + 719468) / 146097 * 400 ≤ (civilFromDays days).year ∧
      (civilFromDays days).year ≤ (days + 719468) / 146097 * 400 + 400 := by
  have hlow : 0 ≤ days + 719468 - (days + 719468) / 146097 * 146097 := by omega
  have hhigh : days + 719468 - (days + 719468) / 146097 * 146097 < 146097 := by omega
  obtain ⟨hyear, hyear'⟩ := yearOfEra_bounds hlow hhigh
  unfold civilFromDays
  simp only
  split <;> split <;> omega

theorem civilFromDays_month (days : ℤ) :
    1 ≤ (civilFromDays days).month ∧ (civilFromDays days).month ≤ 12 := by
  have hlow : 0 ≤ days + 719468 - (days + 719468) / 146097 * 146097 := by omega
  have hhigh : days + 719468 - (days + 719468) / 146097 * 146097 < 146097 := by omega
  obtain ⟨hday, hday'⟩ := dayOfYear_bounds hlow hhigh rfl
  unfold civilFromDays
  simp only
  split <;> omega

theorem civilFromDays_day (days : ℤ) :
    1 ≤ (civilFromDays days).day ∧ (civilFromDays days).day ≤ 31 := by
  unfold civilFromDays
  simp only
  omega

theorem fourDigitYear_near {d e : ℤ} (hyear : FourDigitYear (civilFromDays d)) (h : d - 2 ≤ e) :
    100 ≤ (civilFromDays e).year := by
  have hthis := civilFromDays_year d
  have hthat := civilFromDays_year e
  unfold FourDigitYear at hyear
  omega

theorem realDate_civilFromDays (d : ℤ) : realDate (civilFromDays d) = true := by
  unfold realDate
  rw [daysFromCivil_civilFromDays]
  simp only [decide_true]

/-- Days of one text are one day, where it has a four-digit year. -/
theorem dateText_civilFromDays {d e : ℤ} (hyear : FourDigitYear (civilFromDays d)) :
    dateText (civilFromDays e) = dateText (civilFromDays d) ↔ e = d := by
  constructor
  · intro htext
    have hmonth := civilFromDays_month d
    have hmonth' := civilFromDays_month e
    have hday := civilFromDays_day d
    have hday' := civilFromDays_day e
    have hlow := hyear.1
    exact (civilFromDays_injective (dateText_injective (by omega) (by omega) (by omega)
      (by omega) (by omega) htext.symm)).symm
  · rintro rfl
    rfl

/-! ## Midnights -/

theorem localTimestamp_wallParts {ms : ℤ} (hyear : 100 ≤ (civilFromDays (ms / msPerDay)).year) :
    localTimestamp (wallParts ms) = ms - ms % 1000 := by
  have hthis : (wallParts ms).year = (civilFromDays (ms / msPerDay)).year := rfl
  unfold localTimestamp
  rw [if_neg (by omega)]
  exact dateUTC_wallParts ms

section Zoned

variable {zones : TimeZones} {timeZone : String} {zone : Zone}

/-- The correction of a guess subtracts its offset. -/
theorem localTimestamp_sub (hkeeps : zones.Keeps timeZone zone) {t : ℤ} (ht : t % 60000 = 0)
    (hyear : 100 ≤ (civilFromDays (zone.localTime t / msPerDay)).year) :
    localTimestamp (zones.formatToParts t timeZone) - t = zone.offset t := by
  have hwhole := zone.wholeMinutes t
  rw [hkeeps t, localTimestamp_wallParts hyear]
  unfold Zone.localTime
  omega

theorem zonedMidnight_eq (hkeeps : zones.Keeps timeZone zone) {d e : ℤ}
    (hyear : FourDigitYear (civilFromDays d)) (hde : d ≤ e) :
    zonedMidnight zones (civilFromDays e) timeZone = zone.instant (e * dayMs) := by
  have hinitial : dateUTC (civilFromDays e) 0 0 0 = e * dayMs := by
    unfold dateUTC
    rw [daysFromCivil_civilFromDays]
    unfold msPerDay dayMs
    omega
  have hday : msPerDay = dayMs := rfl
  have hbound := zone.offset_bounds (e * dayMs)
  have hbound' := zone.offset_bounds (e * dayMs - zone.offset (e * dayMs))
  have hwhole := zone.wholeMinutes (e * dayMs)
  have hmidnight : e * dayMs % 60000 = 0 := by
    unfold dayMs
    omega
  have hlocal : ∀ t, e * dayMs - 2 * dayMs ≤ zone.localTime t →
      100 ≤ (civilFromDays (zone.localTime t / msPerDay)).year := by
    intro t ht
    apply fourDigitYear_near hyear
    rw [hday]
    unfold dayMs at *
    omega
  unfold zonedMidnight
  simp only [hinitial]
  rw [localTimestamp_sub hkeeps hmidnight, localTimestamp_sub hkeeps, zone.instant_eq]
  · omega
  · apply hlocal
    unfold Zone.localTime
    omega
  · apply hlocal
    unfold Zone.localTime
    omega

/-- The period of a date is between the two midnights that are found for it. -/
theorem dailyDigestPeriod_eq (hkeeps : zones.Keeps timeZone zone)
    (hzone : assertTimeZone zones timeZone = .ok ()) {d : ℤ}
    (hyear : FourDigitYear (civilFromDays d)) :
    dailyDigestPeriod zones (dateText (civilFromDays d)) timeZone = .ok {
      localDate := dateText (civilFromDays d)
      timeZone := timeZone
      utcStart := zone.instant (d * dayMs)
      utcEnd := zone.instant ((d + 1) * dayMs) } := by
  have hmonth := civilFromDays_month d
  have hday := civilFromDays_day d
  unfold dailyDigestPeriod
  rw [readLocalDate_dateText hyear (by omega) (by omega) (by omega) (by omega)]
  simp only [hzone, realDate_civilFromDays, throwUnless_true, addCalendarDays_civilFromDays,
    zonedMidnight_eq hkeeps hyear le_rfl,
    zonedMidnight_eq hkeeps hyear (Int.le_add_one le_rfl)]
  rfl

theorem localDateAt_eq (hkeeps : zones.Keeps timeZone zone)
    (hzone : assertTimeZone zones timeZone = .ok ()) (t : ℤ) :
    localDateAt zones (some t) timeZone = .ok (dateText (civilFromDays (localDay zone t))) := by
  unfold localDateAt
  simp only [hzone, hkeeps t]
  rfl

theorem localDateAt_iff (hkeeps : zones.Keeps timeZone zone)
    (hzone : assertTimeZone zones timeZone = .ok ()) {d t : ℤ}
    (hyear : FourDigitYear (civilFromDays d)) :
    localDateAt zones (some t) timeZone = .ok (dateText (civilFromDays d)) ↔
      d * dayMs ≤ zone.localTime t ∧ zone.localTime t < d * dayMs + dayMs := by
  have hday : msPerDay = dayMs := rfl
  rw [localDateAt_eq hkeeps hzone, Except.ok.injEq, dateText_civilFromDays hyear]
  unfold localDay
  rw [hday]
  unfold dayMs
  omega

end Zoned

/-! ## Days that tile time -/

/-- The period of a date holds the instants of that date, and no others. -/
def HoldsItsDay (timeZone localDate : String) : Prop :=
  ∃ period, dailyDigestPeriod zones localDate timeZone = .ok period ∧
    ∀ t, localDateAt zones (some t) timeZone = .ok localDate ↔
      period.utcStart ≤ t ∧ t < period.utcEnd

/-- An instant lies in the period of the `d`-th day. -/
def InPeriod (timeZone : String) (d t : ℤ) : Prop :=
  ∃ period, dailyDigestPeriod zones (dateText (civilFromDays d)) timeZone = .ok period ∧
    period.utcStart ≤ t ∧ t < period.utcEnd

variable {zones} {timeZone : String} {zone : Zone}

/-- Four hours behind until four o'clock of 7 September 2025, three from then on. -/
def santiago : Zone where
  offset t := if t < 1757217600000 then -14400000 else -10800000
  wholeMinutes t := by split <;> decide
  bounded t := by split <;> decide
  transition _ := ⟨1757217600000, -14400000, -10800000, by decide, fun _ _ _ => rfl⟩

def santiagoZones : TimeZones where
  known _ := true
  formatToParts utc _ := wallParts (santiago.localTime utc)
  parseDate _ := none
  toISOString _ := none
  dateNow := 0

theorem santiagoZones_keeps (timeZone : String) : santiagoZones.Keeps timeZone santiago :=
  fun _ => rfl

/-- A midnight more than a day after the change is found. -/
theorem santiago_suits {l : ℤ} (h : 1757217600000 + dayMs ≤ l) : santiago.GuessSuits l := by
  intro change before after hchange
  have hlow := hchange.low
  have hhigh := hchange.high
  have hfirst := hchange.offset (l - dayMs) le_rfl (by unfold dayMs; omega)
  have hlast := hchange.offset (l + dayMs) (by unfold dayMs; omega) le_rfl
  rw [if_pos hlow] at hfirst
  rw [if_neg (by omega)] at hlast
  unfold santiago at hfirst hlast
  simp only at hfirst hlast
  rw [if_neg (by omega)] at hfirst
  rw [if_neg (by unfold dayMs at *; omega)] at hlast
  omega

end Regenic.Context
