import Mathlib.Data.List.Sort
import Mathlib.Data.Rat.Floor
import Regenic.Lib.Table
import Regenic.Recipes.Contracts

/-!
The clock of a pull: the fields of a trigger that make one, and the first instant at which it
strikes. Instants are epoch milliseconds.
-/

namespace Regenic.Recipes

open Lib

def pullIntervalMinMs : ℚ := 60 * 1000

def pullIntervalMaxMs : ℚ := 7 * 24 * 60 * 60 * 1000

def pullIntervalHour : ℚ := 60 * 60 * 1000

/-- `Number.isInteger`. -/
def isInteger (value : ℚ) : Bool := value.den = 1

def isPullIntervalMs (value : ℚ) : Bool :=
  isInteger value && pullIntervalMinMs ≤ value && value ≤ pullIntervalMaxMs &&
    value.num % 60000 = 0

def isAtMinute (value : ℚ) : Bool := isInteger value && 0 ≤ value && value ≤ 1439

structure PullClock where
  atMinute : ℚ
  timezone : String
  weekdays : Option (List ℚ) := none
  deriving DecidableEq

structure CalendarDate where
  year : ℤ
  month : ℤ
  day : ℤ
  deriving DecidableEq, Repr

structure ZonedParts extends CalendarDate where
  hour : ℤ
  minute : ℤ
  second : ℤ
  deriving DecidableEq, Repr

/-- What the JavaScript runtime knows of time: the zones of `Intl.DateTimeFormat` and the parts
it formats an instant to, `Date.parse` with none for no date, `toISOString` with none where it
throws, and `Date.now`. -/
structure TimeZones where
  known : String → Bool
  formatToParts : ℤ → String → ZonedParts
  parseDate : Timestamp → Option ℤ
  toISOString : ℤ → Option Timestamp
  dateNow : ℤ

/-! ## The Gregorian calendar -/

/-- Days from 1970-01-01 to a date, whose day may lie outside its month. -/
def daysFromCivil (date : CalendarDate) : ℤ :=
  -- Years that start in March, so that a leap day is the last of its year.
  let year := if date.month ≤ 2 then date.year - 1 else date.year
  let era := year / 400
  let yearOfEra := year - era * 400
  let month := if 2 < date.month then date.month - 3 else date.month + 9
  let dayOfYear := (153 * month + 2) / 5 + date.day - 1
  let dayOfEra := yearOfEra * 365 + yearOfEra / 4 - yearOfEra / 100 + dayOfYear
  era * 146097 + dayOfEra - 719468

def civilFromDays (days : ℤ) : CalendarDate :=
  let shifted := days + 719468
  let era := shifted / 146097
  let dayOfEra := shifted - era * 146097
  let yearOfEra :=
    (dayOfEra - dayOfEra / 1460 + dayOfEra / 36524 - dayOfEra / 146096) / 365
  let dayOfYear := dayOfEra - (365 * yearOfEra + yearOfEra / 4 - yearOfEra / 100)
  let month := (5 * dayOfYear + 2) / 153
  let monthOfYear := if month < 10 then month + 3 else month - 9
  { year := yearOfEra + era * 400 + (if monthOfYear ≤ 2 then 1 else 0)
    month := monthOfYear
    day := dayOfYear - (153 * month + 2) / 5 + 1 }

def msPerDay : ℤ := 24 * 60 * 60 * 1000

/-- `Date.UTC`. -/
def dateUTC (date : CalendarDate) (hour minute second : ℤ) : ℤ :=
  daysFromCivil date * msPerDay + ((hour * 60 + minute) * 60 + second) * 1000

def addCalendarDays (date : CalendarDate) (days : ℤ) : CalendarDate :=
  civilFromDays (daysFromCivil { date with day := date.day + days })

/-- `getUTCDay`, with Sunday as the seventh day. -/
def calendarWeekday (date : CalendarDate) : ℤ :=
  let sunday0 := (daysFromCivil date + 4) % 7
  if sunday0 = 0 then 7 else sunday0

/-! ## Reading a clock -/

variable (zones : TimeZones)

def isTimeZone (value : String) : Bool :=
  let zone := jsTrim value
  zone ≠ "" && utf16Length zone ≤ 100 && zones.known zone

def isWeekday (day : ℚ) : Bool := isInteger day && 1 ≤ day && day ≤ 7

/-- Sorted unique weekdays; none of them is every day. -/
def normalizeWeekdays (value : Option (List ℚ)) : Option (List ℚ) :=
  (value.map fun days => (keepFirst id (days.filter isWeekday)).insertionSort (· ≤ ·)).filter
    fun days => days ≠ []

def readPullClock (trigger : PullSchedule) : Option PullClock := do
  let atMinute ← trigger.atMinute.filter isAtMinute
  let timezone ← trigger.timezone.filter fun zone => isTimeZone zones zone
  some { atMinute, timezone := jsTrim timezone, weekdays := normalizeWeekdays trigger.weekdays }

/-! ## When a clock strikes -/

def zonedParts (utcMs : ℤ) (timezone : String) : ZonedParts :=
  let parts := zones.formatToParts utcMs timezone
  if parts.hour = 24 then
    { parts with toCalendarDate := addCalendarDays parts.toCalendarDate 1, hour := 0 }
  else parts

def tzOffsetMs (utcMs : ℤ) (timezone : String) : ℤ :=
  let parts := zonedParts zones utcMs timezone
  dateUTC parts.toCalendarDate parts.hour parts.minute parts.second - utcMs

/-- None when that local time does not exist. -/
def zonedTimeToUtc (date : CalendarDate) (hour minute : ℤ) (timezone : String) : Option ℤ :=
  let guess := dateUTC date hour minute 0
  let offset := tzOffsetMs zones guess timezone
  let utc := guess - offset
  let offset2 := tzOffsetMs zones utc timezone
  let utc := if offset2 ≠ offset then guess - offset2 else utc
  let parts := zonedParts zones utc timezone
  if parts.toCalendarDate ≠ date ∨ parts.hour ≠ hour ∨ parts.minute ≠ minute then none
  else some utc

/-- None where the source throws: no occurrence in three weeks. -/
def nextClockAtOrAfter (spec : PullClock) (earliestMs : ℤ) : Option ℤ :=
  let hour := ⌊spec.atMinute / 60⌋
  let minute := ⌊spec.atMinute⌋ % 60
  let allowed := spec.weekdays.filter fun days => days ≠ []
  let start := (zonedParts zones earliestMs spec.timezone).toCalendarDate
  (List.range 22).findSome? fun offset =>
    let date := addCalendarDays start offset
    if allowed.any fun days => !days.contains (calendarWeekday date : ℚ) then none
    else
      (zonedTimeToUtc zones date hour minute spec.timezone).filter fun utc => earliestMs ≤ utc

/-- A loop of whole intervals until the instant lies beyond now. No interval of a pull is zero
or less. -/
def advanceBeyond (nowMs intervalMs next : ℤ) : ℤ :=
  if next ≤ nowMs ∧ 0 < intervalMs then advanceBeyond nowMs intervalMs (next + intervalMs)
  else next
termination_by (nowMs - next + 1).toNat
decreasing_by omega

/-- None where `toISOString` throws. -/
def advancePullNextRun (since : Timestamp) (intervalMs : ℤ) (now : Timestamp) :
    Option Timestamp := do
  let nowMs := zones.parseDate now
  let next ← zones.parseDate since <|> nowMs
  match nowMs with
  | some nowMs => zones.toISOString (advanceBeyond nowMs intervalMs (next + intervalMs))
  | none => zones.toISOString (next + intervalMs)

def initialPullNextRun (trigger : RecipeTrigger) (now : Timestamp) : Timestamp :=
  match readPullClock zones trigger.toPullSchedule with
  | some clock =>
    if trigger.kind = .pull then
      let earliest := (zones.parseDate now).getD zones.dateNow
      ((nextClockAtOrAfter zones clock earliest).bind zones.toISOString).getD now
    else now
  | none => now

/-- The next fire after the last one, later than now as well. The interval is a whole number. -/
def advanceRecipePull (trigger : RecipeTrigger) (since now : Timestamp) : Option Timestamp :=
  let byInterval :=
    advancePullNextRun zones since ⌊trigger.intervalMs.getD pullIntervalHour⌋ now
  match readPullClock zones trigger.toPullSchedule with
  | some clock =>
    if trigger.kind = .pull then
      let earliest := max ((zones.parseDate since).getD 0) ((zones.parseDate now).getD 0) + 1
      (nextClockAtOrAfter zones clock earliest).bind zones.toISOString <|> byInterval
    else byInterval
  | none => byInterval

end Regenic.Recipes
