import Mathlib.Tactic.IntervalCases
import Regenic.Lib.Zone
import Regenic.Recipes.Clock

/-!
The days on which a clock strikes in a time zone. Days are counted from the epoch; the calendar
takes a day to a date and back. A clock strikes on a day when its minute occurs on the local
clock of that day, at one instant, and later days have later strikes. The next strike after
an instant is found when its day lies within three weeks of the local day of that instant.
-/

namespace Regenic.Recipes

open Lib

/-! ## Days and dates -/

theorem yearOfEra_bounds {dayOfEra : ℤ} (hlow : 0 ≤ dayOfEra) (hhigh : dayOfEra < 146097) :
    0 ≤ (dayOfEra - dayOfEra / 1460 + dayOfEra / 36524 - dayOfEra / 146096) / 365 ∧
      (dayOfEra - dayOfEra / 1460 + dayOfEra / 36524 - dayOfEra / 146096) / 365 ≤ 399 := by
  omega

theorem dayOfYear_bounds {dayOfEra yearOfEra : ℤ} (hlow : 0 ≤ dayOfEra)
    (hhigh : dayOfEra < 146097)
    (hyear : yearOfEra =
      (dayOfEra - dayOfEra / 1460 + dayOfEra / 36524 - dayOfEra / 146096) / 365) :
    0 ≤ dayOfEra - (365 * yearOfEra + yearOfEra / 4 - yearOfEra / 100) ∧
      dayOfEra - (365 * yearOfEra + yearOfEra / 4 - yearOfEra / 100) ≤ 365 := by
  obtain ⟨hlow', hhigh'⟩ : 0 ≤ dayOfEra / 36524 ∧ dayOfEra / 36524 ≤ 4 := by omega
  obtain ⟨hlow'', hhigh''⟩ : 0 ≤ yearOfEra / 100 ∧ yearOfEra / 100 ≤ 3 := by omega
  generalize hera : dayOfEra / 146096 = lastDay at *
  generalize hcentury : dayOfEra / 36524 = century at *
  generalize hcycle : dayOfEra / 1460 = cycle at *
  generalize hhundred : yearOfEra / 100 = hundred at *
  have hlast : lastDay = 0 ∨ lastDay = 1 := by omega
  interval_cases century <;> interval_cases hundred <;> omega

/-- The calendar takes every day to a date of that day. -/
theorem daysFromCivil_civilFromDays (days : ℤ) : daysFromCivil (civilFromDays days) = days := by
  unfold daysFromCivil civilFromDays
  simp only
  generalize hera : (days + 719468) / 146097 = era
  generalize hday : days + 719468 - era * 146097 = dayOfEra
  obtain ⟨hlow, hhigh⟩ : 0 ≤ dayOfEra ∧ dayOfEra < 146097 := by omega
  obtain ⟨hyearLow, hyearHigh⟩ := yearOfEra_bounds hlow hhigh
  generalize hyear :
    (dayOfEra - dayOfEra / 1460 + dayOfEra / 36524 - dayOfEra / 146096) / 365 = yearOfEra at *
  obtain ⟨hdayLow, hdayHigh⟩ := dayOfYear_bounds hlow hhigh hyear.symm
  generalize hdayOfYear :
    dayOfEra - (365 * yearOfEra + yearOfEra / 4 - yearOfEra / 100) = dayOfYear at *
  obtain ⟨hmonthLow, hmonthHigh⟩ :
      0 ≤ (5 * dayOfYear + 2) / 153 ∧ (5 * dayOfYear + 2) / 153 ≤ 11 := by omega
  generalize hmonth : (5 * dayOfYear + 2) / 153 = month at *
  by_cases hearly : month < 10
  · rw [if_pos hearly, if_neg (by omega), if_neg (by omega), if_pos (by omega)]
    have hsame : (yearOfEra + era * 400 + 0) / 400 = era := by omega
    rw [hsame]
    have hback : yearOfEra + era * 400 + 0 - era * 400 = yearOfEra := by omega
    rw [hback]
    have hmonthBack : month + 3 - 3 = month := by omega
    rw [hmonthBack]
    omega
  · rw [if_neg hearly, if_pos (by omega), if_pos (by omega), if_neg (by omega)]
    have hsame : (yearOfEra + era * 400 + 1 - 1) / 400 = era := by omega
    rw [hsame]
    have hback : yearOfEra + era * 400 + 1 - 1 - era * 400 = yearOfEra := by omega
    rw [hback]
    have hmonthBack : month - 9 + 9 = month := by omega
    rw [hmonthBack]
    omega

theorem civilFromDays_injective {d d' : ℤ} (h : civilFromDays d = civilFromDays d') : d = d' := by
  rw [← daysFromCivil_civilFromDays d, h, daysFromCivil_civilFromDays]

theorem addCalendarDays_civilFromDays (d k : ℤ) :
    addCalendarDays (civilFromDays d) k = civilFromDays (d + k) := by
  have hshift : daysFromCivil { civilFromDays d with day := (civilFromDays d).day + k } =
      daysFromCivil (civilFromDays d) + k := by
    unfold daysFromCivil
    simp only
    omega
  unfold addCalendarDays
  rw [hshift, daysFromCivil_civilFromDays]

/-! ## Wall clocks -/

/-- The date and the time of day that a clock shows after so many milliseconds. -/
def wallParts (ms : ℤ) : ZonedParts where
  toCalendarDate := civilFromDays (ms / msPerDay)
  hour := ms % msPerDay / 3600000
  minute := ms % 3600000 / 60000
  second := ms % 60000 / 1000

/-- The runtime formats the instants of a time zone by the offsets of `zone`. -/
def TimeZones.Keeps (zones : TimeZones) (timezone : String) (zone : Zone) : Prop :=
  ∀ utc, zones.formatToParts utc timezone = wallParts (zone.localTime utc)

/-- The local time of a minute of a day. -/
def localMinute (d m : ℤ) : ℤ := d * msPerDay + m * 60000

theorem dateUTC_civilFromDays (d hour minute : ℤ) :
    dateUTC (civilFromDays d) hour minute 0 = localMinute d (hour * 60 + minute) := by
  unfold dateUTC localMinute
  rw [daysFromCivil_civilFromDays]
  omega

theorem dateUTC_wallParts (ms : ℤ) :
    dateUTC (wallParts ms).toCalendarDate (wallParts ms).hour (wallParts ms).minute
      (wallParts ms).second = ms - ms % 1000 := by
  unfold dateUTC wallParts msPerDay
  simp only [daysFromCivil_civilFromDays]
  omega

/-- A wall clock shows a minute of a day in that minute only. -/
theorem wallParts_eq_iff {ms d hour minute : ℤ} (hms : ms % 60000 = 0) (hhour : 0 ≤ hour)
    (hhour' : hour < 24) (hminute : 0 ≤ minute) (hminute' : minute < 60) :
    ((wallParts ms).toCalendarDate = civilFromDays d ∧ (wallParts ms).hour = hour ∧
      (wallParts ms).minute = minute) ↔ ms = localMinute d (hour * 60 + minute) := by
  unfold wallParts localMinute msPerDay
  simp only
  constructor
  · rintro ⟨hdate, hh, hm⟩
    have hday := civilFromDays_injective hdate
    omega
  · intro hlocal
    have hday : ms / (24 * 60 * 60 * 1000) = d := by omega
    rw [hday]
    refine ⟨rfl, ?_, ?_⟩
    · omega
    · omega

section Zoned

variable {zones : TimeZones} {timezone : String} {zone : Zone}

theorem zonedParts_eq (hkeeps : zones.Keeps timezone zone) (utc : ℤ) :
    zonedParts zones utc timezone = wallParts (zone.localTime utc) := by
  have hhour : (wallParts (zone.localTime utc)).hour ≠ 24 := by
    unfold wallParts msPerDay
    simp only
    omega
  unfold zonedParts
  simp only [hkeeps utc, if_neg hhour]

theorem tzOffsetMs_eq (hkeeps : zones.Keeps timezone zone) {utc : ℤ} (hutc : utc % 60000 = 0) :
    tzOffsetMs zones utc timezone = zone.offset utc := by
  have hwhole := zone.wholeMinutes utc
  unfold tzOffsetMs
  simp only [zonedParts_eq hkeeps, dateUTC_wallParts]
  unfold Zone.localTime
  omega

/-- The instant at which a minute of a day is struck, if it occurs. -/
def strike (zone : Zone) (m d : ℤ) : Option ℤ :=
  if zone.localTime (zone.instant (localMinute d m)) = localMinute d m then
    some (zone.instant (localMinute d m))
  else none

theorem zonedTimeToUtc_eq (hkeeps : zones.Keeps timezone zone) (d : ℤ) {hour minute : ℤ}
    (hhour : 0 ≤ hour) (hhour' : hour < 24) (hminute : 0 ≤ minute) (hminute' : minute < 60) :
    zonedTimeToUtc zones (civilFromDays d) hour minute timezone =
      strike zone (hour * 60 + minute) d := by
  have hguess := dateUTC_civilFromDays d hour minute
  have hwhole : localMinute d (hour * 60 + minute) % 60000 = 0 := by
    unfold localMinute msPerDay
    omega
  unfold zonedTimeToUtc strike
  simp only [hguess]
  generalize hl : localMinute d (hour * 60 + minute) = l at *
  have hoffset := zone.wholeMinutes l
  have hback : (l - zone.offset l) % 60000 = 0 := by omega
  have hoffset' := zone.wholeMinutes (l - zone.offset l)
  have hinstant : (if zone.offset (l - zone.offset l) ≠ zone.offset l then
      l - zone.offset (l - zone.offset l) else l - zone.offset l) = zone.instant l := rfl
  simp only [tzOffsetMs_eq hkeeps hwhole, tzOffsetMs_eq hkeeps hback, hinstant,
    zonedParts_eq hkeeps]
  have hlocal : zone.localTime (zone.instant l) % 60000 = 0 := by
    have hwhole' := zone.wholeMinutes (zone.instant l)
    have hinstantWhole : zone.instant l % 60000 = 0 := by
      rw [← hinstant]
      split <;> omega
    unfold Zone.localTime
    omega
  have hshown : (((wallParts (zone.localTime (zone.instant l))).toCalendarDate ≠ civilFromDays d ∨
      (wallParts (zone.localTime (zone.instant l))).hour ≠ hour ∨
      (wallParts (zone.localTime (zone.instant l))).minute ≠ minute) ↔
      ¬ zone.localTime (zone.instant l) = l) := by
    rw [← hl, ← wallParts_eq_iff (hl ▸ hlocal) hhour hhour' hminute hminute', hl]
    simp only [ne_eq, not_and_or]
  simp only [hshown, ite_not]

end Zoned

/-! ## Strikes -/

theorem strike_some {zone : Zone} {m d t : ℤ} (h : strike zone m d = some t) :
    zone.localTime t = localMinute d m := by
  unfold strike at h
  split at h
  · next hlocal =>
    cases h
    exact hlocal
  · cases h

/-- A clock strikes on the days on which its minute occurs. -/
theorem strike_isSome_iff {zone : Zone} {m d : ℤ} :
    (strike zone m d).isSome = true ↔ ∃ t, zone.localTime t = localMinute d m := by
  constructor
  · intro h
    obtain ⟨t, ht⟩ := Option.isSome_iff_exists.mp h
    exact ⟨t, strike_some ht⟩
  · rintro ⟨t, ht⟩
    unfold strike
    rw [if_pos (zone.localTime_instant ht)]
    rfl

theorem strike_lt {zone : Zone} {m d d' t t' : ℤ} (h : strike zone m d = some t)
    (h' : strike zone m d' = some t') (hlt : d < d') : t < t' := by
  apply zone.lt_of_localTime
  rw [strike_some h, strike_some h']
  unfold localMinute dayMs msPerDay
  omega

theorem strike_lt_iff {zone : Zone} {m d d' t t' : ℤ} (h : strike zone m d = some t)
    (h' : strike zone m d' = some t') : t < t' ↔ d < d' := by
  constructor
  · intro hlt
    by_contra hle
    rcases Int.lt_or_eq_of_le (Int.not_lt.mp hle) with hback | hsame
    · have hback' := strike_lt h' h hback
      omega
    · rw [hsame, h] at h'
      cases h'
      omega
  · exact strike_lt h h'

/-! ## The next strike -/

/-- The minute of the day at which a clock strikes. -/
def PullClock.minuteOfDay (clock : PullClock) : ℤ := ⌊clock.atMinute⌋

/-- The weekdays of a clock, if it has any, allow the day. -/
def PullClock.allows (clock : PullClock) (d : ℤ) : Bool :=
  (clock.weekdays.filter fun days => days ≠ []).all fun days =>
    days.contains (calendarWeekday (civilFromDays d) : ℚ)

/-- The strike of a clock on an allowed day. -/
def PullClock.strikes (clock : PullClock) (zone : Zone) (d : ℤ) : Option ℤ :=
  if clock.allows d then strike zone clock.minuteOfDay d else none

/-- The local day of an instant. -/
def localDay (zone : Zone) (t : ℤ) : ℤ := zone.localTime t / msPerDay

structure PullClock.Valid (clock : PullClock) : Prop where
  integer : ((⌊clock.atMinute⌋ : ℤ) : ℚ) = clock.atMinute
  low : 0 ≤ clock.minuteOfDay
  high : clock.minuteOfDay < 1440

theorem readPullClock_valid {zones : TimeZones} {trigger : PullSchedule} {clock : PullClock}
    (h : readPullClock zones trigger = some clock) : clock.Valid := by
  simp only [readPullClock, Option.bind_eq_bind, Option.bind_eq_some_iff] at h
  obtain ⟨atMinute, hminute, timezone, -, hclock⟩ := h
  cases hclock
  have hvalid := (Option.filter_eq_some_iff.mp hminute).2
  simp only [isAtMinute, isInteger, Bool.and_eq_true, decide_eq_true_eq] at hvalid
  obtain ⟨⟨hinteger, hlow⟩, hhigh⟩ := hvalid
  have hnum : ((atMinute.num : ℤ) : ℚ) = atMinute := (Rat.den_eq_one_iff atMinute).mp hinteger
  have hfloor : ⌊atMinute⌋ = atMinute.num := by
    rw [← hnum, Int.floor_intCast, hnum]
  constructor
  · rw [hfloor, hnum]
  · unfold PullClock.minuteOfDay
    exact Int.floor_nonneg.mpr hlow
  · unfold PullClock.minuteOfDay
    apply Int.floor_lt.mpr
    exact lt_of_le_of_lt hhigh (by norm_num)

theorem nextClockAtOrAfter_eq {zones : TimeZones} {zone : Zone} {clock : PullClock}
    (hkeeps : zones.Keeps clock.timezone zone) (hvalid : clock.Valid) (earliest : ℤ) :
    nextClockAtOrAfter zones clock earliest =
      (List.range 22).findSome? fun offset : ℕ =>
        (clock.strikes zone (localDay zone earliest + offset)).filter fun t => earliest ≤ t := by
  have hhour : ⌊clock.atMinute / 60⌋ = clock.minuteOfDay / 60 := by
    have hdiv := Rat.floor_intCast_div_natCast ⌊clock.atMinute⌋ 60
    rw [hvalid.integer] at hdiv
    exact_mod_cast hdiv
  have hlow := hvalid.low
  have hhigh := hvalid.high
  have hstart : (zonedParts zones earliest clock.timezone).toCalendarDate =
      civilFromDays (localDay zone earliest) := by
    rw [zonedParts_eq hkeeps]
    rfl
  have hoffsets : (do let offset ← List.range 22; pure (offset : ℤ)) =
      (List.range 22).map fun offset : ℕ => (offset : ℤ) := rfl
  unfold nextClockAtOrAfter
  simp only [hstart, addCalendarDays_civilFromDays, hhour]
  rw [hoffsets, List.findSome?_map]
  congr 1
  funext offset
  simp only [Function.comp_apply]
  have hminute : ⌊clock.atMinute⌋ % 60 = clock.minuteOfDay % 60 := rfl
  have hsplit : clock.minuteOfDay / 60 * 60 + clock.minuteOfDay % 60 = clock.minuteOfDay := by
    omega
  rw [hminute, zonedTimeToUtc_eq hkeeps _ (by omega) (by omega) (by omega) (by omega), hsplit]
  unfold PullClock.strikes PullClock.allows
  cases clock.weekdays.filter fun days => days ≠ [] with
  | none => simp
  | some days =>
    simp only [Option.any_some, Option.all_some]
    by_cases hday : days.contains
        (calendarWeekday (civilFromDays (localDay zone earliest + offset)) : ℚ) = true
    · rw [if_neg (by simp only [hday, Bool.not_true, Bool.false_eq_true, not_false_iff]),
        if_pos hday]
    · rw [if_pos (by simpa only [Bool.not_eq_true', Bool.not_eq_true] using hday), if_neg hday]
      rfl

/-- The first strike of a clock that is not before an instant. -/
structure PullClock.Next (clock : PullClock) (zone : Zone) (earliest d t : ℤ) : Prop where
  strikes : clock.strikes zone d = some t
  late : earliest ≤ t
  first : ∀ d' t', clock.strikes zone d' = some t' → earliest ≤ t' → d ≤ d'

theorem PullClock.strikes_some {clock : PullClock} {zone : Zone} {d t : ℤ}
    (h : clock.strikes zone d = some t) :
    clock.allows d = true ∧ strike zone clock.minuteOfDay d = some t := by
  unfold PullClock.strikes at h
  split at h
  · next hallows => exact ⟨hallows, h⟩
  · cases h

/-- The next strike is found exactly when its day is not before the local day of the instant,
and three weeks after it at most. -/
theorem nextClockAtOrAfter_iff {zones : TimeZones} {zone : Zone} {clock : PullClock}
    (hkeeps : zones.Keeps clock.timezone zone) (hvalid : clock.Valid) {earliest d t : ℤ}
    (hnext : clock.Next zone earliest d t) :
    nextClockAtOrAfter zones clock earliest = some t ↔
      localDay zone earliest ≤ d ∧ d ≤ localDay zone earliest + 21 := by
  rw [nextClockAtOrAfter_eq hkeeps hvalid]
  constructor
  · intro hfound
    obtain ⟨offset, hoffset, hstrikes⟩ := List.exists_of_findSome?_eq_some hfound
    have hrange := List.mem_range.mp hoffset
    have hother := (Option.filter_eq_some_iff.mp hstrikes).1
    have hsame : localDay zone earliest + offset = d := by
      have hthis := (PullClock.strikes_some hother).2
      have hthat := (PullClock.strikes_some hnext.strikes).2
      by_contra hdiffer
      rcases Int.lt_or_gt_of_ne hdiffer with hbefore | hafter
      · have hlt := strike_lt hthis hthat hbefore
        omega
      · have hlt := strike_lt hthat hthis hafter
        omega
    omega
  · rintro ⟨hlow, hhigh⟩
    obtain ⟨n, hn⟩ := Int.le.dest hlow
    have hsmall : n < 22 := by omega
    have hsplit : List.range 22 = List.range n ++ (List.range (22 - n)).map (n + ·) := by
      rw [← List.range_add]
      congr 1
      omega
    have hmiss : ∀ offset ∈ List.range n,
        ((clock.strikes zone (localDay zone earliest + offset)).filter fun t => earliest ≤ t) =
          none := by
      intro offset hoffset
      have hlt := List.mem_range.mp hoffset
      apply Option.eq_none_iff_forall_ne_some.mpr
      intro t' hstrikes
      obtain ⟨hthis, hlate⟩ := Option.filter_eq_some_iff.mp hstrikes
      have hfirst := hnext.first _ _ hthis (by simpa using hlate)
      omega
    obtain ⟨rest, hrest⟩ : ∃ rest, 22 - n = rest + 1 := ⟨22 - n - 1, by omega⟩
    rw [hsplit, List.findSome?_append, List.findSome?_eq_none_iff.mpr hmiss, Option.none_or, hrest,
      List.range_succ_eq_map, List.map_cons, List.findSome?_cons]
    have hthis : localDay zone earliest + ((n + 0 : ℕ) : ℤ) = d := by omega
    rw [hthis, hnext.strikes, Option.filter_some, if_pos (by simpa using hnext.late)]

end Regenic.Recipes
