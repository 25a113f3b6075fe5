import Mathlib.Data.List.Chain
import Regenic.Recipes.LocalDays

/-!
The fires of a pull with a clock, each computed from the one before and the time it was handled
at. They are one for each day the clock strikes on, as long as the search for the next one
starts on a local day that is not already past it, and ends before three weeks are over.
-/

namespace Regenic.Recipes

open Lib

variable (zones : TimeZones) (zone : Zone)

/-- The fires from one on, each advanced at the next of the given times. -/
def pullFires (trigger : RecipeTrigger) : Timestamp → List Timestamp → Option (List Timestamp)
  | since, [] => some [since]
  | since, now :: rest =>
    (advanceRecipePull zones trigger since now).bind fun next =>
      (pullFires trigger next rest).map (since :: ·)

/-- What `toISOString` writes, `Date.parse` reads. -/
def TimeZones.Dated : Prop :=
  ∀ t text, zones.toISOString t = some text → zones.parseDate text = some t

/-- Every fire is handled at its time or later, and before the clock strikes again. -/
def Timely (clock : PullClock) (trigger : RecipeTrigger) : Timestamp → List Timestamp → Prop
  | _, [] => True
  | since, now :: rest =>
    (∃ t n, zones.parseDate since = some t ∧ zones.parseDate now = some n ∧ t ≤ n ∧
      ∀ d' t', clock.strikes zone d' = some t' → t < t' → n < t') ∧
    ∀ next, advanceRecipePull zones trigger since now = some next →
      Timely clock trigger next rest

/-- The next strike is within reach: its day is not before the local day just after the fire
was handled, nor more than three weeks later, and it can be written as a date. -/
def InReach (clock : PullClock) (trigger : RecipeTrigger) : Timestamp → List Timestamp → Prop
  | _, [] => True
  | since, now :: rest =>
    (∀ n, zones.parseDate now = some n →
      ∃ d t, clock.Next zone (n + 1) d t ∧ localDay zone (n + 1) ≤ d ∧
        d ≤ localDay zone (n + 1) + 21 ∧ (zones.toISOString t).isSome = true) ∧
    ∀ next, advanceRecipePull zones trigger since now = some next →
      InReach clock trigger next rest

/-- One fire for every allowed day on which the minute of the clock occurs. -/
structure OncePerDay (clock : PullClock) (fires : List ℤ) : Prop where
  increasing : fires.Pairwise (· < ·)
  wallClock : ∀ t ∈ fires, clock.allows (localDay zone t) = true ∧
    zone.localTime t = localMinute (localDay zone t) clock.minuteOfDay
  everyDay : ∀ d, clock.allows d = true →
    (∃ t, zone.localTime t = localMinute d clock.minuteOfDay) →
    (∃ t ∈ fires, localDay zone t ≤ d) → (∃ t ∈ fires, d ≤ localDay zone t) →
    ∃! t, t ∈ fires ∧ localDay zone t = d

/-! ## One fire to the next -/

/-- The clock strikes on the later day, and on none between. -/
structure PullClock.NextDay (clock : PullClock) (zone : Zone) (d d' : ℤ) : Prop where
  later : d < d'
  strikes : (clock.strikes zone d').isSome = true
  none_between : ∀ e, d < e → e < d' → clock.strikes zone e = none

variable {zones zone} {clock : PullClock} {trigger : RecipeTrigger}

theorem PullClock.strikes_lt {d d' t t' : ℤ} (h : clock.strikes zone d = some t)
    (h' : clock.strikes zone d' = some t') : t < t' ↔ d < d' :=
  strike_lt_iff (PullClock.strikes_some h).2 (PullClock.strikes_some h').2

theorem localDay_strikes (hvalid : clock.Valid) {d t : ℤ} (h : clock.strikes zone d = some t) :
    localDay zone t = d := by
  have hlow := hvalid.low
  have hhigh := hvalid.high
  unfold localDay
  rw [strike_some (PullClock.strikes_some h).2]
  unfold localMinute msPerDay
  omega

/-- The fire after one is the strike of the next day. -/
theorem advanceRecipePull_next (hkeeps : zones.Keeps clock.timezone zone) (hdated : zones.Dated)
    (hclock : readPullClock zones trigger.toPullSchedule = some clock)
    (hkind : trigger.kind = .pull) {since now : Timestamp} {t n d : ℤ}
    (hsince : zones.parseDate since = some t) (hfire : clock.strikes zone d = some t)
    (hnow : zones.parseDate now = some n) (hlate : t ≤ n)
    (hearly : ∀ d' t', clock.strikes zone d' = some t' → t < t' → n < t') {d' t' : ℤ}
    (hnext : clock.Next zone (n + 1) d' t') (hlow : localDay zone (n + 1) ≤ d')
    (hhigh : d' ≤ localDay zone (n + 1) + 21) (hwritten : (zones.toISOString t').isSome = true) :
    clock.NextDay zone d d' ∧
      ∃ next, advanceRecipePull zones trigger since now = some next ∧
        zones.parseDate next = some t' := by
  have hvalid := readPullClock_valid hclock
  have hlater : t < t' := by
    have hreached := hnext.late
    omega
  obtain ⟨next, hiso⟩ := Option.isSome_iff_exists.mp hwritten
  constructor
  · constructor
    · exact (PullClock.strikes_lt hfire hnext.strikes).mp hlater
    · rw [hnext.strikes]
      rfl
    · intro e hafter hbefore
      cases hstrikes : clock.strikes zone e with
      | none => rfl
      | some te =>
        have hte := hearly e te hstrikes ((PullClock.strikes_lt hfire hstrikes).mpr hafter)
        have hfirst := hnext.first e te hstrikes (by omega)
        omega
  · refine ⟨next, ?_, hdated t' next hiso⟩
    have hearliest : max t n + 1 = n + 1 := by omega
    unfold advanceRecipePull
    simp only [hclock, if_pos hkind, hsince, hnow, Option.getD_some, hearliest,
      (nextClockAtOrAfter_iff hkeeps hvalid hnext).mpr ⟨hlow, hhigh⟩, Option.bind_some, hiso]
    rfl

/-- The first fire of a pull is the first strike that is not before the time it was saved at. -/
theorem initialPullNextRun_next (hkeeps : zones.Keeps clock.timezone zone)
    (hclock : readPullClock zones trigger.toPullSchedule = some clock)
    (hkind : trigger.kind = .pull) {now text : Timestamp} {n d t : ℤ}
    (hnow : zones.parseDate now = some n) (hnext : clock.Next zone n d t)
    (hlow : localDay zone n ≤ d) (hhigh : d ≤ localDay zone n + 21)
    (hwritten : zones.toISOString t = some text) :
    initialPullNextRun zones trigger now = text := by
  have hfound := (nextClockAtOrAfter_iff hkeeps (readPullClock_valid hclock) hnext).mpr
    ⟨hlow, hhigh⟩
  unfold initialPullNextRun
  simp only [hclock, if_pos hkind, hnow, Option.getD_some, hfound, Option.bind_some, hwritten]

/-! ## The run -/

/-- The fires of a run are the strikes of days that follow each other. -/
theorem pullFires_days (hkeeps : zones.Keeps clock.timezone zone) (hdated : zones.Dated)
    (hclock : readPullClock zones trigger.toPullSchedule = some clock)
    (hkind : trigger.kind = .pull) (nows : List Timestamp) {since : Timestamp} {t d : ℤ}
    (hsince : zones.parseDate since = some t) (hfire : clock.strikes zone d = some t)
    (htimely : Timely zones zone clock trigger since nows)
    (hreach : InReach zones zone clock trigger since nows) :
    ∃ fires days, pullFires zones trigger since nows = some fires ∧
      (d :: days).IsChain (clock.NextDay zone) ∧
      fires.map zones.parseDate = (d :: days).map (clock.strikes zone) := by
  induction nows generalizing since t d with
  | nil =>
    refine ⟨[since], [], rfl, List.isChain_singleton d, ?_⟩
    rw [List.map_singleton, List.map_singleton, hsince, hfire]
  | cons now rest ih =>
    obtain ⟨⟨t₀, n, hthis, hnow, hlate, hearly⟩, htimely⟩ := htimely
    obtain ⟨hwithin, hreach⟩ := hreach
    rw [hsince] at hthis
    cases hthis
    obtain ⟨d', t', hnext, hlow, hhigh, hwritten⟩ := hwithin n hnow
    obtain ⟨hday, next, hadvance, hparse⟩ := advanceRecipePull_next hkeeps hdated hclock hkind
      hsince hfire hnow hlate hearly hnext hlow hhigh hwritten
    obtain ⟨fires, days, hfires, hchain, hstrikes⟩ :=
      ih hparse hnext.strikes (htimely next hadvance) (hreach next hadvance)
    refine ⟨since :: fires, d' :: days, ?_, List.isChain_cons_cons.mpr ⟨hday, hchain⟩, ?_⟩
    · simp only [pullFires, hadvance, Option.bind_some, hfires, Option.map_some]
    · rw [List.map_cons, hstrikes, hsince, ← hfire]
      rfl

/-- A chain of days leaves out no day the clock strikes on. -/
theorem mem_of_chain {d : ℤ} {days : List ℤ} (hchain : (d :: days).IsChain (clock.NextDay zone))
    {e s : ℤ} (hstrikes : (clock.strikes zone e).isSome = true) (hlow : d ≤ e)
    (hmem : s ∈ d :: days) (hhigh : e ≤ s) : e ∈ d :: days := by
  induction days generalizing d with
  | nil =>
    have hsame : s = d := List.mem_singleton.mp hmem
    have heq : e = d := by omega
    rw [heq]
    exact List.mem_singleton.mpr rfl
  | cons d' rest ih =>
    obtain ⟨hday, hrest⟩ := List.isChain_cons_cons.mp hchain
    by_cases hhere : e = d
    · rw [hhere]
      exact List.mem_cons_self
    · have hbeyond : d' ≤ e := by
        by_contra hbefore
        rw [hday.none_between e (by omega) (by omega)] at hstrikes
        cases hstrikes
      apply List.mem_cons_of_mem
      apply ih hrest hbeyond
      rcases List.mem_cons.mp hmem with hfirst | hlater
      · omega
      · exact hlater

theorem strikes_of_chain {d : ℤ} {days : List ℤ} (hchain : (d :: days).IsChain (clock.NextDay zone))
    (hfirst : (clock.strikes zone d).isSome = true) :
    ∀ e ∈ d :: days, (clock.strikes zone e).isSome = true := by
  induction days generalizing d with
  | nil =>
    intro e he
    rw [List.mem_singleton.mp he]
    exact hfirst
  | cons d' rest ih =>
    obtain ⟨hday, hrest⟩ := List.isChain_cons_cons.mp hchain
    intro e he
    rcases List.mem_cons.mp he with rfl | hlater
    · exact hfirst
    · exact ih hrest hday.strikes e hlater

theorem oncePerDay_of_chain (hvalid : clock.Valid) {d : ℤ} {days instants : List ℤ}
    (hchain : (d :: days).IsChain (clock.NextDay zone))
    (hstrikes : (d :: days).map (clock.strikes zone) = instants.map some) :
    OncePerDay zone clock instants := by
  have hmem : ∀ t, t ∈ instants ↔ ∃ e ∈ d :: days, clock.strikes zone e = some t := by
    intro t
    have hsome : t ∈ instants ↔ some t ∈ instants.map some := by simp
    rw [hsome, ← hstrikes, List.mem_map]
  have hdays : (d :: days).Pairwise (· < ·) :=
    List.isChain_iff_pairwise.mp (hchain.imp fun _ _ hday => hday.later)
  constructor
  · have hpairs : ((d :: days).map (clock.strikes zone)).Pairwise fun o o' =>
        ∀ t t', o = some t → o' = some t' → t < t' := by
      apply List.pairwise_map.mpr
      apply hdays.imp
      intro e e' hlt t t' ht ht'
      exact (PullClock.strikes_lt ht ht').mpr hlt
    rw [hstrikes] at hpairs
    apply (List.pairwise_map.mp hpairs).imp
    intro t t' hlt
    exact hlt t t' rfl rfl
  · intro t ht
    obtain ⟨e, -, he⟩ := (hmem t).mp ht
    obtain ⟨hallows, hstrike⟩ := PullClock.strikes_some he
    rw [localDay_strikes hvalid he]
    exact ⟨hallows, strike_some hstrike⟩
  · rintro e hallows hoccurs ⟨first, hfirst, hlow⟩ ⟨last, hlast, hhigh⟩
    obtain ⟨dayFirst, hdayFirst, hfirst⟩ := (hmem first).mp hfirst
    obtain ⟨dayLast, hdayLast, hlast⟩ := (hmem last).mp hlast
    rw [localDay_strikes hvalid hfirst] at hlow
    rw [localDay_strikes hvalid hlast] at hhigh
    have hstart : d ≤ e := by
      rcases List.mem_cons.mp hdayFirst with hhead | htail
      · omega
      · have hafter := (List.pairwise_cons.mp hdays).1 dayFirst htail
        omega
    have hsome : (clock.strikes zone e).isSome = true := by
      unfold PullClock.strikes
      rw [if_pos hallows]
      exact strike_isSome_iff.mpr hoccurs
    have hchained := mem_of_chain hchain hsome hstart hdayLast hhigh
    obtain ⟨t, ht⟩ := Option.isSome_iff_exists.mp hsome
    refine ⟨t, ⟨(hmem t).mpr ⟨e, hchained, ht⟩, localDay_strikes hvalid ht⟩, ?_⟩
    rintro t' ⟨ht', hday⟩
    obtain ⟨e', -, he'⟩ := (hmem t').mp ht'
    rw [localDay_strikes hvalid he'] at hday
    rw [hday, ht] at he'
    exact (Option.some.inj he').symm

/-- Two hours east of Greenwich, and one hour from half past midnight on the second of January
1970, when the clock goes back to half past eleven. -/
def midnightZone : Zone where
  offset t := if t < 81000000 then 7200000 else 3600000
  wholeMinutes t := by split <;> decide
  bounded t := by split <;> decide
  transition _ := ⟨81000000, 7200000, 3600000, by decide, fun _ _ _ => rfl⟩

def midnightInstants : List (ℤ × Timestamp) :=
  [(-8100000, ⟨"1969-12-31T21:45:00.000Z", by decide⟩),
   (79800000, ⟨"1970-01-01T22:10:00.000Z", by decide⟩),
   (81900000, ⟨"1970-01-01T22:45:00.000Z", by decide⟩),
   (168300000, ⟨"1970-01-02T22:45:00.000Z", by decide⟩)]

def midnightZones : TimeZones where
  known _ := true
  formatToParts utc _ := wallParts (midnightZone.localTime utc)
  parseDate text := (midnightInstants.find? fun entry => entry.2 = text).map Prod.fst
  toISOString t := (midnightInstants.find? fun entry => entry.1 = t).map Prod.snd
  dateNow := 0

/-- A quarter to midnight. -/
def lateTrigger : RecipeTrigger :=
  { kind := .pull, atMinute := some 1425, timezone := some "Europe/East" }

def lateClock : PullClock := { atMinute := 1425, timezone := "Europe/East" }

def lateFire : Timestamp := ⟨"1969-12-31T21:45:00.000Z", by decide⟩

/-- Ten past midnight, twenty minutes before the clock goes back. -/
def pastMidnight : Timestamp := ⟨"1970-01-01T22:10:00.000Z", by decide⟩

theorem midnightZones_keeps (timezone : String) : midnightZones.Keeps timezone midnightZone :=
  fun _ => rfl

theorem midnightZones_dated : midnightZones.Dated := by
  have hall : ∀ entry ∈ midnightInstants, midnightZones.parseDate entry.2 = some entry.1 := by
    decide
  intro t text hiso
  obtain ⟨entry, hentry, htext⟩ := Option.map_eq_some_iff.mp hiso
  have ht : entry.1 = t := by simpa using List.find?_some hentry
  rw [← htext, ← ht]
  exact hall entry (List.mem_of_find?_eq_some hentry)

theorem lateClock_reads : readPullClock midnightZones lateTrigger.toPullSchedule = some lateClock := by
  decide +kernel

theorem lateClock_strikes (d : ℤ) : lateClock.strikes midnightZone d =
    some (d * 86400000 + 85500000 - if d < 0 then 7200000 else 3600000) := by
  have hminute : lateClock.minuteOfDay = 1425 := by decide +kernel
  have hallows : lateClock.allows d = true := rfl
  unfold PullClock.strikes strike Zone.instant Zone.localTime midnightZone localMinute msPerDay
  rw [if_pos hallows, hminute]
  simp only
  split_ifs <;> first | omega | exact congrArg some (by omega)

end Regenic.Recipes
