import Regenic.Recipes.Store

/-!
What the columns of a recipe keep: a schedule, a trigger and a match are read back from them as
they were written, when they are in the form that the API gives them.
-/

namespace Regenic.Recipes

open Lib

/-! ## Weekdays -/

/-- Weekdays as a clock has them: some, each once, in order. -/
structure WeekdayList (days : List ℚ) : Prop where
  ne_nil : days ≠ []
  weekday : ∀ day ∈ days, isWeekday day = true
  nodup : days.Nodup
  sorted : days.Pairwise (· ≤ ·)

theorem keepFirst_id_of_nodup {α : Type} [DecidableEq α] {items : List α} (h : items.Nodup) :
    keepFirst id items = items := by
  induction items with
  | nil => rfl
  | cons item items ih =>
    obtain ⟨hitem, hitems⟩ := List.nodup_cons.mp h
    rw [keepFirst, ih hitems, List.filter_eq_self.mpr]
    intro other hother
    have hne : other ≠ item := fun heq => hitem (heq ▸ hother)
    simpa using hne

theorem normalizeWeekdays_list {value : Option (List ℚ)} {days : List ℚ}
    (h : normalizeWeekdays value = some days) : WeekdayList days := by
  unfold normalizeWeekdays at h
  obtain ⟨hmap, hne⟩ := Option.filter_eq_some_iff.mp h
  obtain ⟨given, _, hdays⟩ := Option.map_eq_some_iff.mp hmap
  have hperm := List.perm_insertionSort (· ≤ ·) (keepFirst id (given.filter isWeekday))
  rw [hdays] at hperm
  constructor
  · simpa using hne
  · intro day hday
    have hkept := mem_keepFirst_id.mp (hperm.mem_iff.mp hday)
    exact (List.mem_filter.mp hkept).2
  · exact hperm.nodup_iff.mpr (nodup_keepFirst_id _)
  · rw [← hdays]
    exact List.pairwise_insertionSort _ _

theorem normalizeWeekdays_eq {days : List ℚ} (h : WeekdayList days) :
    normalizeWeekdays (some days) = some days := by
  have hfilter : days.filter isWeekday = days := List.filter_eq_self.mpr h.weekday
  unfold normalizeWeekdays
  rw [Option.map_some, hfilter, keepFirst_id_of_nodup h.nodup, h.sorted.insertionSort_eq]
  exact Option.filter_some_pos (by simpa using h.ne_nil)

theorem isWeekday_whole {day : ℚ} (h : isWeekday day = true) : ∃ n : ℕ, day = n := by
  simp only [isWeekday, isInteger, Bool.and_eq_true, decide_eq_true_eq] at h
  obtain ⟨⟨hden, hlow⟩, _⟩ := h
  have hwhole : (day.num : ℚ) = day := Rat.coe_int_num_of_den_eq_one hden
  have hpositive : 0 ≤ day.num := Rat.num_nonneg.mpr (le_trans zero_le_one hlow)
  refine ⟨day.num.toNat, ?_⟩
  rw [← hwhole, Rat.num_intCast]
  exact_mod_cast (Int.toNat_of_nonneg hpositive).symm

theorem wholeText_natCast (n : ℕ) : wholeText (n : ℚ) = Nat.toDigits 10 n := by
  simp [wholeText]

theorem numberOf_wholeText (n : ℕ) : numberOf (wholeText (n : ℚ)) = some (n : ℚ) := by
  have hne : Nat.toDigits 10 n ≠ [] := Nat.toDigits_ne_nil
  have hdigits : (Nat.toDigits 10 n).all Char.isDigit = true := by
    rw [List.all_eq_true]
    intro c hc
    exact Nat.isDigit_of_mem_toDigits (by omega) (by omega) hc
  rw [wholeText_natCast]
  unfold numberOf
  rw [if_pos ⟨hne, hdigits⟩, Nat.ofDigitChars_toDigits]
  · omega
  · omega

theorem comma_not_mem_wholeText (n : ℕ) : ',' ∉ wholeText (n : ℚ) := by
  intro hmem
  rw [wholeText_natCast] at hmem
  have hdigit := Nat.isDigit_of_mem_toDigits (by omega) (by omega) hmem
  exact absurd hdigit (by decide)

/-- The text of the weekday column. -/
def weekdayText (days : List ℚ) : String := String.ofList (joinWith ',' (days.map wholeText))

/-- The weekday column gives the weekdays back. -/
theorem parseWeekdayColumn_weekdayText {days : List ℚ} (h : WeekdayList days) :
    parseWeekdayColumn (some (weekdayText days)) = some days := by
  have hparts : days.map wholeText ≠ [] := by simpa using h.ne_nil
  have hcomma : ∀ part ∈ days.map wholeText, ',' ∉ part := by
    intro part hpart
    obtain ⟨day, hday, rfl⟩ := List.mem_map.mp hpart
    obtain ⟨n, rfl⟩ := isWeekday_whole (h.weekday day hday)
    exact comma_not_mem_wholeText n
  have hfull : ∀ part ∈ days.map wholeText, part ≠ [] := by
    intro part hpart
    obtain ⟨day, hday, rfl⟩ := List.mem_map.mp hpart
    exact Nat.toDigits_ne_nil
  have htext : present (some (weekdayText days)) = some (weekdayText days) := by
    apply present_some.mpr
    constructor
    · rfl
    · intro hempty
      apply joinWith_ne_nil hparts hfull
      simpa [weekdayText] using congrArg String.toList hempty
  have hnumbers : (days.map wholeText).filterMap numberOf = days := by
    rw [List.filterMap_map]
    have hsome : ∀ day ∈ days, (numberOf ∘ wholeText) day = some day := by
      intro day hday
      obtain ⟨n, rfl⟩ := isWeekday_whole (h.weekday day hday)
      exact numberOf_wholeText n
    rw [List.filterMap_congr hsome, List.filterMap_some]
  unfold parseWeekdayColumn
  rw [htext, Option.map_some, weekdayText, String.toList_ofList, splitBy_joinWith hparts hcomma,
    hnumbers]

/-! ## Clocks -/

variable {zones : TimeZones}

/-- A clock as it is read from a trigger. -/
structure NormalClock (zones : TimeZones) (clock : PullClock) : Prop where
  atMinute : isAtMinute clock.atMinute = true
  timezone : isTimeZone zones clock.timezone = true
  trimmed : jsTrim clock.timezone = clock.timezone
  weekdays : ∀ days, clock.weekdays = some days → WeekdayList days

theorem isTimeZone_jsTrim {value : String} (h : isTimeZone zones value = true) :
    isTimeZone zones (jsTrim value) = true := by
  unfold isTimeZone at h ⊢
  simpa only [jsTrim_jsTrim] using h

theorem readPullClock_normal {schedule : PullSchedule} {clock : PullClock}
    (h : readPullClock zones schedule = some clock) : NormalClock zones clock := by
  simp only [readPullClock, Option.bind_eq_bind, Option.bind_eq_some_iff,
    Option.filter_eq_some_iff, Option.some.injEq] at h
  obtain ⟨atMinute, ⟨_, hminute⟩, timezone, ⟨_, hzone⟩, rfl⟩ := h
  constructor
  · exact hminute
  · exact isTimeZone_jsTrim hzone
  · exact jsTrim_jsTrim timezone
  · intro days hdays
    exact normalizeWeekdays_list hdays

/-- A clock is read again from its own fields, however the weekdays were written. -/
theorem readPullClock_fields {clock : PullClock} (h : NormalClock zones clock)
    {schedule : PullSchedule} (hminute : schedule.atMinute = some clock.atMinute)
    (hzone : schedule.timezone = some clock.timezone)
    (hdays : schedule.weekdays = clock.weekdays) : readPullClock zones schedule = some clock := by
  have hweekdays : normalizeWeekdays clock.weekdays = clock.weekdays := by
    cases hclock : clock.weekdays with
    | none => rfl
    | some days => exact normalizeWeekdays_eq (h.weekdays days hclock)
  unfold readPullClock
  rw [hminute, hzone, hdays, hweekdays, Option.filter_some_pos h.atMinute,
    Option.filter_some_pos h.timezone]
  simp only [Option.bind_eq_bind, Option.bind_some, h.trimmed]

/-! ## Triggers -/

theorem RecipeTriggerKind.parse_name (kind : RecipeTriggerKind) :
    RecipeTriggerKind.parse kind.name = some kind := by
  cases kind with
  | push => rfl
  | pull => rfl
  | manual => rfl

/-- A trigger as `normalizeRecipeTrigger` gives it. -/
inductive NormalTrigger (zones : TimeZones) : RecipeTrigger → Prop where
  | clock {clock : PullClock} {intervalMs : ℚ} (read : NormalClock zones clock)
      (valid : isPullIntervalMs intervalMs = true) :
      NormalTrigger zones
        { toPullSchedule := clock.schedule (some intervalMs), kind := .pull }
  | interval {intervalMs : ℚ} (valid : isPullIntervalMs intervalMs = true) :
      NormalTrigger zones { kind := .pull, intervalMs := some intervalMs }
  | manual : NormalTrigger zones { kind := .manual }
  | push (coalesce : Bool) : NormalTrigger zones { kind := .push, coalesce := some coalesce }

theorem isPullIntervalMs_hour : isPullIntervalMs pullIntervalHour = true := by
  decide +kernel

theorem isPullIntervalMs_getD (value : Option ℚ) :
    isPullIntervalMs ((value.filter isPullIntervalMs).getD pullIntervalHour) = true := by
  cases hvalue : value.filter isPullIntervalMs with
  | none => exact isPullIntervalMs_hour
  | some interval => exact (Option.filter_eq_some_iff.mp hvalue).2

theorem normalizeRecipeTrigger_normal (input : Option RecipeTriggerInput)
    («match» : RecipeMatch) :
    NormalTrigger zones (normalizeRecipeTrigger zones input «match») := by
  unfold normalizeRecipeTrigger
  dsimp only
  split
  · split
    · next clock hclock =>
      exact .clock (readPullClock_normal hclock) (isPullIntervalMs_getD _)
    · exact .interval (isPullIntervalMs_getD _)
  · exact .manual
  · exact .push _

theorem pullScheduleFromColumns_clock {clock : PullClock} {intervalMs : ℚ}
    (h : NormalClock zones clock) (hvalid : isPullIntervalMs intervalMs = true) :
    pullScheduleFromColumns zones (pullScheduleColumns zones
      { toPullSchedule := clock.schedule (some intervalMs), kind := .pull }) =
      clock.schedule (some intervalMs) := by
  have hread : readPullClock zones (clock.schedule (some intervalMs)) = some clock :=
    readPullClock_fields h rfl rfl rfl
  have hcolumns : pullScheduleColumns zones
      { toPullSchedule := clock.schedule (some intervalMs), kind := .pull } =
      { intervalMs := some intervalMs
        atMinute := some clock.atMinute
        weekdays := clock.weekdays.map weekdayText
        timezone := some clock.timezone } := by
    have hdays : clock.weekdays.filter (fun days => decide (days ≠ [])) = clock.weekdays := by
      cases hclock : clock.weekdays with
      | none => rfl
      | some days =>
        exact Option.filter_some_pos (by simpa using (h.weekdays days hclock).ne_nil)
    unfold pullScheduleColumns
    simp only [hread, Option.map_some, Option.bind_some, hdays]
    simp [PullClock.schedule, Option.filter_some_pos hvalid]
    rfl
  have hdays : parseWeekdayColumn (clock.weekdays.map weekdayText) = clock.weekdays := by
    cases hclock : clock.weekdays with
    | none => rfl
    | some days => exact parseWeekdayColumn_weekdayText (h.weekdays days hclock)
  have hagain : readPullClock zones
      { atMinute := some clock.atMinute
        timezone := some clock.timezone
        weekdays := parseWeekdayColumn (clock.weekdays.map weekdayText) } = some clock :=
    readPullClock_fields h rfl rfl hdays
  rw [hcolumns]
  unfold pullScheduleFromColumns
  dsimp only
  rw [hagain, Option.filter_some_pos hvalid]

theorem pullScheduleFromColumns_interval {intervalMs : ℚ}
    (hvalid : isPullIntervalMs intervalMs = true) :
    pullScheduleFromColumns zones (pullScheduleColumns zones
      { kind := .pull, intervalMs := some intervalMs }) = { intervalMs := some intervalMs } := by
  have hcolumns : pullScheduleColumns zones { kind := .pull, intervalMs := some intervalMs } =
      { intervalMs := some intervalMs } := by
    simp [pullScheduleColumns, readPullClock, Option.filter_some_pos hvalid]
  rw [hcolumns]
  simp [pullScheduleFromColumns, readPullClock, Option.filter_some_pos hvalid]

/-- The columns of a trigger give it back. -/
theorem readTrigger_recipeRow {recipe : Recipe} (h : NormalTrigger zones recipe.trigger) :
    readTrigger zones (recipeRow zones recipe) = some recipe.trigger := by
  generalize htrigger : recipe.trigger = trigger at h
  unfold readTrigger recipeRow
  rw [htrigger, RecipeTriggerKind.parse_name, Option.map_some]
  cases h with
  | clock hclock hvalid => simp only [pullScheduleFromColumns_clock hclock hvalid]
  | interval hvalid => simp only [pullScheduleFromColumns_interval hvalid]
  | manual => rfl
  | push coalesce =>
    cases coalesce with
    | false => rfl
    | true => rfl

/-! ## Matches -/

theorem printableMembers_append {left right : List (String × JsonValue)}
    (hleft : Json.PrintableMembers left) (hright : Json.PrintableMembers right) :
    Json.PrintableMembers (left ++ right) := by
  induction left with
  | nil => exact hright
  | cons member left ih => exact ⟨hleft.1, ih hleft.2⟩

theorem printableMembers_jsonField (name : String) (value : Option String) :
    Json.PrintableMembers (jsonField name value) := by
  cases value with
  | none => trivial
  | some text => exact ⟨trivial, trivial⟩

theorem RecipeMatch.toJson_printable («match» : RecipeMatch) :
    Json.Printable «match».toJson := by
  have happend := @printableMembers_append
  have hfield := printableMembers_jsonField
  exact happend (happend (happend (happend (happend (happend (hfield _ _) (hfield _ _))
    (hfield _ _)) (hfield _ _)) (hfield _ _)) (hfield _ _)) (hfield _ _)

theorem find?_jsonField (name wanted : String) (value : Option String) :
    (jsonField name value).reverse.find? (fun field => field.1 = wanted) =
      if name = wanted then value.map fun value => (name, JsonValue.string value) else none := by
  cases value with
  | none => simp [jsonField]
  | some text => by_cases hname : name = wanted <;> simp [jsonField, hname]

/-- A match is read back from its JSON. -/
theorem RecipeMatch.ofJson_toJson («match» : RecipeMatch) :
    RecipeMatch.ofJson «match».toJson = «match» := by
  have hread (value : Option String) (name : String) :
      (value.map (Prod.snd ∘ fun value => (name, JsonValue.string value))).bind
        (fun found => found.string?) = value := by
    cases value with
    | none => rfl
    | some text => rfl
  unfold RecipeMatch.ofJson RecipeMatch.toJson
  simp only [JsonValue.field?, List.reverse_append, List.find?_append, find?_jsonField]
  simp [hread]

/-! ## Rows -/

theorem parseColumn_stringify (data : JsonData) :
    parseColumn (Json.stringify data.value) = .ok data := by
  have hparse := Json.parse_stringify data.value data.printable
  unfold parseColumn
  split
  · next value hvalue =>
    rw [hparse] at hvalue
    cases hvalue
    rfl
  · next hnone =>
    rw [hparse] at hnone
    cases hnone

/-- The two JSON columns of a row are JSON. -/
def RecipeRow.Readable (row : RecipeRow) : Prop :=
  (∃ data, parseColumn row.matchJson = .ok data) ∧
    ∃ data, parseColumn row.executorConfigJson = .ok data

theorem recipeRow_readable (recipe : Recipe) : (recipeRow zones recipe).Readable :=
  ⟨⟨_, parseColumn_stringify ⟨recipe.match.toJson, recipe.match.toJson_printable⟩⟩,
    ⟨_, parseColumn_stringify recipe.executorConfig⟩⟩

theorem RecipeRow.update_readable {old new : RecipeRow} (h : new.Readable) :
    (old.update new).Readable := h

theorem toRecipe_readable {row : RecipeRow} (h : row.Readable) :
    ∃ recipe, toRecipe zones row = .ok recipe := by
  obtain ⟨⟨found, hmatch⟩, config, hconfig⟩ := h
  unfold toRecipe
  rw [hmatch, hconfig]
  exact ⟨_, rfl⟩

/-- What a recipe has from its row as it is, and the destination that no row has. -/
theorem toRecipe_fields {row : RecipeRow} {recipe : Recipe} (h : toRecipe zones row = .ok recipe) :
    recipe.id = row.id ∧ recipe.orgId = row.orgId ∧ recipe.createdAt = row.createdAt ∧
      recipe.writeBackThreadId = none := by
  unfold toRecipe at h
  cases hmatch : parseColumn row.matchJson with
  | error e =>
    rw [hmatch] at h
    cases h
  | ok found =>
    cases hconfig : parseColumn row.executorConfigJson with
    | error e =>
      rw [hmatch, hconfig] at h
      cases h
    | ok config =>
      rw [hmatch, hconfig] at h
      cases h
      exact ⟨rfl, rfl, rfl, rfl⟩

/-- A recipe in the form the API gives it is read back from its own row, but for the
destination of its results. -/
theorem toRecipe_recipeRow {recipe : Recipe} (htrigger : NormalTrigger zones recipe.trigger)
    (hcap : recipe.maxConcurrent ≠ some 0) (hdestination : recipe.writeBackThreadId = none) :
    toRecipe zones (recipeRow zones recipe) = .ok recipe := by
  have hmatch : parseColumn (recipeRow zones recipe).matchJson =
      .ok ⟨recipe.match.toJson, recipe.match.toJson_printable⟩ :=
    parseColumn_stringify ⟨recipe.match.toJson, recipe.match.toJson_printable⟩
  have hconfig : parseColumn (recipeRow zones recipe).executorConfigJson =
      .ok recipe.executorConfig := parseColumn_stringify recipe.executorConfig
  have hlimit : recipe.maxConcurrent.filter (fun limit => decide (0 < limit)) =
      recipe.maxConcurrent := by
    cases hvalue : recipe.maxConcurrent with
    | none => rfl
    | some limit =>
      apply Option.filter_some_pos
      have hzero : limit ≠ 0 := fun heq => hcap (by rw [hvalue, heq])
      simpa using Nat.pos_of_ne_zero hzero
  have hflag (value : Bool) : decide (flag value = 1) = value := by
    cases value <;> rfl
  unfold toRecipe
  rw [hmatch, hconfig, readTrigger_recipeRow htrigger]
  simp only [RecipeMatch.ofJson_toJson, recipeTriggerOf, Option.getD_some, bind, Except.bind,
    pure, Except.pure]
  unfold recipeRow
  dsimp only
  rw [hlimit, hflag, hflag, hflag]
  cases recipe
  cases hdestination
  rfl

end Regenic.Recipes
