import Regenic.Recipes.Clock

/-!
What the API makes of a recipe that a user writes: the trigger, the match and the recipe as a
whole.
-/

namespace Regenic.Recipes

open Lib

variable (zones : TimeZones)

/-! ## Triggers -/

/-- A trigger as it comes in: the kind is any text. -/
structure RecipeTriggerInput extends PullSchedule where
  kind : String
  coalesce : Option Bool := none

def RecipeTrigger.toInput (trigger : RecipeTrigger) : RecipeTriggerInput :=
  { toPullSchedule := trigger.toPullSchedule
    kind := trigger.kind.name
    coalesce := trigger.coalesce }

/-- The text is there and not blank. -/
def trimmed (text : Option String) : Option String := present (text.map jsTrim)

def recipeMatchIsSpecific («match» : RecipeMatch) : Bool :=
  (trimmed «match».threadId).isSome || (trimmed «match».unitKind).isSome ||
    «match».recordClass = some "task" ||
    ((trimmed «match».source).isSome &&
      (present «match».recordClass).any fun recordClass => recordClass ≠ "utterance")

def inferLegacyRecipeTrigger («match» : RecipeMatch) : RecipeTrigger :=
  if recipeMatchIsSpecific «match» then { kind := .push, coalesce := some true }
  else { kind := .manual }

def recipeTriggerOf («match» : RecipeMatch) (trigger : Option RecipeTrigger) : RecipeTrigger :=
  trigger.getD (inferLegacyRecipeTrigger «match»)

/-- The fields of a trigger with this clock. -/
def PullClock.schedule (clock : PullClock) (intervalMs : Option ℚ) : PullSchedule :=
  { intervalMs
    atMinute := some clock.atMinute
    weekdays := clock.weekdays
    timezone := some clock.timezone }

def normalizeRecipeTrigger (input : Option RecipeTriggerInput) («match» : RecipeMatch) :
    RecipeTrigger :=
  let kind := (input.bind fun input => RecipeTriggerKind.parse input.kind).getD
    (inferLegacyRecipeTrigger «match»).kind
  match kind with
  | .pull =>
    let schedule : PullSchedule := (input.map (·.toPullSchedule)).getD {}
    let intervalMs := some ((schedule.intervalMs.filter isPullIntervalMs).getD pullIntervalHour)
    match readPullClock zones schedule with
    | some clock => { toPullSchedule := clock.schedule intervalMs, kind := .pull }
    | none => { kind := .pull, intervalMs }
  | .manual => { kind := .manual }
  | .push => { kind := .push, coalesce := some ((input.bind (·.coalesce)) ≠ some false) }

/-! ## Recipes -/

/-- The message of a `PersonalConnectorError("invalid_config", …, 400)`. -/
structure InvalidConfig where
  message : String
  deriving DecidableEq, Repr

def recordClasses : List String := ["utterance", "task", "status", "prompt"]

def threadFacets : List String := ["chat", "agent", "ticket"]

/-- One of the two text conditions of a match. -/
def checkText (name : String) (text : Option String) : Except InvalidConfig Unit :=
  if text.any fun value => jsTrim value = "" then
    .error ⟨name ++ " must be a non-empty string"⟩
  else .ok ()

def normalizeMatch («match» : RecipeMatch) : Except InvalidConfig RecipeMatch := do
  checkText "text_contains" «match».textContains
  checkText "text_excludes" «match».textExcludes
  if «match».recordClass.any fun value => !recordClasses.contains value then
    throw ⟨"record_class is not a closed class"⟩
  if «match».threadFacet.any fun value => !threadFacets.contains value then
    throw ⟨"thread_facet is not a closed facet"⟩
  return {
    recordClass := «match».recordClass
    threadFacet := «match».threadFacet
    source := trimmed «match».source
    threadId := trimmed «match».threadId
    unitKind := trimmed «match».unitKind
    textContains := «match».textContains
    textExcludes := «match».textExcludes }

def recipeMaxConcurrentCap : ℕ := 1000

def normalizeRecipeMaxConcurrent (value : Option ℚ) : Option ℕ :=
  (value.filter fun n => 1 ≤ n).map fun n => min ⌊n⌋.toNat recipeMaxConcurrentCap

def weekdayKey (days : Option (List ℚ)) : List ℚ := (days.getD []).insertionSort (· ≤ ·)

def shouldKeepPullSchedule (existing : Option Recipe) («match» : RecipeMatch)
    (trigger : RecipeTrigger) : Bool :=
  existing.any fun existing =>
    existing.trigger.kind = .pull && trigger.kind = .pull &&
      existing.trigger.intervalMs = trigger.intervalMs &&
      existing.match.threadId.getD "" = «match».threadId.getD "" &&
      existing.trigger.atMinute = trigger.atMinute &&
      existing.trigger.timezone.getD "" = trigger.timezone.getD "" &&
      weekdayKey existing.trigger.weekdays = weekdayKey trigger.weekdays

/-- `null` is the inner none. -/
structure RecipeInput where
  id : Option String := none
  name : Option String := none
  «match» : Option RecipeMatch := none
  trigger : Option RecipeTriggerInput := none
  executorType : Option String := none
  executorConfig : Option JsonData := none
  canWriteBack : Option Bool := none
  writeBackThreadId : Option (Option String) := none
  includeContext : Option Bool := none
  maxConcurrent : Option (Option ℚ) := none
  enabled : Option Bool := none

/-- The sum of `RECIPE_MATCH_WEIGHTS` over the fields that are set. -/
def recipeSpecificity («match» : RecipeMatch) : ℕ :=
  let weight (field : Option String) (score : ℕ) := if (present field).isSome then score else 0
  weight «match».threadId 16 + weight «match».unitKind 8 + weight «match».source 4 +
    weight «match».recordClass 2 + weight «match».threadFacet 1

/-- A recipe needs something to match; a pull needs a conversation. -/
def checkMatch («match» : RecipeMatch) (trigger : RecipeTrigger) : Except InvalidConfig Unit :=
  if trigger.kind = .pull then
    if (present «match».threadId).isNone then .error ⟨"Pull recipes need a conversation"⟩
    else .ok ()
  else if recipeSpecificity «match» = 0 ∨ ¬ recipeMatchIsSpecific «match» then
    .error ⟨"Recipe match needs a thread, a unit kind, a task class, " ++
      "or source plus a non-utterance class"⟩
  else .ok ()

/-- A recipe from what the user wrote and, for an edit, from what it was. -/
def normalizeRecipe (input : RecipeInput) (orgId newId : String) (now : Timestamp)
    (existing : Option Recipe) : Except InvalidConfig Recipe := do
  let name := jsTrim ((input.name <|> existing.map (·.name)).getD "")
  if name = "" then throw ⟨"Recipe name is required"⟩
  let executorType := jsTrim ((input.executorType <|> existing.map (·.executorType)).getD "")
  if executorType = "" then throw ⟨"executor_type is required"⟩
  let «match» ← normalizeMatch ((input.match <|> existing.map (·.match)).getD {})
  let trigger := normalizeRecipeTrigger zones
    (input.trigger <|> existing.map (·.trigger.toInput)) «match»
  checkMatch «match» trigger
  let pull : Bool := trigger.kind = .pull
  return {
    id := ((existing.map (·.id)) <|> input.id.map jsTrim).getD newId
    orgId
    name
    «match»
    trigger
    executorType
    executorConfig := (input.executorConfig <|> existing.map (·.executorConfig)).getD .empty
    canWriteBack := (input.canWriteBack <|> existing.map (·.canWriteBack)).getD pull
    writeBackThreadId := match input.writeBackThreadId with
      | none => existing.bind (·.writeBackThreadId)
      | some destination => trimmed destination
    includeContext := (input.includeContext <|> existing.map (·.includeContext)).getD pull
    maxConcurrent := normalizeRecipeMaxConcurrent
      (input.maxConcurrent.getD (existing.bind fun existing => existing.maxConcurrent.map (↑)))
    enabled := (input.enabled <|> existing.map (·.enabled)).getD true
    nextRunAt :=
      if pull then
        if shouldKeepPullSchedule existing «match» trigger then
          some ((existing.bind (·.nextRunAt)).getD now)
        else some (initialPullNextRun zones trigger now)
      else none
    createdAt := (existing.map (·.createdAt)).getD now
    updatedAt := now }

end Regenic.Recipes
