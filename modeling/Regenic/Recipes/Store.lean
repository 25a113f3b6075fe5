import Regenic.Recipes.Normalize

/-!
The recipes of the two stores. SQLite spreads a recipe over the columns of a row and reads it
back from them; the memory store keeps it as it is.
-/

namespace Regenic.Recipes

open Lib

/-! ## Schedule columns -/

/-- The decimal text of a whole number. -/
def wholeText (value : ℚ) : List Char := Nat.toDigits 10 value.num.toNat

/-- `Number` of a text of digits; no other text is ever written to the column. -/
def numberOf (text : List Char) : Option ℚ :=
  if text ≠ [] ∧ text.all Char.isDigit then some (Nat.ofDigitChars 10 text 0 : ℕ) else none

def parseWeekdayColumn (value : Option String) : Option (List ℚ) :=
  (present value).map fun value => (splitBy ',' value.toList).filterMap numberOf

structure PullScheduleColumns where
  intervalMs : Option ℚ := none
  atMinute : Option ℚ := none
  weekdays : Option String := none
  timezone : Option String := none
  deriving DecidableEq

variable (zones : TimeZones)

def pullScheduleColumns (trigger : RecipeTrigger) : PullScheduleColumns :=
  if trigger.kind ≠ .pull then {}
  else
    let clock := readPullClock zones trigger.toPullSchedule
    { intervalMs := trigger.intervalMs.filter isPullIntervalMs
      atMinute := clock.map (·.atMinute)
      weekdays := ((clock.bind (·.weekdays)).filter fun days => days ≠ []).map fun days =>
        String.ofList (joinWith ',' (days.map wholeText))
      timezone := clock.map (·.timezone) }

def pullScheduleFromColumns (row : PullScheduleColumns) : PullSchedule :=
  let intervalMs := row.intervalMs.filter isPullIntervalMs
  match readPullClock zones
    { atMinute := row.atMinute
      timezone := row.timezone
      weekdays := parseWeekdayColumn row.weekdays } with
  | some clock => clock.schedule intervalMs
  | none => { intervalMs }

/-! ## Matches as JSON -/

def jsonField (name : String) (value : Option String) : List (String × JsonValue) :=
  (value.map fun value => (name, JsonValue.string value)).toList

def RecipeMatch.toJson («match» : RecipeMatch) : JsonValue :=
  .object (jsonField "record_class" «match».recordClass ++
    jsonField "thread_facet" «match».threadFacet ++ jsonField "source" «match».source ++
    jsonField "thread_id" «match».threadId ++ jsonField "unit_kind" «match».unitKind ++
    jsonField "text_contains" «match».textContains ++
    jsonField "text_excludes" «match».textExcludes)

def RecipeMatch.ofJson (value : JsonValue) : RecipeMatch :=
  let property name := (value.field? name).bind (·.string?)
  { recordClass := property "record_class"
    threadFacet := property "thread_facet"
    source := property "source"
    threadId := property "thread_id"
    unitKind := property "unit_kind"
    textContains := property "text_contains"
    textExcludes := property "text_excludes" }

/-! ## Rows -/

/-- A row of `recipes`. The text of an instant is never empty, so a test of it only asks whether
there is one. -/
structure RecipeRow where
  id : String
  orgId : String
  name : String
  matchJson : String
  executorType : String
  executorConfigJson : String
  canWriteBack : ℕ
  includeContext : ℕ
  enabled : ℕ
  triggerKind : String
  schedule : PullScheduleColumns
  triggerCoalesce : ℕ
  maxConcurrent : Option ℕ
  nextRunAt : Option Timestamp
  createdAt : Timestamp
  updatedAt : Timestamp

def flag (value : Bool) : ℕ := if value then 1 else 0

/-- The values of the `INSERT`. -/
def recipeRow (recipe : Recipe) : RecipeRow where
  id := recipe.id
  orgId := recipe.orgId
  name := recipe.name
  matchJson := Json.stringify recipe.match.toJson
  executorType := recipe.executorType
  executorConfigJson := Json.stringify recipe.executorConfig.value
  canWriteBack := flag recipe.canWriteBack
  includeContext := flag recipe.includeContext
  enabled := flag recipe.enabled
  triggerKind := recipe.trigger.kind.name
  schedule := pullScheduleColumns zones recipe.trigger
  triggerCoalesce := flag (recipe.trigger.kind = .push && recipe.trigger.coalesce ≠ some false)
  maxConcurrent := recipe.maxConcurrent
  nextRunAt := recipe.nextRunAt
  createdAt := recipe.createdAt
  updatedAt := recipe.updatedAt

/-- `ON CONFLICT(id) DO UPDATE`: the organization and the creation time stay. -/
def RecipeRow.update (old new : RecipeRow) : RecipeRow :=
  { new with id := old.id, orgId := old.orgId, createdAt := old.createdAt }

theorem RecipeRow.update_id (old new : RecipeRow) : (old.update new).id = old.id := rfl

abbrev RecipeTable : Type := Table RecipeRow.id

def putRecipe (db : RecipeTable) (recipe : Recipe) : RecipeTable :=
  let row := recipeRow zones recipe
  if free : db.get? row.id = none then db.insert row free
  else db.update row.id (·.update row) (RecipeRow.update_id · row)

def deleteRecipe (db : RecipeTable) (orgId id : String) : RecipeTable :=
  db.filter fun row => !(row.orgId = orgId && row.id = id)

/-- What `JSON.parse` throws on a column that holds no JSON. -/
inductive JsonError where
  | syntaxError
  deriving DecidableEq, Repr

def parseColumn (text : String) : Except JsonError JsonData :=
  match h : Json.parse text with
  | some value => .ok ⟨value, Json.printable_parse h⟩
  | none => .error .syntaxError

def readTrigger (row : RecipeRow) : Option RecipeTrigger :=
  (RecipeTriggerKind.parse row.triggerKind).map fun kind =>
    match kind with
    | .pull => { toPullSchedule := pullScheduleFromColumns zones row.schedule, kind }
    | .push => { kind, coalesce := some (row.triggerCoalesce ≠ 0) }
    | .manual => { kind }

def toRecipe (row : RecipeRow) : Except JsonError Recipe := do
  let «match» := RecipeMatch.ofJson (← parseColumn row.matchJson).value
  let executorConfig ← parseColumn row.executorConfigJson
  return {
    id := row.id
    orgId := row.orgId
    name := row.name
    «match»
    trigger := recipeTriggerOf «match» (readTrigger zones row)
    executorType := row.executorType
    executorConfig
    canWriteBack := row.canWriteBack = 1
    includeContext := row.includeContext = 1
    enabled := row.enabled = 1
    maxConcurrent := row.maxConcurrent.filter fun limit => 0 < limit
    nextRunAt := row.nextRunAt
    createdAt := row.createdAt
    updatedAt := row.updatedAt }

def getRecipe (db : RecipeTable) (orgId id : String) : Except JsonError (Option Recipe) :=
  match db.rows.find? fun row => row.orgId = orgId && row.id = id with
  | some row => (toRecipe zones row).map some
  | none => .ok none

/-- `ORDER BY updated_at DESC, id`. -/
def recipeOrder (left right : RecipeRow) : Bool :=
  right.updatedAt.text < left.updatedAt.text ||
    (left.updatedAt.text = right.updatedAt.text && left.id ≤ right.id)

def listRecipes (db : RecipeTable) (orgId : String) : Except JsonError (List Recipe) :=
  ((db.rows.filter fun row => row.orgId = orgId).insertionSort
    (fun left right => recipeOrder left right = true)).mapM (toRecipe zones)

/-! ## The memory store -/

namespace MemoryRecipes

abbrev Recipes : Type := Table Recipe.id

def putRecipe (recipes : Recipes) (recipe : Recipe) : Recipes := recipes.put recipe

def deleteRecipe (recipes : Recipes) (orgId id : String) : Recipes :=
  recipes.filter fun recipe => !(recipe.id = id && recipe.orgId = orgId)

def getRecipe (recipes : Recipes) (orgId id : String) : Option Recipe :=
  (recipes.get? id).filter fun recipe => recipe.orgId = orgId

def listRecipes (recipes : Recipes) (orgId : String) : List Recipe :=
  recipes.rows.filter fun recipe => recipe.orgId = orgId

end MemoryRecipes

end Regenic.Recipes
