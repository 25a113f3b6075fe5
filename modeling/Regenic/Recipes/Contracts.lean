import Mathlib.Data.Rat.Defs
import Regenic.Lib.JsonText
import Regenic.Lib.Text

/-!
Recipes: what they match, what triggers them, and the clock of a pull. A number of JavaScript is
a rational one here, which the finite ones are.
-/

namespace Regenic.Recipes

open Lib

/-- The text of an instant, which is never empty. -/
structure Timestamp where
  text : String
  nonempty : text ≠ ""
  deriving DecidableEq

/-- What `JSON.stringify` and `JSON.parse` take and give. -/
structure JsonData where
  value : JsonValue
  printable : Json.Printable value

def JsonData.empty : JsonData := ⟨.object [], trivial⟩

structure RecipeMatch where
  recordClass : Option String := none
  threadFacet : Option String := none
  source : Option String := none
  threadId : Option String := none
  unitKind : Option String := none
  textContains : Option String := none
  textExcludes : Option String := none
  deriving DecidableEq, Repr

inductive RecipeTriggerKind where
  | push
  | pull
  | manual
  deriving DecidableEq, Repr

def RecipeTriggerKind.name : RecipeTriggerKind → String
  | .push => "push"
  | .pull => "pull"
  | .manual => "manual"

/-- `isRecipeTriggerKind`, with the kind it has found. -/
def RecipeTriggerKind.parse (value : String) : Option RecipeTriggerKind :=
  if value = "push" then some .push
  else if value = "pull" then some .pull
  else if value = "manual" then some .manual
  else none

/-- The fields of a pull trigger. -/
structure PullSchedule where
  intervalMs : Option ℚ := none
  atMinute : Option ℚ := none
  weekdays : Option (List ℚ) := none
  timezone : Option String := none
  deriving DecidableEq

structure RecipeTrigger extends PullSchedule where
  kind : RecipeTriggerKind
  coalesce : Option Bool := none
  deriving DecidableEq

structure Recipe where
  id : String
  orgId : String
  name : String
  «match» : RecipeMatch
  trigger : RecipeTrigger
  executorType : String
  executorConfig : JsonData
  canWriteBack : Bool
  writeBackThreadId : Option String := none
  includeContext : Bool
  maxConcurrent : Option ℕ := none
  enabled : Bool
  nextRunAt : Option Timestamp := none
  createdAt : Timestamp
  updatedAt : Timestamp

end Regenic.Recipes
