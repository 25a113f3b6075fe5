import Regenic.Recipes.Calls

/-!
The pass over the pulls that are due, and the two ways in which a user writes a recipe. The pass
reads the recipes once, starts executors for those that are due and puts each of them back with
its next time.
-/

namespace Regenic.Recipes

open Lib Reply

variable (zones : TimeZones) (orgId : String)

/-! ## Pulls that are due -/

def recipeAllowsPullDispatch (recipe : Recipe) : Bool :=
  recipe.enabled && recipe.trigger.kind = .pull && (trimmed recipe.match.threadId).isSome &&
    recipe.trigger.intervalMs.any isPullIntervalMs

def isPullDue (recipe : Recipe) (now : Timestamp) : Bool :=
  recipeAllowsPullDispatch recipe &&
    match recipe.nextRunAt with
    | none => true
    | some next =>
      match zones.parseDate now, zones.parseDate next with
      | some nowMs, some nextMs => nextMs ≤ nowMs
      | _, _ => false

def recipeWantsContext (recipe : Recipe) : Bool :=
  recipe.trigger.kind = .pull || recipe.includeContext

def pullUnitKey (recipeId : String) (periodKey : Timestamp) : String :=
  "pull:" ++ recipeId ++ ":" ++ periodKey.text

def parses (threadId : String) : Bool :=
  match parseConversationThread threadId with
  | .ok _ => true
  | .error _ => false

/-- The conversation of a recipe that is due and has no active work item. -/
def dueThread (items : List PullWorkItem) (now : Timestamp) (recipe : Recipe) : Option String :=
  (trimmed recipe.match.threadId).filter fun threadId =>
    recipeAllowsPullDispatch recipe && recipe.trigger.intervalMs.any (fun ms => ms ≠ 0) &&
      parses threadId &&
      !(items.any fun item =>
        item.recipeId = some recipe.id && Work.isActiveWorkStatus item.status) &&
      isPullDue zones recipe now

/-- The subject is a task or a message, and such a subject is always found. -/
def pullWorkItem (recipe : Recipe) (id threadId unitKey : String) : PullWorkItem :=
  let task : Bool := recipe.match.recordClass = some "task"
  { id := "work-" ++ id
    threadId
    unitKey
    recordClass := if task then "task" else "utterance"
    threadFacet := if task then "ticket" else recipe.match.threadFacet.getD "chat"
    status := .opened
    recipeId := some recipe.id }

/-- The item of this fire is taken up again or opened, and its executor started. -/
def startPull (items : List PullWorkItem) (recipe : Recipe) (threadId unitKey : String) :
    RecipeProg (List PullWorkItem) := do
  match ← ask (.getWorkItemByUnitKey threadId unitKey) with
  | some existing =>
    ask (.retryOrResume existing recipe)
    pure items
  | none =>
    let id : String ← ask .randomUUID
    let opened : PullWorkItem ← ask (.putWorkItem (pullWorkItem recipe id threadId unitKey))
    ask (.beginStart opened recipe)
    pure (items ++ [opened])

def shouldDefer (recipe : Recipe) (threadId : String) : RecipeProg Bool :=
  if recipeWantsContext recipe then ask (.shouldDeferWorkForThread threadId) else pure false

/-- One turn of the loop. -/
def dispatchDuePull (items : List PullWorkItem) (now : Timestamp) (recipe : Recipe) :
    RecipeProg (List PullWorkItem) :=
  match dueThread zones items now recipe with
  | none => pure items
  | some threadId => do
    if ← shouldDefer recipe threadId then pure items
    else
      let fireAt := recipe.nextRunAt.getD now
      let items ← startPull items recipe threadId (pullUnitKey recipe.id fireAt)
      match advanceRecipePull zones recipe.trigger fireAt now with
      | none => .fail (.error "Invalid time value")
      | some next =>
        Prog.perform (StoreCall.putRecipe .scheduler { recipe with nextRunAt := some next })
        pure items

def dispatchEach (now : Timestamp) :
    List PullWorkItem → List Recipe → RecipeProg Unit
  | _, [] => pure ()
  | items, recipe :: rest => do
    let items ← dispatchDuePull zones items now recipe
    dispatchEach now items rest

def dispatchDuePulls : RecipeProg Unit := do
  let recipes ← (Prog.perform StoreCall.listRecipes).bind liftJson
  let items ← ask .listActiveWorkItems
  let now ← ask .now
  dispatchEach zones now items recipes

/-! ## What a user writes -/

def configText (config : JsonData) (key : String) : Option String :=
  trimmed ((config.value.field? key).bind (·.string?))

def taskInstructionOf (config : JsonData) : Option String :=
  configText config "prompt" <|> configText config "instruction"

def missingCatalogFields (fields : List RequiredField) (config : JsonData) : Option String :=
  (fields.find? fun field => (configText config field.key).isNone).map fun field =>
    field.label.getD field.key

/-- The checks of a recipe before it is put. -/
def checkRecipe (existing : Option Recipe) (recipe : Recipe) : RecipeProg Unit := do
  let known : Bool ← ask (.hasExecutor recipe.executorType)
  refuseIf (!known) "invalid_config" ("Unknown executor: " ++ recipe.executorType) 400
  refuseIf
    ((existing.all fun existing => (taskInstructionOf existing.executorConfig).isSome) &&
      (taskInstructionOf recipe.executorConfig).isNone)
    "invalid_config" "Task instruction is required" 400
  let fields ← ask (.requiredFields recipe.executorType)
  let missing := missingCatalogFields fields recipe.executorConfig
  refuseIf missing.isSome "invalid_config" (missing.getD "" ++ " is required") 400
  refuseIf (recipe.writeBackThreadId.any fun threadId => !parses threadId)
    "invalid_config" "Invalid write-back chat id" 400

/-- A recipe that is to write back where nobody can reply does not. -/
def withoutDeadEnd (recipe : Recipe) : RecipeProg Recipe :=
  match present (recipe.writeBackThreadId <|> recipe.match.threadId.map jsTrim) with
  | some threadId =>
    if recipe.canWriteBack then do
      let canReply : Option Bool ← ask (.canReplyThread threadId)
      pure (if canReply = some false then { recipe with canWriteBack := false } else recipe)
    else pure recipe
  | none => pure recipe

def refuseMissing (missing : Bool) : RecipeProg Unit :=
  refuseIf missing "not_found" "Recipe not found" 404

def findExisting (id : Option String) : RecipeProg (Option Recipe) :=
  match present id with
  | none => pure none
  | some id => do
    let existing ← (Prog.perform (StoreCall.getRecipe id)).bind liftJson
    refuseMissing existing.isNone
    pure existing

def liftInvalid : Except InvalidConfig Recipe → RecipeProg Recipe
  | .ok recipe => pure recipe
  | .error invalid => throwConnector "invalid_config" invalid.message 400

/-- `putRecipe` of the service. -/
def saveRecipe (input : RecipeInput) (id : Option String) : RecipeProg Recipe := do
  refuseMissing (Work.isSystemRecipeId id)
  ask .ensureMounted
  let now ← ask .now
  let existing ← findExisting id
  let newId : String ← ask .randomUUID
  let recipe ←
    liftInvalid (normalizeRecipe zones input orgId ("recipe-" ++ newId) now existing)
  checkRecipe existing recipe
  let recipe ← withoutDeadEnd recipe
  Prog.perform (StoreCall.putRecipe .user recipe)
  pure recipe

/-- `deleteRecipe` of the service. -/
def removeRecipe (id : String) : RecipeProg Unit := do
  refuseMissing (Work.isSystemRecipeId (some id))
  let removed : Bool ← Prog.perform (StoreCall.deleteRecipe id)
  refuseMissing (!removed)

/-- What runs among others: a pass, or a call of a user. -/
inductive Request where
  | dispatchDuePulls
  | putRecipe (input : RecipeInput) (id : Option String)
  | deleteRecipe (id : String)

def Request.prog : Request → RecipeProg Unit
  | .dispatchDuePulls => Recipes.dispatchDuePulls zones
  | .putRecipe input id => do
    let _ ← saveRecipe zones orgId input id
    pure ()
  | .deleteRecipe id => removeRecipe id

end Regenic.Recipes
