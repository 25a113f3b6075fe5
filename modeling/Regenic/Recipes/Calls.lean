import Regenic.Lib.Pool
import Regenic.Recipes.Columns
import Regenic.Reply.Contracts
import Regenic.Work.Contracts

/-!
The calls of the services that write recipes: those of the recipe store, and everything outside
it, whose answers are arbitrary. The work plane is outside too, for no call of it writes a
recipe.
-/

namespace Regenic.Recipes

open Lib Reply

/-- Of a work item what a pull makes and looks at. -/
structure PullWorkItem where
  id : String
  threadId : String
  unitKey : String
  recordClass : String
  threadFacet : String
  status : Work.WorkItemStatus
  recipeId : Option String
  deriving DecidableEq, Repr

inductive Outside where
  | now
  | randomUUID
  | ensureMounted
  | listActiveWorkItems
  | shouldDeferWorkForThread (threadId : String)
  | getWorkItemByUnitKey (threadId unitKey : String)
  | putWorkItem (item : PullWorkItem)
  | retryOrResume (item : PullWorkItem) (recipe : Recipe)
  | beginStart (item : PullWorkItem) (recipe : Recipe)
  | hasExecutor (executorType : String)
  /-- The fields that the executor's catalog requires, other than the instruction. -/
  | requiredFields (executorType : String)
  | canReplyThread (threadId : String)

structure RequiredField where
  key : String
  /-- The label when it is a text. -/
  label : Option String := none
  deriving DecidableEq, Repr

def Outside.Answer : Outside → Type
  | .now => Timestamp
  | .randomUUID => String
  | .ensureMounted => Unit
  | .listActiveWorkItems => List PullWorkItem
  | .shouldDeferWorkForThread _ => Bool
  | .getWorkItemByUnitKey _ _ => Option PullWorkItem
  | .putWorkItem _ => PullWorkItem
  | .retryOrResume _ _ | .beginStart _ _ => Unit
  | .hasExecutor _ => Bool
  | .requiredFields _ => List RequiredField
  | .canReplyThread _ => Option Bool

/-- Who puts a recipe; the store does not look at it. -/
inductive Writer where
  | user
  | scheduler
  deriving DecidableEq, Repr

inductive StoreCall where
  | listRecipes
  | getRecipe (id : String)
  | putRecipe (writer : Writer) (recipe : Recipe)
  | deleteRecipe (id : String)
  | outside (question : Outside)

def StoreCall.Answer : StoreCall → Type
  | .listRecipes => Except JsonError (List Recipe)
  | .getRecipe _ => Except JsonError (Option Recipe)
  | .putRecipe _ _ => Unit
  | .deleteRecipe _ => Bool
  | .outside question => Except Thrown question.Answer

/-- What the outside answers, or throws, in a step. -/
abbrev OutsideAnswers : Type := (question : Outside) → Except Thrown question.Answer

structure StoreState where
  recipes : RecipeTable := ∅
  /-- What the user last put under an id, with none once the recipe is deleted. -/
  written : String → Option Recipe := fun _ => none

section Exec

variable (zones : TimeZones) (orgId : String)

/-- All calls are made for the one organization of the runtime. -/
def StoreCall.exec :
    (call : StoreCall) → OutsideAnswers → StoreState → call.Answer × StoreState
  | .listRecipes, _, s => (Recipes.listRecipes zones s.recipes orgId, s)
  | .getRecipe id, _, s => (Recipes.getRecipe zones s.recipes orgId id, s)
  | .putRecipe .user recipe, _, s =>
    ((), { recipes := Recipes.putRecipe zones s.recipes recipe
           written := Function.update s.written recipe.id (some recipe) })
  | .putRecipe .scheduler recipe, _, s =>
    ((), { s with recipes := Recipes.putRecipe zones s.recipes recipe })
  | .deleteRecipe id, _, s =>
    (s.recipes.rows.any fun row => row.orgId = orgId && row.id = id,
      { recipes := Recipes.deleteRecipe s.recipes orgId id
        written := Function.update s.written id none })
  | .outside question, answers, s => (answers question, s)

end Exec

/-! ## Programs -/

abbrev RecipeProg (α : Type) : Type := Prog StoreCall.Answer Thrown α

def throwConnector {α : Type} (code message : String) (httpStatus : Nat) : RecipeProg α :=
  .fail (.connector { code, message, httpStatus })

def refuseIf (bad : Bool) (code message : String) (httpStatus : Nat) : RecipeProg Unit :=
  if bad then throwConnector code message httpStatus else pure ()

def ask (question : Outside) : RecipeProg question.Answer := do
  match ← Prog.perform (StoreCall.outside question) with
  | .ok answer => pure answer
  | .error thrown => .fail thrown

/-- A row that cannot be read throws. -/
def liftJson {α : Type} : Except JsonError α → RecipeProg α
  | .ok value => pure value
  | .error .syntaxError => .fail (.error "SyntaxError")

end Regenic.Recipes
