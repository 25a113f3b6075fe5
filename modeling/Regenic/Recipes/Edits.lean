import Regenic.Lib.History
import Regenic.Recipes.Faithful
import Regenic.Recipes.Pulls

/-!
What becomes of a user's recipe while a pass over the due pulls goes on. The pass holds the
copies that it read at its start, and the upsert does not look at what is stored, so an edit or
a deletion in between is undone. While no such thing happens, what the user wrote stays.
-/

namespace Regenic.Recipes

open Lib Reply

/-- The columns of what a user can edit. -/
structure RecipeEdits where
  name : String
  matchJson : String
  executorType : String
  executorConfigJson : String
  canWriteBack : ℕ
  includeContext : ℕ
  enabled : ℕ
  triggerKind : String
  schedule : PullScheduleColumns
  triggerCoalesce : ℕ
  maxConcurrent : Option ℕ
  deriving DecidableEq

def RecipeRow.edits (row : RecipeRow) : RecipeEdits where
  name := row.name
  matchJson := row.matchJson
  executorType := row.executorType
  executorConfigJson := row.executorConfigJson
  canWriteBack := row.canWriteBack
  includeContext := row.includeContext
  enabled := row.enabled
  triggerKind := row.triggerKind
  schedule := row.schedule
  triggerCoalesce := row.triggerCoalesce
  maxConcurrent := row.maxConcurrent

/-- The two recipes agree on every field that a user can edit. -/
structure Recipe.SameEdits (left right : Recipe) : Prop where
  name : left.name = right.name
  «match» : left.match = right.match
  trigger : left.trigger = right.trigger
  executorType : left.executorType = right.executorType
  executorConfig : left.executorConfig = right.executorConfig
  canWriteBack : left.canWriteBack = right.canWriteBack
  writeBackThreadId : left.writeBackThreadId = right.writeBackThreadId
  includeContext : left.includeContext = right.includeContext
  maxConcurrent : left.maxConcurrent = right.maxConcurrent
  enabled : left.enabled = right.enabled

theorem Recipe.SameEdits.trans {left middle right : Recipe} (h : left.SameEdits middle)
    (h' : middle.SameEdits right) : left.SameEdits right :=
  ⟨h.name.trans h'.name, h.match.trans h'.match, h.trigger.trans h'.trigger,
    h.executorType.trans h'.executorType, h.executorConfig.trans h'.executorConfig,
    h.canWriteBack.trans h'.canWriteBack, h.writeBackThreadId.trans h'.writeBackThreadId,
    h.includeContext.trans h'.includeContext, h.maxConcurrent.trans h'.maxConcurrent,
    h.enabled.trans h'.enabled⟩

variable {zones : TimeZones} {orgId : String}

theorem Recipe.SameEdits.of_edits {row row' : RecipeRow} {recipe recipe' : Recipe}
    (hread : toRecipe zones row = .ok recipe) (hread' : toRecipe zones row' = .ok recipe')
    (hedits : row.edits = row'.edits) : recipe.SameEdits recipe' := by
  obtain ⟨id, org, name, matchJson, executorType, configJson, canWriteBack, includeContext,
    enabled, kind, schedule, coalesce, cap, next, created, updated⟩ := row
  obtain ⟨id', org', name', matchJson', executorType', configJson', canWriteBack',
    includeContext', enabled', kind', schedule', coalesce', cap', next', created', updated'⟩ :=
    row'
  simp only [RecipeRow.edits, RecipeEdits.mk.injEq] at hedits
  obtain ⟨rfl, rfl, rfl, rfl, rfl, rfl, rfl, rfl, rfl, rfl, rfl⟩ := hedits
  unfold toRecipe at hread hread'
  dsimp only at hread hread'
  cases hmatch : parseColumn matchJson with
  | error e =>
    rw [hmatch] at hread
    cases hread
  | ok found =>
    cases hconfig : parseColumn configJson with
    | error e =>
      rw [hmatch, hconfig] at hread
      cases hread
    | ok config =>
      rw [hmatch, hconfig] at hread hread'
      cases hread
      cases hread'
      constructor <;> rfl

/-! ## What is stored -/

/-- A recipe in the form the API gives it, as a row keeps it. -/
structure StoredRecipe (zones : TimeZones) (orgId : String) (recipe : Recipe) : Prop where
  orgId : recipe.orgId = orgId
  trigger : NormalTrigger zones recipe.trigger
  maxConcurrent : recipe.maxConcurrent ≠ some 0
  writeBackThreadId : recipe.writeBackThreadId = none

theorem StoredRecipe.read {recipe : Recipe} (h : StoredRecipe zones orgId recipe) :
    toRecipe zones (recipeRow zones recipe) = .ok recipe :=
  toRecipe_recipeRow h.trigger h.maxConcurrent h.writeBackThreadId

/-- Every row is the row of such a recipe. -/
def RowsStored (zones : TimeZones) (orgId : String) (db : RecipeTable) : Prop :=
  ∀ row ∈ db.rows, ∃ recipe, StoredRecipe zones orgId recipe ∧ row = recipeRow zones recipe

/-- What the user last put under an id is what is stored there, and a recipe that the user
deleted is not there. -/
structure EditsKept (zones : TimeZones) (orgId : String) (s : StoreState) : Prop where
  kept : ∀ id, match s.written id with
    | some written => ∃ stored,
        getRecipe zones s.recipes orgId id = .ok (some stored) ∧ written.SameEdits stored
    | none => getRecipe zones s.recipes orgId id = .ok none

theorem RowsStored.get? {db : RecipeTable} (h : RowsStored zones orgId db) {id : String}
    {row : RecipeRow} (hget : db.get? id = some row) :
    ∃ recipe, StoredRecipe zones orgId recipe ∧ row = recipeRow zones recipe ∧
      getRecipe zones db orgId id = .ok (some recipe) := by
  obtain ⟨recipe, hstored, rfl⟩ := h row (Table.get?_eq_some.mp hget).1
  refine ⟨recipe, hstored, rfl, ?_⟩
  have horg : (recipeRow zones recipe).orgId = orgId := hstored.orgId
  rw [getRecipe_eq, hget, Option.filter_some_pos (by simpa using horg)]
  simp only [hstored.read]
  rfl

theorem getRecipe_none {db : RecipeTable} {id : String} (hget : db.get? id = none) :
    getRecipe zones db orgId id = .ok none := by
  rw [getRecipe_eq, hget]
  rfl

theorem getRecipe_congr {db db' : RecipeTable} {id : String} (h : db'.get? id = db.get? id) :
    getRecipe zones db' orgId id = getRecipe zones db orgId id := by
  rw [getRecipe_eq, getRecipe_eq, h]

/-- The row that a put leaves is the row of the recipe, but for the creation time. -/
theorem RowsStored.storedRow {db : RecipeTable} (h : RowsStored zones orgId db) {recipe : Recipe}
    (horg : recipe.orgId = orgId) :
    ∃ createdAt, storedRow zones db recipe =
      recipeRow zones { recipe with createdAt, writeBackThreadId := none } := by
  unfold Recipes.storedRow
  cases hget : db.get? recipe.id with
  | none => exact ⟨recipe.createdAt, rfl⟩
  | some old =>
    obtain ⟨hmem, hid⟩ := Table.get?_eq_some.mp hget
    obtain ⟨other, hother, rfl⟩ := h old hmem
    refine ⟨other.createdAt, ?_⟩
    have hotherId : other.id = recipe.id := hid
    have hotherOrg : other.orgId = recipe.orgId := hother.orgId.trans horg.symm
    simp only [Option.map_some, Option.getD_some, RecipeRow.update, recipeRow, hotherId,
      hotherOrg]

theorem get?_putRecipe_of_ne (db : RecipeTable) {recipe : Recipe} {id : String}
    (hne : id ≠ recipe.id) : (putRecipe zones db recipe).get? id = db.get? id := by
  have hid : (recipeRow zones recipe).id = recipe.id := rfl
  unfold putRecipe
  dsimp only
  split
  · rw [Table.get?_insert, if_neg (fun heq => hne (heq.symm.trans hid))]
  · rw [Table.get?_update, if_neg (fun heq => hne (heq.trans hid))]

/-- What a put leaves under the id of the recipe. -/
theorem RowsStored.putRecipe {db : RecipeTable} (h : RowsStored zones orgId db) {recipe : Recipe}
    (horg : recipe.orgId = orgId) (htrigger : NormalTrigger zones recipe.trigger)
    (hcap : recipe.maxConcurrent ≠ some 0) :
    RowsStored zones orgId (putRecipe zones db recipe) ∧
      ∃ createdAt, getRecipe zones (Recipes.putRecipe zones db recipe) orgId recipe.id =
        .ok (some { recipe with createdAt, writeBackThreadId := none }) := by
  obtain ⟨createdAt, hrow⟩ := h.storedRow horg
  have hstored : StoredRecipe zones orgId { recipe with createdAt, writeBackThreadId := none } :=
    ⟨horg, htrigger, hcap, rfl⟩
  have hget := @get?_putRecipe zones db recipe
  rw [hrow] at hget
  have hrows : RowsStored zones orgId (Recipes.putRecipe zones db recipe) := by
    intro row hmem
    have hkey := Table.get?_key hmem
    by_cases hid : row.id = recipe.id
    · rw [hid, hget] at hkey
      exact ⟨_, hstored, (Option.some.inj hkey).symm⟩
    · rw [get?_putRecipe_of_ne db hid] at hkey
      exact h row (Table.get?_eq_some.mp hkey).1
  refine ⟨hrows, createdAt, ?_⟩
  have horgRow : (recipeRow zones
      { recipe with createdAt, writeBackThreadId := none }).orgId = orgId := horg
  rw [getRecipe_eq, hget, Option.filter_some_pos (by simpa using horgRow)]
  simp only [hstored.read]
  rfl

theorem RowsStored.deleteRecipe {db : RecipeTable} (h : RowsStored zones orgId db) (id : String) :
    RowsStored zones orgId (deleteRecipe db orgId id) := by
  intro row hrow
  exact h row (List.mem_filter.mp hrow).1

theorem RowsStored.get?_deleteRecipe {db : RecipeTable} (h : RowsStored zones orgId db)
    (id k : String) :
    (Recipes.deleteRecipe db orgId id).get? k = if k = id then none else db.get? k := by
  unfold Recipes.deleteRecipe
  rw [Table.get?_filter]
  cases hget : db.get? k with
  | none => simp
  | some row =>
    obtain ⟨hmem, hid⟩ := Table.get?_eq_some.mp hget
    obtain ⟨recipe, hrecipe, rfl⟩ := h row hmem
    have horg : (recipeRow zones recipe).orgId = orgId := hrecipe.orgId
    by_cases hk : k = id
    · simp [Option.filter, horg, hid, hk]
    · simp [Option.filter, hid, hk]

end Regenic.Recipes
