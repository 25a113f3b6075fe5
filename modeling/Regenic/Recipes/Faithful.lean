import Regenic.Recipes.Columns

/-!
When the SQLite store keeps a recipe as it was put. A row has no column for the destination of
the results, and an upsert leaves the organization and the creation time that are stored.
-/

namespace Regenic.Recipes

open Lib

/-- A call that changes the stored recipes. -/
inductive RecipeCall where
  | put (recipe : Recipe)
  | delete (orgId id : String)

variable (zones : TimeZones)

def RecipeCall.run (db : RecipeTable) : RecipeCall → RecipeTable
  | .put recipe => putRecipe zones db recipe
  | .delete orgId id => deleteRecipe db orgId id

/-- The table after these calls on an empty one. -/
def afterCalls (calls : List RecipeCall) : RecipeTable := calls.foldl (RecipeCall.run zones) ∅

/-- Once the recipe is put, it is what is read and listed under its id. -/
def Faithful (db : RecipeTable) (recipe : Recipe) : Prop :=
  getRecipe zones (putRecipe zones db recipe) recipe.orgId recipe.id = .ok (some recipe) ∧
    ∃ listed, listRecipes zones (putRecipe zones db recipe) recipe.orgId = .ok listed ∧
      recipe ∈ listed ∧ ∀ other ∈ listed, other.id = recipe.id → other = recipe

/-- Every row that is stored can be read. -/
def Readable (db : RecipeTable) : Prop := ∀ row ∈ db.rows, row.Readable

variable {zones}

/-! ## Runs of calls -/

theorem putRecipe_readable {db : RecipeTable} (h : Readable db) (recipe : Recipe) :
    Readable (putRecipe zones db recipe) := by
  intro row hrow
  unfold putRecipe at hrow
  dsimp only at hrow
  split at hrow
  · rw [Table.rows_insert, List.mem_append, List.mem_singleton] at hrow
    rcases hrow with hold | rfl
    · exact h row hold
    · exact recipeRow_readable recipe
  · rcases Table.mem_update hrow with ⟨hold, _⟩ | ⟨old, hold, _, rfl⟩
    · exact h row hold
    · exact RecipeRow.update_readable (recipeRow_readable recipe)

theorem deleteRecipe_readable {db : RecipeTable} (h : Readable db) (orgId id : String) :
    Readable (deleteRecipe db orgId id) := by
  intro row hrow
  rw [deleteRecipe, Table.rows_filter] at hrow
  exact h row (List.mem_filter.mp hrow).1

theorem afterCalls_readable (calls : List RecipeCall) : Readable (afterCalls zones calls) := by
  have hrun (db : RecipeTable) (h : Readable db) :
      Readable (calls.foldl (RecipeCall.run zones) db) := by
    induction calls generalizing db with
    | nil => exact h
    | cons call calls ih =>
      apply ih
      cases call with
      | put recipe => exact putRecipe_readable h recipe
      | delete orgId id => exact deleteRecipe_readable h orgId id
  apply hrun
  intro row hrow
  cases hrow

/-! ## Reading one row -/

/-- The row that is stored under the id of a recipe once it is put. -/
def storedRow (zones : TimeZones) (db : RecipeTable) (recipe : Recipe) : RecipeRow :=
  ((db.get? recipe.id).map (·.update (recipeRow zones recipe))).getD (recipeRow zones recipe)

theorem storedRow_id (db : RecipeTable) (recipe : Recipe) :
    (storedRow zones db recipe).id = recipe.id := by
  unfold storedRow
  cases hget : db.get? recipe.id with
  | none => rfl
  | some old =>
    obtain ⟨_, hkey⟩ := Table.get?_eq_some.mp hget
    exact hkey

theorem get?_putRecipe (db : RecipeTable) (recipe : Recipe) :
    (putRecipe zones db recipe).get? recipe.id = some (storedRow zones db recipe) := by
  have hid : (recipeRow zones recipe).id = recipe.id := rfl
  unfold putRecipe storedRow
  dsimp only
  split
  · next free =>
    rw [Table.get?_insert, if_pos hid, ← hid, free]
    rfl
  · next taken =>
    obtain ⟨old, hold⟩ := Option.ne_none_iff_exists'.mp taken
    rw [Table.get?_update, if_pos hid.symm, ← hid, hold]
    rfl

/-- An id is stored once, so a row is looked up by it alone. -/
theorem find?_orgId (db : RecipeTable) (orgId id : String) :
    db.rows.find? (fun row => row.orgId = orgId && row.id = id) =
      (db.get? id).filter fun row => row.orgId = orgId := by
  cases hfound : db.rows.find? (fun row => row.orgId = orgId && row.id = id) with
  | none =>
    cases hget : db.get? id with
    | none => rfl
    | some row =>
      obtain ⟨hrow, hid⟩ := Table.get?_eq_some.mp hget
      have hno := List.find?_eq_none.mp hfound row hrow
      have horg : row.orgId ≠ orgId := by
        intro heq
        simp [heq, hid] at hno
      simp [Option.filter, horg]
  | some row =>
    have hrow := List.mem_of_find?_eq_some hfound
    have hkeys := List.find?_some hfound
    rw [Bool.and_eq_true, decide_eq_true_eq, decide_eq_true_eq] at hkeys
    obtain ⟨horg, hid⟩ := hkeys
    rw [Table.get?_eq_some.mpr ⟨hrow, hid⟩]
    exact (Option.filter_some_pos (by simpa using horg)).symm

theorem getRecipe_eq (db : RecipeTable) (orgId id : String) :
    getRecipe zones db orgId id =
      match (db.get? id).filter fun row => row.orgId = orgId with
      | some row => (toRecipe zones row).map some
      | none => .ok none := by
  rw [← find?_orgId]
  rfl

/-! ## Listing -/

/-- A loop of reads that all succeed gives what each of them gives. -/
theorem mapM_ok {α β ε : Type} {read : α → Except ε β} {rows : List α}
    (h : ∀ row ∈ rows, ∃ item, read row = .ok item) :
    ∃ items, rows.mapM read = .ok items ∧
      ∀ item, item ∈ items ↔ ∃ row ∈ rows, read row = .ok item := by
  induction rows with
  | nil => exact ⟨[], rfl, by simp⟩
  | cons row rows ih =>
    obtain ⟨first, hfirst⟩ := h row List.mem_cons_self
    obtain ⟨items, hitems, hmem⟩ := ih fun row hrow => h row (List.mem_cons_of_mem _ hrow)
    refine ⟨first :: items, ?_, ?_⟩
    · rw [List.mapM_cons, hfirst, hitems]
      rfl
    · intro item
      rw [List.mem_cons, hmem]
      constructor
      · rintro (rfl | ⟨row', hrow', hread⟩)
        · exact ⟨row, List.mem_cons_self, hfirst⟩
        · exact ⟨row', List.mem_cons_of_mem _ hrow', hread⟩
      · rintro ⟨row', hrow', hread⟩
        rcases List.mem_cons.mp hrow' with rfl | hrest
        · rw [hfirst] at hread
          cases hread
          exact Or.inl rfl
        · exact Or.inr ⟨row', hrest, hread⟩

theorem listRecipes_ok {db : RecipeTable} (h : Readable db) (orgId : String) :
    ∃ listed, listRecipes zones db orgId = .ok listed ∧
      ∀ recipe, recipe ∈ listed ↔
        ∃ row ∈ db.rows, row.orgId = orgId ∧ toRecipe zones row = .ok recipe := by
  have hread : ∀ row ∈ (db.rows.filter fun row => row.orgId = orgId).insertionSort
      (fun left right => recipeOrder left right = true),
      ∃ recipe, toRecipe zones row = .ok recipe := by
    intro row hrow
    rw [List.mem_insertionSort] at hrow
    exact toRecipe_readable (h row (List.mem_filter.mp hrow).1)
  obtain ⟨listed, hlisted, hmem⟩ := mapM_ok hread
  refine ⟨listed, hlisted, ?_⟩
  intro recipe
  rw [hmem]
  simp only [List.mem_insertionSort, List.mem_filter, decide_eq_true_eq, and_assoc]

/-! ## Faithful storage -/

theorem normalizeRecipeMaxConcurrent_pos (value : Option ℚ) :
    normalizeRecipeMaxConcurrent value ≠ some 0 := by
  intro hzero
  obtain ⟨n, hn, hlimit⟩ := Option.map_eq_some_iff.mp hzero
  obtain ⟨_, hone⟩ := Option.filter_eq_some_iff.mp hn
  have hfloor : 1 ≤ ⌊n⌋ := Int.le_floor.mpr (by simpa using hone)
  have hcap : recipeMaxConcurrentCap = 1000 := rfl
  omega

/-- What the API makes of an input is in the form that the columns keep. -/
theorem normalizeRecipe_normal {input : RecipeInput} {orgId newId : String} {now : Timestamp}
    {existing : Option Recipe} {recipe : Recipe}
    (h : normalizeRecipe zones input orgId newId now existing = .ok recipe) :
    NormalTrigger zones recipe.trigger ∧ recipe.maxConcurrent ≠ some 0 := by
  unfold normalizeRecipe at h
  simp only [bind, Except.bind, pure, Except.pure] at h
  split at h
  · cases h
  · split at h
    · cases h
    · split at h
      · cases h
      · split at h
        · cases h
        · cases h
          exact ⟨normalizeRecipeTrigger_normal _ _, normalizeRecipeMaxConcurrent_pos _⟩

theorem storedRow_eq {db : RecipeTable} {recipe : Recipe}
    (h : ∀ row, db.get? recipe.id = some row →
      row.orgId = recipe.orgId ∧ row.createdAt = recipe.createdAt) :
    storedRow zones db recipe = recipeRow zones recipe := by
  unfold storedRow
  cases hget : db.get? recipe.id with
  | none => rfl
  | some old =>
    obtain ⟨horg, hcreated⟩ := h old hget
    obtain ⟨_, hid⟩ := Table.get?_eq_some.mp hget
    simp only [Option.map_some, Option.getD_some, RecipeRow.update, horg, hcreated, hid]
    rfl

/-- What is stored tells the organization and the creation time of a row that was there. -/
theorem storedRow_old {db : RecipeTable} {recipe : Recipe} {row : RecipeRow}
    (h : db.get? recipe.id = some row) :
    (storedRow zones db recipe).orgId = row.orgId ∧
      (storedRow zones db recipe).createdAt = row.createdAt := by
  unfold storedRow
  rw [h]
  exact ⟨rfl, rfl⟩

theorem faithful_of_row {db : RecipeTable} (hdb : Readable db) {recipe : Recipe}
    (hrow : toRecipe zones (storedRow zones db recipe) = .ok recipe) :
    Faithful zones db recipe := by
  have hget := @get?_putRecipe zones db recipe
  obtain ⟨hstored, _⟩ := Table.get?_eq_some.mp hget
  obtain ⟨hid, horg, _, _⟩ := toRecipe_fields hrow
  obtain ⟨listed, hlisted, hmem⟩ :=
    @listRecipes_ok zones _ (putRecipe_readable hdb recipe) recipe.orgId
  constructor
  · rw [getRecipe_eq, hget, Option.filter_some_pos (by simpa using horg.symm)]
    simp only [hrow]
    rfl
  · refine ⟨listed, hlisted, (hmem recipe).mpr ⟨_, hstored, horg.symm, hrow⟩, ?_⟩
    intro other hother hsame
    obtain ⟨row, hrowMem, _, hread⟩ := (hmem other).mp hother
    obtain ⟨hotherId, _⟩ := toRecipe_fields hread
    have hrowGet := Table.get?_key hrowMem
    rw [← hotherId, hsame, hget] at hrowGet
    rw [← Option.some.inj hrowGet, hrow] at hread
    cases hread
    rfl

theorem row_of_faithful {db : RecipeTable} {recipe : Recipe} (h : Faithful zones db recipe) :
    toRecipe zones (storedRow zones db recipe) = .ok recipe := by
  have hread := h.1
  rw [getRecipe_eq, get?_putRecipe] at hread
  split at hread
  · next row hrow =>
    obtain ⟨hrow, _⟩ := Option.filter_eq_some_iff.mp hrow
    rw [Option.some.inj hrow]
    cases hresult : toRecipe zones row with
    | error e =>
      rw [hresult] at hread
      cases hread
    | ok found =>
      rw [hresult] at hread
      cases hread
      rfl
  · cases hread

/-- A Wednesday. -/
def morning : Timestamp := ⟨"2024-05-01T00:00:00.000Z", by decide⟩

/-- Nine o'clock on the Friday after it. -/
def fridayAtNine : Timestamp := ⟨"2024-05-03T09:00:00.000Z", by decide⟩

/-- And on the Monday after that. -/
def mondayAtNine : Timestamp := ⟨"2024-05-06T09:00:00.000Z", by decide⟩

/-- A runtime that knows universal time and the texts of three instants. -/
def universalTime : TimeZones where
  known zone := zone = "UTC"
  formatToParts utcMs _ :=
    { toCalendarDate := civilFromDays (utcMs / msPerDay)
      hour := utcMs % msPerDay / 3600000
      minute := utcMs % 3600000 / 60000
      second := utcMs % 60000 / 1000 }
  parseDate text :=
    if text = morning then some 1714521600000
    else if text = fridayAtNine then some 1714726800000
    else if text = mondayAtNine then some 1714986000000
    else none
  toISOString ms :=
    if ms = 1714521600000 then some morning
    else if ms = 1714726800000 then some fridayAtNine
    else if ms = 1714986000000 then some mondayAtNine
    else none
  dateNow := 1714521600000

/-- A pull at nine on two days of the week. -/
def weekdayDigest : RecipeInput where
  name := some "digest"
  «match» := some { threadId := some "feishu:oc_team" }
  trigger := some
    { kind := "pull", atMinute := some 540, weekdays := some [5, 1, 5], timezone := some " UTC " }
  executorType := some "coco"

def weekdayDigestRecipe : Recipe where
  id := "recipe-2"
  orgId := "local"
  name := "digest"
  «match» := { threadId := some "feishu:oc_team" }
  trigger :=
    { kind := .pull
      intervalMs := some 3600000
      atMinute := some 540
      weekdays := some [1, 5]
      timezone := some "UTC" }
  executorType := "coco"
  executorConfig := .empty
  canWriteBack := true
  includeContext := true
  enabled := true
  nextRunAt := some fridayAtNine
  createdAt := morning
  updatedAt := morning

theorem normalizeRecipe_weekdayDigest :
    normalizeRecipe universalTime weekdayDigest "local" "recipe-2" morning none =
      .ok weekdayDigestRecipe := by
  have htrigger : normalizeRecipeTrigger universalTime (weekdayDigest.trigger <|> none)
      weekdayDigestRecipe.match = weekdayDigestRecipe.trigger := by
    decide +kernel
  have hclock : initialPullNextRun universalTime weekdayDigestRecipe.trigger morning =
      fridayAtNine := by
    decide +kernel
  change (do
    let «match» ← Except.ok weekdayDigestRecipe.match
    let trigger := normalizeRecipeTrigger universalTime (weekdayDigest.trigger <|> none) «match»
    checkMatch «match» trigger
    _) = _
  simp only [bind, Except.bind, Option.map_none, htrigger]
  change Except.ok { weekdayDigestRecipe with
    nextRunAt := some (initialPullNextRun universalTime weekdayDigestRecipe.trigger morning) } = _
  rw [hclock]
  rfl

/-- The memory store gives back every recipe as it was put. -/
theorem memoryRecipes_faithful (recipes : MemoryRecipes.Recipes) (recipe : Recipe) :
    MemoryRecipes.getRecipe (MemoryRecipes.putRecipe recipes recipe) recipe.orgId recipe.id =
        some recipe ∧
      recipe ∈ MemoryRecipes.listRecipes (MemoryRecipes.putRecipe recipes recipe) recipe.orgId ∧
      ∀ other ∈ MemoryRecipes.listRecipes (MemoryRecipes.putRecipe recipes recipe) recipe.orgId,
        other.id = recipe.id → other = recipe := by
  have hget : (MemoryRecipes.putRecipe recipes recipe).get? recipe.id = some recipe := by
    rw [MemoryRecipes.putRecipe, Table.get?_put, if_pos rfl]
  obtain ⟨hmem, _⟩ := Table.get?_eq_some.mp hget
  refine ⟨?_, ?_, ?_⟩
  · rw [MemoryRecipes.getRecipe, hget]
    exact Option.filter_some_pos (by simp)
  · exact List.mem_filter.mpr ⟨hmem, by simp⟩
  · intro other hother hid
    have hkey := Table.get?_key (List.mem_filter.mp hother).1
    rw [hid, hget] at hkey
    exact (Option.some.inj hkey).symm

/-! ## A destination that is lost -/

/-- A recipe whose results go to another conversation. -/
def resultsElsewhere : RecipeInput where
  name := some "digest"
  «match» := some { threadId := some "feishu:oc_team" }
  executorType := some "coco"
  canWriteBack := some true
  writeBackThreadId := some (some "feishu:oc_results")

def resultsElsewhereRecipe : Recipe where
  id := "recipe-1"
  orgId := "local"
  name := "digest"
  «match» := { threadId := some "feishu:oc_team" }
  trigger := { kind := .push, coalesce := some true }
  executorType := "coco"
  executorConfig := .empty
  canWriteBack := true
  writeBackThreadId := some "feishu:oc_results"
  includeContext := false
  enabled := true
  createdAt := morning
  updatedAt := morning

theorem normalizeRecipe_resultsElsewhere :
    normalizeRecipe universalTime resultsElsewhere "local" "recipe-1" morning none =
      .ok resultsElsewhereRecipe := by
  rfl

end Regenic.Recipes
