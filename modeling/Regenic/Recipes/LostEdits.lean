import Regenic.Recipes.Edits

/-!
The pool of passes and user calls over the recipe store. Along every run in which a pass puts a
recipe back only while its row still has the edits of the copy, and no recipe has a destination
of its own, the store has what the user last wrote.
-/

namespace Regenic.Recipes

open Lib Reply

variable (zones : TimeZones) (orgId : String)

abbrev RecipePool : Type := Pool StoreCall.Answer Thrown Unit StoreState

/-- The pool at its start: these requests over an empty store. -/
def RecipePool.start (requests : List Request) : RecipePool where
  procs := requests.map (Request.prog zones orgId)
  state := {}

def RecipePool.step (pool : RecipePool) (e : Nat × OutsideAnswers) : RecipePool :=
  Pool.step (StoreCall.exec zones orgId) (fun _ _ => none) pool e

/-- A user's recipe has no destination of its own. A recipe that a pass puts back is stored
with the edits of the copy that the pass has read. -/
def KeepsEdits : StoreCall → OutsideAnswers → StoreState → Prop
  | .putRecipe .user recipe, _, _ => recipe.writeBackThreadId = none
  | .putRecipe .scheduler recipe, _, s =>
    ∃ row ∈ s.recipes.get? recipe.id, row.edits = (recipeRow zones recipe).edits
  | _, _, _ => True

instance KeepsEdits.decidable : (c : StoreCall) → (w : OutsideAnswers) → (s : StoreState) →
    Decidable (KeepsEdits zones c w s)
  | .putRecipe .user recipe, _, _ =>
    inferInstanceAs (Decidable (recipe.writeBackThreadId = none))
  | .putRecipe .scheduler recipe, _, s =>
    inferInstanceAs (Decidable
      (∃ row ∈ s.recipes.get? recipe.id, row.edits = (recipeRow zones recipe).edits))
  | .listRecipes, _, _ => isTrue trivial
  | .getRecipe _, _, _ => isTrue trivial
  | .deleteRecipe _, _, _ => isTrue trivial
  | .outside _, _, _ => isTrue trivial

/-! ## What the programs put -/

/-- The recipe was made by the API from an input. -/
def FromInput (recipe : Recipe) : Prop :=
  ∃ input newId now existing made,
    normalizeRecipe zones input orgId newId now existing = .ok made ∧
      ∃ canWriteBack, recipe = { made with canWriteBack }

/-- The recipe was listed, and has a next time now. -/
def FromListed (h : History StoreCall.Answer) (recipe : Recipe) : Prop :=
  ∃ listed, ⟨.listRecipes, .ok listed⟩ ∈ h ∧
    ∃ copy ∈ listed, ∃ nextRunAt, recipe = { copy with nextRunAt }

def allowedCall (h : History StoreCall.Answer) : StoreCall → Prop
  | .putRecipe .user recipe => FromInput zones orgId recipe
  | .putRecipe .scheduler recipe => FromListed h recipe
  | _ => True

variable {zones orgId} {h : History StoreCall.Answer}

/-- A call that puts nothing. -/
def Reads : StoreCall → Prop
  | .putRecipe _ _ => False
  | _ => True

theorem reads_allowed {c : StoreCall} (hc : Reads c) : allowedCall zones orgId h c := by
  cases c with
  | putRecipe writer recipe => exact hc.elim
  | _ => trivial

/-- A call of a pass over these recipes: it puts none but one of them. -/
def PutsOneOf (recipes : List Recipe) : StoreCall → Prop
  | .putRecipe .user _ => False
  | .putRecipe .scheduler recipe => ∃ copy ∈ recipes, ∃ nextRunAt, recipe = { copy with nextRunAt }
  | _ => True

theorem calls_ask {ok : StoreCall → Prop} (question : Outside) (hok : ok (.outside question)) :
    (ask question).Calls ok := by
  apply Prog.calls_bind (Prog.calls_perform hok)
  intro answer
  cases answer with
  | ok a => trivial
  | error e => trivial

theorem calls_liftJson {α : Type} {ok : StoreCall → Prop} (result : Except JsonError α) :
    (liftJson result).Calls ok := by
  cases result with
  | ok value => trivial
  | error e => cases e; trivial

section Passes

variable {recipes : List Recipe}

theorem startPull_calls (items : List PullWorkItem) (recipe : Recipe)
    (threadId unitKey : String) :
    (startPull items recipe threadId unitKey).Calls (PutsOneOf recipes) := by
  apply Prog.calls_bind (calls_ask _ trivial)
  intro existing
  cases existing with
  | some existing =>
    apply Prog.calls_bind (calls_ask _ trivial)
    intro _
    trivial
  | none =>
    apply Prog.calls_bind (calls_ask _ trivial)
    intro id
    apply Prog.calls_bind (calls_ask _ trivial)
    intro opened
    apply Prog.calls_bind (calls_ask _ trivial)
    intro _
    trivial

theorem dispatchDuePull_calls (items : List PullWorkItem) (now : Timestamp) {recipe : Recipe}
    (hmem : recipe ∈ recipes) :
    (dispatchDuePull zones items now recipe).Calls (PutsOneOf recipes) := by
  unfold dispatchDuePull
  split
  · trivial
  · next threadId _ =>
    have hdefer : (shouldDefer recipe threadId).Calls (PutsOneOf recipes) :=
      Prog.calls_ite (fun _ => calls_ask _ trivial) fun _ => trivial
    apply Prog.calls_bind hdefer
    intro defer
    split
    · trivial
    · apply Prog.calls_bind (startPull_calls _ _ _ _)
      intro items
      split
      · trivial
      · next next _ =>
        apply Prog.calls_bind (Prog.calls_perform ⟨recipe, hmem, some next, rfl⟩)
        intro _
        trivial

theorem dispatchEach_calls (now : Timestamp) (items : List PullWorkItem) (rest : List Recipe)
    (hrest : rest ⊆ recipes) :
    (dispatchEach zones now items rest).Calls (PutsOneOf recipes) := by
  induction rest generalizing items with
  | nil => trivial
  | cons recipe rest ih =>
    apply Prog.calls_bind (dispatchDuePull_calls items now (hrest List.mem_cons_self))
    intro items
    exact ih items fun other hother => hrest (List.mem_cons_of_mem _ hother)

/-- A pass puts only what it has listed. -/
theorem dispatchDuePulls_obeys :
    Obeys (allowedCall zones orgId) h (dispatchDuePulls zones) fun _ _ => True := by
  apply Obeys.call (show allowedCall zones orgId h .listRecipes from trivial)
  intro listed
  cases listed with
  | error e => cases e; exact Obeys.fail _
  | ok recipes =>
    have hcalls : ((ask .listActiveWorkItems).bind fun items => (ask .now).bind fun now =>
        dispatchEach zones now items recipes).Calls (PutsOneOf recipes) := by
      apply Prog.calls_bind (calls_ask _ trivial)
      intro items
      apply Prog.calls_bind (calls_ask _ trivial)
      intro now
      exact dispatchEach_calls now items recipes (List.Subset.refl recipes)
    apply Obeys.of_calls hcalls
    intro h' c hsuffix hc
    cases c with
    | putRecipe writer recipe =>
      cases writer with
      | user => exact hc.elim
      | scheduler => exact ⟨recipes, hsuffix.subset List.mem_cons_self, hc⟩
    | _ => trivial

end Passes

theorem refuseIf_calls {ok : StoreCall → Prop} (bad : Bool) (code message : String)
    (httpStatus : Nat) : (refuseIf bad code message httpStatus).Calls ok :=
  Prog.calls_ite (fun _ => trivial) fun _ => trivial

theorem findExisting_calls (id : Option String) : (findExisting id).Calls Reads := by
  unfold findExisting
  split
  · trivial
  · apply Prog.calls_bind
    · apply Prog.calls_bind (Prog.calls_perform trivial)
      intro found
      exact calls_liftJson found
    · intro found
      apply Prog.calls_bind (refuseIf_calls _ _ _ _)
      intro _
      trivial

theorem checkRecipe_calls (existing : Option Recipe) (recipe : Recipe) :
    (checkRecipe existing recipe).Calls Reads := by
  apply Prog.calls_bind (calls_ask _ trivial)
  intro known
  apply Prog.calls_bind (refuseIf_calls _ _ _ _)
  intro _
  apply Prog.calls_bind (refuseIf_calls _ _ _ _)
  intro _
  apply Prog.calls_bind (calls_ask _ trivial)
  intro fields
  apply Prog.calls_bind (refuseIf_calls _ _ _ _)
  intro _
  exact refuseIf_calls _ _ _ _

theorem withoutDeadEnd_obeys (recipe : Recipe) :
    Obeys (allowedCall zones orgId) h (withoutDeadEnd recipe) fun _ saved =>
      ∃ canWriteBack, saved = { recipe with canWriteBack } := by
  unfold withoutDeadEnd
  split
  · split
    · apply Obeys.bind (Obeys.of_calls (calls_ask _ trivial) fun _ _ _ => reads_allowed)
      intro h' canReply _ _
      apply Obeys.done
      split
      · exact ⟨false, rfl⟩
      · exact ⟨recipe.canWriteBack, rfl⟩
    · exact Obeys.done ⟨recipe.canWriteBack, rfl⟩
  · exact Obeys.done ⟨recipe.canWriteBack, rfl⟩

theorem reads_obeys {α : Type} {p : RecipeProg α} (hp : p.Calls Reads) :
    Obeys (allowedCall zones orgId) h p fun _ _ => True :=
  Obeys.of_calls hp fun _ _ _ => reads_allowed

/-- A user puts only what the API makes of an input. -/
theorem saveRecipe_obeys (input : RecipeInput) (id : Option String) :
    Obeys (allowedCall zones orgId) h (saveRecipe zones orgId input id) fun _ _ => True := by
  apply Obeys.bind (reads_obeys (refuseIf_calls _ _ _ _))
  intro h₁ _ _ _
  apply Obeys.bind (reads_obeys (calls_ask _ trivial))
  intro h₂ _ _ _
  apply Obeys.bind (reads_obeys (calls_ask _ trivial))
  intro h₃ now _ _
  apply Obeys.bind (reads_obeys (findExisting_calls id))
  intro h₄ existing _ _
  apply Obeys.bind (reads_obeys (calls_ask _ trivial))
  intro h₅ (newId : String) _ _
  cases hmade : normalizeRecipe zones input orgId ("recipe-" ++ newId) now existing with
  | error invalid => exact Obeys.fail _
  | ok made =>
    apply Obeys.bind (reads_obeys (checkRecipe_calls existing made))
    intro h₆ _ _ _
    apply Obeys.bind (withoutDeadEnd_obeys made)
    intro h₇ saved _ hsaved
    apply Obeys.call (show allowedCall zones orgId h₇ (.putRecipe .user saved) from
      ⟨input, _, now, existing, made, hmade, hsaved⟩)
    intro _
    exact Obeys.done trivial

theorem removeRecipe_calls (id : String) : (removeRecipe id).Calls Reads := by
  apply Prog.calls_bind (refuseIf_calls _ _ _ _)
  intro _
  apply Prog.calls_bind (Prog.calls_perform trivial)
  intro removed
  exact refuseIf_calls _ _ _ _

theorem prog_obeys (request : Request) :
    Obeys (allowedCall zones orgId) h (request.prog zones orgId) fun _ _ => True := by
  cases request with
  | dispatchDuePulls => exact dispatchDuePulls_obeys
  | putRecipe input id =>
    apply Obeys.bind (saveRecipe_obeys input id)
    intro _ _ _ _
    exact Obeys.done trivial
  | deleteRecipe id => exact reads_obeys (removeRecipe_calls id)

/-! ## What each call keeps -/

/-- The rows are those of recipes of the API, and no edit is lost. -/
def StoreSound (zones : TimeZones) (orgId : String) (s : StoreState) : Prop :=
  RowsStored zones orgId s.recipes ∧ EditsKept zones orgId s

/-- What was listed was in the form that rows keep. -/
def listedStored (zones : TimeZones) (orgId : String) (told : Told StoreCall.Answer)
    (_ : StoreState) : Prop :=
  match told with
  | ⟨.listRecipes, .ok listed⟩ => ∀ recipe ∈ listed, StoredRecipe zones orgId recipe
  | _ => True

theorem RowsStored.readable {db : RecipeTable} (hrows : RowsStored zones orgId db) :
    Readable db := by
  intro row hrow
  obtain ⟨recipe, _, rfl⟩ := hrows row hrow
  exact recipeRow_readable recipe

theorem RowsStored.listed {db : RecipeTable} (hrows : RowsStored zones orgId db) {org : String}
    {listed : List Recipe} (hlisted : listRecipes zones db org = .ok listed) :
    ∀ recipe ∈ listed, StoredRecipe zones orgId recipe := by
  obtain ⟨found, hfound, hmem⟩ := @listRecipes_ok zones db hrows.readable org
  rw [hfound] at hlisted
  cases hlisted
  intro recipe hrecipe
  obtain ⟨row, hrow, _, hread⟩ := (hmem recipe).mp hrecipe
  obtain ⟨stored, hstored, rfl⟩ := hrows row hrow
  rw [hstored.read] at hread
  cases hread
  exact hstored

theorem StoredRecipe.withNextRun {recipe : Recipe} (hstored : StoredRecipe zones orgId recipe)
    (nextRunAt : Option Timestamp) : StoredRecipe zones orgId { recipe with nextRunAt } :=
  ⟨hstored.orgId, hstored.trigger, hstored.maxConcurrent, hstored.writeBackThreadId⟩

theorem getRecipe_putRecipe_of_ne (db : RecipeTable) {recipe : Recipe} {id : String}
    (hne : id ≠ recipe.id) :
    getRecipe zones (putRecipe zones db recipe) orgId id = getRecipe zones db orgId id :=
  getRecipe_congr (get?_putRecipe_of_ne db hne)

theorem normalizeRecipe_orgId {input : RecipeInput} {newId : String} {now : Timestamp}
    {existing : Option Recipe} {recipe : Recipe}
    (hmade : normalizeRecipe zones input orgId newId now existing = .ok recipe) :
    recipe.orgId = orgId := by
  unfold normalizeRecipe at hmade
  simp only [bind, Except.bind, pure, Except.pure] at hmade
  split at hmade
  · cases hmade
  · split at hmade
    · cases hmade
    · split at hmade
      · cases hmade
      · split at hmade
        · cases hmade
        · cases hmade
          rfl

theorem FromInput.stored {recipe : Recipe} (hmade : FromInput zones orgId recipe)
    (hdestination : recipe.writeBackThreadId = none) : StoredRecipe zones orgId recipe := by
  obtain ⟨input, newId, now, existing, made, hnormal, canWriteBack, rfl⟩ := hmade
  obtain ⟨htrigger, hcap⟩ := normalizeRecipe_normal hnormal
  have horg := normalizeRecipe_orgId hnormal
  exact ⟨horg, htrigger, hcap, hdestination⟩

/-- A user's put is what the store then has. -/
theorem StoreSound.userPut {s : StoreState} (hs : StoreSound zones orgId s) {recipe : Recipe}
    (hrecipe : StoredRecipe zones orgId recipe) :
    StoreSound zones orgId
      { recipes := putRecipe zones s.recipes recipe
        written := Function.update s.written recipe.id (some recipe) } := by
  obtain ⟨hrows, createdAt, hget⟩ :=
    hs.1.putRecipe hrecipe.orgId hrecipe.trigger hrecipe.maxConcurrent
  refine ⟨hrows, ⟨?_⟩⟩
  intro id
  by_cases hid : id = recipe.id
  · subst hid
    simp only [Function.update_self]
    refine ⟨_, hget, ?_⟩
    exact ⟨rfl, rfl, rfl, rfl, rfl, rfl, hrecipe.writeBackThreadId, rfl, rfl, rfl⟩
  · have hold := hs.2.kept id
    simp only [Function.update_of_ne hid]
    rwa [getRecipe_putRecipe_of_ne s.recipes hid]

/-- The recipe that is stored under a row, and what the user last wrote there. -/
theorem StoreSound.written {s : StoreState} (hs : StoreSound zones orgId s) {id : String}
    {row : RecipeRow} (hget : s.recipes.get? id = some row) :
    ∃ written stored, s.written id = some written ∧ StoredRecipe zones orgId stored ∧
      row = recipeRow zones stored ∧ written.SameEdits stored := by
  obtain ⟨stored, hstored, hrow, hread⟩ := hs.1.get? hget
  have hkept := hs.2.kept id
  cases hwritten : s.written id with
  | none =>
    rw [hwritten] at hkept
    rw [hread] at hkept
    cases hkept
  | some written =>
    rw [hwritten] at hkept
    obtain ⟨found, hfound, hsame⟩ := hkept
    rw [hread] at hfound
    cases hfound
    exact ⟨written, stored, rfl, hstored, hrow, hsame⟩

/-- A pass that puts back a copy whose edits are the stored ones loses none. -/
theorem StoreSound.passPut {s : StoreState} (hs : StoreSound zones orgId s) {recipe : Recipe}
    (hrecipe : StoredRecipe zones orgId recipe)
    (hcond : ∃ row ∈ s.recipes.get? recipe.id, row.edits = (recipeRow zones recipe).edits) :
    StoreSound zones orgId { s with recipes := putRecipe zones s.recipes recipe } := by
  obtain ⟨row, hrow, hedits⟩ := hcond
  obtain ⟨written, stored, hwritten, hstored, rfl, hsame⟩ := hs.written hrow
  have hcopy : stored.SameEdits recipe := .of_edits hstored.read hrecipe.read hedits
  obtain ⟨hrows, createdAt, hget⟩ :=
    hs.1.putRecipe hrecipe.orgId hrecipe.trigger hrecipe.maxConcurrent
  refine ⟨hrows, ⟨?_⟩⟩
  intro id
  by_cases hid : id = recipe.id
  · subst hid
    simp only [hwritten]
    refine ⟨_, hget, (hsame.trans hcopy).trans ?_⟩
    exact ⟨rfl, rfl, rfl, rfl, rfl, rfl, hrecipe.writeBackThreadId, rfl, rfl, rfl⟩
  · have hold := hs.2.kept id
    dsimp only
    rwa [getRecipe_putRecipe_of_ne s.recipes hid]

theorem StoreSound.delete {s : StoreState} (hs : StoreSound zones orgId s) (id : String) :
    StoreSound zones orgId
      { recipes := deleteRecipe s.recipes orgId id
        written := Function.update s.written id none } := by
  refine ⟨hs.1.deleteRecipe id, ⟨?_⟩⟩
  intro k
  have hget := hs.1.get?_deleteRecipe id k
  by_cases hk : k = id
  · subst hk
    simp only [Function.update_self]
    rw [if_pos rfl] at hget
    exact getRecipe_none hget
  · have hold := hs.2.kept k
    rw [if_neg hk] at hget
    simp only [Function.update_of_ne hk]
    rwa [getRecipe_congr hget]

/-- What each allowed call keeps when it meets the condition. -/
theorem keepsEdits_step {h : History StoreCall.Answer} {s : StoreState} (c : StoreCall)
    (w : OutsideAnswers) (hs : StoreSound zones orgId s)
    (hh : AllStand (listedStored zones orgId) h s) (hc : allowedCall zones orgId h c)
    (hcond : KeepsEdits zones c w s) :
    StoreSound zones orgId (StoreCall.exec zones orgId c w s).2 ∧
      listedStored zones orgId ⟨c, (StoreCall.exec zones orgId c w s).1⟩
        (StoreCall.exec zones orgId c w s).2 := by
  cases c with
  | listRecipes =>
    refine ⟨hs, ?_⟩
    cases hlisted : listRecipes zones s.recipes orgId with
    | error e => simp only [StoreCall.exec, hlisted, listedStored]
    | ok listed =>
      simp only [StoreCall.exec, hlisted]
      exact hs.1.listed hlisted
  | getRecipe id => exact ⟨hs, trivial⟩
  | putRecipe writer recipe =>
    cases writer with
    | user => exact ⟨hs.userPut (FromInput.stored hc hcond), trivial⟩
    | scheduler =>
      obtain ⟨listed, htold, copy, hcopy, nextRunAt, rfl⟩ := hc
      have hstored : StoredRecipe zones orgId copy := hh _ htold copy hcopy
      exact ⟨hs.passPut (hstored.withNextRun nextRunAt) hcond, trivial⟩
  | deleteRecipe id => exact ⟨hs.delete id, trivial⟩
  | outside question => exact ⟨hs, trivial⟩

theorem keepsEdits_keeps :
    Pool.Keeps (historyProtocol (allowedCall zones orgId)) startHistory
      (StoreCall.exec zones orgId) (fun _ _ => (none : Option (RecipeProg Unit)))
      (KeepsEdits zones)
      fun modes s => StoreSound zones orgId s ∧
        ∀ i, AllStand (listedStored zones orgId) (modes i) s := by
  apply Pool.Keeps.of_standing
  · intro h s c w hs hh hc hcond
    obtain ⟨hsound, htold⟩ := keepsEdits_step c w hs hh hc hcond
    refine ⟨hsound, htold, ?_⟩
    intro told hstands
    exact hstands
  · intro h c r p _ hfork
    cases hfork

/-! ## Every interleaving -/

def summaryConfig : JsonData :=
  ⟨.object [("prompt", .string "Sum up the day")], trivial, trivial⟩

/-- A pull on two days of the week, with an instruction. -/
def weekdaySummary : RecipeInput := { weekdayDigest with executorConfig := some summaryConfig }

/-- A calm outside at this time. -/
def calmAnswers (now : Timestamp) : OutsideAnswers
  | .now => .ok now
  | .randomUUID => .ok "1"
  | .ensureMounted => .ok ()
  | .listActiveWorkItems => .ok []
  | .shouldDeferWorkForThread _ => .ok false
  | .getWorkItemByUnitKey _ _ => .ok none
  | .putWorkItem item => .ok item
  | .retryOrResume _ _ => .ok ()
  | .beginStart _ _ => .ok ()
  | .hasExecutor _ => .ok true
  | .requiredFields _ => .ok []
  | .canReplyThread _ => .ok (some true)

/-- A user writes a recipe and deletes it later; a pass runs on the Friday. -/
def summaryRequests : List Request :=
  [.putRecipe weekdaySummary none, .dispatchDuePulls, .deleteRecipe "recipe-1"]

def putSteps : List (Nat × OutsideAnswers) := List.replicate 7 (0, calmAnswers morning)

def passSteps (count : Nat) : List (Nat × OutsideAnswers) :=
  List.replicate count (1, calmAnswers fridayAtNine)

def deleteStep : Nat × OutsideAnswers := (2, calmAnswers fridayAtNine)

theorem EditsKept.deleted {s : StoreState} (hkept : EditsKept zones orgId s) {id : String}
    (hwritten : (s.written id).isNone = true) :
    getRecipe zones s.recipes orgId id = .ok none := by
  have hread := hkept.kept id
  rwa [Option.isNone_iff_eq_none.mp hwritten] at hread

def isFound : Except JsonError (Option Recipe) → Bool
  | .ok found => found.isSome
  | .error _ => false

end Regenic.Recipes
