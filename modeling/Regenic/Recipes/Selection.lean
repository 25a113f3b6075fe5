import Mathlib.Data.List.Infix
import Mathlib.Data.List.Lex
import Mathlib.Data.List.Sort
import Regenic.Lib.Utf16
import Regenic.Recipes.Pulls

/-!
Which recipe a subject is bound to, and which one a recipe is said to be preempted by. The two
rank recipes on their own: the selection takes a push before a manual recipe of the same
specificity, the explanation goes by the ids at once.
-/

namespace Regenic.Recipes

open Lib

/-- `toLowerCase` is the host's. -/
abbrev CaseFold : Type := String → String

structure RecipeSubject where
  recordClass : String
  threadFacet : String
  source : String
  threadId : String
  unitKind : Option String := none
  bodyText : Option String := none
  deriving DecidableEq, Repr

section Match

variable (fold : CaseFold)

/-- `text.includes(part)` -/
def includes (text part : String) : Bool := utf16 part <:+: utf16 text

/-- `wanted && wanted !== value` is not the case. -/
def fieldAgrees (wanted value : Option String) : Bool :=
  (present wanted).all fun wanted => value = some wanted

def recipeTextMatches («match» : RecipeMatch) (text : Option String) : Bool :=
  if (present «match».textContains).isNone && (present «match».textExcludes).isNone then true
  else
    text.any fun text =>
      ((present «match».textContains).all fun part => includes (fold text) (fold part)) &&
        (present «match».textExcludes).all fun part => !includes (fold text) (fold part)

def recipeMatches («match» : RecipeMatch) (subject : RecipeSubject)
    (triggerKind : RecipeTriggerKind) : Bool :=
  recipeSpecificity «match» ≠ 0 && fieldAgrees «match».threadId (some subject.threadId) &&
    fieldAgrees «match».unitKind subject.unitKind &&
    fieldAgrees «match».source (some subject.source) &&
    fieldAgrees «match».recordClass (some subject.recordClass) &&
    fieldAgrees «match».threadFacet (some subject.threadFacet) &&
    (triggerKind ≠ .push || recipeTextMatches fold «match» subject.bodyText)

/-- Of two fields that are both set, the one says what the other says. -/
def fieldsMeet (left right : Option String) : Bool :=
  (present left).all fun left => (present right).all fun right => left = right

/-- The text that one recipe wants has in it what the other one excludes. -/
def excludesWanted (wants excludes : RecipeMatch) : Bool :=
  (present wants.textContains).any fun part =>
    (present excludes.textExcludes).any fun excluded => includes (fold part) (fold excluded)

def recipesCanShareSubject (left right : RecipeMatch) (leftKind rightKind : RecipeTriggerKind) :
    Bool :=
  !(leftKind = .push && rightKind = .push &&
      (excludesWanted fold left right || excludesWanted fold right left)) &&
    fieldsMeet left.threadId right.threadId && fieldsMeet left.unitKind right.unitKind &&
    fieldsMeet left.source right.source && fieldsMeet left.recordClass right.recordClass &&
    fieldsMeet left.threadFacet right.threadFacet

/-! ## Preemption -/

def recipeRanksBefore (left right : Recipe) : Bool :=
  if recipeSpecificity left.match = recipeSpecificity right.match then
    codeUnits left.id < codeUnits right.id
  else recipeSpecificity right.match < recipeSpecificity left.match

def preempts (recipe other : Recipe) : Bool :=
  other.id ≠ recipe.id && other.enabled &&
    recipesCanShareSubject fold recipe.match other.match recipe.trigger.kind other.trigger.kind &&
    recipeRanksBefore other recipe

def recipePreemptedBy (recipe : Recipe) (recipes : List Recipe) : Option Recipe :=
  if recipe.enabled then recipes.find? (preempts fold recipe) else none

/-! ## Selection -/

def recipeAllowsPushDispatch (recipe : Recipe) : Bool :=
  recipe.enabled && recipe.trigger.kind = .push && recipeMatchIsSpecific recipe.match

def recipeAllowsBind (recipe : Recipe) : Bool :=
  recipe.enabled && recipeMatchIsSpecific recipe.match &&
    (recipe.trigger.kind = .push || recipe.trigger.kind = .manual)

/-- The comparison that the hits are sorted by; ids are distinct. -/
def selectsBefore (left right : Recipe) : Prop :=
  recipeSpecificity right.match < recipeSpecificity left.match ∨
    recipeSpecificity right.match = recipeSpecificity left.match ∧
      ((recipeAllowsPushDispatch right).toNat < (recipeAllowsPushDispatch left).toNat ∨
        (recipeAllowsPushDispatch right).toNat = (recipeAllowsPushDispatch left).toNat ∧
          codeUnits left.id ≤ codeUnits right.id)

instance decidableSelectsBefore (left right : Recipe) : Decidable (selectsBefore left right) :=
  inferInstanceAs (Decidable (_ ∨ _))

def recipeHits (recipes : List Recipe) (subject : RecipeSubject) : List Recipe :=
  recipes.filter fun recipe =>
    recipeAllowsBind recipe && recipeMatches fold recipe.match subject recipe.trigger.kind

def selectRecipeForSubject (recipes : List Recipe) (subject : RecipeSubject) : Option Recipe :=
  ((recipeHits fold recipes subject).insertionSort selectsBefore).head?.filter fun matched =>
    recipeMatchIsSpecific matched.match

end Match

/-! ## Sharing -/

section Sharing

variable {fold : CaseFold} {left right : RecipeMatch} {subject : RecipeSubject}
  {leftKind rightKind : RecipeTriggerKind}

theorem fieldsMeet_of_agrees {left right value : Option String}
    (hleft : fieldAgrees left value = true) (hright : fieldAgrees right value = true) :
    fieldsMeet left right = true := by
  unfold fieldAgrees fieldsMeet at *
  cases hl : present left with
  | none => rfl
  | some l =>
    cases hr : present right with
    | none => rfl
    | some r =>
      rw [hl, Option.all_some, decide_eq_true_eq] at hleft
      rw [hr, Option.all_some, decide_eq_true_eq] at hright
      rw [Option.all_some, Option.all_some, decide_eq_true_eq]
      exact Option.some.inj (hleft.symm.trans hright)

/-- A text that has what the one recipe wants has what is in that. -/
theorem excludesWanted_of_matches {text : Option String}
    (hleft : recipeTextMatches fold left text = true)
    (hright : recipeTextMatches fold right text = true) : excludesWanted fold left right = false := by
  unfold excludesWanted
  cases hpart : present left.textContains with
  | none => rfl
  | some part =>
    cases hexcluded : present right.textExcludes with
    | none => rfl
    | some excluded =>
      unfold recipeTextMatches at hleft hright
      simp only [hpart, hexcluded, Option.isNone_some, Bool.and_false, Bool.false_and,
        Bool.false_eq_true, if_false] at hleft hright
      cases text with
      | none => cases hleft
      | some text =>
        simp only [Option.any_some, Option.all_some, Bool.and_eq_true, Bool.not_eq_true']
          at hleft hright
        rw [Option.any_some, Option.any_some, Bool.eq_false_iff]
        intro hincludes
        have hin : includes (fold text) (fold excluded) = true :=
          decide_eq_true ((of_decide_eq_true hincludes).trans (of_decide_eq_true hleft.1))
        rw [hright.2] at hin
        cases hin

/-- Two recipes that match one subject can share a subject. -/
theorem recipesCanShareSubject_of_matches (hleft : recipeMatches fold left subject leftKind = true)
    (hright : recipeMatches fold right subject rightKind = true) :
    recipesCanShareSubject fold left right leftKind rightKind = true := by
  simp only [recipeMatches, Bool.and_eq_true, Bool.or_eq_true, decide_eq_true_eq] at hleft hright
  obtain ⟨⟨⟨⟨⟨⟨-, hthread⟩, hunit⟩, hsource⟩, hclass⟩, hfacet⟩, htext⟩ := hleft
  obtain ⟨⟨⟨⟨⟨⟨-, hthread'⟩, hunit'⟩, hsource'⟩, hclass'⟩, hfacet'⟩, htext'⟩ := hright
  unfold recipesCanShareSubject
  rw [fieldsMeet_of_agrees hthread hthread', fieldsMeet_of_agrees hunit hunit',
    fieldsMeet_of_agrees hsource hsource', fieldsMeet_of_agrees hclass hclass',
    fieldsMeet_of_agrees hfacet hfacet']
  by_cases hpush : leftKind = .push ∧ rightKind = .push
  · have htext := htext.resolve_left (not_not_intro hpush.1)
    have htext' := htext'.resolve_left (not_not_intro hpush.2)
    rw [excludesWanted_of_matches htext htext', excludesWanted_of_matches htext' htext]
    simp
  · rcases not_and_or.mp hpush with hnot | hnot
    · simp [hnot]
    · simp [hnot]

end Sharing

/-! ## Ranks -/

section Ranks

instance selectsBefore_trans : IsTrans Recipe selectsBefore := by
  constructor
  intro a b c hab hbc
  unfold selectsBefore at *
  rcases hab with hab | ⟨hab, hab' | ⟨hab', hab''⟩⟩ <;>
    rcases hbc with hbc | ⟨hbc, hbc' | ⟨hbc', hbc''⟩⟩
  · exact .inl (by omega)
  · exact .inl (by omega)
  · exact .inl (by omega)
  · exact .inl (by omega)
  · exact .inr ⟨by omega, .inl (by omega)⟩
  · exact .inr ⟨by omega, .inl (by omega)⟩
  · exact .inl (by omega)
  · exact .inr ⟨by omega, .inl (by omega)⟩
  · exact .inr ⟨by omega, .inr ⟨by omega, le_trans hab'' hbc''⟩⟩

instance selectsBefore_total : Std.Total selectsBefore := by
  constructor
  intro a b
  unfold selectsBefore
  rcases Nat.lt_trichotomy (recipeSpecificity b.match) (recipeSpecificity a.match) with
    hspec | hspec | hspec
  · exact .inl (.inl hspec)
  · rcases Nat.lt_trichotomy (recipeAllowsPushDispatch b).toNat
        (recipeAllowsPushDispatch a).toNat with hpush | hpush | hpush
    · exact .inl (.inr ⟨hspec, .inl hpush⟩)
    · rcases le_total (codeUnits a.id) (codeUnits b.id) with hid | hid
      · exact .inl (.inr ⟨hspec, .inr ⟨hpush, hid⟩⟩)
      · exact .inr (.inr ⟨hspec.symm, .inr ⟨hpush.symm, hid⟩⟩)
    · exact .inr (.inr ⟨hspec.symm, .inl hpush⟩)
  · exact .inr (.inl hspec)

variable {fold : CaseFold} {recipes : List Recipe} {subject : RecipeSubject}
  {recipe winner : Recipe}

/-- The selected recipe is a hit that no hit comes before. -/
theorem selectRecipeForSubject_some
    (h : selectRecipeForSubject fold recipes subject = some winner) :
    winner ∈ recipeHits fold recipes subject ∧
      ∀ hit ∈ recipeHits fold recipes subject, selectsBefore winner hit := by
  obtain ⟨hhead, -⟩ := Option.filter_eq_some_iff.mp h
  have hsorted := List.pairwise_insertionSort selectsBefore (recipeHits fold recipes subject)
  have hmem : ∀ hit, hit ∈ (recipeHits fold recipes subject).insertionSort selectsBefore ↔
      hit ∈ recipeHits fold recipes subject := fun _ => List.mem_insertionSort selectsBefore
  cases hsort : (recipeHits fold recipes subject).insertionSort selectsBefore with
  | nil => rw [hsort] at hhead; cases hhead
  | cons first rest =>
    rw [hsort] at hhead hsorted hmem
    obtain rfl := Option.some.inj hhead
    refine ⟨(hmem first).mp List.mem_cons_self, fun hit hhit => ?_⟩
    rcases List.mem_cons.mp ((hmem hit).mpr hhit) with rfl | hrest
    · exact (total_of selectsBefore hit hit).elim id id
    · exact List.rel_of_pairwise_cons hsorted hrest

/-- The winner and the recipe are alike but for the winner being a push and the other one not, and
the winner's id is the larger one. -/
def winsByPush (winner recipe : Recipe) : Bool :=
  recipeSpecificity winner.match = recipeSpecificity recipe.match &&
    recipeAllowsPushDispatch winner && !recipeAllowsPushDispatch recipe &&
      codeUnits recipe.id < codeUnits winner.id

/-- Any other way to win is a rank. -/
theorem ranksBefore_of_selectsBefore (hids : winner.id ≠ recipe.id)
    (h : selectsBefore winner recipe) :
    recipeRanksBefore winner recipe = true ↔ winsByPush winner recipe = false := by
  have hunits : codeUnits winner.id ≠ codeUnits recipe.id :=
    fun hsame => hids (codeUnits_injective hsame)
  unfold recipeRanksBefore winsByPush
  rcases h with hspec | ⟨hspec, hpush | ⟨hpush, hid⟩⟩
  · have hne : ¬recipeSpecificity winner.match = recipeSpecificity recipe.match := by omega
    simp [hne, hspec]
  · have hwinner : recipeAllowsPushDispatch winner = true := by
      cases hw : recipeAllowsPushDispatch winner with
      | true => rfl
      | false => rw [hw] at hpush; cases hpush
    have hrecipe : recipeAllowsPushDispatch recipe = false := by
      cases hr : recipeAllowsPushDispatch recipe with
      | false => rfl
      | true => rw [hr, hwinner] at hpush; exact absurd hpush (lt_irrefl _)
    simp only [hspec.symm, if_true, hwinner, hrecipe, decide_true, Bool.true_and,
      Bool.not_false, decide_eq_true_eq, decide_eq_false_iff_not, not_lt]
    exact ⟨le_of_lt, fun hle => lt_of_le_of_ne hle hunits⟩
  · have hlt : codeUnits winner.id < codeUnits recipe.id := lt_of_le_of_ne hid hunits
    simp [hspec.symm, hlt, not_lt_of_gt hlt]

/-- For recipes of distinct ids: a recipe that matches a subject and could be bound, while another
one is selected for it, is explained as preempted if and only if that one does not win by being a
push alone, or a third recipe happens to rank before it. And recipes that cannot share a subject
never match the same one. -/
theorem preemption_is_explained (fold : CaseFold) (recipes : List Recipe)
    (hids : (recipes.map (·.id)).Nodup) :
    (∀ recipe ∈ recipes, ∀ subject winner, recipeAllowsBind recipe = true →
      recipeMatches fold recipe.match subject recipe.trigger.kind = true →
      selectRecipeForSubject fold recipes subject = some winner → winner ≠ recipe →
      ((recipePreemptedBy fold recipe recipes).isSome ↔
        winsByPush winner recipe = false ∨
          ∃ third ∈ recipes, third ≠ winner ∧ preempts fold recipe third = true)) ∧
    ∀ left right : Recipe,
      recipesCanShareSubject fold left.match right.match left.trigger.kind right.trigger.kind =
        false →
      ∀ subject, ¬(recipeMatches fold left.match subject left.trigger.kind = true ∧
        recipeMatches fold right.match subject right.trigger.kind = true) := by
  constructor
  · intro recipe hrecipe subject winner hbind hmatch hselect hne
    obtain ⟨hwinner, hfirst⟩ := selectRecipeForSubject_some hselect
    obtain ⟨hmem, hhit⟩ := List.mem_filter.mp hwinner
    obtain ⟨hwinnerBind, hwinnerMatch⟩ := Bool.and_eq_true_iff.mp hhit
    have hid : winner.id ≠ recipe.id := fun hsame =>
      hne (List.inj_on_of_nodup_map hids hmem hrecipe hsame)
    have hbefore : selectsBefore winner recipe := by
      apply hfirst
      exact List.mem_filter.mpr ⟨hrecipe, by rw [hbind, hmatch]; rfl⟩
    have henabled : ∀ other, recipeAllowsBind other = true → other.enabled = true := by
      intro other hother
      simp only [recipeAllowsBind, Bool.and_eq_true] at hother
      exact hother.1.1
    have hshare := recipesCanShareSubject_of_matches hmatch hwinnerMatch
    have hranks := ranksBefore_of_selectsBefore hid hbefore
    unfold recipePreemptedBy
    rw [if_pos (henabled recipe hbind), List.find?_isSome]
    constructor
    · rintro ⟨other, hother, hpreempts⟩
      by_cases hsame : other = winner
      · left
        subst hsame
        apply hranks.mp
        simp only [preempts, Bool.and_eq_true] at hpreempts
        exact hpreempts.2
      · exact .inr ⟨other, hother, hsame, hpreempts⟩
    · rintro (hpush | ⟨third, hthird, -, hpreempts⟩)
      · refine ⟨winner, hmem, ?_⟩
        simp only [preempts, Bool.and_eq_true, decide_eq_true_eq]
        exact ⟨⟨⟨hid, henabled winner hwinnerBind⟩, hshare⟩, hranks.mpr hpush⟩
      · exact ⟨third, hthird, hpreempts⟩
  · intro left right hshare subject hboth
    rw [recipesCanShareSubject_of_matches hboth.1 hboth.2] at hshare
    cases hshare

/-! ### A push over a manual recipe -/

def manualRecipe : Recipe where
  id := "a"
  orgId := "org"
  name := "By hand"
  «match» := { threadId := some "t" }
  trigger := { kind := .manual }
  executorType := "agent"
  executorConfig := JsonData.empty
  canWriteBack := true
  includeContext := false
  enabled := true
  createdAt := ⟨"2026-09-01T00:00:00.000Z", by decide⟩
  updatedAt := ⟨"2026-09-01T00:00:00.000Z", by decide⟩

def pushRecipe : Recipe :=
  { manualRecipe with id := "b", name := "At once", trigger := { kind := .push } }

def threadSubject : RecipeSubject where
  recordClass := "utterance"
  threadFacet := "chat"
  source := "feishu"
  threadId := "t"

theorem manual_recipe_not_explained :
    recipeAllowsBind manualRecipe = true ∧
      recipeMatches id manualRecipe.match threadSubject .manual = true ∧
      (selectRecipeForSubject id [manualRecipe, pushRecipe] threadSubject).map (·.id) =
        some "b" ∧
      (recipePreemptedBy id manualRecipe [manualRecipe, pushRecipe]).isNone = true := by
  decide +kernel

def narrowRecipe : Recipe :=
  { pushRecipe with
    id := "c"
    «match» := { threadId := some "t", source := some "feishu" } }

theorem preemption_is_explained_narrow :
    (recipePreemptedBy id pushRecipe [pushRecipe, narrowRecipe]).isSome = true := by
  have hids : ([pushRecipe, narrowRecipe].map (·.id)).Nodup := by decide
  have hselect : selectRecipeForSubject id [pushRecipe, narrowRecipe] threadSubject =
      some narrowRecipe := rfl
  have hne : narrowRecipe ≠ pushRecipe := by
    intro hsame
    exact absurd (congrArg Recipe.id hsame) (by decide)
  exact ((preemption_is_explained id _ hids).1 pushRecipe List.mem_cons_self threadSubject
    narrowRecipe (by decide +kernel) (by decide +kernel) hselect hne).mpr (.inl (by decide +kernel))

end Ranks

end Regenic.Recipes
