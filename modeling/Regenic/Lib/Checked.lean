import Mathlib.Data.List.Forall2

/-!
Computations that may throw: a check that throws a message, and what a sequence that came to
its end says of its parts.
-/

namespace Regenic.Lib

variable {ε α β : Type}

/-- `if (!ok) throw thrown`. -/
def throwUnless (ok : Bool) (thrown : ε) : Except ε Unit :=
  if ok then .ok () else .error thrown

@[simp] theorem throwUnless_true (thrown : ε) : throwUnless true thrown = .ok () := rfl

@[simp] theorem throwUnless_false (thrown : ε) : throwUnless false thrown = .error thrown := rfl

/-- The first computation of a sequence that ended well ended well. -/
theorem sequence_ok {x : Except ε α} {f : α → Except ε β} {b : β} (h : x >>= f = .ok b) :
    ∃ a, x = .ok a ∧ f a = .ok b := by
  cases x with
  | error thrown => cases h
  | ok a => exact ⟨a, rfl, h⟩

/-- A check that the sequence got past was met. -/
theorem checked_ok {ok : Bool} {thrown : ε} {f : Unit → Except ε β} {b : β}
    (h : throwUnless ok thrown >>= f = .ok b) : ok = true ∧ f () = .ok b := by
  cases ok with
  | false => cases h
  | true => exact ⟨rfl, h⟩

theorem throwUnless_ok {ok : Bool} {thrown : ε} (h : throwUnless ok thrown = .ok ()) :
    ok = true := by
  cases ok with
  | false => cases h
  | true => rfl

theorem ok_of_toOption {x : Except ε α} {a : α} (h : x.toOption = some a) : x = .ok a := by
  cases x with
  | error thrown => cases h
  | ok b =>
    obtain rfl := Option.some.inj h
    rfl

/-- A computation whose result meets a test ended well. -/
theorem ok_of_any {x : Except ε α} {p : α → Bool} (h : x.toOption.any p = true) :
    ∃ a, x = .ok a ∧ p a = true := by
  cases x with
  | error thrown => cases h
  | ok a => exact ⟨a, rfl, h⟩

/-- What is done for each element of a list ended well for each. -/
theorem forM_ok {f : α → Except ε Unit} {l : List α} (h : l.forM f = .ok ()) :
    ∀ a ∈ l, f a = .ok () := by
  induction l with
  | nil =>
    intro a ha
    cases ha
  | cons first rest ih =>
    obtain ⟨_, hfirst, hrest⟩ := sequence_ok h
    intro a ha
    rcases List.mem_cons.mp ha with rfl | hmem
    · exact hfirst
    · exact ih hrest a hmem

theorem forM_ok_of {f : α → Except ε Unit} {l : List α} (h : ∀ a ∈ l, f a = .ok ()) :
    l.forM f = .ok () := by
  induction l with
  | nil => rfl
  | cons first rest ih =>
    have hcons : (first :: rest).forM f = f first >>= fun _ => rest.forM f := rfl
    rw [hcons, h first List.mem_cons_self]
    exact ih fun a ha => h a (List.mem_cons_of_mem _ ha)

theorem mapM_ok {f : α → Except ε β} {g : α → β} {l : List α}
    (h : ∀ a ∈ l, f a = .ok (g a)) : l.mapM f = .ok (l.map g) := by
  induction l with
  | nil => rfl
  | cons first rest ih =>
    have hrest := ih fun a ha => h a (List.mem_cons_of_mem _ ha)
    rw [List.mapM_cons, h first List.mem_cons_self, hrest]
    rfl

theorem mapM_congr {f g : α → Except ε β} {l : List α} (h : ∀ a ∈ l, f a = g a) :
    l.mapM f = l.mapM g := by
  induction l with
  | nil => rfl
  | cons first rest ih =>
    rw [List.mapM_cons, List.mapM_cons, h first List.mem_cons_self,
      ih fun a ha => h a (List.mem_cons_of_mem _ ha)]

/-- The same over elements that were made of others. -/
theorem mapM_map_ok {γ : Type} {f : α → Except ε β} {made : γ → α} {g : γ → β} {l : List γ}
    (h : ∀ c ∈ l, f (made c) = .ok (g c)) : (l.map made).mapM f = .ok (l.map g) := by
  induction l with
  | nil => rfl
  | cons first rest ih =>
    have hrest := ih fun c hc => h c (List.mem_cons_of_mem _ hc)
    rw [List.map_cons, List.mapM_cons, h first List.mem_cons_self, hrest]
    rfl

/-- A list that was made element by element was made of each of them. -/
theorem forall₂_of_mapM_ok {f : α → Except ε β} {l : List α} {made : List β}
    (h : l.mapM f = .ok made) : List.Forall₂ (fun a b => f a = .ok b) l made := by
  induction l generalizing made with
  | nil =>
    cases h
    exact List.Forall₂.nil
  | cons first rest ih =>
    rw [List.mapM_cons] at h
    obtain ⟨b, hfirst, h⟩ := sequence_ok h
    obtain ⟨others, hrest, h⟩ := sequence_ok h
    cases h
    exact List.Forall₂.cons hfirst (ih hrest)

/-- A list is made exactly when something is made of each of its elements. -/
theorem exists_mapM_iff {f : α → Except ε β} {l : List α} :
    (∃ made, l.mapM f = .ok made) ↔ ∀ a ∈ l, ∃ b, f a = .ok b := by
  constructor
  · rintro ⟨made, hmade⟩
    have hall := forall₂_of_mapM_ok hmade
    clear hmade
    induction hall with
    | nil =>
      intro a ha
      cases ha
    | cons hfirst _ ih =>
      intro a ha
      rcases List.mem_cons.mp ha with rfl | hin
      · exact ⟨_, hfirst⟩
      · exact ih a hin
  · intro h
    induction l with
    | nil => exact ⟨[], rfl⟩
    | cons first rest ih =>
      obtain ⟨b, hfirst⟩ := h first List.mem_cons_self
      obtain ⟨others, hrest⟩ := ih fun a ha => h a (List.mem_cons_of_mem _ ha)
      refine ⟨b :: others, ?_⟩
      rw [List.mapM_cons, hfirst, hrest]
      rfl

theorem exists_of_mem_mapM {f : α → Except ε β} {l : List α} {made : List β}
    (h : l.mapM f = .ok made) {b : β} (hb : b ∈ made) : ∃ a ∈ l, f a = .ok b := by
  have hall := forall₂_of_mapM_ok h
  clear h
  induction hall with
  | nil => cases hb
  | cons hfirst _ ih =>
    rcases List.mem_cons.mp hb with rfl | hin
    · exact ⟨_, List.mem_cons_self, hfirst⟩
    · obtain ⟨a, ha, hfa⟩ := ih hin
      exact ⟨a, List.mem_cons_of_mem _ ha, hfa⟩

theorem mem_of_mapM_ok {f : α → Except ε β} {l : List α} {made : List β}
    (h : l.mapM f = .ok made) {a : α} (ha : a ∈ l) {b : β} (hb : f a = .ok b) : b ∈ made := by
  have hall := forall₂_of_mapM_ok h
  clear h
  induction hall with
  | nil => cases ha
  | cons hfirst _ ih =>
    rcases List.mem_cons.mp ha with rfl | hin
    · rw [Except.ok.inj (hb.symm.trans hfirst)]
      exact List.mem_cons_self
    · exact List.mem_cons_of_mem _ (ih hin)

end Regenic.Lib
