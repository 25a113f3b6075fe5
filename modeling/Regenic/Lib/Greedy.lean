import Mathlib.Data.List.Induction
import Mathlib.Data.List.Nodup

/-!
Greedy selection: a list is gone through once, and an element is kept when it fits what was kept
before it.
-/

namespace Regenic.Lib

universe u

variable {α : Type u} (fits : List α → α → Prop) [∀ kept a, Decidable (fits kept a)]

/-- One element is added to what is kept, or to what is skipped. -/
def greedyStep (picked : List α × List α) (a : α) : List α × List α :=
  if fits picked.1 a then (picked.1 ++ [a], picked.2) else (picked.1, picked.2 ++ [a])

/-- What is kept and what is skipped of a list. -/
def greedy (l : List α) : List α × List α := l.foldl (greedyStep fits) ([], [])

@[simp] theorem greedy_nil : greedy fits [] = ([], []) := rfl

theorem greedy_concat (l : List α) (a : α) :
    greedy fits (l ++ [a]) = greedyStep fits (greedy fits l) a :=
  List.foldl_concat (greedyStep fits) _ a l

/-- Every element is kept or skipped, once. -/
theorem greedy_perm (l : List α) : ((greedy fits l).1 ++ (greedy fits l).2).Perm l := by
  induction l using List.reverseRecOn with
  | nil => exact List.Perm.nil
  | append_singleton l a ih =>
    rw [greedy_concat]
    unfold greedyStep
    split
    · have hmove : ((greedy fits l).1 ++ [a] ++ (greedy fits l).2).Perm
          ((greedy fits l).1 ++ (greedy fits l).2 ++ [a]) := by
        rw [List.append_assoc, List.append_assoc]
        exact List.perm_append_comm.append_left _
      exact hmove.trans (ih.append_right [a])
    · rw [← List.append_assoc]
      exact ih.append_right [a]

theorem greedy_sublist (l : List α) : (greedy fits l).1.Sublist l := by
  induction l using List.reverseRecOn with
  | nil => exact List.Sublist.slnil
  | append_singleton l a ih =>
    rw [greedy_concat]
    unfold greedyStep
    split
    · exact ih.append (List.Sublist.refl [a])
    · exact ih.trans (List.sublist_append_left l [a])

/-- What every element that fits keeps true of the kept ones is true of all of them. -/
theorem greedy_invariant {inv : List α → Prop} (hnil : inv [])
    (hkeep : ∀ kept a, inv kept → fits kept a → inv (kept ++ [a])) (l : List α) :
    inv (greedy fits l).1 := by
  induction l using List.reverseRecOn with
  | nil => exact hnil
  | append_singleton l a ih =>
    rw [greedy_concat]
    unfold greedyStep
    split
    · next hfits => exact hkeep _ a ih hfits
    · exact ih

/-- What is kept of a list begins with what is kept of its beginning. -/
theorem greedy_append (first second : List α) :
    ∃ more, more.Sublist second ∧
      (greedy fits (first ++ second)).1 = (greedy fits first).1 ++ more := by
  induction second using List.reverseRecOn with
  | nil => exact ⟨[], List.Sublist.slnil, by simp⟩
  | append_singleton second a ih =>
    obtain ⟨more, hmore, hkept⟩ := ih
    rw [← List.append_assoc, greedy_concat]
    unfold greedyStep
    split
    · refine ⟨more ++ [a], hmore.append (List.Sublist.refl [a]), ?_⟩
      simp [hkept]
    · exact ⟨more, hmore.trans (List.sublist_append_left second [a]), hkept⟩

variable [DecidableEq α]

theorem filter_kept_of_sublist {kept l : List α} (h : kept.Sublist l) (hnodup : l.Nodup) :
    l.filter (· ∈ kept) = kept := by
  induction h with
  | slnil => rfl
  | @cons kept l a h ih =>
    obtain ⟨ha, hl⟩ := List.nodup_cons.mp hnodup
    have hout : a ∉ kept := fun hin => ha (h.subset hin)
    rw [List.filter_cons_of_neg (by simpa using hout)]
    exact ih hl
  | @cons_cons kept l a h ih =>
    obtain ⟨ha, hl⟩ := List.nodup_cons.mp hnodup
    rw [List.filter_cons_of_pos (by simp)]
    congr 1
    rw [← ih hl]
    apply List.filter_congr
    intro b hb
    have hne : b ≠ a := fun heq => ha (heq ▸ hb)
    simp [hne, hb]

/-- Of the elements before a point, what is kept in the end was kept by then. -/
theorem greedy_filter {first second : List α} (hnodup : (first ++ second).Nodup) :
    first.filter (· ∈ (greedy fits (first ++ second)).1) = (greedy fits first).1 := by
  obtain ⟨more, hmore, hkept⟩ := greedy_append fits first second
  rw [hkept]
  have hfirst : first.Nodup := hnodup.of_append_left
  have hagree : first.filter (· ∈ (greedy fits first).1 ++ more) =
      first.filter (· ∈ (greedy fits first).1) := by
    apply List.filter_congr
    intro a ha
    have hout : a ∉ more := fun hin =>
      (List.nodup_append.mp hnodup).2.2 a ha a (hmore.subset hin) rfl
    simp [hout]
  rw [hagree]
  exact filter_kept_of_sublist (greedy_sublist fits first) hfirst

/-- An element is kept exactly when it fits what was kept of the elements before it. -/
theorem mem_greedy_iff {first second : List α} {a : α} (hnodup : (first ++ a :: second).Nodup) :
    a ∈ (greedy fits (first ++ a :: second)).1 ↔
      fits (first.filter (· ∈ (greedy fits (first ++ a :: second)).1)) a := by
  have hsplit : first ++ a :: second = (first ++ [a]) ++ second := by simp
  obtain ⟨more, hmore, hkept⟩ := greedy_append fits (first ++ [a]) second
  rw [greedy_filter fits hnodup, hsplit, hkept, greedy_concat]
  rw [hsplit] at hnodup
  have hlater : a ∉ more := fun hin =>
    (List.nodup_append.mp hnodup).2.2 a (by simp) a (hmore.subset hin) rfl
  have hearlier : a ∉ (greedy fits first).1 := by
    intro hin
    have hfirst := (List.nodup_append.mp hnodup).1
    exact (List.nodup_append.mp hfirst).2.2 a ((greedy_sublist fits first).subset hin) a
      List.mem_cons_self rfl
  unfold greedyStep
  split
  · next hfits => simp [hfits]
  · next hfits => simp [hfits, hlater, hearlier]

end Regenic.Lib
