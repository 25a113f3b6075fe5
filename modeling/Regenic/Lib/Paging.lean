import Mathlib.Algebra.GroupWithZero.Nat
import Mathlib.Data.List.Basic
import Mathlib.Data.List.Sort

/-!
Reading a list page by page: how many elements a page takes is asked for anew each time, and
reading ends with the page that comes to the end of the list.
-/

namespace Regenic.Lib

universe u

variable {α : Type u}

/-- The pages of a list, each with what is left after it, for as long as something is left. -/
def readPages : List Nat → List α → List (List α × List α)
  | [], _ => []
  | size :: sizes, l =>
    (l.take size, l.drop size) :: if l.drop size = [] then [] else readPages sizes (l.drop size)

/-- Pages put together are the list as far as it was asked for: nothing is left out and nothing
comes twice. -/
theorem flatten_readPages (sizes : List Nat) (l : List α) :
    ((readPages sizes l).map Prod.fst).flatten = l.take sizes.sum := by
  induction sizes generalizing l with
  | nil => simp [readPages]
  | cons size sizes ih =>
    rw [readPages, List.map_cons, List.flatten_cons, List.sum_cons, List.take_add]
    split
    · next hend => simp [hend]
    · rw [ih]

/-- Reading came to the end of the list exactly when it was asked for the whole of it. -/
theorem readPages_end {sizes : List Nat} {l : List α} {last : List α × List α}
    (h : (readPages sizes l).getLast? = some last) : last.2 = [] ↔ l.length ≤ sizes.sum := by
  induction sizes generalizing l with
  | nil => cases h
  | cons size sizes ih =>
    rw [readPages] at h
    rw [List.sum_cons]
    split at h
    · next hend =>
      obtain rfl := Option.some.inj h
      have hlength := List.drop_eq_nil_iff.mp hend
      exact ⟨fun _ => by omega, fun _ => hend⟩
    · next hmore =>
      cases sizes with
      | nil =>
        simp only [readPages, List.getLast?_singleton, Option.some.injEq] at h
        subst h
        simp only [List.drop_eq_nil_iff, List.sum_nil, Nat.add_zero]
      | cons next sizes =>
        have hne : readPages (next :: sizes) (l.drop size) ≠ [] := by simp [readPages]
        have hlast : (readPages (next :: sizes) (l.drop size)).getLast? = some last := by
          obtain ⟨second, others, hpages⟩ := List.exists_cons_of_ne_nil hne
          rw [hpages, List.getLast?_cons_cons] at h
          rw [hpages, h]
        rw [ih hlast, List.length_drop]
        omega

/-- Where an element of an ascending list stands is how many elements are below it. -/
theorem mem_take_iff_of_ascending {l : List Nat} (h : l.Pairwise (· < ·)) {p : Nat} (hp : p ∈ l)
    (size : Nat) : p ∈ l.take size ↔ (l.filter fun i => i < p).length < size := by
  induction l generalizing size with
  | nil => cases hp
  | cons first rest ih =>
    obtain ⟨hfirst, hrest⟩ := List.pairwise_cons.mp h
    cases size with
    | zero => simp
    | succ size =>
      rw [List.take_succ_cons, List.mem_cons]
      rcases List.mem_cons.mp hp with rfl | hin
      · have hnone : rest.filter (fun i => decide (i < p)) = [] := by
          apply List.filter_eq_nil_iff.mpr
          intro i hi
          have habove := hfirst i hi
          simp only [decide_eq_true_eq]
          omega
        simp [hnone]
      · have hbelow := hfirst p hin
        have hne : p ≠ first := by omega
        rw [List.filter_cons_of_pos (by simpa using hbelow), List.length_cons,
          Nat.add_lt_add_iff_right, ← ih hrest hin]
        simp [hne]

end Regenic.Lib
