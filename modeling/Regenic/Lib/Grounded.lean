import Mathlib.Data.List.Basic
import Mathlib.Data.List.Induction
import Mathlib.Data.List.Nodup

/-!
Lists of named values each of which refers only to names before its own. The place of a name in
such a list falls along references, so nothing that follows them comes back to where it was.
-/

namespace Regenic.Lib

variable {κ β : Type} {links : β → List κ}

inductive Grounded (links : β → List κ) : List (κ × β) → Prop where
  | nil : Grounded links []
  | snoc {entries : List (κ × β)} {entry : κ × β} (h : Grounded links entries)
      (hlinks : ∀ k ∈ links entry.2, k ∈ entries.map Prod.fst) :
      Grounded links (entries ++ [entry])

/-- Entries that refer only to what is there are added at the end. -/
theorem Grounded.extend {entries more : List (κ × β)} (h : Grounded links entries)
    (hmore : ∀ entry ∈ more, ∀ k ∈ links entry.2, k ∈ entries.map Prod.fst) :
    Grounded links (entries ++ more) := by
  induction more using List.reverseRecOn with
  | nil =>
    rw [List.append_nil]
    exact h
  | append_singleton more entry ih =>
    rw [← List.append_assoc]
    refine .snoc (ih fun other hother => hmore other (List.mem_append_left _ hother)) ?_
    intro k hk
    rw [List.map_append]
    exact List.mem_append_left _
      (hmore entry (List.mem_append_right _ (List.mem_singleton_self _)) k hk)

theorem Grounded.append {entries more : List (κ × β)} (h : Grounded links entries)
    (hmore : Grounded links more) : Grounded links (entries ++ more) := by
  induction hmore with
  | nil =>
    rw [List.append_nil]
    exact h
  | snoc _ hlinks ih =>
    rw [← List.append_assoc]
    refine .snoc ih fun k hk => ?_
    rw [List.map_append]
    exact List.mem_append_right _ (hlinks k hk)

theorem Grounded.flatMap {γ : Type} {make : γ → List (κ × β)} {items : List γ}
    (h : ∀ item ∈ items, Grounded links (make item)) : Grounded links (items.flatMap make) := by
  induction items with
  | nil => exact .nil
  | cons item rest ih =>
    rw [List.flatMap_cons]
    exact (h item List.mem_cons_self).append
      (ih fun other hother => h other (List.mem_cons_of_mem _ hother))

/-- Values told another way refer to what they referred to. -/
theorem Grounded.map {γ : Type} {links' : γ → List κ} {tell : β → γ} {entries : List (κ × β)}
    (h : Grounded links entries)
    (hlinks : ∀ entry ∈ entries, links' (tell entry.2) = links entry.2) :
    Grounded links' (entries.map fun entry => (entry.1, tell entry.2)) := by
  induction h with
  | nil => exact .nil
  | @snoc entries entry _ hnames ih =>
    rw [List.map_append]
    refine .snoc (ih fun other hother => hlinks other (List.mem_append_left _ hother)) ?_
    intro k hk
    rw [hlinks entry (List.mem_append_right _ (List.mem_singleton_self _))] at hk
    rw [List.map_map]
    exact hnames k hk

variable [DecidableEq κ]

/-- The place of a name. -/
def rank (entries : List (κ × β)) (k : κ) : Nat := (entries.map Prod.fst).idxOf k

theorem rank_lt_length {entries : List (κ × β)} {k : κ} (h : k ∈ entries.map Prod.fst) :
    rank entries k < entries.length := by
  have hlt := List.idxOf_lt_length_of_mem h
  rwa [List.length_map] at hlt

/-- What an entry refers to stands before it. -/
theorem Grounded.rank_lt {entries : List (κ × β)} (h : Grounded links entries)
    (hnodup : (entries.map Prod.fst).Nodup) {k : κ} {value : β} (hentry : (k, value) ∈ entries)
    {link : κ} (hlink : link ∈ links value) :
    link ∈ entries.map Prod.fst ∧ rank entries link < rank entries k := by
  induction h with
  | nil => cases hentry
  | @snoc entries entry _ hlinks ih =>
    rw [List.map_append] at hnodup ⊢
    have hrank : ∀ name ∈ entries.map Prod.fst, rank (entries ++ [entry]) name =
        rank entries name := by
      intro name hname
      unfold rank
      rw [List.map_append, List.idxOf_append_of_mem hname]
    rcases List.mem_append.mp hentry with hold | hnew
    · obtain ⟨hmem, hlt⟩ := ih (List.nodup_append.mp hnodup).1 hold
      have hk : k ∈ entries.map Prod.fst := List.mem_map_of_mem hold
      rw [hrank link hmem, hrank k hk]
      exact ⟨List.mem_append_left _ hmem, hlt⟩
    · obtain rfl := List.mem_singleton.mp hnew
      have hmem := hlinks link hlink
      have hfresh : k ∉ entries.map Prod.fst := fun hk =>
        (List.nodup_append.mp hnodup).2.2 k hk k (List.mem_singleton_self _) rfl
      refine ⟨List.mem_append_left _ hmem, ?_⟩
      rw [hrank link hmem]
      have hlast : rank (entries ++ [(k, value)]) k = entries.length := by
        unfold rank
        rw [List.map_append, List.idxOf_append_of_notMem hfresh, List.length_map]
        simp
      rw [hlast]
      exact rank_lt_length hmem

end Regenic.Lib
