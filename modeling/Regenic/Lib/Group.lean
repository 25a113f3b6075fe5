import Mathlib.Data.List.Sort
import Regenic.Lib.Table

/-!
Lists taken apart by a key, as a `Map` from keys to lists does in the order of its insertions, and
put together again group by group. What is done group by group commutes with a filter on keys, and
so does a sort.
-/

namespace Regenic.Lib

universe u v w

variable {α : Type u} {κ : Type v} {β : Type w} [DecidableEq κ]

/-- The groups of a list, in the order of their first elements. -/
def groupBy (key : α → κ) (l : List α) : List (κ × List α) :=
  (keepFirst id (l.map key)).map fun k => (k, l.filter fun a => key a = k)

/-- What a function makes of each group. -/
def perGroup (key : α → κ) (f : List α → List β) (l : List α) : List β :=
  (groupBy key l).flatMap fun group => f group.2

theorem mem_groupBy {key : α → κ} {l : List α} {group : κ × List α} :
    group ∈ groupBy key l ↔
      group.1 ∈ l.map key ∧ group.2 = l.filter fun a => key a = group.1 := by
  obtain ⟨k, members⟩ := group
  simp only [groupBy, List.mem_map, mem_keepFirst_id, Prod.mk.injEq]
  constructor
  · rintro ⟨k', hk', rfl, rfl⟩
    exact ⟨hk', rfl⟩
  · rintro ⟨hk, hmembers⟩
    exact ⟨k, hk, rfl, hmembers.symm⟩

theorem keepFirst_id_filter (p : κ → Bool) (l : List κ) :
    keepFirst id (l.filter p) = (keepFirst id l).filter p := by
  induction l with
  | nil => rfl
  | cons k rest ih =>
    by_cases hp : p k = true
    · rw [List.filter_cons_of_pos hp, keepFirst, keepFirst, List.filter_cons_of_pos hp, ih]
      rw [List.filter_filter, List.filter_filter]
      simp only [Bool.and_comm]
    · rw [List.filter_cons_of_neg hp, keepFirst, List.filter_cons_of_neg hp, ih,
        List.filter_filter]
      -- What the filter keeps is not the key that it drops.
      apply List.filter_congr
      intro k' _
      by_cases hp' : p k' = true
      · have hne : k' ≠ k := fun h => hp (h ▸ hp')
        simp [hp', hne]
      · simp [Bool.eq_false_iff.mpr hp']

theorem groupBy_filter (key : α → κ) (p : κ → Bool) (l : List α) :
    groupBy key (l.filter fun a => p (key a)) =
      (groupBy key l).filter fun group => p group.1 := by
  have hkeys : (l.filter fun a => p (key a)).map key = (l.map key).filter p := by
    rw [List.filter_map]
    rfl
  unfold groupBy
  rw [hkeys, keepFirst_id_filter, List.filter_map]
  apply List.map_congr_left
  intro k hk
  have hp : p k = true := (List.mem_filter.mp hk).2
  rw [List.filter_filter]
  congr 1
  apply List.filter_congr
  intro a _
  by_cases ha : key a = k
  · simp [ha, hp]
  · simp [ha]

/-- Where a group keeps its key, a filter on keys may come before or after. -/
theorem perGroup_filter {key : α → κ} {key' : β → κ} {f : List α → List β}
    (hkey : ∀ members k b, (∀ a ∈ members, key a = k) → b ∈ f members → key' b = k)
    (p : κ → Bool) (l : List α) :
    perGroup key f (l.filter fun a => p (key a)) =
      (perGroup key f l).filter fun b => p (key' b) := by
  unfold perGroup
  rw [groupBy_filter]
  have hgroups : ∀ group ∈ groupBy key l, ∀ b ∈ f group.2, key' b = group.1 := by
    intro group hgroup b hb
    have hmembers := (mem_groupBy.mp hgroup).2
    refine hkey group.2 group.1 b (fun a ha => ?_) hb
    rw [hmembers] at ha
    exact of_decide_eq_true (List.mem_filter.mp ha).2
  generalize groupBy key l = groups at hgroups ⊢
  induction groups with
  | nil => rfl
  | cons group rest ih =>
    have hrest := ih fun g hg => hgroups g (List.mem_cons_of_mem _ hg)
    have hfirst := hgroups group List.mem_cons_self
    rw [List.flatMap_cons, List.filter_append, ← hrest]
    by_cases hp : p group.1 = true
    · have hkept : (f group.2).filter (fun b => p (key' b)) = f group.2 :=
        List.filter_eq_self.mpr fun b hb => (hfirst b hb).symm ▸ hp
      rw [hkept, List.filter_cons, if_pos hp, List.flatMap_cons]
    · have hnone : (f group.2).filter (fun b => p (key' b)) = [] :=
        List.filter_eq_nil_iff.mpr fun b hb => (hfirst b hb).symm ▸ hp
      rw [hnone, List.nil_append, List.filter_cons, if_neg hp]

theorem perGroup_congr {key : α → κ} {f g : List α → List β} {l : List α}
    (h : ∀ group ∈ groupBy key l, f group.2 = g group.2) : perGroup key f l = perGroup key g l :=
  List.flatMap_congr h

/-- What is made of the group of one key. -/
theorem perGroup_of_key {key : α → κ} {key' : β → κ} {f : List α → List β}
    (hkey : ∀ members k b, (∀ a ∈ members, key a = k) → b ∈ f members → key' b = k)
    (hnil : f [] = []) (k : κ) (l : List α) :
    ((perGroup key f l).filter fun b => key' b = k) = f (l.filter fun a => key a = k) := by
  rw [← perGroup_filter hkey (fun k' => decide (k' = k))]
  have hmembers : ∀ a ∈ l.filter fun a => key a = k, key a = k := fun a ha =>
    of_decide_eq_true (List.mem_filter.mp ha).2
  generalize (l.filter fun a => key a = k) = members at hmembers ⊢
  cases members with
  | nil => exact hnil.symm
  | cons first rest =>
    -- All keys are one key, so there is one group, the whole list.
    have hfirst := hmembers first List.mem_cons_self
    have hall : ((first :: rest).filter fun a => key a = k) = first :: rest :=
      List.filter_eq_self.mpr fun a ha => decide_eq_true (hmembers a ha)
    have hothers : (keepFirst id (rest.map key)).filter (fun k' => decide (id k' ≠ id (key first)))
        = [] := by
      apply List.filter_eq_nil_iff.mpr
      intro k' hk'
      obtain ⟨a, ha, rfl⟩ := List.mem_map.mp (mem_keepFirst_id.mp hk')
      simp [hmembers a (List.mem_cons_of_mem _ ha), hfirst]
    unfold perGroup groupBy
    rw [List.map_cons, keepFirst, hothers, hfirst, List.map_singleton, hall, List.flatMap_singleton]

theorem filter_perGroup {key : α → κ} {f : List α → List β} (p : β → Bool) (l : List α) :
    (perGroup key f l).filter p = perGroup key (fun members => (f members).filter p) l :=
  List.filter_flatMap

theorem map_perGroup {γ : Type w} {key : α → κ} {f : List α → List β} (g : β → γ) (l : List α) :
    (perGroup key f l).map g = perGroup key (fun members => (f members).map g) l :=
  List.map_flatMap

/-- The other keys find what they look for outside the group of a key. -/
theorem flatMap_keys_others {key : α → κ} {k : κ} {rest : List κ} (hk : k ∉ rest) {l : List α} :
    (rest.flatMap fun k' => l.filter fun a => key a = k') =
      rest.flatMap fun k' => (l.filter fun a => !decide (key a = k)).filter
        fun a => key a = k' := by
  apply List.flatMap_congr
  intro k' hk'
  rw [List.filter_filter]
  apply List.filter_congr
  intro a _
  by_cases ha : key a = k'
  · have hne : key a ≠ k := fun hsame => hk (hsame ▸ ha ▸ hk')
    simp [ha, ha ▸ hne]
  · simp [ha]

/-- The groups of keys that a list's keys are among, put together. -/
theorem flatMap_keys_perm {key : α → κ} {keys : List κ} (hnodup : keys.Nodup) {l : List α}
    (hkeys : ∀ a ∈ l, key a ∈ keys) :
    (keys.flatMap fun k => l.filter fun a => key a = k).Perm l := by
  induction keys generalizing l with
  | nil =>
    have hnil : l = [] := List.eq_nil_iff_forall_not_mem.mpr fun a ha =>
      List.not_mem_nil (hkeys a ha)
    rw [hnil]
    exact List.Perm.refl []
  | cons k rest ih =>
    rw [List.nodup_cons] at hnodup
    obtain ⟨hk, hrest⟩ := hnodup
    have hperm : (rest.flatMap fun k' => (l.filter fun a => !decide (key a = k)).filter
        fun a => key a = k').Perm (l.filter fun a => !decide (key a = k)) := by
      apply ih hrest
      intro a ha
      obtain ⟨hmem, hne⟩ := List.mem_filter.mp ha
      rcases List.mem_cons.mp (hkeys a hmem) with hsame | hin
      · simp [hsame] at hne
      · exact hin
    rw [List.flatMap_cons, flatMap_keys_others hk]
    exact (hperm.append_left _).trans (List.filter_append_perm _ l)

/-- The elements that meet `p` come before the others. -/
theorem filter_append_filter_of_pairwise {p : α → Bool} {l : List α}
    (h : l.Pairwise fun a b => p b → p a) : l.filter p ++ l.filter (fun a => !p a) = l := by
  induction l with
  | nil => rfl
  | cons a rest ih =>
    obtain ⟨hfirst, hrest⟩ := List.pairwise_cons.mp h
    cases ha : p a with
    | true => simp [ha, ih hrest]
    | false =>
      have hnone : rest.filter p = [] := by
        apply List.filter_eq_nil_iff.mpr
        intro b hb hpb
        exact absurd (hfirst b hb hpb) (by simp [ha])
      have hall := ih hrest
      rw [hnone, List.nil_append] at hall
      simp [List.filter_cons, ha, hnone, hall]

/-- The groups of a list that goes by its keys, put together, are the list itself. -/
theorem flatMap_keys_of_pairwise {key : α → κ} {keys : List κ} (hnodup : keys.Nodup) {l : List α}
    (hkeys : ∀ a ∈ l, key a ∈ keys)
    (hsorted : l.Pairwise fun a b => keys.idxOf (key a) ≤ keys.idxOf (key b)) :
    (keys.flatMap fun k => l.filter fun a => key a = k) = l := by
  induction keys generalizing l with
  | nil =>
    have hnil : l = [] := List.eq_nil_iff_forall_not_mem.mpr fun a ha =>
      List.not_mem_nil (hkeys a ha)
    rw [hnil]
    rfl
  | cons k rest ih =>
    obtain ⟨hk, hrest⟩ := List.nodup_cons.mp hnodup
    have hfirst : l.Pairwise fun a b => decide (key b = k) → decide (key a = k) := by
      apply hsorted.imp
      intro a b hle hb
      rw [of_decide_eq_true hb, List.idxOf_cons_self] at hle
      by_contra hne
      have hne' : k ≠ key a := fun heq => hne (by simp [heq])
      rw [List.idxOf_cons_ne _ hne'] at hle
      omega
    have hothers : (rest.flatMap fun k' => (l.filter fun a => !decide (key a = k)).filter
        fun a => key a = k') = l.filter fun a => !decide (key a = k) := by
      apply ih hrest
      · intro a ha
        obtain ⟨hmem, hout⟩ := List.mem_filter.mp ha
        have hne : key a ≠ k := by simpa using hout
        exact (List.mem_cons.mp (hkeys a hmem)).resolve_left hne
      · have hin : ∀ a ∈ l.filter fun a => !decide (key a = k), k ≠ key a := by
          intro a ha heq
          have hout := (List.mem_filter.mp ha).2
          simp [heq] at hout
        apply List.Pairwise.imp_of_mem _ (hsorted.filter _)
        intro a b ha hb hle
        rw [List.idxOf_cons_ne _ (hin a ha), List.idxOf_cons_ne _ (hin b hb)] at hle
        omega
    rw [List.flatMap_cons, flatMap_keys_others hk, hothers]
    exact filter_append_filter_of_pairwise hfirst

theorem perGroup_id_perm {key : α → κ} (l : List α) :
    (perGroup key (fun members => members) l).Perm l := by
  unfold perGroup groupBy
  rw [List.flatMap_map]
  apply flatMap_keys_perm (nodup_keepFirst_id _)
  intro a ha
  exact mem_keepFirst_id.mpr (List.mem_map_of_mem ha)

/-- Among elements with keys of their own, one is the only one of its key. -/
theorem filter_key_of_nodup {key : α → κ} {l : List α} (h : (l.map key).Nodup) {a : α}
    (ha : a ∈ l) : (l.filter fun b => key b = key a) = [a] := by
  induction l with
  | nil => cases ha
  | cons b rest ih =>
    rw [List.map_cons, List.nodup_cons] at h
    obtain ⟨hfirst, hrest⟩ := h
    rcases List.mem_cons.mp ha with rfl | hmem
    · have hnone : (rest.filter fun b => key b = key a) = [] := by
        apply List.filter_eq_nil_iff.mpr
        intro c hc hsame
        exact hfirst (of_decide_eq_true hsame ▸ List.mem_map_of_mem hc)
      rw [List.filter_cons, if_pos (decide_eq_true rfl), hnone]
    · have hne : ¬key b = key a := fun hsame => hfirst (hsame ▸ List.mem_map_of_mem hmem)
      rw [List.filter_cons, if_neg (by simpa using hne), ih hrest hmem]

/-! ## Sorting -/

section Sorting

variable (r : α → α → Prop) [DecidableRel r] [IsTrans α r]

theorem filter_orderedInsert (p : α → Bool) (a : α) (l : List α) (h : l.Pairwise r) :
    (l.orderedInsert r a).filter p =
      if p a = true then (l.filter p).orderedInsert r a else l.filter p := by
  induction l with
  | nil => by_cases hp : p a = true <;> simp [hp]
  | cons b rest ih =>
    have hrest := ih h.of_cons
    rw [List.orderedInsert_cons]
    by_cases hab : r a b
    · rw [if_pos hab]
      by_cases hp : p a = true
      · rw [List.filter_cons_of_pos hp, if_pos hp]
        -- Everything that is left of the list comes after what is inserted.
        have hall : ∀ c ∈ (b :: rest).filter p, r a c := by
          intro c hc
          rcases List.mem_cons.mp (List.mem_filter.mp hc).1 with rfl | hmem
          · exact hab
          · exact IsTrans.trans a b c hab (List.rel_of_pairwise_cons h hmem)
        cases hfiltered : (b :: rest).filter p with
        | nil => rfl
        | cons c others =>
          rw [List.orderedInsert_cons, if_pos (hall c (hfiltered ▸ List.mem_cons_self))]
      · rw [List.filter_cons_of_neg hp, if_neg hp]
    · rw [if_neg hab]
      by_cases hpb : p b = true
      · rw [List.filter_cons_of_pos hpb, List.filter_cons_of_pos hpb, hrest]
        by_cases hp : p a = true
        · rw [if_pos hp, if_pos hp, List.orderedInsert_cons, if_neg hab]
        · rw [if_neg hp, if_neg hp]
      · rw [List.filter_cons_of_neg hpb, List.filter_cons_of_neg hpb, hrest]

/-- Filtering a sorted list is sorting the filtered one. -/
theorem filter_insertionSort [Std.Total r] (p : α → Bool) (l : List α) :
    (l.insertionSort r).filter p = (l.filter p).insertionSort r := by
  induction l with
  | nil => rfl
  | cons a rest ih =>
    rw [List.insertionSort_cons, filter_orderedInsert r p a _ (List.pairwise_insertionSort r rest),
      ih]
    by_cases hp : p a = true
    · rw [if_pos hp, List.filter_cons_of_pos hp, List.insertionSort_cons]
    · rw [if_neg hp, List.filter_cons_of_neg hp]

end Sorting

end Regenic.Lib
