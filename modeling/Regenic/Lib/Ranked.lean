import Mathlib.Data.List.Induction
import Mathlib.Data.List.Nodup
import Mathlib.Data.List.Sort

/-!
Places in a stable sort. An element comes after those that rank strictly before it, and after those
of its own rank that stood before it already. The best of a list are also found when the list is
read once and what is kept is cut down to the best whenever it has grown to twice as many. The
greatest of a list, where one is read after the other, is the first among its greatest.
-/

namespace Regenic.Lib

universe u v w

section Places

variable {α : Type u} (r : α → α → Prop) [DecidableRel r] [DecidableEq α]

/-- How many elements of a list a stable sort by `r` places before `a`. -/
def placesBefore (a : α) : List α → Nat
  | [] => 0
  | b :: rest =>
    if b = a then rest.countP fun c => ¬r a c
    else placesBefore a rest + if r b a then 1 else 0

section Sorted

variable {r}

theorem idxOf_orderedInsert_of_ne (htrans : ∀ a b c, r a b → r b c → r a c) {a b : α}
    (hne : b ≠ a) {sorted : List α} (hsorted : sorted.Pairwise r) (ha : a ∈ sorted) :
    (sorted.orderedInsert r b).idxOf a = sorted.idxOf a + if r b a then 1 else 0 := by
  induction sorted with
  | nil => cases ha
  | cons c rest ih =>
    rw [List.pairwise_cons] at hsorted
    rw [List.orderedInsert_cons]
    by_cases hbc : r b c
    · have hba : r b a := by
        rcases List.mem_cons.mp ha with rfl | hrest
        · exact hbc
        · exact htrans b c a hbc (hsorted.1 a hrest)
      rw [if_pos hbc, if_pos hba, List.idxOf_cons_ne _ hne]
    · rw [if_neg hbc]
      by_cases hca : c = a
      · subst hca
        rw [List.idxOf_cons_self, List.idxOf_cons_self, if_neg hbc]
      · have hrest : a ∈ rest := (List.mem_cons.mp ha).resolve_left (Ne.symm hca)
        rw [List.idxOf_cons_ne _ hca, List.idxOf_cons_ne _ hca, ih hsorted.2 hrest]
        omega

theorem idxOf_orderedInsert_self (htrans : ∀ a b c, r a b → r b c → r a c) {a : α}
    {sorted : List α} (hsorted : sorted.Pairwise r) (ha : a ∉ sorted) :
    (sorted.orderedInsert r a).idxOf a = sorted.countP fun c => ¬r a c := by
  induction sorted with
  | nil => simp
  | cons c rest ih =>
    rw [List.pairwise_cons] at hsorted
    rw [List.mem_cons, not_or] at ha
    rw [List.orderedInsert_cons]
    by_cases hac : r a c
    · have hnone : (c :: rest).countP (fun c => ¬r a c) = 0 := by
        rw [List.countP_eq_zero]
        intro d hd
        rcases List.mem_cons.mp hd with rfl | hrest
        · simpa using hac
        · simpa using htrans a c d hac (hsorted.1 d hrest)
      rw [if_pos hac, List.idxOf_cons_self, hnone]
    · rw [if_neg hac, List.idxOf_cons_ne _ (Ne.symm ha.1), ih hsorted.2 ha.2,
        List.countP_cons_of_pos (by simpa using hac)]

/-- The place of an element in a stable sort. -/
theorem idxOf_insertionSort (htrans : ∀ a b c, r a b → r b c → r a c)
    (htotal : ∀ a b, r a b ∨ r b a) {a : α} {l : List α} (hnodup : l.Nodup) (ha : a ∈ l) :
    (l.insertionSort r).idxOf a = placesBefore r a l := by
  have : IsTrans α r := ⟨htrans⟩
  have : Std.Total r := ⟨htotal⟩
  induction l with
  | nil => cases ha
  | cons b rest ih =>
    rw [List.nodup_cons] at hnodup
    rw [List.insertionSort_cons]
    have hsorted : (rest.insertionSort r).Pairwise r := List.pairwise_insertionSort r rest
    unfold placesBefore
    by_cases hba : b = a
    · subst hba
      rw [if_pos rfl, idxOf_orderedInsert_self htrans hsorted
        (fun hin => hnodup.1 ((List.mem_insertionSort r).mp hin))]
      exact (List.perm_insertionSort r rest).countP_eq _
    · have hrest : a ∈ rest := (List.mem_cons.mp ha).resolve_left (Ne.symm hba)
      rw [if_neg hba, idxOf_orderedInsert_of_ne htrans hba hsorted
        ((List.mem_insertionSort r).mpr hrest), ih hnodup.2 hrest]

/-- Among the first of a stable sort. -/
theorem mem_take_insertionSort (htrans : ∀ a b c, r a b → r b c → r a c)
    (htotal : ∀ a b, r a b ∨ r b a) {a : α} {l : List α} (hnodup : l.Nodup) (ha : a ∈ l) (n : Nat) :
    a ∈ (l.insertionSort r).take n ↔ placesBefore r a l < n := by
  rw [List.mem_take_iff_idxOf_lt ((List.mem_insertionSort r).mpr ha),
    idxOf_insertionSort htrans htotal hnodup ha]

/-- Whatever ranks strictly before an element is placed before it. -/
theorem countP_le_placesBefore (htotal : ∀ a b, r a b ∨ r b a) (a : α) (l : List α) :
    (l.countP fun b => ¬r a b) ≤ placesBefore r a l := by
  induction l with
  | nil => exact Nat.le_refl _
  | cons b rest ih =>
    unfold placesBefore
    split
    · next hba =>
      subst hba
      have hself : r b b := (htotal b b).elim id id
      rw [List.countP_cons_of_neg (by simpa using hself)]
    · by_cases hab : r a b
      · rw [List.countP_cons_of_neg (by simpa using hab)]
        omega
      · rw [List.countP_cons_of_pos (by simpa using hab), if_pos ((htotal a b).resolve_left hab)]
        omega

end Sorted

end Places

section Best

variable {α : Type u} (r : α → α → Prop) [DecidableRel r]

/-- Read one more element, and cut down to the best `count` when there are twice as many. -/
def keepBest (count : Nat) (kept : List α) (a : α) : List α :=
  if 2 * count ≤ (kept ++ [a]).length then ((kept ++ [a]).insertionSort r).take count
  else kept ++ [a]

theorem mem_of_mem_keepBest {count : Nat} {kept : List α} {a b : α}
    (h : b ∈ keepBest r count kept a) : b ∈ kept ∨ b = a := by
  have hmem : b ∈ kept ++ [a] := by
    unfold keepBest at h
    split at h
    · exact (List.mem_insertionSort r).mp (List.mem_of_mem_take h)
    · exact h
  simpa using hmem

theorem mem_of_mem_foldl_keepBest {count : Nat} {l kept : List α} {b : α}
    (h : b ∈ l.foldl (keepBest r count) kept) : b ∈ kept ∨ b ∈ l := by
  induction l generalizing kept with
  | nil => exact Or.inl h
  | cons a rest ih =>
    rcases ih h with hkept | hrest
    · rcases mem_of_mem_keepBest r hkept with hold | rfl
      · exact Or.inl hold
      · exact Or.inr List.mem_cons_self
    · exact Or.inr (List.mem_cons_of_mem _ hrest)

/-- Of what is inserted into, only the first `count` matter for the first `count`. -/
theorem take_orderedInsert (count : Nat) (a : α) (l : List α) :
    (l.orderedInsert r a).take count = ((l.take count).orderedInsert r a).take count := by
  induction l generalizing count with
  | nil => simp
  | cons b rest ih =>
    cases count with
    | zero => simp
    | succ count =>
      by_cases hab : r a b
      · have hcut : (b :: rest.take count).take count = (b :: rest).take count := by
          rw [← List.take_succ_cons, List.take_take, Nat.min_eq_left (Nat.le_succ count)]
        simp [List.orderedInsert_cons, hab, hcut]
      · simp [List.orderedInsert_cons, hab, ih count]

variable {r}

/-- Lists of the same elements are sorted the same way, where no two of them rank alike. -/
theorem insertionSort_congr (htrans : ∀ a b c, r a b → r b c → r a c)
    (htotal : ∀ a b, r a b ∨ r b a) {l l' : List α} (hperm : l.Perm l')
    (hanti : ∀ a ∈ l, ∀ b ∈ l, r a b → r b a → a = b) :
    l.insertionSort r = l'.insertionSort r := by
  have : IsTrans α r := ⟨htrans⟩
  have : Std.Total r := ⟨htotal⟩
  have hperm' : (l.insertionSort r).Perm (l'.insertionSort r) :=
    ((List.perm_insertionSort r l).trans hperm).trans (List.perm_insertionSort r l').symm
  refine hperm'.eq_of_pairwise (fun a b ha hb hab hba => ?_)
    (List.pairwise_insertionSort r l) (List.pairwise_insertionSort r l')
  exact hanti a ((List.mem_insertionSort r).mp ha) b
    (hperm.mem_iff.mpr ((List.mem_insertionSort r).mp hb)) hab hba

theorem take_insertionSort_keepBest (htrans : ∀ a b c, r a b → r b c → r a c)
    (htotal : ∀ a b, r a b ∨ r b a) (count : Nat) (kept : List α) (a : α) :
    ((keepBest r count kept a).insertionSort r).take count =
      ((kept ++ [a]).insertionSort r).take count := by
  have : IsTrans α r := ⟨htrans⟩
  have : Std.Total r := ⟨htotal⟩
  unfold keepBest
  split
  · have hsorted : (((kept ++ [a]).insertionSort r).take count).Pairwise r :=
      (List.pairwise_insertionSort r (kept ++ [a])).sublist (List.take_sublist _ _)
    rw [hsorted.insertionSort_eq, List.take_take, Nat.min_self]
  · rfl

/-- The best `count` of a list, kept while it is read. -/
theorem take_foldl_keepBest (htrans : ∀ a b c, r a b → r b c → r a c)
    (htotal : ∀ a b, r a b ∨ r b a) (count : Nat) {l : List α}
    (hanti : ∀ a ∈ l, ∀ b ∈ l, r a b → r b a → a = b) :
    ((l.foldl (keepBest r count) []).insertionSort r).take count =
      (l.insertionSort r).take count := by
  induction l using List.reverseRecOn with
  | nil => rfl
  | append_singleton l a ih =>
    let kept := l.foldl (keepBest r count) []
    have hkept : ∀ b ∈ kept, b ∈ l := fun b hb =>
      (mem_of_mem_foldl_keepBest r hb).resolve_left (by simp)
    have hanti' : ∀ b ∈ kept ++ [a], ∀ c ∈ kept ++ [a], r b c → r c b → b = c := by
      intro b hb c hc
      refine hanti b ?_ c ?_
      · exact List.mem_append.mpr ((List.mem_append.mp hb).imp (hkept b) id)
      · exact List.mem_append.mpr ((List.mem_append.mp hc).imp (hkept c) id)
    have hold := ih fun b hb c hc =>
      hanti b (List.mem_append_left _ hb) c (List.mem_append_left _ hc)
    rw [List.foldl_append, List.foldl_cons, List.foldl_nil,
      take_insertionSort_keepBest htrans htotal]
    calc ((kept ++ [a]).insertionSort r).take count
        = ((kept.insertionSort r).orderedInsert r a).take count := by
          rw [insertionSort_congr htrans htotal (List.perm_append_singleton a kept) hanti',
            List.insertionSort_cons]
      _ = (((l.insertionSort r).take count).orderedInsert r a).take count := by
          rw [take_orderedInsert, hold]
      _ = ((l ++ [a]).insertionSort r).take count := by
          rw [← take_orderedInsert, ← List.insertionSort_cons,
            insertionSort_congr htrans htotal (List.perm_append_singleton a l) hanti]

end Best

section Greatest

variable {α : Type u} {β : Type v} [LinearOrder β] (key : α → β)

/-- Read one more element, and take it when it is the first or greater than what was kept. -/
def keepGreatest (kept : Option α) (a : α) : Option α :=
  if kept.all fun b => key b < key a then some a else kept

def greatest (l : List α) : Option α := l.foldl (keepGreatest key) none

/-- The first among the greatest of the list. -/
def FirstGreatest (l : List α) (a : α) : Prop :=
  ∃ before after, l = before ++ a :: after ∧ (∀ b ∈ before, key b < key a) ∧
    ∀ b ∈ after, key b ≤ key a

@[simp] theorem greatest_nil : greatest key [] = none := rfl

theorem greatest_concat (l : List α) (a : α) :
    greatest key (l ++ [a]) = keepGreatest key (greatest key l) a := by
  unfold greatest
  rw [List.foldl_append]
  rfl

theorem keepGreatest_isSome (kept : Option α) (a : α) : (keepGreatest key kept a).isSome = true := by
  unfold keepGreatest
  cases kept with
  | none => rfl
  | some b => split <;> rfl

variable {key}

theorem FirstGreatest.mem {l : List α} {a : α} (h : FirstGreatest key l a) : a ∈ l := by
  obtain ⟨before, after, rfl, -, -⟩ := h
  simp

theorem FirstGreatest.le {l : List α} {a b : α} (h : FirstGreatest key l a) (hb : b ∈ l) :
    key b ≤ key a := by
  obtain ⟨before, after, rfl, hbefore, hafter⟩ := h
  rcases List.mem_append.mp hb with hb | hb
  · exact (hbefore b hb).le
  · rcases List.mem_cons.mp hb with rfl | hb
    · exact le_rfl
    · exact hafter b hb

theorem FirstGreatest.concat {l : List α} {a : α} (h : FirstGreatest key l a) {b : α}
    (hle : key b ≤ key a) : FirstGreatest key (l ++ [b]) a := by
  obtain ⟨before, after, rfl, hbefore, hafter⟩ := h
  refine ⟨before, after ++ [b], by simp, hbefore, fun c hc => ?_⟩
  rcases List.mem_append.mp hc with hc | hc
  · exact hafter c hc
  · obtain rfl := List.mem_singleton.mp hc
    exact hle

/-- What is kept while a list is read is the first among its greatest. -/
theorem firstGreatest_of_greatest {l : List α} {a : α} (h : greatest key l = some a) :
    FirstGreatest key l a := by
  induction l using List.reverseRecOn generalizing a with
  | nil => cases h
  | append_singleton l b ih =>
    rw [greatest_concat] at h
    unfold keepGreatest at h
    cases hkept : greatest key l with
    | none =>
      have hnil : l = [] := by
        cases l using List.reverseRecOn with
        | nil => rfl
        | append_singleton l c =>
          rw [greatest_concat] at hkept
          have := keepGreatest_isSome key (greatest key l) c
          simp [hkept] at this
      rw [hkept] at h
      cases h
      exact ⟨[], [], by simp [hnil], by simp, by simp⟩
    | some c =>
      have hfirst := ih hkept
      rw [hkept, Option.all_some] at h
      by_cases hlt : key c < key b
      · rw [if_pos (decide_eq_true hlt)] at h
        cases h
        exact ⟨l, [], rfl, fun d hd => (hfirst.le hd).trans_lt hlt, by simp⟩
      · rw [if_neg (by simpa using hlt)] at h
        cases h
        exact hfirst.concat (le_of_not_gt hlt)

theorem greatest_eq_none {l : List α} : greatest key l = none ↔ l = [] := by
  constructor
  · intro h
    cases l using List.reverseRecOn with
    | nil => rfl
    | append_singleton l a =>
      have := keepGreatest_isSome key (greatest key l) a
      rw [greatest_concat] at h
      simp [h] at this
  · rintro rfl
    rfl

theorem exists_greatest {l : List α} (h : l ≠ []) : ∃ a, greatest key l = some a :=
  Option.ne_none_iff_exists'.mp fun hnone => h (greatest_eq_none.mp hnone)

theorem FirstGreatest.of_map {γ : Type w} {f : γ → α} {l : List γ} {b : α}
    (h : FirstGreatest key (l.map f) b) :
    ∃ a, FirstGreatest (fun a => key (f a)) l a ∧ f a = b := by
  obtain ⟨before, after, hmap, hbefore, hafter⟩ := h
  obtain ⟨before', rest, rfl, rfl, hrest⟩ := List.map_eq_append_iff.mp hmap
  obtain ⟨a, after', rfl, rfl, rfl⟩ := List.map_eq_cons_iff.mp hrest
  exact ⟨a, ⟨before', after', rfl, fun b hb => hbefore (f b) (List.mem_map_of_mem hb),
    fun b hb => hafter (f b) (List.mem_map_of_mem hb)⟩, rfl⟩

/-- Where the elements of one kind are greater than all others, they are read alone. -/
theorem greatest_partition {p : α → Bool}
    (hp : ∀ a b, p a = true → p b = false → key b < key a) (l : List α) :
    greatest key l =
      (greatest key (l.filter p)).or (greatest key (l.filter fun a => !p a)) := by
  induction l using List.reverseRecOn with
  | nil => rfl
  | append_singleton l b ih =>
    rw [List.filter_append, List.filter_append, greatest_concat, ih]
    cases hb : p b with
    | true =>
      rw [List.filter_cons_of_pos hb, List.filter_cons_of_neg (by simp [hb]), List.filter_nil,
        List.filter_nil, List.append_nil, greatest_concat]
      cases hkind : greatest key (l.filter p) with
      | some c => simp [Option.or_of_isSome, keepGreatest_isSome]
      | none =>
        rw [Option.none_or]
        have hbest : keepGreatest key none b = some b := rfl
        rw [hbest, Option.some_or]
        unfold keepGreatest
        rw [if_pos]
        rw [Option.all_eq_true]
        intro c hc
        have hmem := (firstGreatest_of_greatest hc).mem
        have hother : p c = false := by simpa using (List.mem_filter.mp hmem).2
        exact decide_eq_true (hp b c hb hother)
    | false =>
      rw [List.filter_cons_of_neg (by simp [hb]), List.filter_cons_of_pos (by simp [hb]),
        List.filter_nil, List.filter_nil, List.append_nil, greatest_concat]
      cases hkind : greatest key (l.filter p) with
      | none => rw [Option.none_or, Option.none_or]
      | some c =>
        have hmem := (firstGreatest_of_greatest hkind).mem
        have hlt := hp c b (List.mem_filter.mp hmem).2 hb
        rw [Option.some_or, Option.some_or]
        unfold keepGreatest
        rw [if_neg]
        rw [Option.all_some]
        simpa using hlt.le

end Greatest

end Regenic.Lib
