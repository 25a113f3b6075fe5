import Mathlib.Data.List.Basic
import Mathlib.Data.List.Nodup
import Mathlib.Data.List.Count
import Mathlib.Data.List.Perm.Subperm

/-!
A table of rows under a primary key, in insertion order. The rows carry the
proof that no two of them share a key, so a lookup is the membership fact and
an update by key touches at most one row.
-/

namespace Regenic.Lib

universe u v

structure Table {α : Type u} {κ : Type v} (key : α → κ) where
  rows : List α
  nodup : (rows.map key).Nodup

namespace Table

variable {α : Type u} {κ : Type v} {key : α → κ}

@[ext] theorem ext {t t' : Table key} (h : t.rows = t'.rows) : t = t' := by
  cases t
  cases t'
  simp only at h
  subst h
  rfl

def empty : Table key := ⟨[], List.nodup_nil⟩

instance : EmptyCollection (Table key) := ⟨empty⟩

@[simp] theorem rows_empty : (∅ : Table key).rows = [] := rfl

/-- Rewrite the rows that meet `p`. The rewrite keeps the key. -/
def updateWhere (t : Table key) (p : α → Bool) (f : α → α)
    (hf : ∀ a, key (f a) = key a) : Table key where
  rows := t.rows.map fun a => if p a then f a else a
  nodup := by
    have hkeys : (t.rows.map fun a => if p a then f a else a).map key = t.rows.map key := by
      rw [List.map_map]
      refine List.map_congr_left fun a _ => ?_
      simp only [Function.comp_apply]
      split
      · exact hf a
      · rfl
    rw [hkeys]
    exact t.nodup

@[simp] theorem rows_updateWhere (t : Table key) (p : α → Bool) (f : α → α)
    (hf : ∀ a, key (f a) = key a) :
    (t.updateWhere p f hf).rows = t.rows.map fun a => if p a then f a else a := rfl

/-- Keep the rows that meet `p`. -/
def filter (t : Table key) (p : α → Bool) : Table key where
  rows := t.rows.filter p
  nodup := (List.filter_sublist.map key).nodup t.nodup

@[simp] theorem rows_filter (t : Table key) (p : α → Bool) :
    (t.filter p).rows = t.rows.filter p := rfl

/-- Rows that meet `q`, counted after a rewrite that no row can tell apart. -/
theorem countP_updateWhere_eq (t : Table key) (p : α → Bool) (f : α → α)
    (hf : ∀ a, key (f a) = key a) (q : α → Bool)
    (hq : ∀ a ∈ t.rows, p a = true → q (f a) = q a) :
    (t.updateWhere p f hf).rows.countP q = t.rows.countP q := by
  rw [rows_updateWhere, List.countP_map]
  refine List.countP_congr fun a ha => ?_
  simp only [Function.comp_apply]
  cases hp : p a with
  | true => simp [hq a ha hp]
  | false => simp

variable [DecidableEq κ]

def get? (t : Table key) (k : κ) : Option α :=
  t.rows.find? fun a => key a = k

/-- Append a row whose key is free, as an `INSERT` under a primary key. -/
def insert (t : Table key) (a : α) (h : t.get? (key a) = none) : Table key where
  rows := t.rows ++ [a]
  nodup := by
    rw [List.map_append, List.map_singleton]
    refine List.Nodup.append t.nodup (List.nodup_singleton _) ?_
    intro k hk hka
    simp only [List.mem_singleton] at hka
    obtain ⟨b, hb, hbk⟩ := List.mem_map.mp hk
    have hnone := List.find?_eq_none.mp h b hb
    simp only [decide_eq_true_eq] at hnone
    exact hnone (hbk.trans hka)

/-- Replace the row under the key of `a` in place, or append `a`, as `Map.set`. -/
def put (t : Table key) (a : α) : Table key where
  rows := if t.rows.any (fun b => key b = key a)
    then t.rows.map (fun b => if key b = key a then a else b) else t.rows ++ [a]
  nodup := by
    split
    · have hkeys : (t.rows.map fun b => if key b = key a then a else b).map key =
          t.rows.map key := by
        rw [List.map_map]
        refine List.map_congr_left fun b _ => ?_
        simp only [Function.comp_apply]
        split
        · next h => exact h.symm
        · rfl
      rw [hkeys]
      exact t.nodup
    · next h =>
      rw [List.map_append, List.map_singleton]
      refine List.Nodup.append t.nodup (List.nodup_singleton _) ?_
      intro k hk hka
      simp only [List.mem_singleton] at hka
      obtain ⟨b, hb, hbk⟩ := List.mem_map.mp hk
      exact h (List.any_eq_true.mpr ⟨b, hb, by simp [hbk, hka]⟩)

/-- Rewrite the row under one key. -/
def update (t : Table key) (k : κ) (f : α → α) (hf : ∀ a, key (f a) = key a) :
    Table key :=
  t.updateWhere (fun a => key a = k) f hf

theorem get?_eq_some {t : Table key} {k : κ} {a : α} :
    t.get? k = some a ↔ a ∈ t.rows ∧ key a = k := by
  constructor
  · intro h
    exact ⟨List.mem_of_find?_eq_some h, by simpa using List.find?_some h⟩
  · rintro ⟨hmem, hkey⟩
    cases hfind : t.get? k with
    | none =>
      have hnone := List.find?_eq_none.mp hfind a hmem
      simp [hkey] at hnone
    | some b =>
      have hb : b ∈ t.rows := List.mem_of_find?_eq_some hfind
      have hbk : key b = k := by simpa using List.find?_some hfind
      have heq : b = a :=
        List.inj_on_of_nodup_map t.nodup hb hmem (hbk.trans hkey.symm)
      rw [heq]

theorem get?_eq_none {t : Table key} {k : κ} :
    t.get? k = none ↔ ∀ a ∈ t.rows, key a ≠ k := by
  simp [get?, List.find?_eq_none]

theorem get?_key {t : Table key} {a : α} (h : a ∈ t.rows) : t.get? (key a) = some a :=
  get?_eq_some.mpr ⟨h, rfl⟩

theorem eq_of_key {t : Table key} {a b : α} (ha : a ∈ t.rows) (hb : b ∈ t.rows)
    (h : key a = key b) : a = b := by
  have hget := get?_key ha
  rw [h, get?_key hb] at hget
  exact (Option.some.inj hget).symm

@[simp] theorem get?_empty (k : κ) : (∅ : Table key).get? k = none := rfl

@[simp] theorem rows_insert (t : Table key) (a : α) (h : t.get? (key a) = none) :
    (t.insert a h).rows = t.rows ++ [a] := rfl

theorem get?_insert (t : Table key) (a : α) (h : t.get? (key a) = none) (k : κ) :
    (t.insert a h).get? k = if key a = k then some a else t.get? k := by
  by_cases hk : key a = k
  · rw [if_pos hk]
    exact get?_eq_some.mpr ⟨by simp, hk⟩
  · rw [if_neg hk]
    simp [get?, List.find?_append, hk]

theorem get?_updateWhere (t : Table key) (p : α → Bool) (f : α → α)
    (hf : ∀ a, key (f a) = key a) (k : κ) :
    (t.updateWhere p f hf).get? k =
      (t.get? k).map fun a => if p a then f a else a := by
  have hkey : ∀ a, key (if p a then f a else a) = key a := by
    intro a
    split
    · exact hf a
    · rfl
  simp only [get?, rows_updateWhere, List.find?_map, Function.comp_def, hkey]

theorem get?_update (t : Table key) (k : κ) (f : α → α)
    (hf : ∀ a, key (f a) = key a) (k' : κ) :
    (t.update k f hf).get? k' =
      if k' = k then (t.get? k').map f else t.get? k' := by
  rw [update, get?_updateWhere]
  cases hget : t.get? k' with
  | none => simp
  | some a =>
    have hak := (get?_eq_some.mp hget).2
    by_cases hk : k' = k
    · simp [hk, hak.trans hk]
    · simp [hk, hak]

theorem put_eq_insert {t : Table key} {a : α} (free : t.get? (key a) = none) :
    t.put a = t.insert a free := by
  have habsent : t.rows.any (fun b => key b = key a) = false := by
    refine List.any_eq_false.mpr fun b hb => ?_
    exact List.find?_eq_none.mp free b hb
  unfold put insert
  simp only [habsent, Bool.false_eq_true, if_false]

theorem get?_put (t : Table key) (a : α) (k : κ) :
    (t.put a).get? k = if key a = k then some a else t.get? k := by
  by_cases hk : key a = k
  · rw [if_pos hk]
    refine get?_eq_some.mpr ⟨?_, hk⟩
    simp only [put]
    split
    · next h =>
      obtain ⟨b, hb, hbk⟩ := List.any_eq_true.mp h
      exact List.mem_map.mpr ⟨b, hb, by simp at hbk; simp [hbk]⟩
    · simp
  · rw [if_neg hk]
    simp only [put, get?]
    split
    · rw [List.find?_map]
      have hkey : ∀ b, key (if key b = key a then a else b) = key b := by
        intro b
        split
        · next h => exact h.symm
        · rfl
      simp only [Function.comp_def, hkey]
      cases hfind : t.rows.find? fun b => key b = k with
      | none => rfl
      | some b =>
        have hbk : key b = k := by simpa using List.find?_some hfind
        have hne : key b ≠ key a := fun h => hk (h.symm.trans hbk)
        simp [hne]
    · simp [List.find?_append, hk]

theorem get?_filter (t : Table key) (p : α → Bool) (k : κ) :
    (t.filter p).get? k = (t.get? k).filter p := by
  cases hget : t.get? k with
  | none =>
    refine get?_eq_none.mpr fun a ha => ?_
    exact get?_eq_none.mp hget a (List.mem_filter.mp ha).1
  | some a =>
    obtain ⟨hmem, hkey⟩ := get?_eq_some.mp hget
    cases hp : p a with
    | true =>
      simp only [Option.filter_some, hp, if_true]
      exact get?_eq_some.mpr ⟨List.mem_filter.mpr ⟨hmem, hp⟩, hkey⟩
    | false =>
      simp only [Option.filter_some, hp, Bool.false_eq_true, if_false]
      refine get?_eq_none.mpr fun b hb hbk => ?_
      have hb' := List.mem_filter.mp hb
      have heq : b = a := List.inj_on_of_nodup_map t.nodup hb'.1 hmem (hbk.trans hkey.symm)
      rw [heq, hp] at hb'
      exact Bool.false_ne_true hb'.2

theorem get?_of_filter {t : Table key} {p : α → Bool} {k : κ} {a : α}
    (h : (t.filter p).get? k = some a) : t.get? k = some a := by
  rw [get?_filter] at h
  exact (Option.filter_eq_some_iff.mp h).1

theorem mem_update {t : Table key} {k : κ} {f : α → α}
    {hf : ∀ a, key (f a) = key a} {b : α} (h : b ∈ (t.update k f hf).rows) :
    (b ∈ t.rows ∧ key b ≠ k) ∨ ∃ a ∈ t.rows, key a = k ∧ b = f a := by
  obtain ⟨a, ha, rfl⟩ := List.mem_map.mp h
  by_cases hk : key a = k
  · exact Or.inr ⟨a, ha, hk, by simp [hk]⟩
  · exact Or.inl ⟨by simpa [hk] using ha, by simp [hk]⟩

theorem mem_put {t : Table key} {a b : α} :
    b ∈ (t.put a).rows ↔ b = a ∨ b ∈ t.rows ∧ key b ≠ key a := by
  have hget : b ∈ (t.put a).rows ↔ (t.put a).get? (key b) = some b :=
    ⟨get?_key, fun h => (get?_eq_some.mp h).1⟩
  rw [hget, get?_put]
  by_cases hk : key a = key b
  · simp [hk, eq_comm]
  · rw [if_neg hk]
    constructor
    · intro h
      exact Or.inr ⟨(get?_eq_some.mp h).1, fun heq => hk heq.symm⟩
    · rintro (rfl | ⟨hb, _⟩)
      · exact absurd rfl hk
      · exact get?_key hb

/-- The rows found under a list of keys carry exactly those keys, in order. -/
theorem map_key_filterMap_get? (t : Table key) (ks : List κ)
    (h : ∀ k ∈ ks, (t.get? k).isSome) : (ks.filterMap t.get?).map key = ks := by
  induction ks with
  | nil => rfl
  | cons k rest ih =>
    obtain ⟨a, ha⟩ := Option.isSome_iff_exists.mp (h k (by simp))
    rw [List.filterMap_cons_some ha, List.map_cons, (get?_eq_some.mp ha).2,
      ih fun k' hk' => h k' (by simp [hk'])]

section Counting

/-- Rows that meet `q` are no more than those that met it before, when each of
them was there before under its key, the rows of `ks` excepted. -/
theorem countP_le_add (t t' : Table key) (q : α → Bool) (ks : List κ)
    (h : ∀ a ∈ t'.rows, q a = true → key a ∉ ks → a ∈ t.rows) :
    t'.rows.countP q ≤ t.rows.countP q + ks.length := by
  have hnodup : ((t'.rows.filter q).map key).Nodup :=
    (List.filter_sublist.map key).nodup t'.nodup
  have hsub : (t'.rows.filter q).map key ⊆ (t.rows.filter q).map key ++ ks := by
    intro k hk
    obtain ⟨a, ha, rfl⟩ := List.mem_map.mp hk
    obtain ⟨hmem, hq⟩ := List.mem_filter.mp ha
    by_cases hin : key a ∈ ks
    · exact List.mem_append_right _ hin
    · exact List.mem_append_left _
        (List.mem_map.mpr ⟨a, List.mem_filter.mpr ⟨h a hmem hq hin, hq⟩, rfl⟩)
  have hlen := (List.Nodup.subperm hnodup hsub).length_le
  simpa [List.countP_eq_length_filter] using hlen

omit [DecidableEq κ] in
/-- Rows that meet `q` are no more than before, when each of them stands under the key of one
that met it before. -/
theorem countP_le_of_keys (t t' : Table key) (q : α → Bool)
    (h : ∀ a ∈ t'.rows, q a = true → ∃ b ∈ t.rows, q b = true ∧ key b = key a) :
    t'.rows.countP q ≤ t.rows.countP q := by
  have hnodup : ((t'.rows.filter q).map key).Nodup :=
    (List.filter_sublist.map key).nodup t'.nodup
  have hsub : (t'.rows.filter q).map key ⊆ (t.rows.filter q).map key := by
    intro k hk
    obtain ⟨a, ha, rfl⟩ := List.mem_map.mp hk
    obtain ⟨hmem, hq⟩ := List.mem_filter.mp ha
    obtain ⟨b, hb, hqb, hkey⟩ := h a hmem hq
    exact List.mem_map.mpr ⟨b, List.mem_filter.mpr ⟨hb, hqb⟩, hkey⟩
  have hlength := (List.Nodup.subperm hnodup hsub).length_le
  simpa [List.countP_eq_length_filter] using hlength

/-- One row rewritten under its key moves the count by that row alone. -/
theorem countP_update (t : Table key) (k : κ) (f : α → α)
    (hf : ∀ a, key (f a) = key a) (q : α → Bool) {a : α} (ha : t.get? k = some a) :
    (t.update k f hf).rows.countP q + (if q a then 1 else 0) =
      t.rows.countP q + (if q (f a) then 1 else 0) := by
  obtain ⟨hmem, hkey⟩ := get?_eq_some.mp ha
  obtain ⟨before, after, hsplit⟩ := List.append_of_mem hmem
  have hnodup := t.nodup
  simp only [hsplit, List.map_append, List.map_cons, List.nodup_append,
    List.nodup_cons, List.mem_cons, List.mem_map] at hnodup
  have hbefore : ∀ b ∈ before, key b ≠ k := by
    intro b hb hbk
    exact hnodup.2.2 (key b) ⟨b, hb, rfl⟩ (key a) (Or.inl rfl) (hbk.trans hkey.symm)
  have hafter : ∀ b ∈ after, key b ≠ k := by
    intro b hb hbk
    exact hnodup.2.1.1 ⟨b, hb, hbk.trans hkey.symm⟩
  have hkeep : ∀ l : List α, (∀ b ∈ l, key b ≠ k) →
      (l.map fun b => if decide (key b = k) = true then f b else b) = l := by
    intro l hl
    calc (l.map fun b => if decide (key b = k) = true then f b else b)
        = l.map id := List.map_congr_left fun b hb => by simp [hl b hb]
      _ = l := List.map_id l
  simp only [update, rows_updateWhere, hsplit, List.map_append, List.map_cons,
    hkeep before hbefore, hkeep after hafter, hkey, decide_true, if_true,
    List.countP_append, List.countP_cons]
  omega

@[simp] theorem countP_insert (t : Table key) (a : α) (h : t.get? (key a) = none)
    (q : α → Bool) :
    (t.insert a h).rows.countP q = t.rows.countP q + (if q a then 1 else 0) := by
  simp [List.countP_append, List.countP_singleton]

end Counting

end Table

/-- Drop every item whose key came before, as a loop over a set of seen keys. -/
def keepFirst {α : Type u} {κ : Type v} [DecidableEq κ] (key : α → κ) : List α → List α
  | [] => []
  | a :: rest => a :: (keepFirst key rest).filter fun b => key b ≠ key a

theorem mem_keepFirst_id {α : Type u} [DecidableEq α] {a : α} {l : List α} :
    a ∈ keepFirst id l ↔ a ∈ l := by
  induction l with
  | nil => simp [keepFirst]
  | cons b rest ih =>
    simp only [keepFirst, List.mem_cons, List.mem_filter, ih, id_eq, decide_eq_true_eq]
    constructor
    · rintro (h | ⟨h, _⟩)
      · exact Or.inl h
      · exact Or.inr h
    · rintro (h | h)
      · exact Or.inl h
      · by_cases hab : a = b
        · exact Or.inl hab
        · exact Or.inr ⟨h, hab⟩

theorem mem_of_mem_keepFirst {α : Type u} {κ : Type v} [DecidableEq κ] {key : α → κ} {a : α}
    {l : List α} (h : a ∈ keepFirst key l) : a ∈ l := by
  induction l with
  | nil => exact h
  | cons b rest ih =>
    rw [keepFirst] at h
    rcases List.mem_cons.mp h with rfl | hrest
    · exact List.mem_cons_self
    · exact List.mem_cons_of_mem b (ih (List.mem_filter.mp hrest).1)

/-- The first element with a key is kept. -/
theorem mem_keepFirst_of_find? {α : Type u} {κ : Type v} [DecidableEq κ] {key : α → κ} {k : κ}
    {a : α} {l : List α} (h : (l.find? fun b => key b = k) = some a) : a ∈ keepFirst key l := by
  induction l with
  | nil => cases h
  | cons b rest ih =>
    rw [keepFirst]
    by_cases hb : key b = k
    · have hhead : (some b : Option α) = some a := by simpa [List.find?, hb] using h
      cases hhead
      exact List.mem_cons_self
    · have htail : (rest.find? fun b => key b = k) = some a := by simpa [List.find?, hb] using h
      have hkey : key a = k := by simpa using List.find?_some htail
      apply List.mem_cons_of_mem
      apply List.mem_filter.mpr
      exact ⟨ih htail, decide_eq_true fun hsame => hb (hsame ▸ hkey)⟩

/-- Keeping first elements changes no search by key. -/
theorem find?_keepFirst {α : Type u} {κ : Type v} [DecidableEq κ] (key : α → κ) (k : κ)
    (l : List α) : ((keepFirst key l).find? fun b => key b = k) = l.find? fun b => key b = k := by
  induction l with
  | nil => rfl
  | cons b rest ih =>
    rw [keepFirst]
    by_cases hb : key b = k
    · simp only [List.find?, hb, decide_true]
    · have hskip : ((keepFirst key rest).filter fun c => key c ≠ key b).find? (fun c => key c = k) =
          (keepFirst key rest).find? fun c => key c = k := by
        rw [List.find?_filter]
        congr 1
        funext c
        by_cases hc : key c = k
        · simp [hc]
          exact fun hsame => hb hsame.symm
        · simp [hc]
      simp only [List.find?, hb, decide_false]
      rw [hskip, ih]

theorem nodup_keepFirst_id {α : Type u} [DecidableEq α] (l : List α) :
    (keepFirst id l).Nodup := by
  induction l with
  | nil => exact List.nodup_nil
  | cons a rest ih =>
    rw [keepFirst, List.nodup_cons]
    refine ⟨?_, ih.filter _⟩
    intro hmem
    simp at hmem

end Regenic.Lib
