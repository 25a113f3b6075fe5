import Mathlib.Data.List.Basic
import Mathlib.Data.List.TakeWhile

/-!
An append-only log in the order of a rank that several elements may share, read in pages from
either end: what the pages that were read say of the elements below a rank.
-/

namespace Regenic.Lib

universe u

variable {α : Type u} (rank : α → Nat)

def InRankOrder (log : List α) : Prop := log.Pairwise fun a b => rank a ≤ rank b

/-- Every element below the rank is told. -/
def ToldBelow (told : α → Prop) (log : List α) (bound : Nat) : Prop :=
  ∀ a ∈ log, rank a < bound → told a

/-- Every element before the position is told. -/
def ToldPrefix (told : α → Prop) (log : List α) (position : Nat) : Prop :=
  ∀ a ∈ log.take position, told a

section Log

variable {rank} {told told' : α → Prop} {log more : List α} {a b : α} {bound position count : Nat}

theorem ToldBelow.mono (h : ToldBelow rank told log bound) (hmono : ∀ a, told a → told' a) :
    ToldBelow rank told' log bound :=
  fun a ha hrank => hmono a (h a ha hrank)

theorem ToldPrefix.mono (h : ToldPrefix told log position) (hmono : ∀ a, told a → told' a) :
    ToldPrefix told' log position :=
  fun a ha => hmono a (h a ha)

theorem ToldPrefix.le (h : ToldPrefix told log position) {position' : Nat}
    (hle : position' ≤ position) : ToldPrefix told log position' :=
  fun a ha => h a ((List.take_subset_take_left log hle) ha)

theorem InRankOrder.of_append (h : InRankOrder rank (log ++ more)) : InRankOrder rank log :=
  (List.pairwise_append.mp h).1

/-- An element before a position ranks no higher than one after it. -/
theorem InRankOrder.rank_le (h : InRankOrder rank log) (ha : a ∈ log.take position)
    (hb : b ∈ log.drop position) : rank a ≤ rank b := by
  rw [InRankOrder, ← List.take_append_drop position log] at h
  exact (List.pairwise_append.mp h).2.2 a ha b hb

/-- A lower rank than that of an element before the position is before the position. -/
theorem InRankOrder.mem_take (h : InRankOrder rank log) (ha : a ∈ log.take position)
    (hb : b ∈ log) (hrank : rank b < rank a) : b ∈ log.take position := by
  rw [← List.take_append_drop position log] at hb
  rcases List.mem_append.mp hb with hbefore | hafter
  · exact hbefore
  · exact absurd (h.rank_le ha hafter) (Nat.not_le_of_lt hrank)

/-- A higher rank than that of an element after the position is after the position. -/
theorem InRankOrder.mem_drop (h : InRankOrder rank log) (ha : a ∈ log.drop position)
    (hb : b ∈ log) (hrank : rank a < rank b) : b ∈ log.drop position := by
  rw [← List.take_append_drop position log] at hb
  rcases List.mem_append.mp hb with hbefore | hafter
  · exact absurd (h.rank_le hbefore ha) (Nat.not_le_of_lt hrank)
  · exact hafter

/-! ## Appending -/

/-- What is appended does not rank below an element that was there. -/
theorem ToldBelow.append (h : ToldBelow rank told log bound)
    (horder : InRankOrder rank (log ++ more)) (ha : a ∈ log) (hbound : bound ≤ rank a) :
    ToldBelow rank told (log ++ more) bound := by
  intro b hb hrank
  rcases List.mem_append.mp hb with hold | hnew
  · exact h b hold hrank
  · have hle : rank a ≤ rank b := (List.pairwise_append.mp horder).2.2 a ha b hnew
    omega

theorem ToldPrefix.append (h : ToldPrefix told log position) (hle : position ≤ log.length) :
    ToldPrefix told (log ++ more) position := by
  rw [ToldPrefix, List.take_append_of_le_length hle]
  exact h

/-! ## Pages -/

/-- A page that goes on from a position moves it. -/
theorem ToldPrefix.page (h : ToldPrefix told log position)
    (hpage : ∀ a ∈ (log.drop position).take count, told a) :
    ToldPrefix told log (position + count) := by
  intro a ha
  rw [List.take_add] at ha
  rcases List.mem_append.mp ha with hbefore | hafter
  · exact h a hbefore
  · exact hpage a hafter

/-- Below an element before the position, everything is before the position. -/
theorem ToldPrefix.below (h : ToldPrefix told log position) (horder : InRankOrder rank log)
    (ha : a ∈ log.take position) : ToldBelow rank told log (rank a) :=
  fun _ hb hrank => h _ (horder.mem_take ha hb hrank)

/-- Reading from a rank on leaves out what is below it. -/
theorem ToldBelow.takeWhile (h : ToldBelow rank told log bound) {p : α → Bool}
    (hp : ∀ a, p a = true → rank a < bound) :
    ToldPrefix told log (log.takeWhile p).length := by
  intro a ha
  have htake : log.take (log.takeWhile p).length = log.takeWhile p :=
    (List.prefix_iff_eq_take.mp (List.takeWhile_prefix p)).symm
  rw [htake] at ha
  exact h a ((List.takeWhile_prefix p).subset ha) (hp a (List.mem_takeWhile_imp ha))

/-- A page of the newest elements reaches back to a position. -/
theorem mem_newest : a ∈ log.reverse.take count ↔ a ∈ log.drop (log.length - count) := by
  rw [List.take_reverse, List.mem_reverse]

end Log

end Regenic.Lib
