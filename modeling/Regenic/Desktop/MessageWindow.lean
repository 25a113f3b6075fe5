import Mathlib.Algebra.Order.Monoid.Unbundled.Basic
import Mathlib.Data.List.GetD
import Mathlib.Tactic.Linarith

/-!
The rows of a thread that are rendered: the heights of the rows are added up to offsets, and two
binary searches over the offsets find the first and the last row in view.
-/

namespace Regenic.Desktop

/-! ## Binary searches -/

section Searches

variable {α : Type} [LinearOrder α] [Zero α] (offsets : List α) (value : α)

/-- The offset at an index of the array. -/
def offsetAt (index : Nat) : α := offsets.getD index 0

/-- The loop of `lastIndexAtMost`; `Math.ceil((low + high + 1) / 2)` rounds up. -/
def lastIndexLoop (low high : Nat) : Nat :=
  if low < high then
    let mid := (low + high + 2) / 2
    if offsetAt offsets mid ≤ value then lastIndexLoop mid high
    else lastIndexLoop low (mid - 1)
  else low
termination_by high - low
decreasing_by
  · omega
  · omega

def lastIndexAtMost : Nat := lastIndexLoop offsets value 0 (offsets.length - 2)

def firstIndexLoop (low high : Nat) : Nat :=
  if low < high then
    let mid := (low + high) / 2
    if value ≤ offsetAt offsets mid then firstIndexLoop low mid
    else firstIndexLoop (mid + 1) high
  else low
termination_by high - low
decreasing_by
  · omega
  · omega

def firstIndexAtLeast : Nat := firstIndexLoop offsets value 0 (offsets.length - 1)

/-- Offsets that do not go down. -/
def Ascending : Prop :=
  ∀ i j, i ≤ j → j < offsets.length → offsetAt offsets i ≤ offsetAt offsets j

variable {offsets value}

/-- The search keeps an index at most the value at `low`, and only larger offsets above `high`. -/
theorem lastIndexLoop_spec {low high : Nat} (hle : low ≤ high) (hlow : offsetAt offsets low ≤ value)
    (hsorted : Ascending offsets) {last : Nat} (hlast : last < offsets.length)
    (hhigh : high ≤ last) (habove : ∀ i, high < i → i ≤ last → value < offsetAt offsets i) :
    lastIndexLoop offsets value low high ≤ last ∧
      offsetAt offsets (lastIndexLoop offsets value low high) ≤ value ∧
      ∀ i, lastIndexLoop offsets value low high < i → i ≤ last → value < offsetAt offsets i := by
  fun_induction lastIndexLoop offsets value low high with
  | case1 low high hlt mid hmid ih => exact ih (by omega) hmid hhigh habove
  | case2 low high hlt mid hmid ih =>
    apply ih (by omega) hlow (by omega)
    intro i hi hin
    exact lt_of_lt_of_le (not_le.mp hmid) (hsorted mid i (by omega) (by omega))
  | case3 low high hstop =>
    obtain rfl : low = high := by omega
    exact ⟨hhigh, hlow, habove⟩

/-- The search keeps only smaller offsets below `low`, and an offset at least the value at `high`
unless that is the end. -/
theorem firstIndexLoop_spec {low high : Nat} (hle : low ≤ high) (hsorted : Ascending offsets)
    {last : Nat} (hlast : last < offsets.length) (hhigh : high ≤ last)
    (hbelow : ∀ i, i < low → offsetAt offsets i < value)
    (hat : high = last ∨ value ≤ offsetAt offsets high) :
    firstIndexLoop offsets value low high ≤ last ∧
      (∀ i, i < firstIndexLoop offsets value low high → offsetAt offsets i < value) ∧
      (firstIndexLoop offsets value low high = last ∨
        value ≤ offsetAt offsets (firstIndexLoop offsets value low high)) := by
  fun_induction firstIndexLoop offsets value low high with
  | case1 low high hlt mid hmid ih => exact ih (by omega) (by omega) hbelow (.inr hmid)
  | case2 low high hlt mid hmid ih =>
    apply ih (by omega) hhigh _ hat
    intro i hi
    exact lt_of_le_of_lt (hsorted i mid (by omega) (by omega)) (not_le.mp hmid)
  | case3 low high hstop =>
    obtain rfl : low = high := by omega
    exact ⟨hhigh, hbelow, hat⟩

end Searches

/-! ## The window -/

section Window

variable {α : Type} [LinearOrder α] [AddZeroClass α]

/-- `prefixOffsets` -/
def prefixOffsets (sizes : List α) : List α := sizes.scanl (· + ·) 0

structure MessageRange where
  start : Nat
  «end» : Nat
  deriving DecidableEq, Repr

def threadOverscan : Nat := 10

structure WindowInput (α : Type) where
  offsets : List α
  scrollTop : α
  viewport : α
  overscan : Option Nat := none

def WindowInput.top (input : WindowInput α) : α := max 0 input.scrollTop

def WindowInput.bottom (input : WindowInput α) : α := input.top + max 0 input.viewport

def computeWindow (input : WindowInput α) : MessageRange :=
  let count := input.offsets.length - 1
  if count = 0 then ⟨0, 0⟩
  else
    let overscan := input.overscan.getD threadOverscan
    let start := lastIndexAtMost input.offsets input.top - overscan
    let «end» := min count (firstIndexAtLeast input.offsets input.bottom + overscan)
    if «end» ≤ start then ⟨start, min count (start + 1)⟩ else ⟨start, «end»⟩

omit [LinearOrder α] in
theorem prefixOffsets_length (sizes : List α) :
    (prefixOffsets sizes).length = sizes.length + 1 := List.length_scanl

omit [LinearOrder α] in
theorem prefixOffsets_zero (sizes : List α) : offsetAt (prefixOffsets sizes) 0 = 0 := by
  unfold prefixOffsets
  cases sizes with
  | nil => rfl
  | cons size sizes =>
    rw [List.scanl_cons]
    rfl

section Sums

variable [AddLeftMono α]

/-- A sum of sizes is at least what it was begun with. -/
theorem scanl_ge {sizes : List α} (h : ∀ size ∈ sizes, 0 ≤ size) (first : α) :
    ∀ offset ∈ sizes.scanl (· + ·) first, first ≤ offset := by
  induction sizes generalizing first with
  | nil =>
    intro offset hoffset
    obtain rfl := List.mem_singleton.mp hoffset
    exact le_refl _
  | cons size sizes ih =>
    intro offset hoffset
    rw [List.scanl_cons, List.mem_cons] at hoffset
    have hnext : first ≤ first + size := le_add_of_nonneg_right (h size List.mem_cons_self)
    rcases hoffset with rfl | hlater
    · exact le_refl _
    · exact hnext.trans (ih (fun other hother => h other (List.mem_cons_of_mem _ hother))
        (first + size) offset hlater)

theorem scanl_pairwise {sizes : List α} (h : ∀ size ∈ sizes, 0 ≤ size) (first : α) :
    (sizes.scanl (· + ·) first).Pairwise (· ≤ ·) := by
  induction sizes generalizing first with
  | nil => exact List.pairwise_singleton _ _
  | cons size sizes ih =>
    have hrest : ∀ other ∈ sizes, 0 ≤ other := fun other hother =>
      h other (List.mem_cons_of_mem _ hother)
    rw [List.scanl_cons, List.pairwise_cons]
    refine ⟨?_, ih hrest (first + size)⟩
    intro offset hoffset
    have hnext : first ≤ first + size := le_add_of_nonneg_right (h size List.mem_cons_self)
    exact hnext.trans (scanl_ge hrest (first + size) offset hoffset)

theorem prefixOffsets_ascending {sizes : List α} (h : ∀ size ∈ sizes, 0 ≤ size) :
    Ascending (prefixOffsets sizes) := by
  intro i j hij hj
  rcases Nat.lt_or_eq_of_le hij with hlt | rfl
  · have hi : i < (prefixOffsets sizes).length := by omega
    unfold offsetAt
    rw [List.getD_eq_getElem _ _ hi, List.getD_eq_getElem _ _ hj]
    exact List.pairwise_iff_getElem.mp (scanl_pairwise h 0) i j hi hj hlt
  · exact le_refl _

end Sums

/-! ## What is in view -/

/-- A row that reaches into what is between the top and the bottom. -/
def InView (offsets : List α) (top bottom : α) (row : Nat) : Prop :=
  row < offsets.length - 1 ∧ top < offsetAt offsets (row + 1) ∧ offsetAt offsets row < bottom

variable [AddLeftMono α] {sizes : List α}

theorem lastIndexAtMost_spec (h : ∀ size ∈ sizes, 0 ≤ size) (hne : sizes ≠ []) {value : α}
    (hvalue : 0 ≤ value) :
    lastIndexAtMost (prefixOffsets sizes) value < sizes.length ∧
      offsetAt (prefixOffsets sizes) (lastIndexAtMost (prefixOffsets sizes) value) ≤ value ∧
      ∀ i, lastIndexAtMost (prefixOffsets sizes) value < i → i < sizes.length →
        value < offsetAt (prefixOffsets sizes) i := by
  have hlength := prefixOffsets_length sizes
  have hpos := List.length_pos_iff.mpr hne
  have hzero : offsetAt (prefixOffsets sizes) 0 ≤ value := by
    rw [prefixOffsets_zero]
    exact hvalue
  unfold lastIndexAtMost
  obtain ⟨hlast, hat, habove⟩ := lastIndexLoop_spec (Nat.zero_le _) hzero
    (prefixOffsets_ascending h) (show (prefixOffsets sizes).length - 2 < _ by omega)
    (Nat.le_refl _) (fun i hi hin => by omega)
  exact ⟨by omega, hat, fun i hi hin => habove i hi (by omega)⟩

theorem firstIndexAtLeast_spec (h : ∀ size ∈ sizes, 0 ≤ size) (value : α) :
    firstIndexAtLeast (prefixOffsets sizes) value ≤ sizes.length ∧
      (∀ i, i < firstIndexAtLeast (prefixOffsets sizes) value →
        offsetAt (prefixOffsets sizes) i < value) ∧
      (firstIndexAtLeast (prefixOffsets sizes) value = sizes.length ∨
        value ≤ offsetAt (prefixOffsets sizes)
          (firstIndexAtLeast (prefixOffsets sizes) value)) := by
  have hlength := prefixOffsets_length sizes
  have hlast : (prefixOffsets sizes).length - 1 = sizes.length := by omega
  unfold firstIndexAtLeast
  rw [hlast]
  exact firstIndexLoop_spec (Nat.zero_le _) (prefixOffsets_ascending h) (by omega)
    (Nat.le_refl _) (fun i hi => by omega) (.inl rfl)

/-- The range of rows that are rendered lies within the rows, is not empty where there are rows,
and holds every row in view with `overscan` rows before and after it, as far as there are any. -/
theorem computeWindow_covers (h : ∀ size ∈ sizes, 0 ≤ size) (scrollTop viewport : α)
    (overscan : Option Nat) :
    let input : WindowInput α := { offsets := prefixOffsets sizes, scrollTop, viewport, overscan }
    (computeWindow input).start ≤ (computeWindow input).end ∧
      (computeWindow input).end ≤ sizes.length ∧
      (sizes ≠ [] → (computeWindow input).start < (computeWindow input).end) ∧
      ∀ row, InView input.offsets input.top input.bottom row →
        ∀ near, near < sizes.length → near ≤ row + overscan.getD threadOverscan →
          row ≤ near + overscan.getD threadOverscan →
            (computeWindow input).start ≤ near ∧ near < (computeWindow input).end := by
  intro input
  have hcount : input.offsets.length - 1 = sizes.length := by
    have hlength := prefixOffsets_length sizes
    simp only [input]
    omega
  unfold computeWindow
  simp only [hcount]
  by_cases hempty : sizes.length = 0
  · rw [if_pos hempty]
    refine ⟨Nat.le_refl _, Nat.zero_le _, ?_, ?_⟩
    · intro hne
      exact absurd (List.length_eq_zero_iff.mp hempty) hne
    · intro row hrow near hnear
      omega
  · rw [if_neg hempty]
    have hne : sizes ≠ [] := fun hnil => hempty (by rw [hnil]; rfl)
    have htop : 0 ≤ input.top := le_max_left _ _
    obtain ⟨hlast, hlastAt, hlastAbove⟩ := lastIndexAtMost_spec h hne htop
    obtain ⟨hfirst, hfirstBelow, hfirstAt⟩ := firstIndexAtLeast_spec h input.bottom
    have hsorted := prefixOffsets_ascending h
    have hlength := prefixOffsets_length sizes
    -- A row in view is not before the last offset at most the top, and is before the first offset
    -- at least the bottom.
    have hview : ∀ row, InView (prefixOffsets sizes) input.top input.bottom row →
        lastIndexAtMost (prefixOffsets sizes) input.top ≤ row ∧
          row < firstIndexAtLeast (prefixOffsets sizes) input.bottom := by
      rintro row ⟨hrow, hbelow, habove⟩
      constructor
      · by_contra hbefore
        have hle := hsorted (row + 1) (lastIndexAtMost (prefixOffsets sizes) input.top)
          (by omega) (by omega)
        exact absurd hbelow (not_lt.mpr (hle.trans hlastAt))
      · by_contra hafter
        rcases hfirstAt with hend | hat
        · omega
        · have hle := hsorted (firstIndexAtLeast (prefixOffsets sizes) input.bottom) row
            (by omega) (by omega)
          exact absurd habove (not_lt.mpr (hat.trans hle))
    have hoffsets : input.offsets = prefixOffsets sizes := rfl
    have hoverscan : input.overscan = overscan := rfl
    rw [hoffsets, hoverscan]
    generalize overscan.getD threadOverscan = k
    split
    · next hbackwards =>
      simp only
      refine ⟨by omega, by omega, fun _ => by omega, ?_⟩
      intro row hrow near hnear hafter hbefore
      obtain ⟨hlow, hhigh⟩ := hview row hrow
      omega
    · next hforwards =>
      simp only
      refine ⟨by omega, by omega, fun _ => by omega, ?_⟩
      intro row hrow near hnear hafter hbefore
      obtain ⟨hlow, hhigh⟩ := hview row hrow
      omega

/-- The last of three rows is in view, below one of no height. -/
theorem computeWindow_covers_rows :
    let input : WindowInput ℚ :=
      { offsets := prefixOffsets [40, 0, 30], scrollTop := 40, viewport := 10, overscan := some 0 }
    (computeWindow input).start ≤ 2 ∧ 2 < (computeWindow input).end := by
  intro input
  have hcovers := @computeWindow_covers ℚ _ _ _ [40, 0, 30] (by simp) 40 10 (some 0)
  have hview : InView input.offsets input.top input.bottom 2 := by
    refine ⟨by decide, ?_, ?_⟩
    · norm_num [input, prefixOffsets, offsetAt, WindowInput.top]
    · norm_num [input, prefixOffsets, offsetAt, WindowInput.top, WindowInput.bottom]
  exact hcovers.2.2.2 2 hview 2 (by decide) (by decide) (by decide)

end Window

end Regenic.Desktop
