import Regenic.Embedding.Contracts

/-!
How a text is cut into the slices that are embedded. A slice is the longest that the tokens of a
chunk allow, cut back to the end of a line or a sentence when that keeps more than half of it. Cuts
never fall inside a code point, and the slices are the whole text.
-/

namespace Regenic.Embedding

open Lib

/-! ## One slice -/

/-- A slice from the start of a text, which ends between code points. -/
structure Cut (text : CodeUnits) where
  length : Nat
  positive : 0 < length
  deriving DecidableEq, Repr

namespace Cut

variable {text : CodeUnits}

def slice (cut : Cut text) : CodeUnits := ((codePoints text).take cut.length).flatten

def rest (cut : Cut text) : CodeUnits := ((codePoints text).drop cut.length).flatten

theorem slice_append_rest (cut : Cut text) : cut.slice ++ cut.rest = text := by
  unfold slice rest
  rw [← List.flatten_append, List.take_append_drop, codePoints_flatten]

theorem slice_ne_nil (cut : Cut text) (h : text ≠ []) : cut.slice ≠ [] := by
  unfold slice
  cases hpoints : codePoints text with
  | nil => exact absurd (codePoints_eq_nil.mp hpoints) h
  | cons point rest =>
    obtain ⟨length, hlength⟩ := Nat.exists_eq_succ_of_ne_zero cut.positive.ne'
    rw [hlength, List.take_succ_cons, List.flatten_cons]
    have hne : point ≠ [] := codePoints_ne_nil (hpoints ▸ List.mem_cons_self)
    simp [hne]

end Cut

/-- `"\n"`, `"。"`, `"！"` and `"？"`. -/
def boundaryUnits : List UInt16 := [0x0A, 0x3002, 0xFF01, 0xFF1F]

/-- The last of the places where a slice is rather cut. -/
def preferredBoundary (slice : CodeUnits) : Option Nat :=
  (boundaryUnits.filterMap fun unit => lastIndexOfUnit unit slice).max?

section Provider

variable (provider : EmbeddingProvider) (chunkTokens : Nat)

/-- The search for the longest slice, with `size` lengths from `low` on left to try. -/
def longestFit (characters : List CodeUnits) (low size length : Nat) : Except EmbedThrown Nat :=
  if size = 0 then .ok length
  else
    let middle := (low + (low + size - 1)) / 2
    let count := provider.countTokens (characters.take middle).flatten
    if count < 1 then .error invalidResponse
    else if count ≤ chunkTokens then
      longestFit characters (middle + 1) (low + size - 1 - middle) middle
    else longestFit characters low (middle - low) length
termination_by size

/-- The slice without what follows its preferred boundary. -/
def cutBack (text : CodeUnits) (fitting : Cut text) : Cut text :=
  match preferredBoundary fitting.slice with
  | none => fitting
  | some boundary =>
    let length := (codePoints (fitting.slice.take (boundary + 1))).length
    if h : fitting.length < (codePoints text).length ∧ fitting.slice.length < 2 * boundary ∧
      0 < length then ⟨length, h.2.2⟩
    else fitting

/-- The next slice of a text that is not empty. -/
def nextSlice (text : CodeUnits) : Except EmbedThrown (Cut text) := do
  let length ← longestFit provider chunkTokens (codePoints text) 1 (codePoints text).length 0
  if positive : 0 < length then
    let fitting : Cut text := ⟨length, positive⟩
    let preferred := cutBack text fitting
    let cut :=
      if chunkTokens < provider.countTokens preferred.slice then fitting else preferred
    throwUnless (1 ≤ provider.countTokens cut.slice &&
      provider.countTokens cut.slice ≤ chunkTokens) invalidResponse
    .ok cut
  else .error tooLarge

/-! ## All slices -/

/-- The slices of a text until it ends, or until an error. -/
def textSlices : Nat → CodeUnits → List CodeUnits × Option EmbedThrown
  | 0, text => ([], if text = [] then none else some tooLarge)
  | budget + 1, text =>
    if text = [] then ([], none)
    else match nextSlice provider chunkTokens text with
      | .error thrown => ([], some thrown)
      | .ok cut =>
        let later := textSlices budget cut.rest
        (cut.slice :: later.1, later.2)

/-- A text that fits is one slice. -/
def sliceText (budget : Nat) (text : CodeUnits) : List CodeUnits × Option EmbedThrown :=
  let wholeTokens := provider.countTokens text
  if wholeTokens < 1 then ([], some invalidResponse)
  else if wholeTokens ≤ chunkTokens then
    if budget < 1 then ([], some tooLarge) else ([text], none)
  else textSlices provider chunkTokens budget text

variable {provider chunkTokens}

/-! ## The slices are the text -/

theorem nextSlice_ok {text : CodeUnits} {cut : Cut text}
    (h : nextSlice provider chunkTokens text = .ok cut) :
    1 ≤ provider.countTokens cut.slice ∧ provider.countTokens cut.slice ≤ chunkTokens := by
  unfold nextSlice at h
  obtain ⟨length, -, h⟩ := sequence_ok h
  split at h
  · obtain ⟨hfits, h⟩ := checked_ok h
    obtain rfl := Except.ok.inj h
    simpa using hfits
  · cases h

/-- What every slice is: some of the text, within the tokens of a chunk. -/
def Fits (provider : EmbeddingProvider) (chunkTokens : Nat) (slice : CodeUnits) : Prop :=
  slice ≠ [] ∧ 1 ≤ provider.countTokens slice ∧ provider.countTokens slice ≤ chunkTokens

theorem textSlices_fits (budget : Nat) (text : CodeUnits) :
    let cut := textSlices provider chunkTokens budget text
    (∀ slice ∈ cut.1, Fits provider chunkTokens slice) ∧ cut.1.length ≤ budget ∧
      ∃ rest, cut.1.flatten ++ rest = text ∧
        cut.1.flatMap codePoints ++ codePoints rest = codePoints text ∧
        (cut.2 = none → rest = []) := by
  induction budget generalizing text with
  | zero =>
    refine ⟨by simp [textSlices], by simp [textSlices], text, rfl, rfl, fun hnone => ?_⟩
    unfold textSlices at hnone
    by_contra hne
    rw [if_neg hne] at hnone
    cases hnone
  | succ budget ih =>
    unfold textSlices
    split
    · next hempty => exact ⟨by simp, by simp, [], by simp [hempty], by simp [hempty], fun _ => rfl⟩
    · next hne =>
      cases hcut : nextSlice provider chunkTokens text with
      | error thrown => exact ⟨by simp, by simp, text, rfl, rfl, fun hnone => by cases hnone⟩
      | ok cut =>
        obtain ⟨hfits, hlength, rest, hflatten, hpoints, hrest⟩ := ih cut.rest
        have hcodePoints : codePoints cut.slice ++ codePoints cut.rest = codePoints text := by
          unfold Cut.slice Cut.rest
          rw [codePoints_take, codePoints_drop, List.take_append_drop]
        refine ⟨?_, ?_, rest, ?_, ?_, hrest⟩
        · intro slice hmem
          rcases List.mem_cons.mp hmem with rfl | hmem
          · exact ⟨cut.slice_ne_nil hne, nextSlice_ok hcut⟩
          · exact hfits slice hmem
        · simpa using hlength
        · rw [List.flatten_cons, List.append_assoc, hflatten, cut.slice_append_rest]
        · rw [List.flatMap_cons, List.append_assoc, hpoints, hcodePoints]

theorem textSlices_nil (budget : Nat) : textSlices provider chunkTokens budget [] = ([], none) := by
  cases budget <;> rfl

theorem textSlices_succ (budget : Nat) {text : CodeUnits} (hne : text ≠ []) :
    textSlices provider chunkTokens (budget + 1) text =
      match nextSlice provider chunkTokens text with
      | .error thrown => ([], some thrown)
      | .ok cut =>
        let later := textSlices provider chunkTokens budget cut.rest
        (cut.slice :: later.1, later.2) := if_neg hne

/-- Slices that are the whole text end without an error. -/
theorem textSlices_whole {budget : Nat} {text : CodeUnits}
    (h : (textSlices provider chunkTokens budget text).1.flatten = text) :
    (textSlices provider chunkTokens budget text).2 = none := by
  induction budget generalizing text with
  | zero => exact if_pos (Eq.symm h)
  | succ budget ih =>
    by_cases hempty : text = []
    · unfold textSlices
      rw [if_pos hempty]
    · rw [textSlices_succ budget hempty] at h ⊢
      cases hcut : nextSlice provider chunkTokens text with
      | error thrown =>
        rw [hcut] at h
        exact absurd (Eq.symm h) hempty
      | ok cut =>
        rw [hcut] at h
        simp only [List.flatten_cons] at h ⊢
        exact ih (List.append_cancel_left (h.trans cut.slice_append_rest.symm))

/-- The slices that are left after some of them. -/
theorem textSlices_drop {budget : Nat} {text : CodeUnits} (count : Nat)
    (h : count ≤ (textSlices provider chunkTokens budget text).1.length) :
    let cut := textSlices provider chunkTokens budget text
    textSlices provider chunkTokens (budget - count)
      (text.drop (cut.1.take count).flatten.length) = (cut.1.drop count, cut.2) := by
  induction count generalizing budget text with
  | zero => rfl
  | succ count ih =>
    cases budget with
    | zero => exact absurd h (by simp [textSlices])
    | succ budget =>
      by_cases hempty : text = []
      · unfold textSlices at h
        rw [if_pos hempty] at h
        exact absurd h (Nat.not_succ_le_zero count)
      · rw [textSlices_succ budget hempty] at h ⊢
        cases hcut : nextSlice provider chunkTokens text with
        | error thrown =>
          rw [hcut] at h
          exact absurd h (Nat.not_succ_le_zero count)
        | ok cut =>
          rw [hcut] at h
          simp only [List.length_cons, List.take_succ_cons, List.flatten_cons,
            List.length_append, List.drop_succ_cons, Nat.add_sub_add_right] at h ⊢
          have hdrop (more : Nat) := congrArg (List.drop (cut.slice.length + more))
            cut.slice_append_rest
          rw [← hdrop, List.drop_length_add_append]
          exact ih (Nat.le_of_succ_le_succ h)

/-- A text is refused, or is one slice, or is cut. -/
theorem sliceText_cases (budget : Nat) (text : CodeUnits) :
    (∃ thrown, sliceText provider chunkTokens budget text = ([], some thrown)) ∨
      (sliceText provider chunkTokens budget text = ([text], none) ∧ 1 ≤ budget ∧
        1 ≤ provider.countTokens text ∧ provider.countTokens text ≤ chunkTokens) ∨
      sliceText provider chunkTokens budget text = textSlices provider chunkTokens budget text := by
  unfold sliceText
  simp only
  split
  · exact Or.inl ⟨_, rfl⟩
  · split
    · split
      · exact Or.inl ⟨_, rfl⟩
      · exact Or.inr (Or.inl ⟨rfl, by omega, by omega, by omega⟩)
    · exact Or.inr (Or.inr rfl)

/-- A text that is done in part is one that is cut slice by slice. -/
theorem sliceText_begun {budget count : Nat} {text : CodeUnits} (hpos : count ≠ 0)
    (hle : count ≤ (sliceText provider chunkTokens budget text).1.length)
    (hgoes : ((sliceText provider chunkTokens budget text).1.take count).flatten.length ≠
      text.length) :
    sliceText provider chunkTokens budget text = textSlices provider chunkTokens budget text := by
  rcases sliceText_cases budget text with ⟨thrown, hnone⟩ | ⟨hone, -⟩ | hcut
  · rw [hnone, List.length_nil] at hle
    omega
  · rw [hone, List.length_singleton] at hle
    obtain rfl : count = 1 := by omega
    rw [hone] at hgoes
    exact absurd (by simp) hgoes
  · exact hcut

/-- Slices that are the whole of a text that is not empty end without an error. -/
theorem sliceText_whole {budget : Nat} {text : CodeUnits} (hne : text ≠ [])
    (h : (sliceText provider chunkTokens budget text).1.flatten = text) :
    (sliceText provider chunkTokens budget text).2 = none := by
  rcases @sliceText_cases provider chunkTokens budget text with
    ⟨thrown, hcut⟩ | ⟨hcut, -⟩ | hcut
  · rw [hcut] at h
    exact absurd (Eq.symm h) hne
  · rw [hcut]
  · rw [hcut] at h ⊢
    exact textSlices_whole h

theorem sliceText_fits (budget : Nat) {text : CodeUnits} (hne : text ≠ []) :
    let cut := sliceText provider chunkTokens budget text
    (∀ slice ∈ cut.1, Fits provider chunkTokens slice) ∧ cut.1.length ≤ budget ∧
      ∃ rest, cut.1.flatten ++ rest = text ∧
        cut.1.flatMap codePoints ++ codePoints rest = codePoints text ∧
        (cut.2 = none → rest = []) := by
  rcases @sliceText_cases provider chunkTokens budget text with
    ⟨thrown, hcut⟩ | ⟨hcut, hbudget, hcounted, hfits⟩ | hcut
  · rw [hcut]
    refine ⟨by simp, by simp, text, rfl, rfl, fun hnone => ?_⟩
    cases hnone
  · rw [hcut]
    refine ⟨?_, hbudget, [], by simp, by simp [codePoints], fun _ => rfl⟩
    intro slice hmem
    rw [List.mem_singleton.mp hmem]
    exact ⟨hne, hcounted, hfits⟩
  · rw [hcut]
    exact textSlices_fits budget text

/-- Whatever the provider counts, a text is cut between code points into slices within the tokens
of a chunk and as many as the budget allows, which are a beginning of the text, and the whole of it
exactly when no error ends them. -/
theorem slices_tileText (provider : EmbeddingProvider) (chunkTokens budget : Nat)
    (text : CodeUnits) (hne : text ≠ []) :
    let cut := sliceText provider chunkTokens budget text
    (∀ slice ∈ cut.1, Fits provider chunkTokens slice) ∧ cut.1.length ≤ budget ∧
      ∃ rest, cut.1.flatten ++ rest = text ∧
        cut.1.flatMap codePoints ++ codePoints rest = codePoints text ∧
        (cut.2 = none ↔ rest = []) := by
  obtain ⟨hfits, hlength, rest, hflatten, hpoints, hrest⟩ :=
    @sliceText_fits provider chunkTokens budget text hne
  refine ⟨hfits, hlength, rest, hflatten, hpoints, hrest, fun hempty => ?_⟩
  rw [hempty, List.append_nil] at hflatten
  exact sliceText_whole hne hflatten

end Provider

/-- A provider that counts the units of a text. -/
def plainProvider : EmbeddingProvider where
  countTokens := List.length
  embed _ := [1]

theorem slices_tileText_units :
    let cut := sliceText plainProvider 2 8 [0x61, 0x62, 0x63]
    (∀ slice ∈ cut.1, Fits plainProvider 2 slice) ∧ cut.1.length ≤ 8 ∧
      ∃ rest, cut.1.flatten ++ rest = [0x61, 0x62, 0x63] ∧
        cut.1.flatMap codePoints ++ codePoints rest = codePoints [0x61, 0x62, 0x63] ∧
        (cut.2 = none ↔ rest = []) :=
  slices_tileText plainProvider 2 8 [0x61, 0x62, 0x63] (by decide)

end Regenic.Embedding
