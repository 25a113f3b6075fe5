import Mathlib.Data.List.Basic

/-!
Pieces joined by a separator, and where each of them stands in the whole. The starts are counted
as the pieces go by, from the length of what was joined so far. A list cut at every multiple of a
width has the pieces of a longer one as far as they are full.
-/

namespace Regenic.Lib

variable {α : Type}

/-- `slice(start, start + length)` -/
def slice (whole : List α) (start length : Nat) : List α := (whole.drop start).take length

/-- `join(separator)` -/
def joined (separator : List α) : List (List α) → List α
  | [] => []
  | [piece] => piece
  | piece :: next :: rest => piece ++ separator ++ joined separator (next :: rest)

theorem joined_cons {separator piece : List α} {rest : List (List α)} (h : rest ≠ []) :
    joined separator (piece :: rest) = piece ++ separator ++ joined separator rest := by
  cases rest with
  | nil => exact absurd rfl h
  | cons next rest => rfl

theorem joined_append {separator : List α} {left right : List (List α)} (hleft : left ≠ [])
    (hright : right ≠ []) :
    joined separator (left ++ right) =
      joined separator left ++ separator ++ joined separator right := by
  induction left with
  | nil => exact absurd rfl hleft
  | cons piece rest ih =>
    cases rest with
    | nil => exact joined_cons hright
    | cons next rest =>
      have htail := ih (List.cons_ne_nil next rest)
      have hne : next :: rest ++ right ≠ [] := by simp
      rw [List.cons_append, joined_cons hne, htail, joined_cons (List.cons_ne_nil next rest)]
      simp only [List.append_assoc]

/-- Where each piece starts, after some that are `cursor` long; `started` is whether there was
one. -/
def starts (width : Nat) : Nat → Bool → List (List α) → List Nat
  | _, _, [] => []
  | cursor, started, piece :: rest =>
    let start := cursor + if started then width else 0
    start :: starts width (start + piece.length) true rest

/-- The length of what is joined, and whether it is anything. -/
structure Counted (separator : List α) (pieces : List (List α)) (cursor : Nat) (started : Bool) :
    Prop where
  cursor_eq : cursor = (joined separator pieces).length
  started_iff : started = true ↔ pieces ≠ []

theorem counted_nil (separator : List α) : Counted separator [] 0 false := by
  constructor
  · rfl
  · simp

theorem counted_single (separator piece : List α) :
    Counted separator [piece] piece.length true := by
  constructor
  · rfl
  · simp

/-- The piece that comes next ends what is joined with it. -/
theorem Counted.next {separator : List α} {pieces : List (List α)} {cursor : Nat}
    {started : Bool} (h : Counted separator pieces cursor started) (piece : List α) :
    ∃ before, joined separator (pieces ++ [piece]) = before ++ piece ∧
      before.length = cursor + if started then separator.length else 0 := by
  cases started with
  | false =>
    have hnil : pieces = [] := by
      by_contra hne
      exact absurd (h.started_iff.mpr hne) (by decide)
    refine ⟨[], ?_, ?_⟩
    · rw [hnil]
      rfl
    · rw [h.cursor_eq, hnil]
      rfl
  | true =>
    refine ⟨joined separator pieces ++ separator, ?_, ?_⟩
    · rw [joined_append (h.started_iff.mp rfl) (List.cons_ne_nil piece [])]
      rfl
    · rw [List.length_append, ← h.cursor_eq]
      rfl

theorem Counted.step {separator : List α} {pieces : List (List α)} {cursor : Nat}
    {started : Bool} (h : Counted separator pieces cursor started) (piece : List α) :
    Counted separator (pieces ++ [piece])
      ((cursor + if started then separator.length else 0) + piece.length) true := by
  obtain ⟨before, hjoined, hlength⟩ := h.next piece
  constructor
  · rw [hjoined, List.length_append, hlength]
  · simp

/-- Every counted start is where the piece stands in the whole. -/
theorem slice_starts {separator : List α} {pieces : List (List α)} {cursor : Nat}
    {started : Bool} (h : Counted separator pieces cursor started) (more : List (List α)) :
    ∀ entry ∈ more.zip (starts separator.length cursor started more),
      slice (joined separator (pieces ++ more)) entry.2 entry.1.length = entry.1 := by
  induction more generalizing pieces cursor started with
  | nil =>
    intro entry hentry
    cases hentry
  | cons piece rest ih =>
    intro entry hentry
    rw [starts, List.zip_cons_cons, List.mem_cons] at hentry
    rcases hentry with rfl | hrest
    · obtain ⟨before, hjoined, hlength⟩ := h.next piece
      obtain ⟨after, hafter⟩ : ∃ after, joined separator (pieces ++ piece :: rest) =
          joined separator (pieces ++ [piece]) ++ after := by
        cases rest with
        | nil => exact ⟨[], by rw [List.append_nil]⟩
        | cons next rest =>
          have hsplit : pieces ++ piece :: next :: rest = (pieces ++ [piece]) ++ next :: rest := by
            rw [List.append_assoc]
            rfl
          exact ⟨_, by rw [hsplit, joined_append (by simp) (by simp), List.append_assoc]⟩
      unfold slice
      rw [hafter, hjoined, ← hlength, List.append_assoc, List.drop_left, List.take_left]
    · have hnext := ih (h.step piece) entry hrest
      rwa [List.append_assoc, List.singleton_append] at hnext

theorem le_starts {width cursor : Nat} {started : Bool} {more : List (List α)} :
    ∀ start ∈ starts width cursor started more, cursor ≤ start := by
  induction more generalizing cursor started with
  | nil =>
    intro start hstart
    cases hstart
  | cons piece rest ih =>
    intro start hstart
    rw [starts, List.mem_cons] at hstart
    rcases hstart with rfl | hrest
    · exact Nat.le_add_right _ _
    · have hle := ih start hrest
      omega

/-- Pieces end before the next ones start. -/
theorem pairwise_starts {width : Nat} (hwidth : 0 < width) (cursor : Nat) (started : Bool)
    (more : List (List α)) :
    (more.zip (starts width cursor started more)).Pairwise fun left right =>
      left.2 + left.1.length < right.2 := by
  induction more generalizing cursor started with
  | nil => exact List.Pairwise.nil
  | cons piece rest ih =>
    rw [starts, List.zip_cons_cons, List.pairwise_cons]
    refine ⟨?_, ih _ _⟩
    intro entry hentry
    cases rest with
    | nil => cases hentry
    | cons next rest =>
      rw [starts, List.zip_cons_cons, List.mem_cons] at hentry
      rcases hentry with rfl | hlater
      · simp only [if_true]
        omega
      · have hle := le_starts entry.2 (List.of_mem_zip hlater).2
        simp only [if_true] at hle
        simp only
        omega

/-! ## Chunks -/

/-- How often `offset += width` stays below a bound. -/
def turns (width bound : Nat) : Nat := (bound + width - 1) / width

def chunks (width count : Nat) (items : List α) : List (List α) :=
  (List.range count).map fun k => slice items (width * k) width

theorem le_mul_turns {width : Nat} (h : 0 < width) (bound : Nat) :
    bound ≤ width * turns width bound := by
  unfold turns
  have hrest := Nat.mod_lt (bound + width - 1) h
  have hsplit := Nat.div_add_mod (bound + width - 1) width
  omega

theorem turns_pos {width bound : Nat} (h : 0 < width) (hbound : 0 < bound) :
    0 < turns width bound := by
  have hle := le_mul_turns h bound
  by_contra hzero
  rw [Nat.eq_zero_of_not_pos hzero, Nat.mul_zero] at hle
  omega

theorem turns_lt {width bound : Nat} (hwidth : 1 < width) (h : 1 < bound) :
    turns width bound < bound := by
  unfold turns
  have hsum : width + bound ≤ width * bound := Nat.add_le_mul hwidth h
  apply Nat.div_lt_of_lt_mul
  omega

theorem length_chunks (width count : Nat) (items : List α) :
    (chunks width count items).length = count := by
  unfold chunks
  rw [List.length_map, List.length_range]

theorem chunks_map {β : Type} (f : α → β) (width count : Nat) (items : List α) :
    chunks width count (items.map f) = (chunks width count items).map (List.map f) := by
  unfold chunks slice
  rw [List.map_map]
  refine List.map_congr_left fun k _ => ?_
  rw [Function.comp_apply, List.map_take, List.map_drop]

theorem length_le_of_mem_chunks {width count : Nat} {items piece : List α}
    (h : piece ∈ chunks width count items) : piece.length ≤ width := by
  obtain ⟨k, -, rfl⟩ := List.mem_map.mp h
  exact List.length_take_le _ _

theorem mem_of_mem_chunks {width count : Nat} {items piece : List α}
    (h : piece ∈ chunks width count items) {item : α} (hitem : item ∈ piece) : item ∈ items := by
  obtain ⟨k, -, rfl⟩ := List.mem_map.mp h
  exact List.mem_of_mem_drop (List.mem_of_mem_take hitem)

theorem flatten_chunks (width count : Nat) (items : List α) :
    (chunks width count items).flatten = items.take (width * count) := by
  induction count with
  | zero => rfl
  | succ count ih =>
    unfold chunks at ih ⊢
    rw [List.range_succ, List.map_append, List.flatten_append, ih, Nat.mul_succ, List.take_add]
    simp [slice]

/-- The pieces of a whole list are all of it. -/
theorem flatten_chunks_of_le {width count : Nat} {items : List α}
    (h : items.length ≤ width * count) : (chunks width count items).flatten = items := by
  rw [flatten_chunks, List.take_of_length_le h]

theorem getElem?_chunks {width count k : Nat} (items : List α) (h : k < count) :
    (chunks width count items)[k]? = some (slice items (width * k) width) := by
  unfold chunks
  rw [List.getElem?_map, List.getElem?_range h, Option.map_some]

/-- What is appended leaves the full pieces as they are. -/
theorem slice_append_of_le {items : List α} {start length : Nat}
    (h : start + length ≤ items.length) (more : List α) :
    slice (items ++ more) start length = slice items start length := by
  unfold slice
  rw [List.drop_append_of_le_length (by omega),
    List.take_append_of_le_length (by rw [List.length_drop]; omega)]

end Regenic.Lib
