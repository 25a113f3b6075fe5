import Mathlib.Data.List.Nodup
import Mathlib.Data.List.Zip
import Mathlib.Logic.Function.Basic

/-!
A keyed list is reconciled with the one before it: rows at the start and at the end are walked as
long as their keys match, what is left in between goes through a map. A row of the list before is
kept in the place of the incoming one of its key when their properties are the same.
-/

namespace Regenic.Desktop

/-- The array that is given back. -/
inductive ReusedArray (T : Type) where
  | previous
  | next
  | made (items : List T)

def ReusedArray.toList {T : Type} (previous next : List T) : ReusedArray T → List T
  | .previous => previous
  | .next => next
  | .made items => items

structure KeyedReuse (T : Type) where
  items : ReusedArray T
  same : Bool
  oldLength : Nat
  unchangedPrefix : Nat

section Reuse

variable {T : Type} (keyOf : T → String) (sameProps : T → T → Bool)

def keep (previous next : T) : T := if sameProps previous next then previous else next

/-- The rows at the end, last first, and what is left of both lists. -/
def walkEnd : List T → List T → List T → List T × List T × List T
  | kept, old :: previous, incoming :: next =>
    if keyOf old = keyOf incoming then
      walkEnd (keep sameProps old incoming :: kept) previous next
    else (kept, old :: previous, incoming :: next)
  | kept, previous, next => (kept, previous, next)

/-- `leftover.set` for each row. -/
def leftoverOf (rows : List T) : String → Option T :=
  rows.foldl (fun leftover row => Function.update leftover (keyOf row) (some row)) fun _ => none

def walkMiddle : (String → Option T) → List T → List T
  | _, [] => []
  | leftover, incoming :: next =>
    match leftover (keyOf incoming) with
    | none => incoming :: walkMiddle leftover next
    | some old =>
      keep sameProps old incoming :: walkMiddle (Function.update leftover (keyOf incoming) none) next

section Identity

variable [DecidableEq T]

/-- What the walk from the start has come to. -/
structure StartWalk (T : Type) where
  kept : List T := []
  unchanged : Bool
  unchangedPrefix : Nat := 0

def StartWalk.push (walk : StartWalk T) (old row : T) : StartWalk T where
  kept := walk.kept ++ [row]
  unchanged := walk.unchanged && row = old
  unchangedPrefix :=
    if row = old ∧ walk.unchangedPrefix = walk.kept.length then walk.unchangedPrefix + 1
    else walk.unchangedPrefix

/-- The rows at the start, and what is left of both lists. -/
def walkStart : StartWalk T → List T → List T → StartWalk T × List T × List T
  | walk, old :: previous, incoming :: next =>
    if keyOf old = keyOf incoming then
      walkStart (walk.push old (keep sameProps old incoming)) previous next
    else (walk, old :: previous, incoming :: next)
  | walk, previous, next => (walk, previous, next)

/-- `identical` says that both lists are the same array. -/
def reuseKeyedList (identical : Bool) (previous next : List T) : KeyedReuse T :=
  if identical then ⟨.previous, true, previous.length, previous.length⟩
  else if next.length = 0 then
    ⟨if previous.length = 0 then .previous else .next, previous.length = 0, previous.length, 0⟩
  else if previous.length = 0 then ⟨.next, false, 0, 0⟩
  else
    match walkStart keyOf sameProps { unchanged := previous.length = next.length } previous next with
    | (walk, [], []) =>
      ⟨if walk.unchanged then .previous else .made walk.kept, walk.unchanged, previous.length,
        walk.unchangedPrefix⟩
    | (walk, [], added) =>
      ⟨.made (walk.kept ++ added), false, previous.length, walk.unchangedPrefix⟩
    | (walk, _, []) =>
      ⟨.made (if walk.unchangedPrefix = next.length then previous.take next.length else walk.kept),
        false, previous.length, walk.unchangedPrefix⟩
    | (walk, removed, added) =>
      match walkEnd keyOf sameProps [] removed.reverse added.reverse with
      | (kept, oldMiddle, newMiddle) =>
        ⟨.made (walk.kept ++
            walkMiddle keyOf sameProps (leftoverOf keyOf oldMiddle.reverse) newMiddle.reverse ++
            kept),
          false, previous.length, walk.unchangedPrefix⟩

end Identity

/-! ## What a reconcile shows -/

/-- The row that is shown for an incoming one. -/
def reusedRow (previous : List T) (incoming : T) : T :=
  match previous.find? fun old => keyOf old = keyOf incoming with
  | none => incoming
  | some old => keep sameProps old incoming

variable {keyOf sameProps}

theorem find?_keyOf {rows : List T} (hnodup : (rows.map keyOf).Nodup) {row : T} (hrow : row ∈ rows)
    {key : String} (hkey : keyOf row = key) :
    rows.find? (fun other => keyOf other = key) = some row := by
  cases hfind : rows.find? fun other => decide (keyOf other = key) with
  | none =>
    have hnone := List.find?_eq_none.mp hfind row hrow
    simp [hkey] at hnone
  | some found =>
    have hfound : keyOf found = key := by simpa using List.find?_some hfind
    exact congrArg some (List.inj_on_of_nodup_map hnodup (List.mem_of_find?_eq_some hfind) hrow
      (hfound.trans hkey.symm))

theorem find?_keyOf_none {rows : List T} {key : String} (h : key ∉ rows.map keyOf) :
    rows.find? (fun other => keyOf other = key) = none := by
  apply List.find?_eq_none.mpr
  intro other hother hkey
  exact h (List.mem_map.mpr ⟨other, hother, by simpa using hkey⟩)

/-- A walk from the end takes rows of the same keys off both lists. -/
theorem walkEnd_spec (kept previous next : List T) :
    ∃ olds news, previous = olds.reverse ++ (walkEnd keyOf sameProps kept previous next).2.1 ∧
      next = news.reverse ++ (walkEnd keyOf sameProps kept previous next).2.2 ∧
      olds.map keyOf = news.map keyOf ∧
      (walkEnd keyOf sameProps kept previous next).1 =
        List.zipWith (keep sameProps) olds news ++ kept := by
  induction previous generalizing kept next with
  | nil =>
    refine ⟨[], [], ?_, ?_, rfl, ?_⟩
    · cases next <;> rfl
    · cases next <;> rfl
    · cases next <;> rfl
  | cons old previous ih =>
    cases next with
    | nil => exact ⟨[], [], rfl, rfl, rfl, rfl⟩
    | cons incoming next =>
      unfold walkEnd
      split
      · next hkey =>
        obtain ⟨olds, news, hprevious, hnext, hkeys, hkept⟩ :=
          ih (keep sameProps old incoming :: kept) next
        have hlength : olds.length = news.length := by simpa using congrArg List.length hkeys
        refine ⟨olds ++ [old], news ++ [incoming], ?_, ?_, ?_, ?_⟩
        · rw [List.reverse_append, List.append_assoc, ← hprevious]
          rfl
        · rw [List.reverse_append, List.append_assoc, ← hnext]
          rfl
        · rw [List.map_append, List.map_append, hkeys, List.map_singleton, List.map_singleton, hkey]
        · rw [hkept, List.zipWith_append hlength, List.append_assoc]
          rfl
      · exact ⟨[], [], rfl, rfl, rfl, rfl⟩

/-- Rows of the same keys are shown as a reconcile with all the rows before shows them. -/
theorem zipWith_keep {previous olds news : List T} (hnodup : (previous.map keyOf).Nodup)
    (hsub : ∀ old ∈ olds, old ∈ previous) (hkeys : olds.map keyOf = news.map keyOf) :
    List.zipWith (keep sameProps) olds news = news.map (reusedRow keyOf sameProps previous) := by
  induction olds generalizing news with
  | nil =>
    have hnil : news = [] := by simpa using hkeys.symm
    rw [hnil]
    rfl
  | cons old olds ih =>
    cases news with
    | nil => cases hkeys
    | cons incoming news =>
      rw [List.map_cons, List.map_cons, List.cons.injEq] at hkeys
      have hold := find?_keyOf hnodup (hsub old List.mem_cons_self) hkeys.1
      rw [List.zipWith_cons_cons, List.map_cons,
        ih (fun other hother => hsub other (List.mem_cons_of_mem _ hother)) hkeys.2]
      unfold reusedRow
      rw [hold]

theorem map_reusedRow_absent {previous news : List T}
    (h : ∀ incoming ∈ news, keyOf incoming ∉ previous.map keyOf) :
    news.map (reusedRow keyOf sameProps previous) = news := by
  have hself : ∀ incoming ∈ news, reusedRow keyOf sameProps previous incoming = incoming := by
    intro incoming hin
    unfold reusedRow
    rw [find?_keyOf_none (h incoming hin)]
  rw [List.map_congr_left hself, List.map_id']

theorem leftoverOf_apply (rows : List T) (key : String) (hnodup : (rows.map keyOf).Nodup) :
    leftoverOf keyOf rows key = rows.find? fun row => keyOf row = key := by
  have hfold : ∀ (rows : List T) (leftover : String → Option T), (rows.map keyOf).Nodup →
      rows.foldl (fun leftover row => Function.update leftover (keyOf row) (some row)) leftover key =
        (rows.find? fun row => keyOf row = key).or (leftover key) := by
    intro rows
    induction rows with
    | nil =>
      intro leftover _
      rfl
    | cons row rows ih =>
      intro leftover hnodup
      rw [List.map_cons, List.nodup_cons] at hnodup
      rw [List.foldl_cons, ih _ hnodup.2]
      by_cases hkey : keyOf row = key
      · have hnone := find?_keyOf_none (hkey ▸ hnodup.1)
        rw [hnone, List.find?_cons_of_pos (by simpa using hkey), ← hkey]
        simp
      · rw [List.find?_cons_of_neg (by simpa using hkey), Function.update_of_ne (Ne.symm hkey)]
  unfold leftoverOf
  rw [hfold rows _ hnodup]
  simp

/-- The rows in between, each with the row that is left over under its key. -/
theorem walkMiddle_eq (leftover : String → Option T) {next : List T}
    (hnodup : (next.map keyOf).Nodup) :
    walkMiddle keyOf sameProps leftover next = next.map fun incoming =>
      match leftover (keyOf incoming) with
      | none => incoming
      | some old => keep sameProps old incoming := by
  induction next generalizing leftover with
  | nil => rfl
  | cons incoming next ih =>
    rw [List.map_cons, List.nodup_cons] at hnodup
    unfold walkMiddle
    rw [List.map_cons]
    cases hfound : leftover (keyOf incoming) with
    | none => simp only [ih leftover hnodup.2]
    | some old =>
      simp only [ih (Function.update leftover (keyOf incoming) none) hnodup.2]
      congr 1
      apply List.map_congr_left
      intro other hother
      have hne : keyOf other ≠ keyOf incoming := by
        intro hsame
        exact hnodup.1 (hsame ▸ List.mem_map_of_mem hother)
      rw [Function.update_of_ne hne]

/-- The middle of two lists whose ends were walked is shown as a reconcile with all rows does. -/
theorem walkMiddle_reused {before oldMiddle after newStart newMiddle newEnd : List T}
    (hold : ((before ++ oldMiddle ++ after).map keyOf).Nodup)
    (hnew : ((newStart ++ newMiddle ++ newEnd).map keyOf).Nodup)
    (hstart : before.map keyOf = newStart.map keyOf) (hend : after.map keyOf = newEnd.map keyOf) :
    walkMiddle keyOf sameProps (leftoverOf keyOf oldMiddle) newMiddle =
      newMiddle.map (reusedRow keyOf sameProps (before ++ oldMiddle ++ after)) := by
  simp only [List.map_append, List.nodup_append, List.mem_append] at hold hnew
  rw [walkMiddle_eq _ hnew.1.2.1]
  apply List.map_congr_left
  intro incoming hincoming
  have hkey : keyOf incoming ∈ newMiddle.map keyOf := List.mem_map_of_mem hincoming
  have hbefore : keyOf incoming ∉ before.map keyOf := by
    intro hin
    exact hnew.1.2.2 _ (hstart ▸ hin) _ hkey rfl
  have hafter : keyOf incoming ∉ after.map keyOf := by
    intro hin
    exact hnew.2.2 _ (.inr hkey) _ (hend ▸ hin) rfl
  have hfind : (before ++ oldMiddle ++ after).find? (fun old => keyOf old = keyOf incoming) =
      oldMiddle.find? fun old => keyOf old = keyOf incoming := by
    rw [List.find?_append, List.find?_append, find?_keyOf_none hbefore, find?_keyOf_none hafter]
    simp
  unfold reusedRow
  rw [hfind, leftoverOf_apply oldMiddle _ hold.1.2.1]

theorem reusedRow_self (hself : ∀ row, sameProps row row = true) {rows : List T}
    (hnodup : (rows.map keyOf).Nodup) : rows.map (reusedRow keyOf sameProps rows) = rows := by
  have hsame : ∀ row ∈ rows, reusedRow keyOf sameProps rows row = row := by
    intro row hrow
    unfold reusedRow
    rw [find?_keyOf hnodup hrow rfl]
    exact if_pos (hself row)
  rw [List.map_congr_left hsame, List.map_id']

theorem mem_drop_of_nodup {before after : List T} (h : ((before ++ after).map keyOf).Nodup) :
    ∀ row ∈ after, keyOf row ∉ before.map keyOf := by
  intro row hrow hin
  rw [List.map_append, List.nodup_append] at h
  exact h.2.2 _ hin _ (List.mem_map_of_mem hrow) rfl

section Identity

variable [DecidableEq T]

/-- What a walk has come to after these rows of the list before were shown as those. -/
structure StartWalk.Shows (walk : StartWalk T) (sameLength : Bool) (olds rows : List T) : Prop where
  kept : walk.kept = rows
  length : rows.length = olds.length
  unchanged : walk.unchanged = true → sameLength = true ∧ rows = olds
  prefix_le : walk.unchangedPrefix ≤ rows.length
  unchangedPrefix : rows.take walk.unchangedPrefix = olds.take walk.unchangedPrefix

theorem StartWalk.Shows.push {walk : StartWalk T} {sameLength : Bool} {olds rows : List T}
    (h : walk.Shows sameLength olds rows) (old row : T) :
    (walk.push old row).Shows sameLength (olds ++ [old]) (rows ++ [row]) where
  kept := by rw [← h.kept]; rfl
  length := by rw [List.length_append, List.length_append, h.length]; rfl
  unchanged := by
    intro hunchanged
    have hboth : walk.unchanged = true ∧ row = old := by simpa [StartWalk.push] using hunchanged
    obtain ⟨hsame, hrows⟩ := h.unchanged hboth.1
    exact ⟨hsame, by rw [hrows, hboth.2]⟩
  prefix_le := by
    have hle := h.prefix_le
    rw [List.length_append, List.length_singleton]
    unfold StartWalk.push
    split
    · simp only
      omega
    · simp only
      omega
  unchangedPrefix := by
    have hle := h.prefix_le
    have hlength := h.length
    unfold StartWalk.push
    split
    · next hrow =>
      obtain ⟨rfl, hall⟩ := hrow
      rw [h.kept] at hall
      have holds := h.unchangedPrefix
      rw [hall, List.take_length, hlength, List.take_length] at holds
      rw [holds]
    · simp only
      rw [List.take_append_of_le_length hle, List.take_append_of_le_length (hlength ▸ hle)]
      exact h.unchangedPrefix

/-- A walk from the start takes rows of the same keys off both lists. -/
theorem walkStart_spec {walk : StartWalk T} {sameLength : Bool} {seen rows : List T}
    (h : walk.Shows sameLength seen rows) (previous next : List T) :
    ∃ olds news, previous = olds ++ (walkStart keyOf sameProps walk previous next).2.1 ∧
      next = news ++ (walkStart keyOf sameProps walk previous next).2.2 ∧
      olds.map keyOf = news.map keyOf ∧
      (walkStart keyOf sameProps walk previous next).1.Shows sameLength (seen ++ olds)
        (rows ++ List.zipWith (keep sameProps) olds news) := by
  induction previous generalizing walk seen rows next with
  | nil =>
    have hstop : walkStart keyOf sameProps walk [] next = (walk, [], next) := by
      cases next with
      | nil => rfl
      | cons incoming next => rfl
    rw [hstop]
    exact ⟨[], [], rfl, rfl, rfl, by simpa using h⟩
  | cons old previous ih =>
    cases next with
    | nil =>
      have hstop : walkStart keyOf sameProps walk (old :: previous) [] = (walk, old :: previous, []) :=
        rfl
      rw [hstop]
      exact ⟨[], [], rfl, rfl, rfl, by simpa using h⟩
    | cons incoming next =>
      unfold walkStart
      split
      · next hkey =>
        obtain ⟨olds, news, hprevious, hnext, hkeys, hshows⟩ :=
          ih (h.push old (keep sameProps old incoming)) next
        refine ⟨old :: olds, incoming :: news, ?_, ?_, ?_, ?_⟩
        · rw [List.cons_append, ← hprevious]
        · rw [List.cons_append, ← hnext]
        · rw [List.map_cons, List.map_cons, hkey, hkeys]
        · simpa using hshows
      · exact ⟨[], [], rfl, rfl, rfl, by simpa using h⟩

/-- A reconcile of different arrays with rows. -/
theorem reuseKeyedList_rows {previous next : List T} (hprevious : (previous.map keyOf).Nodup)
    (hnext : (next.map keyOf).Nodup) (hold : previous.length ≠ 0) (hnew : next.length ≠ 0) :
    let reuse := reuseKeyedList keyOf sameProps false previous next
    reuse.items.toList previous next = next.map (reusedRow keyOf sameProps previous) ∧
      (reuse.same = true → reuse.items = .previous) ∧
      ∃ rows, rows.take reuse.unchangedPrefix = previous.take reuse.unchangedPrefix ∧
        reuse.unchangedPrefix ≤ rows.length ∧
        rows <+: next.map (reusedRow keyOf sameProps previous) := by
  intro reuse
  simp only [reuse]
  clear reuse
  have hbegin : ({ unchanged := previous.length = next.length } : StartWalk T).Shows
      (previous.length = next.length) [] [] :=
    ⟨rfl, rfl, fun h => ⟨h, rfl⟩, Nat.le_refl _, rfl⟩
  obtain ⟨olds, news, hprev, hincoming, hkeys, hshows⟩ :=
    @walkStart_spec T keyOf sameProps _ _ _ _ _ hbegin previous next
  unfold reuseKeyedList
  rw [if_neg (by decide), if_neg hnew, if_neg hold]
  generalize walkStart keyOf sameProps _ previous next = walked at hprev hincoming hshows
  obtain ⟨walk, removed, added⟩ := walked
  simp only [List.nil_append] at hprev hincoming hshows
  subst hprev hincoming
  have hlength : olds.length = news.length := by simpa using congrArg List.length hkeys
  have hstart := @zipWith_keep T keyOf sameProps _ _ _ hprevious
    (fun old hin => List.mem_append_left removed hin) hkeys
  have hkept := hshows.kept
  rw [hstart] at hshows hkept
  -- The rows that were walked from the start are the first that are shown.
  have hprefix : ∃ rows : List T,
      rows.take walk.unchangedPrefix = (olds ++ removed).take walk.unchangedPrefix ∧
        walk.unchangedPrefix ≤ rows.length ∧
        rows <+: (news ++ added).map (reusedRow keyOf sameProps (olds ++ removed)) := by
    refine ⟨news.map (reusedRow keyOf sameProps (olds ++ removed)), ?_, hshows.prefix_le, ?_⟩
    · have hle := hshows.prefix_le
      rw [hshows.length] at hle
      rw [List.take_append_of_le_length hle]
      exact hshows.unchangedPrefix
    · rw [List.map_append]
      exact List.prefix_append _ _
  cases removed with
  | nil =>
    cases added with
    | nil =>
      refine ⟨?_, ?_, hprefix⟩
      · simp only [List.append_nil] at hshows hkept ⊢
        split
        · next hunchanged => exact (hshows.unchanged hunchanged).2.symm
        · exact hkept
      · intro hsame
        exact if_pos hsame
    | cons first added =>
      refine ⟨?_, ?_, hprefix⟩
      · have habsent : (first :: added).map (reusedRow keyOf sameProps (olds ++ [])) =
            first :: added := by
          apply map_reusedRow_absent
          rw [List.append_nil, hkeys]
          exact mem_drop_of_nodup hnext
        rw [List.map_append, habsent, ← hkept]
        rfl
      · intro hsame
        cases hsame
  | cons last removed =>
    cases added with
    | nil =>
      refine ⟨?_, ?_, hprefix⟩
      · have hshown : (if walk.unchangedPrefix = (news ++ []).length then
              (olds ++ last :: removed).take (news ++ []).length else walk.kept) =
            news.map (reusedRow keyOf sameProps (olds ++ last :: removed)) := by
          split
          · next hall =>
            have hsame := hshows.unchangedPrefix
            rw [hall, List.append_nil, List.take_of_length_le (by simp),
              List.take_of_length_le (by omega)] at hsame
            rw [List.append_nil, ← hlength, List.take_left', hsame]
            rfl
          · exact hkept
        simp only [List.append_nil] at hshown ⊢
        exact hshown
      · intro hsame
        cases hsame
    | cons first added =>
      obtain ⟨oldEnd, newEnd, hprevEnd, hnextEnd, hkeysEnd, hkeptEnd⟩ :=
        @walkEnd_spec T keyOf sameProps [] (last :: removed).reverse (first :: added).reverse
      refine ⟨?_, ?_, hprefix⟩
      · simp only
        generalize walkEnd keyOf sameProps [] (last :: removed).reverse (first :: added).reverse =
          walkedEnd at hprevEnd hnextEnd hkeptEnd
        obtain ⟨kept, oldMiddle, newMiddle⟩ := walkedEnd
        simp only [List.append_nil] at hprevEnd hnextEnd hkeptEnd
        rw [List.reverse_eq_iff, List.reverse_append, List.reverse_reverse] at hprevEnd hnextEnd
        rw [hprevEnd, ← List.append_assoc] at hprevious hkept ⊢
        rw [hnextEnd, ← List.append_assoc] at hnext ⊢
        have hend := @zipWith_keep T keyOf sameProps _ _ _ hprevious
          (fun old hin => List.mem_append_right _ hin) hkeysEnd
        rw [← hkeptEnd] at hend
        have hmiddle := @walkMiddle_reused T keyOf sameProps _ _ _ _ _ _ hprevious hnext hkeys hkeysEnd
        rw [List.map_append, List.map_append, ← hkept, ← hmiddle, ← hend]
        rfl
      · intro hsame
        cases hsame

/-- A reconcile shows for every incoming row the row before of its key where their properties are
the same, and says what it has kept: the very list before when it says `same`, and as many rows
from the start as it counts. -/
theorem reuseKeyedList_spec (hself : ∀ row, sameProps row row = true) {identical : Bool}
    {previous next : List T} (hidentical : identical = true → previous = next)
    (hprevious : (previous.map keyOf).Nodup) (hnext : (next.map keyOf).Nodup) :
    let reuse := reuseKeyedList keyOf sameProps identical previous next
    reuse.items.toList previous next = next.map (reusedRow keyOf sameProps previous) ∧
      (reuse.same = true → reuse.items = .previous) ∧
      reuse.unchangedPrefix ≤ (reuse.items.toList previous next).length ∧
      (reuse.items.toList previous next).take reuse.unchangedPrefix =
        previous.take reuse.unchangedPrefix := by
  intro reuse
  simp only [reuse]
  clear reuse
  cases identical with
  | true =>
    obtain rfl := hidentical rfl
    exact ⟨(reusedRow_self hself hprevious).symm, fun _ => rfl, Nat.le_refl _, rfl⟩
  | false =>
    by_cases hempty : next.length = 0
    · obtain rfl := List.length_eq_zero_iff.mp hempty
      unfold reuseKeyedList
      rw [if_neg (by decide), if_pos List.length_nil]
      by_cases hnone : previous.length = 0
      · obtain rfl := List.length_eq_zero_iff.mp hnone
        exact ⟨rfl, fun _ => rfl, Nat.le_refl _, rfl⟩
      · rw [if_neg hnone]
        refine ⟨rfl, ?_, Nat.zero_le _, rfl⟩
        intro hsame
        exact absurd (of_decide_eq_true hsame) hnone
    · by_cases hnone : previous.length = 0
      · obtain rfl := List.length_eq_zero_iff.mp hnone
        unfold reuseKeyedList
        rw [if_neg (by decide), if_neg hempty, if_pos List.length_nil]
        refine ⟨(map_reusedRow_absent (by simp)).symm, ?_, Nat.zero_le _, rfl⟩
        intro hsame
        cases hsame
      · obtain ⟨hitems, hsame, rows, hrows, hle, hprefix⟩ :=
          @reuseKeyedList_rows T keyOf sameProps _ _ _ hprevious hnext hnone hempty
        refine ⟨hitems, hsame, ?_, ?_⟩
        · rw [hitems]
          exact Nat.le_trans hle hprefix.length_le
        · rw [hitems, ← hrows]
          obtain ⟨others, hothers⟩ := hprefix
          rw [← hothers, List.take_append_of_le_length hle]

/-! ## What is shown, whatever the keys -/

omit [DecidableEq T] in
theorem leftoverOf_mem {rows : List T} {key : String} {old : T}
    (h : leftoverOf keyOf rows key = some old) : old ∈ rows ∧ keyOf old = key := by
  have hfold : ∀ (rows : List T) (leftover : String → Option T),
      rows.foldl (fun leftover row => Function.update leftover (keyOf row) (some row)) leftover key =
          some old →
        old ∈ rows ∧ keyOf old = key ∨ leftover key = some old := by
    intro rows
    induction rows with
    | nil =>
      intro leftover hfound
      exact .inr hfound
    | cons row rows ih =>
      intro leftover hfound
      rcases ih _ hfound with ⟨hmem, hkey⟩ | hlater
      · exact .inl ⟨List.mem_cons_of_mem _ hmem, hkey⟩
      · simp only [Function.update_apply] at hlater
        split at hlater
        · next hkey =>
          obtain rfl := Option.some.inj hlater
          exact .inl ⟨List.mem_cons_self, hkey.symm⟩
        · exact .inr hlater
  rcases hfold rows _ h with hfound | hnone
  · exact hfound
  · cases hnone

variable (keyOf sameProps) in
/-- A row is shown for an incoming one: itself, or a row before of its key that is taken for the
same. -/
def ShownFor (previous : List T) (row incoming : T) : Prop :=
  row = incoming ∨ row ∈ previous ∧ keyOf row = keyOf incoming ∧ sameProps row incoming = true

omit [DecidableEq T] in
theorem shownFor_keep {previous : List T} {old incoming : T} (hold : old ∈ previous)
    (hkey : keyOf old = keyOf incoming) :
    ShownFor keyOf sameProps previous (keep sameProps old incoming) incoming := by
  unfold keep
  split
  · next hsame => exact .inr ⟨hold, hkey, hsame⟩
  · exact .inl rfl

omit [DecidableEq T] in
theorem shownFor_zipWith {previous olds news : List T} (hsub : ∀ old ∈ olds, old ∈ previous)
    (hkeys : olds.map keyOf = news.map keyOf) :
    List.Forall₂ (ShownFor keyOf sameProps previous) (List.zipWith (keep sameProps) olds news)
      news := by
  induction olds generalizing news with
  | nil =>
    obtain rfl : news = [] := by simpa using hkeys.symm
    exact .nil
  | cons old olds ih =>
    cases news with
    | nil => cases hkeys
    | cons incoming news =>
      rw [List.map_cons, List.map_cons, List.cons.injEq] at hkeys
      exact .cons (shownFor_keep (hsub old List.mem_cons_self) hkeys.1)
        (ih (fun other hother => hsub other (List.mem_cons_of_mem _ hother)) hkeys.2)

omit [DecidableEq T] in
theorem shownFor_self (previous rows : List T) :
    List.Forall₂ (ShownFor keyOf sameProps previous) rows rows :=
  List.forall₂_same.mpr fun _ _ => .inl rfl

omit [DecidableEq T] in
theorem shownFor_walkMiddle {previous : List T} {leftover : String → Option T}
    (hleft : ∀ key old, leftover key = some old → old ∈ previous ∧ keyOf old = key)
    (next : List T) :
    List.Forall₂ (ShownFor keyOf sameProps previous) (walkMiddle keyOf sameProps leftover next)
      next := by
  induction next generalizing leftover with
  | nil => exact .nil
  | cons incoming next ih =>
    unfold walkMiddle
    cases hfound : leftover (keyOf incoming) with
    | none => exact .cons (.inl rfl) (ih hleft)
    | some old =>
      obtain ⟨hold, hkey⟩ := hleft _ _ hfound
      refine .cons (shownFor_keep hold hkey) (ih ?_)
      intro key other hother
      rw [Function.update_apply] at hother
      split at hother
      · cases hother
      · exact hleft key other hother

/-- Row by row, a reconcile of different arrays shows the rows that come in. -/
theorem reuseKeyedList_shown (previous next : List T) :
    List.Forall₂ (ShownFor keyOf sameProps previous)
      ((reuseKeyedList keyOf sameProps false previous next).items.toList previous next) next := by
  have hbegin : ({ unchanged := previous.length = next.length } : StartWalk T).Shows
      (previous.length = next.length) [] [] :=
    ⟨rfl, rfl, fun h => ⟨h, rfl⟩, Nat.le_refl _, rfl⟩
  obtain ⟨olds, news, hprevious, hnext, hkeys, hshows⟩ :=
    @walkStart_spec T keyOf sameProps _ _ _ _ _ hbegin previous next
  unfold reuseKeyedList
  rw [if_neg (by decide)]
  split
  · next hempty =>
    obtain rfl := List.length_eq_zero_iff.mp hempty
    split
    · next hnone =>
      obtain rfl := List.length_eq_zero_iff.mp hnone
      exact .nil
    · exact .nil
  split
  · exact shownFor_self previous next
  generalize walkStart keyOf sameProps _ previous next = walked at hprevious hnext hshows
  obtain ⟨walk, removed, added⟩ := walked
  simp only [List.nil_append] at hprevious hnext hshows
  have hlength : olds.length = news.length := by simpa using congrArg List.length hkeys
  have hsub : ∀ old ∈ olds, old ∈ previous := by
    intro old hold
    rw [hprevious]
    exact List.mem_append_left _ hold
  have hstart := @shownFor_zipWith T keyOf sameProps previous olds news hsub hkeys
  rw [← hshows.kept] at hstart
  cases removed with
  | nil =>
    cases added with
    | nil =>
      simp only [List.append_nil] at hprevious hnext
      simp only
      split
      · next hunchanged =>
        have hrows := (hshows.unchanged hunchanged).2
        rw [← hshows.kept] at hrows
        rw [hnext]
        rw [hrows, ← hprevious] at hstart
        exact hstart
      · rw [hnext]
        exact hstart
    | cons first added =>
      rw [hnext]
      exact List.rel_append hstart (shownFor_self previous (first :: added))
  | cons last removed =>
    cases added with
    | nil =>
      simp only [List.append_nil] at hnext
      subst hnext
      simp only
      split
      · next hall =>
        have hsame := hshows.unchangedPrefix
        rw [← hshows.kept, hall, List.take_of_length_le (by rw [hshows.kept]; simp [hlength]),
          List.take_of_length_le (Nat.le_of_eq hlength)] at hsame
        have htake : previous.take next.length = olds := by rw [hprevious, List.take_left' hlength]
        rw [hsame, ← htake] at hstart
        exact hstart
      · exact hstart
    | cons first added =>
      obtain ⟨oldEnd, newEnd, hprevEnd, hnextEnd, hkeysEnd, hkeptEnd⟩ :=
        @walkEnd_spec T keyOf sameProps [] (last :: removed).reverse (first :: added).reverse
      simp only
      generalize walkEnd keyOf sameProps [] (last :: removed).reverse (first :: added).reverse =
        walkedEnd at hprevEnd hnextEnd hkeptEnd
      obtain ⟨kept, oldMiddle, newMiddle⟩ := walkedEnd
      simp only [List.append_nil] at hprevEnd hnextEnd hkeptEnd
      rw [List.reverse_eq_iff, List.reverse_append, List.reverse_reverse] at hprevEnd hnextEnd
      have hall : next = news ++ newMiddle.reverse ++ newEnd := by
        rw [hnext, hnextEnd, List.append_assoc]
      have hmiddle : ∀ key old, leftoverOf keyOf oldMiddle.reverse key = some old →
          old ∈ previous ∧ keyOf old = key := by
        intro key old hfound
        obtain ⟨hold, hkey⟩ := leftoverOf_mem hfound
        rw [hprevious, hprevEnd]
        exact ⟨List.mem_append_right _ (List.mem_append_left _ hold), hkey⟩
      have hendSub : ∀ old ∈ oldEnd, old ∈ previous := by
        intro old hold
        rw [hprevious, hprevEnd]
        exact List.mem_append_right _ (List.mem_append_right _ hold)
      rw [hall]
      refine List.rel_append (List.rel_append hstart (shownFor_walkMiddle hmiddle _)) ?_
      rw [hkeptEnd]
      exact shownFor_zipWith hendSub hkeysEnd

end Identity

end Reuse

end Regenic.Desktop
