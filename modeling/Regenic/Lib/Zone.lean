import Mathlib.Tactic.Linarith
import Mathlib.Algebra.Order.Ring.Int

/-!
Local time in a zone whose offset changes now and then, all in milliseconds. A local time is
turned into an instant by guessing that the offset is the one in force at the same number of
milliseconds, and correcting the guess once. Where a local time occurs at all, the corrected
guess is one of its occurrences. It is the first instant from that local time on exactly when
the clock is not moved across it, or in one of two ways that the guess happens to suit.
-/

namespace Regenic.Lib

def hourMs : ℤ := 3600000

def dayMs : ℤ := 86400000

/-- A zone by its offset: whole minutes, a day at most, and no more than one transition of at
most two hours within two days. -/
structure Zone where
  offset : ℤ → ℤ
  wholeMinutes : ∀ t, offset t % 60000 = 0
  bounded : ∀ t, |offset t| ≤ dayMs
  transition : ∀ start, ∃ change before after, |after - before| ≤ 2 * hourMs ∧
    ∀ t, start ≤ t → t ≤ start + 2 * dayMs → offset t = if t < change then before else after

namespace Zone

variable (zone : Zone)

/-- The local time of an instant. -/
def localTime (t : ℤ) : ℤ := t + zone.offset t

/-- The instant of a local time, by a guess that is corrected once. -/
def instant (l : ℤ) : ℤ :=
  let guess := l - zone.offset l
  if zone.offset guess ≠ zone.offset l then l - zone.offset guess else guess

/-- The corrected guess is right where there is a right one. -/
theorem localTime_instant {l t : ℤ} (h : zone.localTime t = l) :
    zone.localTime (zone.instant l) = l := by
  obtain ⟨change, before, after, -, hwindow⟩ := zone.transition (l - dayMs)
  have hspan : ∀ s, l - dayMs ≤ s → s ≤ l + dayMs →
      zone.offset s = if s < change then before else after :=
    fun s hlow hhigh => hwindow s hlow (by linarith)
  have hnear : ∀ s, |zone.offset s| ≤ dayMs → l - dayMs ≤ l - zone.offset s ∧
      l - zone.offset s ≤ l + dayMs := by
    intro s hs
    obtain ⟨hlow, hhigh⟩ := abs_le.mp hs
    constructor <;> linarith
  have hl := hspan l (by unfold dayMs; linarith) (by unfold dayMs; linarith)
  have hguess := hspan _ (hnear l (zone.bounded l)).1 (hnear l (zone.bounded l)).2
  have hself : t = l - zone.offset t := by
    unfold localTime at h
    linarith
  have ht := hspan t (by rw [hself]; exact (hnear t (zone.bounded t)).1)
    (by rw [hself]; exact (hnear t (zone.bounded t)).2)
  have hcorrected := hspan _ (hnear (l - zone.offset l) (zone.bounded _)).1
    (hnear (l - zone.offset l) (zone.bounded _)).2
  unfold instant localTime
  simp only
  -- each of the four instants lies on one side of the transition
  by_cases hchanged : zone.offset (l - zone.offset l) = zone.offset l
  · rw [if_neg (not_not.mpr hchanged), hchanged]
    omega
  · rw [if_pos hchanged]
    split at hl <;> split at hguess <;> split at ht <;> split at hcorrected <;> omega

/-! ## The first instant from a local time on -/

/-- The clock is moved once within a day of `l`. -/
structure ChangesNear (l change before after : ℤ) : Prop where
  low : l - dayMs < change
  high : change ≤ l + dayMs
  offset : ∀ t, l - dayMs ≤ t → t ≤ l + dayMs →
    zone.offset t = if t < change then before else after

/-- The local times of all instants from `s` on, and of no others, are `l` or later. -/
def StartsAt (l s : ℤ) : Prop := ∀ t, l ≤ zone.localTime t ↔ s ≤ t

/-- A clock that is put forward past `l` is put forward from `l`, at an offset that is not
negative; a clock that is put back past `l` is put back to `l`, to a negative offset. -/
def GuessSuits (l : ℤ) : Prop :=
  ∀ change before after, zone.ChangesNear l change before after →
    (change + before ≤ l → l < change + after → l = change + before ∧ 0 ≤ before) ∧
      (change + after ≤ l → l < change + before → l = change + after ∧ after < 0)

theorem instant_eq (l : ℤ) : zone.instant l = l - zone.offset (l - zone.offset l) := by
  unfold instant
  by_cases hsame : zone.offset (l - zone.offset l) = zone.offset l
  · simp only [hsame, ne_eq, not_true_eq_false, if_false]
  · simp only [hsame, ne_eq, not_false_iff, if_true]

theorem offset_bounds (t : ℤ) : -dayMs ≤ zone.offset t ∧ zone.offset t ≤ dayMs :=
  abs_le.mp (zone.bounded t)

/-- Within a day of `l` the offset is constant, or the clock is moved once. -/
theorem near_cases (l : ℤ) :
    (∃ c, ∀ t, l - dayMs ≤ t → t ≤ l + dayMs → zone.offset t = c) ∨
      ∃ change before after, |after - before| ≤ 2 * hourMs ∧
        zone.ChangesNear l change before after := by
  obtain ⟨change, before, after, hstep, hwindow⟩ := zone.transition (l - dayMs)
  have hspan : ∀ t, l - dayMs ≤ t → t ≤ l + dayMs →
      zone.offset t = if t < change then before else after :=
    fun t hlow hhigh => hwindow t hlow (by linarith)
  rcases lt_or_ge (l - dayMs) change with hlow | hlow
  · rcases lt_or_ge (l + dayMs) change with hhigh | hhigh
    · left
      refine ⟨before, fun t ht ht' => ?_⟩
      rw [hspan t ht ht', if_pos (by omega)]
    · right
      exact ⟨change, before, after, hstep, hlow, hhigh, hspan⟩
  · left
    refine ⟨after, fun t ht ht' => ?_⟩
    rw [hspan t ht ht', if_neg (by omega)]

/-- Instants more than a day from `l` are on the same side of it on every local clock. -/
theorem startsAt_of_near {l s : ℤ} (hlow : l - dayMs ≤ s) (hhigh : s ≤ l + dayMs)
    (hnear : ∀ t, l - dayMs ≤ t → t ≤ l + dayMs → (l ≤ zone.localTime t ↔ s ≤ t)) :
    zone.StartsAt l s := by
  intro t
  have hbounds := zone.offset_bounds t
  rcases lt_or_ge t (l - dayMs) with hbefore | hbefore
  · unfold localTime
    omega
  · rcases lt_or_ge (l + dayMs) t with hafter | hafter
    · unfold localTime
      omega
    · exact hnear t hbefore hafter

/-- The guess that suits is right. -/
theorem startsAt_instant {l : ℤ} (h : zone.GuessSuits l) :
    zone.StartsAt l (zone.instant l) := by
  have hself := zone.offset_bounds l
  have hback := zone.offset_bounds (l - zone.offset l)
  rw [instant_eq]
  apply zone.startsAt_of_near (by omega) (by omega)
  intro t hlow hhigh
  unfold localTime
  rcases zone.near_cases l with ⟨c, hconstant⟩ | ⟨change, before, after, -, hchange⟩
  · rw [hconstant t hlow hhigh, hconstant _ (by omega) (by omega)]
    omega
  · obtain ⟨hforward, hbackward⟩ := h change before after hchange
    have ht := hchange.offset t hlow hhigh
    have hl := hchange.offset l (by omega) (by omega)
    have hguess := hchange.offset (l - zone.offset l) (by omega) (by omega)
    split at ht <;> split at hl <;> split at hguess <;> omega

/-- Offsets within a day of `l` are at most two hours apart. -/
theorem offset_near {l s t : ℤ} (hs : l - dayMs ≤ s) (hs' : s ≤ l + dayMs) (ht : l - dayMs ≤ t)
    (ht' : t ≤ l + dayMs) : zone.offset s - zone.offset t ≤ 2 * hourMs := by
  rcases zone.near_cases l with ⟨c, hconstant⟩ | ⟨change, before, after, hstep, hchange⟩
  · rw [hconstant s hs hs', hconstant t ht ht']
    unfold hourMs
    omega
  · have hsteps := abs_le.mp hstep
    have hoffset := hchange.offset s hs hs'
    have hoffset' := hchange.offset t ht ht'
    unfold hourMs at *
    split at hoffset <;> split at hoffset' <;> omega

/-- A guess lies within two hours of the instant by any offset of that time. -/
theorem instant_near {l t : ℤ} (ht : l - dayMs ≤ t) (ht' : t ≤ l + dayMs) :
    zone.instant l ≤ l - zone.offset t + 2 * hourMs ∧
      l - zone.offset t - 2 * hourMs ≤ zone.instant l := by
  have hself := zone.offset_bounds l
  have hlow := zone.offset_near (l := l) (s := t) (t := l - zone.offset l) ht ht' (by omega)
    (by omega)
  have hhigh := zone.offset_near (l := l) (s := l - zone.offset l) (t := t) (by omega)
    (by omega) ht ht'
  rw [instant_eq]
  omega

/-- Where a guess does not suit, an instant of about that local time is on the wrong side. -/
theorem misplaced_of_not_suits {l : ℤ} (h : ¬ zone.GuessSuits l) :
    ∃ t, l - dayMs ≤ t ∧ t ≤ l + dayMs ∧ l - 2 * hourMs ≤ zone.localTime t ∧
      zone.localTime t ≤ l + 2 * hourMs ∧ ¬ (l ≤ zone.localTime t ↔ zone.instant l ≤ t) := by
  unfold GuessSuits at h
  simp only [not_forall] at h
  obtain ⟨change, before, after, hchange, hunsuited⟩ := h
  have hself := zone.offset_bounds l
  have hl := hchange.offset l (by omega) (by omega)
  have hguess := hchange.offset (l - zone.offset l) (by omega) (by omega)
  have hbounds := zone.offset_bounds (l - zone.offset l)
  have hlow := hchange.low
  have hhigh := hchange.high
  have hfirst := hchange.offset change (by omega) hhigh
  rw [if_neg (lt_irrefl change)] at hfirst
  have hlast := hchange.offset (l - dayMs) le_rfl (by omega)
  rw [if_pos hlow] at hlast
  have hup := zone.offset_near (l := l) (s := change) (t := l - dayMs) (by omega) hhigh le_rfl
    (by omega)
  have hdown := zone.offset_near (l := l) (s := l - dayMs) (t := change) le_rfl (by omega)
    (by omega) hhigh
  have hbefore := zone.offset_bounds (l - dayMs)
  have hafter := zone.offset_bounds change
  rw [hfirst, hlast] at hup hdown
  rw [hlast] at hbefore
  rw [hfirst] at hafter
  have hinstant := zone.instant_eq l
  -- the misplaced instant is the change, the first midnight, or the guess
  by_cases hforward : change + before ≤ l ∧ l < change + after
  · by_cases hearly : l < change
    · rw [if_pos hearly] at hl
      rw [hl, if_neg (by omega)] at hguess
      have ht := hchange.offset (l - after) (by omega) (by omega)
      rw [if_pos (by omega)] at ht
      refine ⟨l - after, by omega, by omega, ?_⟩
      unfold localTime
      rw [hinstant, hl, hguess, ht]
      omega
    · rw [if_neg hearly] at hl
      rw [hl, if_pos (by omega)] at hguess
      refine ⟨change, by omega, hhigh, ?_⟩
      unfold localTime
      rw [hinstant, hl, hguess, hfirst]
      omega
  · by_cases hearly : l < change
    · rw [if_pos hearly] at hl
      rw [hl, if_pos (by omega)] at hguess
      refine ⟨change, by omega, hhigh, ?_⟩
      unfold localTime
      rw [hinstant, hl, hguess, hfirst]
      omega
    · rw [if_neg hearly] at hl
      rw [hl, if_neg (by omega)] at hguess
      have ht := hchange.offset (l - before) (by omega) (by omega)
      rw [if_pos (by omega)] at ht
      refine ⟨l - before, by omega, by omega, ?_⟩
      unfold localTime
      rw [hinstant, hl, hguess, ht]
      omega

/-- The instants of the day from `l` on are those between the two guesses exactly when both
guesses suit. -/
theorem between_instants_iff (l : ℤ) :
    (∀ t, (l ≤ zone.localTime t ∧ zone.localTime t < l + dayMs) ↔
      (zone.instant l ≤ t ∧ t < zone.instant (l + dayMs))) ↔
      zone.GuessSuits l ∧ zone.GuessSuits (l + dayMs) := by
  have hday : 24 * hourMs = dayMs := by decide
  have hhour : 0 < hourMs := by decide
  constructor
  · intro hbetween
    constructor
    · by_contra hunsuited
      obtain ⟨t, hlow, hhigh, hfrom, hto, hmisplaced⟩ := zone.misplaced_of_not_suits hunsuited
      have hnext := (zone.instant_near (l := l + dayMs) (t := l) (by omega) (by omega)).2
      have hstep := zone.offset_near (l := l) (s := l) (t := t) (by omega) (by omega) hlow hhigh
      have hthis := hbetween t
      unfold localTime at *
      omega
    · by_contra hunsuited
      obtain ⟨t, hlow, hhigh, hfrom, hto, hmisplaced⟩ := zone.misplaced_of_not_suits hunsuited
      have hnext := (zone.instant_near (l := l) (t := l + dayMs) (by omega) (by omega)).1
      have hstep := zone.offset_near (l := l + dayMs) (s := t) (t := l + dayMs) hlow hhigh
        (by omega) (by omega)
      have hthis := hbetween t
      unfold localTime at *
      omega
  · rintro ⟨hstart, hend⟩ t
    have hlow := zone.startsAt_instant hstart t
    have hhigh := zone.startsAt_instant hend t
    omega

/-- Local times a day or more apart are in the order of their instants. -/
theorem lt_of_localTime {s t : ℤ} (h : zone.localTime s + dayMs ≤ zone.localTime t) : s < t := by
  by_contra hle
  have hbounds := abs_le.mp (zone.bounded s)
  have hbounds' := abs_le.mp (zone.bounded t)
  obtain ⟨change, before, after, hstep, hwindow⟩ := zone.transition t
  unfold localTime at h
  have hs := hwindow s (by omega) (by omega)
  have ht := hwindow t (by omega) (by unfold dayMs; omega)
  have hsteps := abs_le.mp hstep
  unfold hourMs dayMs at *
  split at hs <;> split at ht <;> omega

end Zone

end Regenic.Lib
