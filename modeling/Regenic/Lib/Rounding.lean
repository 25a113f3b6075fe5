import Mathlib.Data.Int.Log
import Mathlib.Data.Rat.Floor
import Mathlib.Tactic.Linarith
import Mathlib.Tactic.FieldSimp

/-!
The rounding of a rational number to the nearest one of a binary format, ties to even, and the
numbers that a `Float32` holds. What a format holds is rounded to itself; numbers beyond its
largest one are left to its users.
-/

namespace Regenic.Lib

def roundEven (x : ℚ) : ℤ :=
  if x - ⌊x⌋ < 1 / 2 then ⌊x⌋
  else if 1 / 2 < x - ⌊x⌋ then ⌊x⌋ + 1
  else ⌊x⌋ + ⌊x⌋ % 2

/-- Numbers of so many binary digits after the first one; the last place of a subnormal number,
which has fewer of them, is the least. -/
structure BinaryFormat where
  digits : ℕ
  least : ℤ

namespace BinaryFormat

variable (format : BinaryFormat)

/-- The exponent of the last digit. -/
def lastPlace (x : ℚ) : ℤ := max (Int.log 2 |x| - format.digits) format.least

def nearest (x : ℚ) : ℚ := roundEven (x / 2 ^ format.lastPlace x) * 2 ^ format.lastPlace x

end BinaryFormat

/-! ## Rounding to an integer -/

theorem roundEven_intCast (k : ℤ) : roundEven (k : ℚ) = k := by
  simp [roundEven]

theorem roundEven_le {x : ℚ} {bound : ℤ} (hx : x ≤ bound) : roundEven x ≤ bound := by
  have hfloor : ⌊x⌋ ≤ bound := by
    have hcast : ((⌊x⌋ : ℤ) : ℚ) ≤ (bound : ℚ) := (Int.floor_le x).trans hx
    exact_mod_cast hcast
  have hparity := Int.emod_two_eq_zero_or_one ⌊x⌋
  by_cases hlast : ⌊x⌋ = bound
  · have hsmall : x - ⌊x⌋ < 1 / 2 := by
      rw [hlast]
      linarith
    unfold roundEven
    rw [if_pos hsmall]
    exact hfloor
  · unfold roundEven
    split
    · exact hfloor
    · split
      · omega
      · omega

theorem le_roundEven {x : ℚ} {bound : ℤ} (hx : (bound : ℚ) ≤ x) : bound ≤ roundEven x := by
  have hfloor : bound ≤ ⌊x⌋ := Int.le_floor.mpr hx
  have hparity := Int.emod_two_eq_zero_or_one ⌊x⌋
  unfold roundEven
  split
  · exact hfloor
  · split
    · omega
    · omega

theorem roundEven_neg (x : ℚ) : roundEven (-x) = -roundEven x := by
  rcases eq_or_ne x ⌊x⌋ with hinteger | hfraction
  · rw [hinteger, ← Int.cast_neg, roundEven_intCast, roundEven_intCast]
  · have hlow : 0 < x - ⌊x⌋ := by
      rcases (Int.floor_le x).lt_or_eq with hlt | heq
      · linarith
      · exact absurd heq.symm hfraction
    have hhigh := Int.lt_floor_add_one x
    have hfloor : ⌊-x⌋ = -⌊x⌋ - 1 := by
      rw [Int.floor_eq_iff]
      push_cast
      constructor
      · linarith
      · linarith
    have hrest : -x - ((-⌊x⌋ - 1 : ℤ) : ℚ) = 1 - (x - ⌊x⌋) := by
      push_cast
      ring
    have hparity := Int.emod_two_eq_zero_or_one ⌊x⌋
    unfold roundEven
    rw [hfloor, hrest]
    generalize x - ⌊x⌋ = rest at hlow
    rcases lt_trichotomy rest (1 / 2) with hlt | rfl | hgt
    · rw [if_neg (by linarith), if_pos (by linarith), if_pos hlt]
      omega
    · norm_num
      omega
    · rw [if_pos (by linarith), if_neg (by linarith), if_pos hgt]
      omega

/-- A multiple of a power of two is one of every smaller power. -/
theorem multiple_of_le {digits low high : ℤ} (h : low ≤ high) :
    ∃ more : ℤ, (digits : ℚ) * 2 ^ high = more * 2 ^ low := by
  obtain ⟨gap, hgap⟩ := Int.eq_ofNat_of_zero_le (Int.sub_nonneg_of_le h)
  refine ⟨digits * 2 ^ gap, ?_⟩
  have hhigh : high = gap + low := by omega
  rw [hhigh, zpow_add₀ two_ne_zero, zpow_natCast]
  push_cast
  ring

/-! ## Rounding to a format -/

namespace BinaryFormat

variable {format : BinaryFormat}

/-- A number with no digits behind the last is held as it is. -/
theorem nearest_of_multiple {x : ℚ} {digits : ℤ} (h : x = digits * 2 ^ format.lastPlace x) :
    format.nearest x = x := by
  have hpos : (2 : ℚ) ^ format.lastPlace x ≠ 0 := zpow_ne_zero _ two_ne_zero
  have hdigits : x / 2 ^ format.lastPlace x = (digits : ℚ) := by
    rw [div_eq_iff hpos]
    exact h
  unfold nearest
  rw [hdigits, roundEven_intCast]
  exact h.symm

theorem lastPlace_le {x : ℚ} {exponent : ℤ} (hlow : format.least ≤ exponent) (hne : x ≠ 0)
    (hx : |x| < 2 ^ (exponent + (format.digits + 1))) : format.lastPlace x ≤ exponent := by
  have hlog : Int.log 2 |x| < exponent + (format.digits + 1) := by
    apply (Int.lt_zpow_iff_log_lt Nat.one_lt_two (abs_pos.mpr hne)).mp
    exact_mod_cast hx
  unfold lastPlace
  omega

variable (format)

theorem abs_div_lastPlace_le (x : ℚ) :
    |x / 2 ^ format.lastPlace x| ≤ 2 ^ (format.digits + 1 : ℤ) := by
  have hpos : (0 : ℚ) < 2 ^ format.lastPlace x := zpow_pos two_pos _
  have hlog : |x| < (2 : ℚ) ^ (Int.log 2 |x| + 1) := by
    exact_mod_cast Int.lt_zpow_succ_log_self (b := 2) Nat.one_lt_two |x|
  have hexponent : Int.log 2 |x| + 1 ≤ format.digits + 1 + format.lastPlace x := by
    unfold lastPlace
    omega
  rw [abs_div, abs_of_pos hpos, div_le_iff₀ hpos, ← zpow_add₀ two_ne_zero]
  exact hlog.le.trans (zpow_le_zpow_right₀ one_le_two hexponent)

theorem abs_roundEven_lastPlace_le (x : ℚ) :
    |roundEven (x / 2 ^ format.lastPlace x)| ≤ 2 ^ (format.digits + 1) := by
  have habs := abs_le.mp (format.abs_div_lastPlace_le x)
  have hcast : (2 : ℚ) ^ (format.digits + 1 : ℤ) = ((2 ^ (format.digits + 1) : ℤ) : ℚ) := by
    norm_cast
  apply abs_le.mpr
  constructor
  · apply le_roundEven
    push_cast
    rw [hcast] at habs
    push_cast at habs
    exact habs.1
  · apply roundEven_le
    rw [← hcast]
    exact habs.2

/-- What is rounded once is held as it is. -/
theorem nearest_nearest (x : ℚ) : format.nearest (format.nearest x) = format.nearest x := by
  have hpos : (0 : ℚ) < 2 ^ format.lastPlace x := zpow_pos two_pos _
  have hlow : format.least ≤ format.lastPlace x := le_max_right _ _
  have hdigits := format.abs_roundEven_lastPlace_le x
  generalize hn : roundEven (x / 2 ^ format.lastPlace x) = digits at hdigits
  have hvalue : format.nearest x = digits * 2 ^ format.lastPlace x := by
    unfold nearest
    rw [hn]
  by_cases hzero : digits = 0
  · rw [hvalue, hzero]
    simp [nearest, roundEven]
  have hne : format.nearest x ≠ 0 := by
    rw [hvalue]
    exact mul_ne_zero (Int.cast_ne_zero.mpr hzero) hpos.ne'
  have habs : |format.nearest x| = (|digits| : ℤ) * 2 ^ format.lastPlace x := by
    rw [hvalue, abs_mul, abs_of_pos hpos, Int.cast_abs]
  rcases lt_or_eq_of_le hdigits with hlt | heq
  · -- No more digits than the format has: the last one stands where it stood.
    have hsmall : |format.nearest x| < 2 ^ (format.lastPlace x + (format.digits + 1)) := by
      rw [habs, add_comm, zpow_add₀ two_ne_zero]
      have hcast : ((|digits| : ℤ) : ℚ) < 2 ^ (format.digits + 1 : ℤ) := by exact_mod_cast hlt
      exact mul_lt_mul_of_pos_right hcast hpos
    obtain ⟨more, hmore⟩ := @multiple_of_le digits _ _ (lastPlace_le hlow hne hsmall)
    exact nearest_of_multiple (hvalue.trans hmore)
  · -- Rounded up to the next power of two.
    have hpower : |format.nearest x| = 2 ^ (format.lastPlace x + (format.digits + 1)) := by
      rw [habs, heq, zpow_add₀ two_ne_zero, mul_comm]
      norm_cast
    have hnext : |format.nearest x| < 2 ^ (format.lastPlace x + 1 + (format.digits + 1)) := by
      rw [hpower]
      exact zpow_lt_zpow_right₀ one_lt_two (by omega)
    have hplace : format.lastPlace (format.nearest x) ≤
        format.lastPlace x + (format.digits + 1) :=
      (lastPlace_le (by omega) hne hnext).trans (by omega)
    have hsign : ∃ sign : ℤ, format.nearest x =
        sign * 2 ^ (format.lastPlace x + (format.digits + 1)) := by
      rcases abs_choice (format.nearest x) with h | h
      · exact ⟨1, by rw [← hpower, h, Int.cast_one, one_mul]⟩
      · refine ⟨-1, ?_⟩
        rw [← hpower, h]
        push_cast
        ring
    obtain ⟨sign, hsigned⟩ := hsign
    obtain ⟨more, hmore⟩ := @multiple_of_le sign _ _ hplace
    exact nearest_of_multiple (hsigned.trans hmore)

theorem nearest_neg (x : ℚ) : format.nearest (-x) = -format.nearest x := by
  have hplace : format.lastPlace (-x) = format.lastPlace x := by
    unfold lastPlace
    rw [abs_neg]
  unfold nearest
  rw [hplace, neg_div, roundEven_neg, Int.cast_neg, neg_mul]

/-- What a format holds is a multiple of its least place. -/
theorem exists_multiple_least {x : ℚ} (h : format.nearest x = x) :
    ∃ digits : ℤ, x = digits * 2 ^ format.least := by
  obtain ⟨more, hmore⟩ := @multiple_of_le (roundEven (x / 2 ^ format.lastPlace x)) _ _
    (le_max_right (Int.log 2 |x| - format.digits) format.least)
  exact ⟨more, h.symm.trans hmore⟩

end BinaryFormat

/-! ## Float32 -/

/-- The exponent of the last of the 24 digits; subnormal numbers have fewer. -/
def ulpExponent (x : ℚ) : ℤ := max (Int.log 2 |x| - 23) (-149)

/-- `Math.fround`, the value that `writeFloatLE` writes. -/
def fround (x : ℚ) : ℚ := roundEven (x / 2 ^ ulpExponent x) * 2 ^ ulpExponent x

def binary32 : BinaryFormat := ⟨23, -149⟩

theorem fround_eq (x : ℚ) : fround x = binary32.nearest x := rfl

/-- What is rounded once is held as it is. -/
theorem fround_fround (x : ℚ) : fround (fround x) = fround x := by
  rw [fround_eq, fround_eq, binary32.nearest_nearest]

end Regenic.Lib
