import Regenic.Lib.Rounding

/-!
The numbers of JavaScript. A finite one is the rational that a `binary64` holds; zero has a
sign.
-/

namespace Regenic.Lib

def binary64 : BinaryFormat := ⟨52, -1074⟩

theorem nearest_zero : binary64.nearest 0 = 0 := by
  simp [BinaryFormat.nearest, roundEven]

/-- A finite number that is not the negative zero. -/
structure Double where
  value : ℚ
  held : binary64.nearest value = value
  bounded : |value| < 2 ^ 1024

namespace Double

theorem ext_value {x y : Double} (h : x.value = y.value) : x = y := by
  cases x
  cases y
  cases h
  rfl

instance : DecidableEq Double := fun x y =>
  decidable_of_iff (x.value = y.value) ⟨ext_value, fun h => h ▸ rfl⟩

def zero : Double := ⟨0, nearest_zero, by norm_num⟩

end Double

inductive JsNumber where
  | nan
  | infinity (negative : Bool)
  | negativeZero
  | finite (value : Double)
  deriving DecidableEq

namespace JsNumber

/-- The number nearest to a rational; one that rounds to zero keeps the sign it is written
with. -/
def ofRational (negative : Bool) (x : ℚ) : JsNumber :=
  if h : |binary64.nearest x| < 2 ^ 1024 then
    if binary64.nearest x = 0 ∧ negative then .negativeZero
    else .finite ⟨binary64.nearest x, binary64.nearest_nearest x, h⟩
  else .infinity negative

/-- What a finite number is worth; the sign of zero makes no difference. -/
def rational? : JsNumber → Option ℚ
  | .negativeZero => some 0
  | .finite x => some x.value
  | _ => none

/-- `Number.isFinite`. -/
def isFinite (x : JsNumber) : Bool := x.rational?.isSome

/-- `Object.is(value, -0) ? 0 : value`. -/
def unsigned : JsNumber → JsNumber
  | .negativeZero => .finite .zero
  | x => x

end JsNumber

/-! ## The numbers of the range of integers -/

theorem nearest_intCast {k : ℤ} (h : |k| < 2 ^ 53) : binary64.nearest (k : ℚ) = k := by
  by_cases hzero : k = 0
  · rw [hzero, Int.cast_zero, nearest_zero]
  · have hsmall : |(k : ℚ)| < 2 ^ (0 + (binary64.digits + 1) : ℤ) := by
      have hcast : ((|k| : ℤ) : ℚ) < ((2 ^ 53 : ℤ) : ℚ) := by exact_mod_cast h
      rw [← Int.cast_abs]
      exact hcast.trans_eq (by norm_cast)
    have hplace : binary64.lastPlace k ≤ 0 :=
      BinaryFormat.lastPlace_le (by decide) (Int.cast_ne_zero.mpr hzero) hsmall
    obtain ⟨more, hmore⟩ := @multiple_of_le k _ _ hplace
    exact BinaryFormat.nearest_of_multiple (by rw [← hmore, zpow_zero, mul_one])

/-- Rounding does not leave the numbers up to one. -/
theorem abs_nearest_le_one {x : ℚ} (h : |x| ≤ 1) : |binary64.nearest x| ≤ 1 := by
  by_cases hzero : x = 0
  · rw [hzero, nearest_zero]
    norm_num
  · have hplace : binary64.lastPlace x ≤ 0 :=
      BinaryFormat.lastPlace_le (by decide) hzero (h.trans_lt (by norm_num [binary64]))
    obtain ⟨digits, hdigits⟩ := Int.eq_ofNat_of_zero_le (Int.neg_nonneg_of_nonpos hplace)
    have hscale : (2 : ℚ) ^ binary64.lastPlace x = 1 / 2 ^ digits := by
      rw [show binary64.lastPlace x = -(digits : ℤ) by omega, zpow_neg, zpow_natCast, one_div]
    have hpos : (0 : ℚ) < 2 ^ digits := by positivity
    obtain ⟨hlow, hhigh⟩ := abs_le.mp h
    have habove : roundEven (x * 2 ^ digits) ≤ 2 ^ digits := by
      apply roundEven_le
      push_cast
      nlinarith
    have hbelow : -2 ^ digits ≤ roundEven (x * 2 ^ digits) := by
      apply le_roundEven
      push_cast
      nlinarith
    have hrounded : |(roundEven (x * 2 ^ digits) : ℚ)| ≤ 2 ^ digits :=
      abs_le.mpr ⟨by exact_mod_cast hbelow, by exact_mod_cast habove⟩
    unfold BinaryFormat.nearest
    rw [hscale, div_div_eq_mul_div, div_one, mul_one_div, abs_div, abs_of_pos hpos,
      div_le_one hpos]
    exact hrounded

/-- A safe integer. -/
def Double.ofInt (k : ℤ) (h : |k| < 2 ^ 53) : Double where
  value := k
  held := nearest_intCast h
  bounded := by
    have hcast : ((|k| : ℤ) : ℚ) < ((2 ^ 53 : ℤ) : ℚ) := by exact_mod_cast h
    rw [← Int.cast_abs]
    refine hcast.trans ?_
    rw [Int.cast_pow]
    exact pow_lt_pow_right₀ one_lt_two (by decide)

theorem JsNumber.ofRational_zero : JsNumber.ofRational false 0 = .finite .zero := by
  unfold JsNumber.ofRational
  rw [dif_pos (by rw [nearest_zero]; norm_num), if_neg (by simp)]
  exact congrArg JsNumber.finite (Double.ext_value nearest_zero)

/-- A number that rounds to what a double holds is read as that double. -/
theorem JsNumber.ofRational_held {negative : Bool} {x : ℚ} (d : Double)
    (hx : binary64.nearest x = d.value) (hne : d.value ≠ 0) :
    JsNumber.ofRational negative x = .finite d := by
  unfold JsNumber.ofRational
  rw [dif_pos (by rw [hx]; exact d.bounded), if_neg (by rw [hx]; exact fun h => hne h.1)]
  exact congrArg JsNumber.finite (Double.ext_value hx)

end Regenic.Lib
