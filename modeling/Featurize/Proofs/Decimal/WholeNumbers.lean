import Featurize.Tensor.Columns
import Mathlib.Algebra.Order.Field.Rat
import Mathlib.Algebra.Order.Ring.Cast
import Mathlib.Data.Int.Cast.Lemmas
import Mathlib.Data.Nat.Cast.Field

/-!
Whole numbers among the doubles. A finite double is a rational number, and the whole number that
is read from it is this number: there is none if the double is a fraction, infinite or not a
number. Up to two to the fifty-third, every count is a double itself, so the numbers of that many
classes are exactly the doubles that are whole, not negative and below their count.
-/

namespace Featurize

def Double.rational? (value : Double) : Option ℚ :=
  match Decimal.Binary.ofDouble value with
  | .finite negative significand exponent =>
      some ((if negative then -1 else 1) * ((significand : ℚ) * 2 ^ exponent))
  | _ => none

theorem Double.rational?_eq_iff {element : Double} {number other : Nat}
    (held : element.rational? = some (number : ℚ)) :
    element.rational? = some (other : ℚ) ↔ number = other := by
  rw [held, Option.some.injEq, Nat.cast_inj]

namespace Decimal

variable {ratio : Ratio} {element : Double}

/-! ### Fractions -/

def Ratio.toRat (ratio : Ratio) : ℚ := ratio.numerator / ratio.denominator

theorem Ratio.toRat_nonneg (ratio : Ratio) : 0 ≤ ratio.toRat :=
  div_nonneg (Nat.cast_nonneg _) (Nat.cast_nonneg _)

theorem Ratio.denominator_scaled_pos (significand : Nat) (exponent : Int) :
    0 < (scaled significand exponent).denominator :=
  Nat.pow_pos (by decide)

theorem Ratio.toRat_scaled (significand : Nat) (exponent : Int) :
    (scaled significand exponent).toRat = significand * 2 ^ exponent := by
  unfold toRat scaled
  obtain ⟨places, rfl | rfl⟩ := exponent.eq_nat_or_neg
  · simp only [Int.toNat_natCast, Int.toNat_neg_natCast, Nat.pow_eq, Nat.cast_mul, Nat.cast_pow,
      Nat.cast_ofNat, pow_zero, Nat.cast_one, div_one, zpow_natCast]
  · simp only [neg_neg, Int.toNat_natCast, Int.toNat_neg_natCast, Nat.pow_eq, Nat.cast_pow,
      Nat.cast_ofNat, pow_zero, mul_one, zpow_neg, zpow_natCast, div_eq_mul_inv]

theorem Ratio.toRat_of_divides (divides : ratio.numerator % ratio.denominator = 0) :
    ratio.toRat = ((ratio.floor : Int) : ℚ) := by
  rw [Int.cast_natCast, floor, Nat.cast_div_charZero (Nat.dvd_of_mod_eq_zero divides), toRat]

theorem Ratio.divides_of_toRat (positive : 0 < ratio.denominator) {number : Nat}
    (whole : ratio.toRat = number) : ratio.numerator % ratio.denominator = 0 := by
  have some : (ratio.denominator : ℚ) ≠ 0 := Nat.cast_ne_zero.mpr (Nat.ne_of_gt positive)
  have product : (ratio.numerator : ℚ) = (number * ratio.denominator : Nat) := by
    rw [Nat.cast_mul, ← div_eq_iff some]
    exact whole
  rw [Nat.cast_injective product]
  exact Nat.mul_mod_left _ _

theorem Ratio.signed_eq_some_iff (positive : 0 < ratio.denominator) {negative : Bool}
    {number : Int} :
    (if ratio.numerator % ratio.denominator = 0 then
        some (if negative then -(ratio.floor : Int) else ratio.floor) else none) = some number ↔
      (if negative then -1 else 1) * ratio.toRat = number := by
  by_cases divides : ratio.numerator % ratio.denominator = 0
  · rw [if_pos divides, Option.some.injEq, toRat_of_divides divides]
    cases negative with
    | false =>
        rw [if_neg Bool.false_ne_true, if_neg Bool.false_ne_true, one_mul, Int.cast_inj]
    | true =>
        rw [if_pos rfl, if_pos rfl, neg_one_mul, ← Int.cast_neg, Int.cast_inj]
  · rw [if_neg divides]
    refine iff_of_false nofun fun signed => divides ?_
    have absolute : |(if negative then -1 else 1) * ratio.toRat| = ratio.toRat := by
      cases negative with
      | false => rw [if_neg Bool.false_ne_true, one_mul, abs_of_nonneg ratio.toRat_nonneg]
      | true => rw [if_pos rfl, neg_one_mul, abs_neg, abs_of_nonneg ratio.toRat_nonneg]
    rw [signed, ← Int.cast_abs, Int.abs_eq_natAbs, Int.cast_natCast] at absolute
    exact divides_of_toRat positive absolute.symm

/-! ### Doubles -/

theorem whole?_eq_some_iff {number : Int} :
    whole? element = some number ↔ element.rational? = some (number : ℚ) := by
  unfold whole? Double.rational?
  cases Binary.ofDouble element with
  | notANumber negative => exact iff_of_false nofun nofun
  | infinite negative => exact iff_of_false nofun nofun
  | finite negative significand exponent =>
      simp only
      rw [Option.some.injEq, ← Ratio.toRat_scaled]
      exact Ratio.signed_eq_some_iff (Ratio.denominator_scaled_pos significand exponent)

theorem nearestWhole_of_le {count : Nat} (few : count ≤ 9007199254740992) :
    nearestWhole count = count := by
  rcases Nat.lt_or_eq_of_le few with fewer | limit
  · exact nearestWhole_of_lt fewer
  · rw [limit]
    rfl

end Decimal

/-- The number of a class is a whole number, not negative and below the number of classes. -/
theorem Tensor.classNumber_eq_ok_iff {classes number : Nat} {element : Double}
    (few : classes ≤ 9007199254740992) :
    classNumber classes element = .ok number ↔
      number < classes ∧ element.rational? = some (number : ℚ) := by
  rw [← Int.cast_natCast, ← Decimal.whole?_eq_some_iff, classNumber,
    Decimal.nearestWhole_of_le few]
  cases Decimal.whole? element with
  | none => exact iff_of_false nofun fun both => nomatch both.2
  | some whole =>
      simp only [Option.some.injEq]
      by_cases inside : 0 ≤ whole ∧ whole < classes
      · rw [if_pos inside, Except.ok.injEq]
        omega
      · rw [if_neg inside]
        refine iff_of_false nofun fun both => inside ?_
        omega

end Featurize
