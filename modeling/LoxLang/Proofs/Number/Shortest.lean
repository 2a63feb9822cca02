import LoxLang.Number.Decimal
import LoxLang.Proofs.Number.Rounding

/-!
# Shortest decimals

The decimal that is chosen for a number is one that the number is nearest to.

* `Decimal.value` is the rational number that a decimal stands for. The nearest magnitude depends on
  it alone (`Decimal.magnitude_congr`).
* `Number.shortest_magnitude`: whether the search finds a short decimal or the exact one is taken,
  the result reads back as the magnitude that it was made from.
-/

namespace LoxLang

namespace Decimal

/-! ## Values -/

/-- The rational number that a decimal stands for. -/
def value (x : Decimal) : ℚ := x.coefficient * (10 : ℚ) ^ x.exponent

theorem denominator_pos (x : Decimal) : 0 < x.denominator := Nat.pow_pos (by decide)

/-- The two natural numbers that a decimal is rounded by are its value in units of `2 ^ (-1074)`. -/
theorem numerator_div_denominator (x : Decimal) :
    (x.numerator : ℚ) / x.denominator = x.value * (Nat.pow 2 1074 : Nat) := by
  have hexponent : (10 : ℚ) ^ x.exponent = 10 ^ x.exponent.toNat / 10 ^ (-x.exponent).toNat := by
    rw [← zpow_natCast, ← zpow_natCast, ← zpow_sub₀ (by norm_num)]
    congr 1
    omega
  unfold numerator denominator value
  generalize Nat.pow 2 1074 = one
  simp only [Nat.pow_eq, hexponent]
  push_cast
  ring

/-- Decimals of one value are nearest to the same number. -/
theorem magnitude_congr {x y : Decimal} (h : x.value = y.value) : x.magnitude = y.magnitude := by
  refine Number.nearest_eq_of_ratio_eq x.denominator_pos y.denominator_pos ?_
  rw [numerator_div_denominator, numerator_div_denominator, h]

/-- Taking zeros off the end changes the digits, not the value. -/
theorem value_stripZeros (fuel : Nat) (x : Decimal) : (stripZeros fuel x).value = x.value := by
  induction fuel generalizing x with
  | zero => rfl
  | succ fuel ih =>
      unfold stripZeros
      split
      · rename_i hzero
        have hcoefficient : (x.coefficient : ℚ) = 10 * (x.coefficient / 10 : Nat) := by
          exact_mod_cast (Nat.mul_div_cancel' (Nat.dvd_of_mod_eq_zero hzero.1)).symm
        rw [ih, value, value, hcoefficient, zpow_add_one₀ (by norm_num)]
        ring
      · rfl

end Decimal

namespace Number

/-! ## Decimals that read back -/

/-- Five and two to some power make ten to that power, which the denominator takes away. -/
theorem nearest_ten_pow (u n : Nat) :
    nearest (u * Nat.pow 5 n * Nat.pow 10 0 * Nat.pow 2 n) (Nat.pow 10 n) = nearest u 1 := by
  have hten : 10 ^ n = 5 ^ n * 2 ^ n := mul_pow 5 2 n
  have hnumerator : u * Nat.pow 5 n * Nat.pow 10 0 * Nat.pow 2 n = 10 ^ n * u := by
    simp only [Nat.pow_eq, hten]
    ring
  have hdenominator : Nat.pow 10 n = 10 ^ n * 1 := (Nat.mul_one _).symm
  rw [hnumerator, hdenominator, nearest_mul_left (Nat.pow_pos (by decide)) u Nat.one_pos]

/-- All digits together read back as the number they were made of. -/
theorem exactDecimal_magnitude {m : Nat} (h : m < infinityMagnitude) :
    (exactDecimal (unitsOfMagnitude m)).magnitude = m := by
  unfold exactDecimal Decimal.magnitude Decimal.numerator Decimal.denominator
  dsimp only
  rw [show (-1074 : Int).toNat = 0 from rfl, show (- -1074 : Int).toNat = 1074 from rfl]
  generalize 1074 = n
  rw [nearest_ten_pow, nearest_units h]

/-- The decimal that is chosen for a finite magnitude reads back as that magnitude. -/
theorem shortest_magnitude {m : Nat} (h : m < infinityMagnitude) : (shortest m).magnitude = m := by
  unfold shortest
  dsimp only
  rw [Decimal.magnitude_congr (Decimal.value_stripZeros _ _)]
  generalize hfound : List.findSome? _ _ = found
  cases found with
  | none =>
      -- no short decimal was found, but the exact value does as well
      rw [Option.getD_none]
      exact exactDecimal_magnitude h
  | some x =>
      rcases List.exists_of_findSome?_eq_some hfound with ⟨p, -, hx⟩
      have hmagnitude := List.find?_some hx
      rw [Option.getD_some, beq_iff_eq.1 hmagnitude]

end Number

end LoxLang
