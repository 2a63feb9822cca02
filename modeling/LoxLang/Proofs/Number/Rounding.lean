import LoxLang.Number.Basic
import Mathlib

/-!
# Rounding

What rounding a ratio of natural numbers to a magnitude depends on.

* `Number.Spaced a d p`: numbers around `a / d` units are `2 ^ p` units apart. There is one such `p`
  for every ratio, and `spacing` finds it (`spacing_eq_iff`).
* `nearest_eq_of_ratio_eq`: equal ratios have the same nearest magnitude.
* `nearest_units`: the value of a finite magnitude is rounded to that magnitude.
-/

namespace LoxLang

namespace Number

/-! ## The distance between neighbours -/

/-- Numbers around `a / d` units are `2 ^ p` units apart. -/
structure Spaced (a d p : Nat) : Prop where
  upper : a < d * 2 ^ (p + 53)
  lower : p = 0 ∨ d * 2 ^ (p + 52) ≤ a

/-- The spacing is the least power of two that fits, so there is only one. -/
theorem Spaced.le {a d p q : Nat} (h : Spaced a d p) (h' : Spaced a d q) : q ≤ p := by
  rcases h'.lower with rfl | hq
  · exact Nat.zero_le p
  · have hlt : d * 2 ^ (q + 52) < d * 2 ^ (p + 53) := Nat.lt_of_le_of_lt hq h.upper
    have hpow : 2 ^ (q + 52) < 2 ^ (p + 53) := Nat.lt_of_mul_lt_mul_left hlt
    have hexponent : q + 52 < p + 53 := (Nat.pow_lt_pow_iff_right Nat.one_lt_two).1 hpow
    omega

/-- The spacing that is computed from the lengths in binary is the one that is defined. -/
theorem spaced_spacing (a : Nat) {d : Nat} (hd : 0 < d) : Spaced a d (spacing a d) := by
  have hlower : 2 ^ d.log2 ≤ d := Nat.log2_self_le hd.ne'
  have hupper : d < 2 ^ (d.log2 + 1) := Nat.lt_log2_self
  have ha : a < 2 ^ (a.log2 + 1) := Nat.lt_log2_self
  -- the difference of the logarithms is large enough
  have hlarge : ∀ p, a.log2 ≤ d.log2 + 52 + p → a < d * 2 ^ (p + 53) := by
    intro p hp
    calc a < 2 ^ (a.log2 + 1) := ha
      _ ≤ 2 ^ (d.log2 + (p + 53)) := Nat.pow_le_pow_right Nat.zero_lt_two (by omega)
      _ = 2 ^ d.log2 * 2 ^ (p + 53) := pow_add 2 _ _
      _ ≤ d * 2 ^ (p + 53) := Nat.mul_le_mul_right _ hlower
  -- and by at most one too large
  have hsmall : ∀ p, 0 < p → d.log2 + 52 + p ≤ a.log2 → d * 2 ^ (p + 51) ≤ a := by
    intro p hp hle
    have hne : a ≠ 0 := by
      rintro rfl
      rw [Nat.log2_zero] at hle
      omega
    calc d * 2 ^ (p + 51) ≤ 2 ^ (d.log2 + 1) * 2 ^ (p + 51) := Nat.mul_le_mul_right _ hupper.le
      _ = 2 ^ (d.log2 + 1 + (p + 51)) := (pow_add 2 _ _).symm
      _ ≤ 2 ^ a.log2 := Nat.pow_le_pow_right Nat.zero_lt_two (by omega)
      _ ≤ a := Nat.log2_self_le hne
  unfold spacing
  dsimp only
  split
  · rename_i hcase
    rcases hcase with ⟨hpos, hlt⟩
    generalize hp : a.log2 - (d.log2 + 52) = p at hpos hlt
    rcases p with _ | p
    · cases hpos
    · exact ⟨hlt, .inr (hsmall (p + 1) hpos (by omega))⟩
  · rename_i hcase
    refine ⟨hlarge _ (by omega), ?_⟩
    rcases Nat.eq_zero_or_pos (a.log2 - (d.log2 + 52)) with hzero | hpos
    · exact .inl hzero
    · exact .inr (Nat.le_of_not_lt fun hlt => hcase ⟨hpos, hlt⟩)

/-- To know the spacing it is enough to find a power of two that fits. -/
theorem spacing_eq_iff {a d p : Nat} (hd : 0 < d) : spacing a d = p ↔ Spaced a d p := by
  constructor
  · rintro rfl
    exact spaced_spacing a hd
  · exact fun h => Nat.le_antisymm (h.le (spaced_spacing a hd)) ((spaced_spacing a hd).le h)

/-! ## Equal ratios -/

theorem spacing_mul_left {k : Nat} (hk : 0 < k) (a : Nat) {d : Nat} (hd : 0 < d) :
    spacing (k * a) (k * d) = spacing a d := by
  rcases spaced_spacing a hd with ⟨hupper, hlower⟩
  refine (spacing_eq_iff (Nat.mul_pos hk hd)).2 ⟨?_, hlower.imp_right fun hle => ?_⟩
  · rw [Nat.mul_assoc]
    exact Nat.mul_lt_mul_of_pos_left hupper hk
  · rw [Nat.mul_assoc]
    exact Nat.mul_le_mul_left k hle

theorem roundHalfEven_mul_left {k : Nat} (hk : 0 < k) (a d : Nat) :
    roundHalfEven (k * a) (k * d) = roundHalfEven a d := by
  have hmul : ∀ x, 2 * (k * x) = k * (2 * x) := fun x => by rw [Nat.mul_left_comm]
  unfold roundHalfEven
  simp only [Nat.mul_div_mul_left _ _ hk, Nat.mul_mod_mul_left, hmul, Nat.mul_lt_mul_left hk]

/-- Only the quotient is rounded, not the two numbers it is made of. -/
theorem nearest_mul_left {k : Nat} (hk : 0 < k) (a : Nat) {d : Nat} (hd : 0 < d) :
    nearest (k * a) (k * d) = nearest a d := by
  unfold nearest
  simp only [spacing_mul_left hk a hd, Nat.mul_assoc, roundHalfEven_mul_left hk]

/-- Equal ratios have the same nearest magnitude. -/
theorem nearest_eq_of_ratio_eq {a a' d d' : Nat} (hd : 0 < d) (hd' : 0 < d')
    (h : (a : ℚ) / d = a' / d') : nearest a d = nearest a' d' := by
  have hcross : a * d' = a' * d := by
    have hne : (d : ℚ) ≠ 0 := Nat.cast_ne_zero.2 hd.ne'
    have hne' : (d' : ℚ) ≠ 0 := Nat.cast_ne_zero.2 hd'.ne'
    exact_mod_cast (div_eq_div_iff hne hne').1 h
  calc nearest a d = nearest (d' * a) (d' * d) := (nearest_mul_left hd' a hd).symm
    _ = nearest (d * a') (d * d') := by
        rw [Nat.mul_comm d' a, hcross, Nat.mul_comm a', Nat.mul_comm d']
    _ = nearest a' d' := nearest_mul_left hd a' hd'

/-! ## Exact values -/

/-- A whole number is its own rounding. -/
theorem roundHalfEven_mul (a : Nat) {d : Nat} (hd : 0 < d) : roundHalfEven (a * d) d = a := by
  unfold roundHalfEven
  simp [Nat.mul_div_cancel a hd, hd]

/-- The value of a finite magnitude is rounded to that magnitude. -/
theorem nearest_units {m : Nat} (h : m < infinityMagnitude) :
    nearest (unitsOfMagnitude m) 1 = m := by
  -- a value is a multiple of the distance between its neighbours
  have hmultiple : ∀ p a, Spaced (a * 2 ^ p) 1 p → p * 2 ^ 52 + a = m →
      nearest (a * 2 ^ p) 1 = m := by
    intro p a hspaced hm
    unfold nearest
    dsimp only
    rw [(spacing_eq_iff Nat.one_pos).2 hspaced, Nat.one_mul]
    change min (p * 2 ^ 52 + roundHalfEven (a * 2 ^ p) (2 ^ p)) infinityMagnitude = m
    rw [roundHalfEven_mul a (Nat.two_pow_pos p), hm]
    exact Nat.min_eq_left h.le
  unfold unitsOfMagnitude
  dsimp only
  rw [show Nat.pow 2 52 = 2 ^ 52 from rfl]
  split
  · -- below the first binade numbers are one unit apart
    rename_i hsmall
    have hzero := hmultiple 0 m ⟨by omega, .inl rfl⟩ (by omega)
    rwa [pow_zero, Nat.mul_one] at hzero
  · rename_i hlarge
    have hfraction : m % 2 ^ 52 < 2 ^ 52 := Nat.mod_lt m (Nat.two_pow_pos 52)
    have hm : 2 ^ 52 * (m / 2 ^ 52) + m % 2 ^ 52 = m := Nat.div_add_mod m _
    generalize m / 2 ^ 52 = binade at hm
    generalize m % 2 ^ 52 = fraction at hfraction hm
    rcases binade with _ | p
    · omega
    · refine hmultiple p _ ⟨?_, .inr ?_⟩ (by omega)
      · rw [Nat.one_mul, Nat.add_comm p, pow_add]
        exact Nat.mul_lt_mul_of_pos_right (by omega) (Nat.two_pow_pos p)
      · rw [Nat.one_mul, Nat.add_comm p, pow_add]
        exact Nat.mul_le_mul_right _ (Nat.le_add_right _ _)

end Number

end LoxLang
