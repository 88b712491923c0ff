import EmailTemplate.Decimal.Double
import Mathlib.Algebra.Group.Nat.Defs
import Mathlib.Data.Nat.Log

/-! Numbers that are too small for a double. Zero is nearest to those that do not pass one half of the
least double. -/

namespace EmailTemplate.Double

variable {num den : Nat}

theorem roundDiv_eq_zero_iff (hden : 0 < den) : roundDiv num den = 0 ↔ 2 * num ≤ den := by
  rw [roundDiv]
  by_cases hlt : num < den
  · rw [Nat.div_eq_of_lt hlt, Nat.mod_eq_of_lt hlt]
    split
    · omega
    · split
      · omega
      · omega
  · have hpos : 0 < num / den := Nat.div_pos (not_lt.mp hlt) hden
    split
    · omega
    · split
      · omega
      · omega

theorem scaled_neg_natCast (num n : Nat) : scaled num (-(n : Int)) = num := by
  rw [scaled, Int.toNat_neg_natCast]
  exact Nat.mul_one num

/-- At the exponent `-n` a number is rounded to nothing up to one half of the unit. -/
theorem roundDiv_scaled_eq_zero_iff (hden : 0 < den) {n k : Nat} (hk : k = n + 1) :
    roundDiv (scaled num (-(-(n : Int)))) (scaled den (-(n : Int))) = 0 ↔ num * 2 ^ k ≤ den := by
  have hnum : scaled num (-(-(n : Int))) = num * 2 ^ n := by
    rw [Int.neg_neg]
    rfl
  rw [hnum, scaled_neg_natCast, roundDiv_eq_zero_iff hden, hk, Nat.pow_succ', Nat.mul_left_comm]

theorem log2_add_le (hnum : num ≠ 0) (hden : 0 < den) {n : Nat} (h : num * 2 ^ n ≤ den) :
    Nat.log2 num + n ≤ Nat.log2 den := by
  rw [Nat.le_log2 hden.ne', Nat.pow_add]
  exact (Nat.mul_le_mul_right _ (Nat.log2_self_le hnum)).trans h

theorem nearestRank_eq_zero_iff (hden : 0 < den) :
    nearestRank num den = 0 ↔ num * 2 ^ 1075 ≤ den := by
  have hleast := @roundDiv_scaled_eq_zero_iff num den hden 1074 1075 rfl
  by_cases hnum : num = 0
  · generalize 2 ^ 1075 = bound
    simp [nearestRank, hnum]
  rw [nearestRank, if_neg hnum]
  generalize hlow : max ((Nat.log2 num : Int) - (Nat.log2 den : Int) - 53) (-1074) = low
  dsimp only
  constructor
  · -- The ranks of the other exponents are not zero.
    intro h
    generalize hq : (if scaled num (-low) / scaled den low < 2 * perExponent then low
      else low + 1) = q at h
    have hle : -1074 ≤ q := by
      split at hq <;> omega
    obtain ⟨hexponent, hround⟩ := Nat.add_eq_zero_iff.mp h
    have hzero : (q + 1074).toNat = 0 :=
      (Nat.mul_eq_zero.mp hexponent).resolve_right (by decide)
    obtain rfl : q = -((1074 : Nat) : Int) := by omega
    exact hleast.mp hround
  · intro h
    have hlog := log2_add_le hnum hden h
    obtain rfl : low = -((1074 : Nat) : Int) := by omega
    have hround := hleast.mpr h
    have hsmall : scaled num (-(-((1074 : Nat) : Int))) / scaled den (-((1074 : Nat) : Int)) <
        2 * perExponent := by
      rw [scaled_neg_natCast] at hround ⊢
      have hhalf := (roundDiv_eq_zero_iff hden).mp hround
      rw [Nat.div_eq_of_lt (by omega)]
      decide
    rw [if_pos hsmall, hround]
    rfl

end EmailTemplate.Double
