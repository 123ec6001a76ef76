import Mathlib.Algebra.Order.Field.Power
import Mathlib.Data.Rat.Cast.Order
import Mathlib.Tactic.Ring
import SqlAnalysis.Number.Decimal

/-!
The numbers that decimals stand for. A decimal is a coefficient and a power of ten; comparisons,
signs and whole parts are those of the rational number that the two make up.
-/

namespace SqlAnalysis.Decimal

variable {a d : Decimal}

def value (d : Decimal) : ℚ := d.coefficient * 10 ^ d.exponent

theorem ten_zpow_pos (e : Int) : (0 : ℚ) < 10 ^ e := zpow_pos (by decide) e

@[simp] theorem value_neg : d.neg.value = -d.value := by
  rw [value, value, neg, Int.cast_neg, neg_mul]

@[simp] theorem value_ofInt : (ofInt n).value = n := by
  rw [value, ofInt, zpow_zero, mul_one]

theorem value_eq_scaledTo (h : e ≤ d.exponent) : d.value = d.scaledTo e * 10 ^ e := by
  obtain ⟨k, hk⟩ := Int.le.dest h
  have hscaled : d.scaledTo e = d.coefficient * 10 ^ k := by
    rw [scaledTo, ← hk, add_sub_cancel_left, Int.toNat_natCast, Nat.pow_eq,
      Nat.cast_pow, Nat.cast_ofNat]
  rw [value, ← hk, hscaled, add_comm, zpow_add₀ (by decide), zpow_natCast,
    Int.cast_mul, Int.cast_pow, Int.cast_ofNat, mul_assoc]

theorem le_iff : a.le b ↔ a.value ≤ b.value := by
  rw [le, decide_eq_true_iff, value_eq_scaledTo (min_le_left a.exponent b.exponent),
    value_eq_scaledTo (min_le_right a.exponent b.exponent),
    mul_le_mul_iff_left₀ (ten_zpow_pos _), Int.cast_le]

theorem lt_iff : a.lt b ↔ a.value < b.value := by
  rw [lt, Bool.not_eq_true', ← Bool.not_eq_true, le_iff, not_le]

theorem isNegative_iff : d.isNegative ↔ d.value < 0 := by
  rw [isNegative, decide_eq_true_iff, value, ← not_le, ← not_le,
    mul_nonneg_iff_of_pos_right (ten_zpow_pos _), Int.cast_nonneg_iff]

theorem value_eq_intCast_iff {k : Nat} (h : d.exponent = -k) {n : Int} :
    d.value = n ↔ d.coefficient = n * 10 ^ k := by
  rw [value, h, zpow_neg, zpow_natCast, ← div_eq_mul_inv, div_eq_iff (pow_ne_zero k (by decide))]
  norm_cast

theorem truncate_of_neg {k : Nat} (hk : 0 < k) (h : d.exponent = -k) :
    d.truncate = d.coefficient.tdiv (10 ^ k) := by
  rw [truncate, if_neg (by omega), h, neg_neg, Int.toNat_natCast, Nat.pow_eq,
    Nat.cast_pow, Nat.cast_ofNat]

theorem truncate_of_value {n : Int} (h : d.value = n) : d.truncate = n ∧ d.isInteger := by
  by_cases he : 0 ≤ d.exponent
  · rw [value_eq_scaledTo he, zpow_zero, mul_one, Int.cast_inj] at h
    rw [truncate, if_pos he, isInteger, decide_eq_true he, Bool.true_or]
    exact ⟨by rw [← h, scaledTo, sub_zero], rfl⟩
  · obtain ⟨k, hk⟩ : ∃ k : Nat, d.exponent = -k := ⟨d.exponent.natAbs, by omega⟩
    have hcoefficient := (value_eq_intCast_iff hk).mp h
    have hne : (10 ^ k : Int) ≠ 0 := pow_ne_zero k (by decide)
    refine ⟨?_, ?_⟩
    · rw [truncate_of_neg (by omega) hk, hcoefficient, Int.mul_tdiv_cancel _ hne]
    · rw [isInteger, hk, neg_neg, Int.toNat_natCast, hcoefficient, Nat.pow_eq,
        Nat.cast_pow, Nat.cast_ofNat, Int.mul_emod_left, beq_self_eq_true, Bool.or_true]

theorem isInteger_iff : d.isInteger ↔ ∃ n : Int, d.value = n := by
  refine ⟨fun h => ?_, fun ⟨n, hn⟩ => (truncate_of_value hn).2⟩
  by_cases he : 0 ≤ d.exponent
  · exact ⟨d.scaledTo 0, by rw [value_eq_scaledTo he, zpow_zero, mul_one]⟩
  · obtain ⟨k, hk⟩ : ∃ k : Nat, d.exponent = -k := ⟨d.exponent.natAbs, by omega⟩
    rw [isInteger, decide_eq_false he, Bool.false_or, beq_iff_eq, hk, neg_neg,
      Int.toNat_natCast, Nat.pow_eq, Nat.cast_pow, Nat.cast_ofNat] at h
    obtain ⟨n, hn⟩ := Int.dvd_of_emod_eq_zero h
    exact ⟨n, (value_eq_intCast_iff hk).mpr (hn.trans (mul_comm _ _))⟩

end SqlAnalysis.Decimal
