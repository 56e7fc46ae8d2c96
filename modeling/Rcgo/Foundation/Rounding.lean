import Mathlib.Data.Nat.Size
import Mathlib.Data.Int.Basic
import Mathlib.Algebra.Order.Ring.Int
import Mathlib.Tactic.Ring

/-!
# Rounding to significant bits

A number is rounded to the nearest one with so many significant bits, a tie to
the one whose last bit is zero.
-/

namespace Rcgo.Foundation

/-- A natural number rounded to `precision` significant bits. -/
def roundNat (precision n : Nat) : Nat :=
  let unit := 2 ^ (n.size - precision)
  let quotient := n / unit
  let remainder := n % unit
  if 2 * remainder < unit ∨ (2 * remainder = unit ∧ quotient % 2 = 0) then quotient * unit
  else (quotient + 1) * unit

/-- An integer rounded to `precision` significant bits. -/
def roundInt (precision : Nat) (x : Int) : Int :=
  if x < 0 then -(roundNat precision x.natAbs : Int) else roundNat precision x.natAbs

/-- The number has no more than `precision` significant bits. -/
def SignificantIn (precision : Nat) (x : Int) : Prop :=
  ∃ mantissa exponent : Nat, mantissa < 2 ^ precision ∧ x.natAbs = mantissa * 2 ^ exponent

theorem roundNat_eq_self_iff (precision n : Nat) :
    roundNat precision n = n ↔ 2 ^ (n.size - precision) ∣ n := by
  have positive : 0 < 2 ^ (n.size - precision) := Nat.two_pow_pos _
  have split := Nat.div_add_mod n (2 ^ (n.size - precision))
  have small := Nat.mod_lt n positive
  rw [Nat.dvd_iff_mod_eq_zero]
  unfold roundNat
  generalize 2 ^ (n.size - precision) = unit at positive split small ⊢
  rw [Nat.mul_comm] at split
  dsimp only
  split
  case isTrue => omega
  case isFalse up =>
    rw [Nat.add_one_mul]
    omega

theorem dvd_iff_mantissa (precision n : Nat) :
    2 ^ (n.size - precision) ∣ n ↔
      ∃ mantissa exponent : Nat, mantissa < 2 ^ precision ∧ n = mantissa * 2 ^ exponent := by
  constructor
  · rintro ⟨mantissa, isProduct⟩
    refine ⟨mantissa, n.size - precision, ?_, isProduct.trans (Nat.mul_comm _ _)⟩
    have bound : n < 2 ^ (n.size - precision) * 2 ^ precision := by
      rw [← Nat.pow_add]
      exact lt_of_lt_of_le (Nat.lt_size_self n) (Nat.pow_le_pow_right Nat.two_pos (by omega))
    generalize 2 ^ (n.size - precision) = unit at isProduct bound
    rw [isProduct] at bound
    exact Nat.lt_of_mul_lt_mul_left bound
  · rintro ⟨mantissa, exponent, small, isProduct⟩
    have bound : n.size ≤ precision + exponent := by
      rw [Nat.size_le, Nat.pow_add, isProduct]
      exact Nat.mul_lt_mul_of_pos_right small (Nat.two_pow_pos exponent)
    rw [isProduct]
    exact Dvd.dvd.mul_left (Nat.pow_dvd_pow 2 (by rw [← isProduct]; omega)) mantissa

theorem roundInt_eq_self_iff (precision : Nat) (x : Int) :
    roundInt precision x = x ↔ SignificantIn precision x := by
  rw [SignificantIn, ← dvd_iff_mantissa, ← roundNat_eq_self_iff]
  unfold roundInt
  split <;> omega

end Rcgo.Foundation
