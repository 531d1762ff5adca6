import Mathlib.Algebra.Order.Field.Power
import Mathlib.Data.Rat.Cast.Order
import QueryConsole.Double.Basic

set_option autoImplicit false

namespace QueryConsole

namespace Double

/-- The significand with the sign, times the power of two that the exponent stands for. -/
def toRat (x : Double) : ℚ :=
  (if x.negative then -1 else 1) * x.significand * 2 ^ ((x.shift : ℤ) - 1074)

def signedUnits (x : Double) : ℤ := if x.negative then -x.units else x.units

/-- The exponent is named, so that its power is not computed. -/
theorem exists_one_eq : ∃ k : ℕ, one = Nat.pow 2 k ∧ (k : ℤ) = 1074 := by
  obtain ⟨k, hk⟩ : ∃ k : ℕ, 1074 = k := ⟨1074, rfl⟩
  refine ⟨k, ?_, by rw [← hk]; rfl⟩
  unfold one
  rw [hk]

theorem natAbs_signedUnits (x : Double) : x.signedUnits.natAbs = x.units := by
  rw [signedUnits]
  split
  · rw [Int.natAbs_neg, Int.natAbs_natCast]
  · rw [Int.natAbs_natCast]

theorem one_pos : 0 < one := by
  obtain ⟨k, hone, -⟩ := exists_one_eq
  rw [hone]
  exact Nat.pow_pos two_pos

theorem cast_two_pow (n : ℕ) : ((Nat.pow 2 n : ℕ) : ℚ) = 2 ^ (n : ℤ) := by
  rw [zpow_natCast]
  exact Nat.cast_pow 2 n

theorem cast_units (x : Double) : (x.units : ℚ) = x.significand * 2 ^ (x.shift : ℤ) := by
  rw [units, Nat.cast_mul, cast_two_pow]

theorem toRat_mul_one (x : Double) : x.toRat * one = x.signedUnits := by
  obtain ⟨k, hone, hk⟩ := exists_one_eq
  have hscale : (2 : ℚ) ^ ((x.shift : ℤ) - 1074) * one = 2 ^ (x.shift : ℤ) := by
    rw [hone, cast_two_pow, ← hk, ← zpow_add₀ two_ne_zero, sub_add_cancel]
  rw [toRat, mul_assoc, hscale, mul_assoc, ← cast_units, signedUnits]
  split
  · simp
  · simp

theorem toRat_eq_iff {x : Double} {n : ℤ} : x.toRat = n ↔ x.signedUnits = n * one := by
  have hone : (one : ℚ) ≠ 0 := Nat.cast_ne_zero.mpr one_pos.ne'
  rw [← mul_left_inj' hone, toRat_mul_one, ← Int.cast_natCast, ← Int.cast_mul, Int.cast_inj]

theorem signedUnits_eq_iff {x : Double} {n : ℤ} :
    x.signedUnits = n * one ↔ x.units % one = 0 ∧
      n = if x.negative then -((x.units / one : ℕ) : ℤ) else ((x.units / one : ℕ) : ℤ) := by
  have hone : (one : ℤ) ≠ 0 := Int.natCast_ne_zero.mpr one_pos.ne'
  constructor
  · intro h
    have hunits : x.units = n.natAbs * one := by
      rw [← natAbs_signedUnits, h, Int.natAbs_mul, Int.natAbs_natCast]
    rw [signedUnits, hunits, Nat.cast_mul] at h
    rw [hunits, Nat.mul_mod_left, Nat.mul_div_cancel _ one_pos]
    refine ⟨rfl, ?_⟩
    cases hsign : x.negative with
    | false =>
      simp only [hsign] at h
      exact (mul_right_cancel₀ hone h).symm
    | true =>
      simp only [hsign, if_true, ← neg_mul] at h
      exact (mul_right_cancel₀ hone h).symm
  · rintro ⟨hmod, rfl⟩
    have hunits : ((x.units / one : ℕ) : ℤ) * one = x.units :=
      mod_cast Nat.div_mul_cancel (Nat.dvd_of_mod_eq_zero hmod)
    rw [signedUnits]
    split
    · rw [neg_mul, hunits]
    · rw [hunits]

theorem toInt?_eq_some_iff {x : Double} {n : ℤ} :
    x.toInt? = some n ↔ x.isFinite = true ∧ x.toRat = n := by
  rw [toRat_eq_iff, signedUnits_eq_iff, toInt?]
  split
  · rename_i h
    rw [Option.some.injEq, eq_comm]
    exact ⟨fun hn => ⟨h.1, h.2, hn⟩, fun hn => hn.2.2⟩
  · rename_i h
    exact ⟨nofun, fun hn => absurd ⟨hn.1, hn.2.1⟩ h⟩

end Double

end QueryConsole
