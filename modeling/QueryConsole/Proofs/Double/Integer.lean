import QueryConsole.Proofs.Double.Nearest

set_option autoImplicit false

namespace QueryConsole.Double

theorem roundEven_mul_self (a : ℕ) {b : ℕ} (hb : 0 < b) : roundEven (a * b) b = a := by
  have hdiv : a * b / b = a := Nat.mul_div_cancel a hb
  have hmod : a * b % b = 0 := Nat.mul_mod_left a b
  simp only [roundEven, hdiv, hmod]
  rw [if_pos (by omega)]

theorem roundEven_mul_right (a b : ℕ) {c : ℕ} (hc : 0 < c) :
    roundEven (a * c) (b * c) = roundEven a b := by
  have hdiv : a * c / (b * c) = a / b := Nat.mul_div_mul_right a b hc
  have hmod : a * c % (b * c) = a % b * c := Nat.mul_mod_mul_right c a b
  have hlow : 2 * (a % b * c) < b * c ↔ 2 * (a % b) < b := by
    rw [← Nat.mul_assoc, Nat.mul_lt_mul_right hc]
  have hhigh : b * c < 2 * (a % b * c) ↔ b < 2 * (a % b) := by
    rw [← Nat.mul_assoc, Nat.mul_lt_mul_right hc]
  simp only [roundEven, hdiv, hmod, hlow, hhigh]

/-- The step between the doubles around an integer of the given magnitude. -/
def integerStep (m : ℕ) : ℕ := Nat.pow 2 (m.log2 - 52)

def roundedMagnitude (m : ℕ) : ℕ := roundEven m (integerStep m) * integerStep m

theorem integerStep_pos (m : ℕ) : 0 < integerStep m := Nat.pow_pos two_pos

theorem roundedMagnitude_of_dvd {m : ℕ} (h : integerStep m ∣ m) : roundedMagnitude m = m := by
  obtain ⟨j, hj⟩ := h
  unfold roundedMagnitude
  have hpos := integerStep_pos m
  generalize integerStep m = step at *
  rw [hj, Nat.mul_comm step j, roundEven_mul_self j hpos]

theorem log2_mul_two_pow {m : ℕ} (hm : m ≠ 0) (k : ℕ) : (m * Nat.pow 2 k).log2 = m.log2 + k := by
  have hpos : 0 < Nat.pow 2 k := Nat.pow_pos two_pos
  have hlow : Nat.pow 2 (m.log2 + k) = Nat.pow 2 m.log2 * Nat.pow 2 k := Nat.pow_add 2 _ _
  have hhigh : Nat.pow 2 (m.log2 + k + 1) = Nat.pow 2 (m.log2 + 1) * Nat.pow 2 k := by
    rw [Nat.add_right_comm]
    exact Nat.pow_add 2 _ _
  refine (Nat.log2_eq_iff (Nat.mul_ne_zero hm hpos.ne')).mpr ⟨?_, ?_⟩
  · exact hlow.trans_le (Nat.mul_le_mul_right _ (Nat.log2_self_le hm))
  · exact (Nat.mul_lt_mul_of_pos_right Nat.lt_log2_self hpos).trans_eq hhigh.symm

theorem roundedMagnitude_of_log2_lt {m : ℕ} (h : m.log2 < 52) : roundedMagnitude m = m := by
  apply roundedMagnitude_of_dvd
  rw [integerStep, Nat.sub_eq_zero_of_le h.le]
  exact one_dvd m

theorem roundedUnits_mul_one (m : ℕ) : roundedUnits (m * one) 1 = roundedMagnitude m * one := by
  obtain ⟨k, hone, hk⟩ := exists_one_eq
  rw [hone, roundedUnits, roundedSignificand, roundingShift, Nat.div_one, Nat.one_mul]
  rcases Nat.lt_or_ge m.log2 52 with hlt | hge
  · have hfine : (m * Nat.pow 2 k).log2 - 52 ≤ k := by
      by_cases hm : m = 0
      · rw [hm, Nat.zero_mul, Nat.log2_zero]
        omega
      · rw [log2_mul_two_pow hm]
        omega
    generalize (m * Nat.pow 2 k).log2 - 52 = j at hfine
    have hpow : Nat.pow 2 k = Nat.pow 2 (k - j) * Nat.pow 2 j := by
      have h : Nat.pow 2 (k - j + j) = Nat.pow 2 (k - j) * Nat.pow 2 j := Nat.pow_add 2 _ _
      rwa [Nat.sub_add_cancel hfine] at h
    have hpos : 0 < Nat.pow 2 j := Nat.pow_pos two_pos
    rw [roundedMagnitude_of_log2_lt hlt, hpow, ← Nat.mul_assoc, roundEven_mul_self _ hpos]
  · have hm : m ≠ 0 := by
      rintro rfl
      rw [Nat.log2_zero] at hge
      omega
    have hpow : Nat.pow 2 (m.log2 + k - 52) = integerStep m * Nat.pow 2 k := by
      rw [Nat.sub_add_comm hge]
      exact Nat.pow_add 2 _ _
    have hpos : 0 < Nat.pow 2 k := Nat.pow_pos two_pos
    rw [log2_mul_two_pow hm, hpow, roundEven_mul_right m _ hpos, ← Nat.mul_assoc,
      roundedMagnitude]

theorem roundedMagnitude_bounds {m : ℕ} (h : m ≤ 9223372036854775808) :
    roundedMagnitude m ≤ m + 512 ∧ m ≤ roundedMagnitude m + 512 := by
  rcases eq_or_lt_of_le h with rfl | hlt
  · have hdvd : integerStep 9223372036854775808 ∣ 9223372036854775808 := by decide
    rw [roundedMagnitude_of_dvd hdvd]
    omega
  · have hlog : m.log2 - 52 ≤ 10 := by
      by_cases hm : m = 0
      · rw [hm, Nat.log2_zero]
        omega
      · have := (Nat.log2_lt hm).mpr (show m < 2 ^ 63 from hlt)
        omega
    have hstep : integerStep m ≤ Nat.pow 2 10 := Nat.pow_le_pow_right two_pos hlog
    have h10 : Nat.pow 2 10 = 1024 := rfl
    obtain ⟨hlow, hhigh, -⟩ := roundEven_bounds m (integerStep_pos m)
    unfold roundedMagnitude
    omega

theorem roundedMagnitude_of_le {m : ℕ} (h : m ≤ 9007199254740992) : roundedMagnitude m = m := by
  rcases eq_or_lt_of_le h with rfl | hlt
  · exact roundedMagnitude_of_dvd (by decide)
  · apply roundedMagnitude_of_dvd
    have hlog : m.log2 - 52 = 0 := by
      by_cases hm : m = 0
      · rw [hm, Nat.log2_zero]
      · have := (Nat.log2_lt hm).mpr (show m < 2 ^ 53 from hlt)
        omega
    rw [integerStep, hlog]
    exact one_dvd m

theorem roundedMagnitude_pos {m : ℕ} (h : 0 < m) : 0 < roundedMagnitude m := by
  have hstep : integerStep m ≤ m :=
    (Nat.pow_le_pow_right two_pos (Nat.sub_le _ _)).trans (Nat.log2_self_le h.ne')
  obtain ⟨-, hhigh, -⟩ := roundEven_bounds m (integerStep_pos m)
  unfold roundedMagnitude
  omega

def rounded (n : ℤ) : ℤ := if n < 0 then -roundedMagnitude n.natAbs else roundedMagnitude n.natAbs

theorem rounded_of_natAbs_le {n : ℤ} (h : n.natAbs ≤ 9007199254740992) : rounded n = n := by
  rw [rounded, roundedMagnitude_of_le h]
  split <;> omega

theorem rounded_neg_iff {n : ℤ} : rounded n < 0 ↔ n < 0 := by
  rw [rounded]
  split
  · have hpos := roundedMagnitude_pos (m := n.natAbs) (by omega)
    omega
  · omega

theorem natAbs_rounded (n : ℤ) : (rounded n).natAbs = roundedMagnitude n.natAbs := by
  rw [rounded]
  split <;> omega

section Range

variable {n : ℤ} (hn : n.natAbs ≤ 9223372036854775808)

include hn

theorem abs_rounded_sub_le : |rounded n - n| ≤ 512 := by
  have hbounds := roundedMagnitude_bounds hn
  rw [abs_le, rounded]
  split <;> omega

theorem isFinite_ofInt : (ofInt n).isFinite = true := by
  obtain ⟨k, hone, hk⟩ := exists_one_eq
  have hshift : roundingShift (n.natAbs * one) 1 ≤ 1085 := by
    rw [roundingShift, Nat.div_one, hone]
    by_cases hzero : n.natAbs = 0
    · rw [hzero, Nat.zero_mul, Nat.log2_zero]
      omega
    · have hlog := (Nat.log2_lt hzero).mpr (show n.natAbs < 2 ^ 64 by omega)
      rw [log2_mul_two_pow hzero]
      omega
  have hsig := roundedSignificand_le (u := n.natAbs * one) Nat.one_pos
  have h52 := two_pow_52
  apply isFinite_ofRatio
  rw [h52]
  omega

theorem units_ofInt : (ofInt n).units = roundedMagnitude n.natAbs * one := by
  rw [← roundedUnits_mul_one]
  exact units_ofRatio Nat.one_pos (isFinite_ofInt hn)

theorem negative_ofInt : (ofInt n).negative = decide (n < 0) :=
  (negative_magnitude_ofRatio (isFinite_ofInt hn)).1

theorem toRat_ofInt : (ofInt n).toRat = rounded n := by
  rw [toRat_eq_iff, signedUnits, negative_ofInt hn, units_ofInt hn, rounded]
  by_cases hneg : n < 0
  · rw [if_pos (decide_eq_true hneg), if_pos hneg, Nat.cast_mul, neg_mul]
  · rw [if_neg (by simpa using hneg), if_neg hneg, Nat.cast_mul]

theorem toInt?_ofInt : (ofInt n).toInt? = some (rounded n) :=
  toInt?_eq_some_iff.mpr ⟨isFinite_ofInt hn, toRat_ofInt hn⟩

/-- An integer becomes the double that is nearest to it. -/
theorem nearest_ofInt : (ofInt n).Nearest n := by
  have hzero : decide (n < 0) = true → n.natAbs ≠ 0 := by
    rw [decide_eq_true_eq]
    omega
  have hnearest := nearest_ofRatio Nat.one_pos hzero (isFinite_ofInt hn)
  have hvalue : (if decide (n < 0) = true then -(n.natAbs : ℤ) else n.natAbs) = n := by
    by_cases hneg : n < 0
    · rw [if_pos (decide_eq_true hneg)]
      omega
    · rw [if_neg (by simpa using hneg)]
      omega
  rw [hvalue, Nat.cast_one, div_one] at hnearest
  exact hnearest

theorem ofInt_rounded : ofInt (rounded n) = ofInt n := by
  have hunits : (rounded n).natAbs * one = (ofInt n).units * 1 := by
    rw [natAbs_rounded, units_ofInt hn, Nat.mul_one]
  have hround := ofRatio_eq (isFinite_ofInt hn) Nat.one_pos (holds_units Nat.one_pos hunits)
  rwa [negative_ofInt hn, ← decide_eq_decide.mpr rounded_neg_iff] at hround

end Range

theorem rounded_le_rounded {m n : ℤ} (hm : m.natAbs ≤ 9223372036854775808)
    (hn : n.natAbs ≤ 9223372036854775808) (h : m ≤ n) : rounded m ≤ rounded n := by
  have hle := (nearest_ofInt hm).toRat_le (nearest_ofInt hn) (Int.cast_le.mpr h)
  rwa [toRat_ofInt hm, toRat_ofInt hn, Int.cast_le] at hle

end QueryConsole.Double
