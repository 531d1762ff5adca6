import Mathlib.Algebra.Order.Field.Basic
import QueryConsole.Proofs.Double.Nearest

set_option autoImplicit false

namespace QueryConsole.Double

/-- Half a step beyond the greatest finite number, from where on numbers are rounded to infinity. -/
def overflowLimit : ℚ := (2 ^ 53 - 1 / 2) * 2 ^ (971 : ℤ)

/-- The double that a number is rounded to, to the nearest one and to the even one of two. -/
structure IsRounding (q : ℚ) (x : Double) : Prop where
  nearest : x.Nearest q
  lt : |q| < overflowLimit

theorem IsRounding.unique {q : ℚ} {x y : Double} (hx : x.IsRounding q) (hy : y.IsRounding q) :
    x = y := hx.nearest.unique hy.nearest

def size (x : Double) : ℚ := x.units / one

/-- A magnitude in the interval around that of `x`. -/
structure Within (x : Double) (q : ℚ) : Prop where
  low : (x.lowest : ℚ) ≤ 4 * (q * one)
  high : 4 * (q * one) ≤ x.highest
  strict : x.significand % 2 = 0 ∨
    (x.lowest : ℚ) < 4 * (q * one) ∧ 4 * (q * one) < x.highest

theorem Within.convex {x : Double} {p q r : ℚ} (hp : x.Within p) (hr : x.Within r) (hpq : p ≤ q)
    (hqr : q ≤ r) : x.Within q := by
  have hone : (0 : ℚ) ≤ one := Nat.cast_nonneg one
  have hlow : p * one ≤ q * one := mul_le_mul_of_nonneg_right hpq hone
  have hhigh : q * one ≤ r * one := mul_le_mul_of_nonneg_right hqr hone
  refine ⟨?_, ?_, ?_⟩
  · linarith [hp.low]
  · linarith [hr.high]
  · rcases hp.strict with heven | hstrictp
    · exact .inl heven
    · refine hr.strict.imp_right fun hstrictr => ⟨?_, ?_⟩
      · linarith [hstrictp.1]
      · linarith [hstrictr.2]

theorem holds_iff_within {x : Double} {num den : ℕ} (hden : 0 < den) :
    x.Holds num den ↔ x.Within (num / den) := by
  have hpos : (0 : ℚ) < den := Nat.cast_pos.mpr hden
  have hpoint : 4 * ((num : ℚ) / den * one) = (4 * (num * one) : ℕ) / den := by
    push_cast
    ring
  have hle : ∀ n : ℕ, n * den ≤ 4 * (num * one) ↔ (n : ℚ) ≤ 4 * ((num : ℚ) / den * one) := by
    intro n
    rw [hpoint, le_div_iff₀ hpos, ← Nat.cast_mul, Nat.cast_le]
  have hge : ∀ n : ℕ, 4 * (num * one) ≤ n * den ↔ 4 * ((num : ℚ) / den * one) ≤ n := by
    intro n
    rw [hpoint, div_le_iff₀ hpos, ← Nat.cast_mul, Nat.cast_le]
  rw [Holds]
  split
  · rename_i heven
    rw [hle, hge]
    exact ⟨fun h => ⟨h.1, h.2, .inl heven⟩, fun h => ⟨h.low, h.high⟩⟩
  · rename_i hodd
    rw [← not_le, ← not_le, hle, hge, not_le, not_le]
    exact ⟨fun h => ⟨h.1.le, h.2.le, .inr h⟩, fun h => h.strict.resolve_left hodd⟩

theorem within_size (x : Double) : x.Within x.size :=
  (holds_iff_within one_pos).mp (holds_units one_pos rfl)

def greatestStep : ℕ := Nat.pow 2 2045

/-- The exponent is named, so that its power is not computed. -/
theorem exists_greatestStep_eq : ∃ k : ℕ, greatestStep = Nat.pow 2 k ∧ (k : ℤ) = 2045 := by
  obtain ⟨k, hk⟩ : ∃ k : ℕ, 2045 = k := ⟨2045, rfl⟩
  refine ⟨k, ?_, by rw [← hk]; rfl⟩
  unfold greatestStep
  rw [hk]

theorem four_mul_overflowLimit :
    4 * (overflowLimit * one) = (36028797018963966 * greatestStep : ℕ) := by
  obtain ⟨k, hone, hk⟩ := exists_one_eq
  obtain ⟨l, htop, hl⟩ := exists_greatestStep_eq
  have hstep : (2 : ℚ) ^ (971 : ℤ) * one = greatestStep := by
    rw [hone, htop, cast_two_pow, cast_two_pow, hk, hl, ← zpow_add₀ two_ne_zero]
    rfl
  rw [overflowLimit, mul_assoc, hstep, Nat.cast_mul]
  generalize (greatestStep : ℚ) = top
  ring

section Limit

variable {x : Double}

theorem highest_le (hfin : x.isFinite = true) :
    x.highest ≤ 36028797018963966 * greatestStep ∧
      (x.significand % 2 = 0 → x.highest < 36028797018963966 * greatestStep) := by
  obtain ⟨l, htop, hl⟩ := exists_greatestStep_eq
  have hshift := shift_le hfin
  have hstep : Nat.pow 2 x.shift ≤ greatestStep := by
    rw [htop]
    exact Nat.pow_le_pow_right two_pos (by omega)
  have hpos : 0 < Nat.pow 2 x.shift := Nat.pow_pos two_pos
  have hlt := x.significand_lt
  have hsig := Nat.mul_le_mul_right (Nat.pow 2 x.shift) (Nat.le_of_lt_succ hlt)
  have heven : x.significand % 2 = 0 →
      x.significand * Nat.pow 2 x.shift ≤ 9007199254740990 * Nat.pow 2 x.shift :=
    fun h => Nat.mul_le_mul_right _ (by omega)
  rw [highest, units]
  omega

theorem highest_eq_of_last (hfin : x.isFinite = true)
    (hlast : ¬ x.magnitude + 1 < 2047 * Nat.pow 2 52) :
    x.highest = 36028797018963966 * greatestStep := by
  obtain ⟨l, htop, hl⟩ := exists_greatestStep_eq
  have h52 := two_pow_52
  have hsig := x.significand_lt
  have hshift := shift_le hfin
  rw [magnitude, h52] at hlast
  have hexponent : x.shift = l := by omega
  have hfull : x.significand = 9007199254740991 := by omega
  rw [highest, units, hexponent, htop, hfull]
  omega

theorem Within.lt_overflowLimit {q : ℚ} (hfin : x.isFinite = true) (h : x.Within q) :
    q < overflowLimit := by
  obtain ⟨hle, heven⟩ := highest_le hfin
  have hone : (0 : ℚ) < one := Nat.cast_pos.mpr one_pos
  have hlt : 4 * (q * one) < 4 * (overflowLimit * one) := by
    rw [four_mul_overflowLimit]
    rcases h.strict with hsig | hstrict
    · exact h.high.trans_lt (Nat.cast_lt.mpr (heven hsig))
    · exact hstrict.2.trans_le (Nat.cast_le.mpr hle)
  exact lt_of_mul_lt_mul_right (lt_of_mul_lt_mul_left hlt (by norm_num)) hone.le

end Limit

section Neighbours

variable {x : Double}

theorem exists_next (h : x.magnitude + 1 < 2047 * Nat.pow 2 52) :
    ∃ y : Double, y.isFinite = true ∧ y.negative = x.negative ∧ x.units < y.units ∧
      2 * (x.units + y.units) = x.highest := by
  have h52 := two_pow_52
  have h63 := two_pow_63
  obtain ⟨y, hsign, hmagnitude⟩ := exists_magnitude x.negative
    (show x.magnitude + 1 < Nat.pow 2 63 by omega)
  have hlt := x.significand_lt
  have hfull := le_significand (x := x)
  have hunits : y.units = (x.significand + 1) * Nat.pow 2 x.shift :=
    units_eq_of_magnitude (by rw [hmagnitude, magnitude, Nat.add_assoc]) (by omega) (by omega)
  have hpos : 0 < Nat.pow 2 x.shift := Nat.pow_pos two_pos
  refine ⟨y, isFinite_iff.mpr (by omega), hsign, ?_⟩
  rw [hunits, Nat.succ_mul, highest, units]
  omega

/-- The interval begins midway from the double before, which is nearer where the step changes. -/
theorem exists_previous (hfin : x.isFinite = true) (h : x.magnitude ≠ 0) :
    ∃ y : Double, y.isFinite = true ∧ y.negative = x.negative ∧ y.units < x.units ∧
      2 * (x.units + y.units) = x.lowest := by
  have h52 := two_pow_52
  have hlt := magnitude_lt hfin
  have hbound := x.magnitude_lt_two_pow
  obtain ⟨y, hsign, hmagnitude⟩ := exists_magnitude x.negative
    (show x.magnitude - 1 < Nat.pow 2 63 by omega)
  refine ⟨y, isFinite_iff.mpr (by omega), hsign, ?_⟩
  have hsig := x.significand_lt
  have hfull := le_significand (x := x)
  rw [lowest]
  cases hnarrow : x.narrowBelow with
  | true =>
    simp only [narrowBelow, decide_eq_true_eq] at hnarrow
    obtain ⟨hfraction, hfield⟩ := hnarrow
    obtain ⟨k, hk⟩ : ∃ k, x.shift = k + 1 := Nat.exists_eq_add_one.mpr (by rw [shift]; omega)
    have hone : x.significand = 4503599627370496 := by
      rw [significand, if_neg (by omega), hfraction, h52]
    have hunits : y.units = 9007199254740991 * Nat.pow 2 k := by
      refine units_eq_of_magnitude ?_ (by omega) (by omega)
      rw [hmagnitude, magnitude, hone, hk, h52]
      omega
    have hpow : Nat.pow 2 (k + 1) = Nat.pow 2 k * 2 := rfl
    have hpos : 0 < Nat.pow 2 k := Nat.pow_pos two_pos
    rw [if_pos rfl, hunits, units, hone, hk, hpow]
    omega
  | false =>
    have hne : x.shift ≠ 0 → x.significand ≠ 4503599627370496 := by
      intro hshift hone
      rw [narrowBelow_eq hshift hone] at hnarrow
      exact Bool.noConfusion hnarrow
    have hx : x.magnitude = x.shift * 4503599627370496 + x.significand := by rw [magnitude, h52]
    obtain ⟨s, hs⟩ : ∃ s, x.significand = s + 1 := Nat.exists_eq_add_one.mpr (by omega)
    have hunits : y.units = s * Nat.pow 2 x.shift :=
      units_eq_of_magnitude (by rw [hmagnitude, h52]; omega) (by omega) (by omega)
    have hpos : 0 < Nat.pow 2 x.shift := Nat.pow_pos two_pos
    rw [if_neg Bool.false_ne_true, hunits, units, hs, Nat.succ_mul]
    omega

end Neighbours

section Rounding

variable {q : ℚ} {x y : Double}

theorem abs_toRat_sub_eq (h : x.negative = decide (q < 0)) :
    |x.toRat - q| = |x.size - abs q| := by
  rw [toRat_eq_div, signedUnits, h, size]
  by_cases hq : q < 0
  · rw [if_pos (decide_eq_true hq), abs_of_neg hq, ← abs_neg]
    congr 1
    push_cast
    ring
  · rw [if_neg (by simpa using hq), abs_of_nonneg (not_lt.mp hq)]
    rfl

theorem size_lt_size_iff : x.size < y.size ↔ x.units < y.units := by
  rw [size, size, div_lt_div_iff_of_pos_right (Nat.cast_pos.mpr one_pos), Nat.cast_lt]

theorem Nearest.size_le (hx : x.Nearest q) (hfin : y.isFinite = true)
    (hsign : y.negative = x.negative) (hne : y.units ≠ x.units) :
    |x.size - abs q| ≤ |y.size - abs q| ∧
      (x.significand % 2 = 0 ∨ |x.size - abs q| < |y.size - abs q|) := by
  have hdist := hx.le y hfin
  have htie := hx.even y hfin
  rw [abs_toRat_sub_eq hx.negative, abs_toRat_sub_eq (hsign.trans hx.negative)] at hdist htie
  refine ⟨hdist, ?_⟩
  rcases hdist.eq_or_lt with heq | hlt
  · left
    refine (htie heq.symm).resolve_left fun hvalue => hne ?_
    have hunits : y.signedUnits = x.signedUnits := by
      have hscaled := congrArg (· * (one : ℚ)) hvalue
      simpa only [toRat_mul_one, Int.cast_inj] using hscaled
    rw [← natAbs_signedUnits, hunits, natAbs_signedUnits]
  · exact .inr hlt

theorem add_lt_of_abs_sub_lt {a b r : ℚ} (hab : a < b) (h : |b - r| < |a - r|) :
    a + b < 2 * r := by
  have hsq : (b - r) ^ 2 < (a - r) ^ 2 := sq_lt_sq.mpr h
  have hprod : (b - a) * (a + b - 2 * r) < 0 := by linarith
  linarith [neg_of_mul_neg_right hprod (sub_pos.mpr hab).le]

theorem lt_add_of_abs_sub_lt {a b r : ℚ} (hab : a < b) (h : |a - r| < |b - r|) :
    2 * r < a + b := by
  have hsq : (a - r) ^ 2 < (b - r) ^ 2 := sq_lt_sq.mpr h
  have hprod : 0 < (b - a) * (a + b - 2 * r) := by linarith
  linarith [pos_of_mul_pos_right hprod (sub_pos.mpr hab).le]

theorem size_mul_one (x : Double) : x.size * one = x.units :=
  div_mul_cancel₀ _ (Nat.cast_ne_zero.mpr one_pos.ne')

theorem cast_two_mul_units_add (x y : Double) :
    ((2 * (x.units + y.units) : ℕ) : ℚ) = 2 * (x.size + y.size) * one := by
  rw [mul_assoc, add_mul, size_mul_one, size_mul_one]
  push_cast
  rfl

theorem Nearest.lowest_le (hx : x.Nearest q) : (x.lowest : ℚ) ≤ 4 * (|q| * one) ∧
    (x.significand % 2 = 0 ∨ (x.lowest : ℚ) < 4 * (|q| * one)) := by
  have hone : (0 : ℚ) < one := Nat.cast_pos.mpr one_pos
  by_cases hzero : x.magnitude = 0
  · have h52 := two_pow_52
    have hsig : x.significand = 0 := by
      rw [magnitude] at hzero
      omega
    have hlowest : x.lowest = 0 := by rw [lowest, units, hsig]; omega
    rw [hlowest, hsig, Nat.cast_zero]
    exact ⟨mul_nonneg (by norm_num) (mul_nonneg (abs_nonneg q) hone.le), .inl rfl⟩
  · obtain ⟨y, hfin, hsign, hunits, hlowest⟩ := exists_previous hx.finite hzero
    obtain ⟨hle, hlt⟩ := hx.size_le hfin hsign hunits.ne
    have hsize := size_lt_size_iff.mpr hunits
    rw [← hlowest, cast_two_mul_units_add]
    constructor
    · have hmiddle := add_le_of_abs_sub_le hsize hle
      linarith [mul_le_mul_of_nonneg_right hmiddle hone.le]
    · refine hlt.imp_right fun hlt => ?_
      have hmiddle := add_lt_of_abs_sub_lt hsize hlt
      linarith [mul_lt_mul_of_pos_right hmiddle hone]

theorem IsRounding.le_highest (hx : x.IsRounding q) : 4 * (|q| * one) ≤ x.highest ∧
    (x.significand % 2 = 0 ∨ 4 * (|q| * one) < x.highest) := by
  have hone : (0 : ℚ) < one := Nat.cast_pos.mpr one_pos
  by_cases hlast : x.magnitude + 1 < 2047 * Nat.pow 2 52
  · obtain ⟨y, hfin, hsign, hunits, hhighest⟩ := exists_next hlast
    obtain ⟨hle, hlt⟩ := hx.nearest.size_le hfin hsign hunits.ne'
    have hsize := size_lt_size_iff.mpr hunits
    rw [← hhighest, cast_two_mul_units_add]
    constructor
    · have hmiddle := le_add_of_abs_sub_le hsize hle
      linarith [mul_le_mul_of_nonneg_right hmiddle hone.le]
    · refine hlt.imp_right fun hlt => ?_
      have hmiddle := lt_add_of_abs_sub_lt hsize hlt
      linarith [mul_lt_mul_of_pos_right hmiddle hone]
  · have hhighest := highest_eq_of_last hx.nearest.finite hlast
    have hlt : 4 * (|q| * one) < x.highest := by
      rw [hhighest, ← four_mul_overflowLimit]
      linarith [mul_lt_mul_of_pos_right hx.lt hone]
    exact ⟨hlt.le, .inr hlt⟩

theorem IsRounding.within (hx : x.IsRounding q) : x.Within |q| := by
  obtain ⟨hlow, hlow'⟩ := hx.nearest.lowest_le
  obtain ⟨hhigh, hhigh'⟩ := hx.le_highest
  refine ⟨hlow, hhigh, ?_⟩
  rcases hlow' with heven | hlow'
  · exact .inl heven
  · exact hhigh'.imp_right fun hhigh' => ⟨hlow', hhigh'⟩

theorem Within.isRounding (hfin : x.isFinite = true) (hsign : x.negative = decide (q < 0))
    (h : x.Within |q|) : x.IsRounding q := by
  have hden : 0 < q.den := q.den_pos
  have hratio : |q| = (q.num.natAbs : ℚ) / q.den := by
    nth_rewrite 1 [← Rat.num_div_den q]
    rw [abs_div, Nat.abs_cast, Nat.cast_natAbs, Int.cast_abs]
  rw [hratio, ← holds_iff_within hden] at h
  have hround := ofRatio_eq hfin hden h
  have hzero : x.negative = true → q.num.natAbs ≠ 0 := by
    intro hneg
    rw [hsign, decide_eq_true_eq] at hneg
    exact Int.natAbs_ne_zero.mpr (Rat.num_ne_zero.mpr hneg.ne)
  have hnearest := nearest_ofRatio hden hzero (by rw [hround]; exact hfin)
  have hvalue : (if x.negative then -(q.num.natAbs : ℤ) else q.num.natAbs) = q.num := by
    have hnum : q.num < 0 ↔ q < 0 := Rat.num_neg
    rw [hsign]
    by_cases hq : q < 0
    · rw [if_pos (decide_eq_true hq)]
      have := hnum.mpr hq
      omega
    · rw [if_neg (by simpa using hq)]
      have := mt hnum.mp hq
      omega
  rw [hround, hvalue, Rat.num_div_den] at hnearest
  refine ⟨hnearest, Within.lt_overflowLimit hfin ?_⟩
  rwa [hratio, ← holds_iff_within hden]

/-- A number is rounded to a finite double of its sign exactly if it is in the interval around it. -/
theorem isRounding_iff (hfin : x.isFinite = true) (hsign : x.negative = decide (q < 0)) :
    x.IsRounding q ↔ x.Within |q| :=
  ⟨IsRounding.within, Within.isRounding hfin hsign⟩

end Rounding

end QueryConsole.Double
