import QueryConsole.Proofs.Double.Interval
import QueryConsole.Proofs.Double.ReadBack

/-!
Why the shortest decimal is the shortest. The search finds the greatest exponent of all decimals in
the interval around a double. If one of them had fewer digits than the decimal that is found, there
would be a power of ten between the two, and its exponent could be taken one greater.
-/

set_option autoImplicit false

namespace QueryConsole.Double

theorem cast_ten_pow (n : ℕ) : ((Nat.pow 10 n : ℕ) : ℚ) = 10 ^ (n : ℤ) := by
  rw [zpow_natCast]
  exact Nat.cast_pow 10 n

namespace Decimal

def toRat (d : Decimal) : ℚ := d.digits * 10 ^ d.exponent

theorem toRat_eq_div (d : Decimal) : d.toRat = d.numerator / d.denominator := by
  have hten : (10 : ℚ) ≠ 0 := by norm_num
  rw [toRat, numerator, denominator, tensBelow, Nat.cast_mul, cast_ten_pow, cast_ten_pow,
    mul_div_assoc, ← zpow_sub₀ hten, Int.toNat_sub_toNat_neg]

theorem toRat_eq_of_sameValue {d r : Decimal} (h : d.SameValue r) : d.toRat = r.toRat := by
  have hd : (d.denominator : ℚ) ≠ 0 := Nat.cast_ne_zero.mpr d.denominator_pos.ne'
  have hr : (r.denominator : ℚ) ≠ 0 := Nat.cast_ne_zero.mpr r.denominator_pos.ne'
  rw [toRat_eq_div, toRat_eq_div, div_eq_div_iff hd hr]
  exact mod_cast h

theorem toRat_le_toRat {m n : ℕ} (e : ℤ) (h : m ≤ n) : toRat ⟨m, e⟩ ≤ toRat ⟨n, e⟩ :=
  mul_le_mul_of_nonneg_right (Nat.cast_le.mpr h) (zpow_nonneg (by norm_num) e)

end Decimal

variable {x : Double} {e : ℤ} {n : ℕ}

theorem holds_iff_within_toRat {d : Decimal} :
    x.Holds d.numerator d.denominator ↔ x.Within d.toRat := by
  rw [holds_iff_within d.denominator_pos, Decimal.toRat_eq_div]

theorem readsBack_iff_within : x.readsBack e n = true ↔ x.Within (Decimal.toRat ⟨n, e⟩) := by
  rw [← holds_iff_within_toRat, ← readsBack_iff]

theorem toRat_le_size_iff : Decimal.toRat ⟨n, e⟩ ≤ x.size ↔ n * tensAbove e ≤ x.units * tensBelow e := by
  have hden : (0 : ℚ) < (⟨n, e⟩ : Decimal).denominator :=
    Nat.cast_pos.mpr (Decimal.denominator_pos ⟨n, e⟩)
  have hnum : n * tensAbove e = (⟨n, e⟩ : Decimal).numerator * one := by
    rw [tensAbove, Decimal.numerator, Nat.mul_assoc, Nat.mul_comm one]
  rw [Decimal.toRat_eq_div, size, div_le_div_iff₀ hden (Nat.cast_pos.mpr one_pos), hnum, ← Nat.cast_mul,
    ← Nat.cast_mul, Nat.cast_le]
  rfl

theorem tensAbove_pos (e : ℤ) : 0 < tensAbove e := Nat.mul_pos one_pos (Nat.pow_pos (by decide))

theorem readsBack_eq_false_of_pointOn? (h : x.pointOn? e = none) :
    x.readsBack e (x.units * tensBelow e / tensAbove e) = false ∧
      x.readsBack e (x.units * tensBelow e / tensAbove e + 1) = false := by
  unfold pointOn? at h
  simp only at h
  generalize x.units * tensBelow e / tensAbove e = q at h ⊢
  cases hlow : x.readsBack e q with
  | false =>
    cases hhigh : x.readsBack e (q + 1) with
    | false => exact ⟨rfl, rfl⟩
    | true => simp [hlow, hhigh] at h
  | true =>
    cases hhigh : x.readsBack e (q + 1) with
    | false => simp [hlow, hhigh] at h
    | true =>
      simp only [hlow, hhigh] at h
      split at h
      · simp at h
      · simp at h

/-- Of all points of a grid the two next to the magnitude are the first to be in the interval. -/
theorem not_within_of_pointOn? (h : x.pointOn? e = none) (n : ℕ) : ¬ x.Within (Decimal.toRat ⟨n, e⟩) := by
  intro hn
  have hpos := tensAbove_pos e
  have hbelow : Decimal.toRat ⟨x.units * tensBelow e / tensAbove e, e⟩ ≤ x.size :=
    toRat_le_size_iff.mpr (Nat.div_mul_le_self _ _)
  have habove : x.size ≤ Decimal.toRat ⟨x.units * tensBelow e / tensAbove e + 1, e⟩ := by
    refine le_of_not_ge fun hle => ?_
    have hmul := toRat_le_size_iff.mp hle
    exact absurd (Nat.lt_div_mul_add hpos) (not_lt.mpr (by rwa [Nat.succ_mul] at hmul))
  obtain ⟨hlow, hhigh⟩ := readsBack_eq_false_of_pointOn? h
  rw [← Bool.not_eq_true, readsBack_iff_within] at hlow hhigh
  rcases Nat.lt_or_ge (x.units * tensBelow e / tensAbove e) n with hlt | hge
  · exact hhigh (x.within_size.convex hn habove (Decimal.toRat_le_toRat e (Nat.succ_le_of_lt hlt)))
  · exact hlow (hn.convex x.within_size (Decimal.toRat_le_toRat e hge) hbelow)

theorem le_exponent_search (m : ℕ) (he : e ≤ (m : ℤ) - 1074) (h : x.Within (Decimal.toRat ⟨n, e⟩)) :
    e ≤ (x.search m).exponent := by
  induction m with
  | zero =>
    have hlast : (x.search 0).exponent = -1074 := rfl
    rw [hlast]
    omega
  | succ m ih =>
    rw [Nat.cast_succ] at he
    unfold search
    split
    · exact he
    · rename_i hnone
      have hne : e ≠ (m : ℤ) + 1 - 1074 := by
        rintro rfl
        exact not_within_of_pointOn? hnone n h
      exact ih (by omega)

section Coarse

theorem lowest_pos (h : x.units ≠ 0) : 0 < x.lowest := by
  have hsig : x.significand ≠ 0 := by
    intro hzero
    rw [units, hzero, Nat.zero_mul] at h
    exact h rfl
  have hle := pow_shift_le_units hsig
  have hpos : 0 < Nat.pow 2 x.shift := Nat.pow_pos two_pos
  rw [lowest]
  split <;> omega

theorem Within.pos {q : ℚ} (hunits : x.units ≠ 0) (h : x.Within q) : 0 < q := by
  have hone : (0 : ℚ) < one := Nat.cast_pos.mpr one_pos
  have hlow : (0 : ℚ) < x.lowest := Nat.cast_pos.mpr (lowest_pos hunits)
  have hpoint : 0 < q * one := by linarith [h.low]
  exact pos_of_mul_pos_left hpoint hone.le

theorem Within.digits_pos {d : Decimal} (hunits : x.units ≠ 0) (h : x.Within d.toRat) :
    0 < d.digits := by
  have hpos := h.pos hunits
  rw [Decimal.toRat] at hpos
  exact Nat.cast_pos.mp (pos_of_mul_pos_left hpos (zpow_nonneg (by norm_num) _))

theorem highest_lt (hunits : x.units ≠ 0) : x.highest < 4 * Nat.pow 2 (x.units.log2 + 1) := by
  have hpos : 0 < Nat.pow 2 x.shift := Nat.pow_pos two_pos
  have hlt : x.units < Nat.pow 2 (x.units.log2 + 1) := Nat.lt_log2_self
  rw [highest]
  rw [units] at hunits hlt ⊢
  have hle : x.shift ≤ (x.significand * Nat.pow 2 x.shift).log2 :=
    (Nat.le_log2 hunits).mpr (Nat.le_mul_of_pos_left _ (Nat.pos_of_mul_pos_right
      (Nat.pos_of_ne_zero hunits)))
  generalize (x.significand * Nat.pow 2 x.shift).log2 = l at hlt hle ⊢
  obtain ⟨k, rfl⟩ : ∃ k, l = k + x.shift := ⟨l - x.shift, by omega⟩
  have hpow : Nat.pow 2 (k + x.shift + 1) = Nat.pow 2 (k + 1) * Nat.pow 2 x.shift := by
    rw [Nat.add_right_comm]
    exact Nat.pow_add 2 _ _
  rw [hpow] at hlt ⊢
  have hsucc := Nat.mul_le_mul_right (Nat.pow 2 x.shift)
    (Nat.succ_le_of_lt (Nat.lt_of_mul_lt_mul_right hlt))
  rw [Nat.succ_mul] at hsucc
  omega

theorem Within.lt_two_zpow {q : ℚ} (hunits : x.units ≠ 0) (h : x.Within q) :
    q < 2 ^ ((x.units.log2 : ℤ) - 1073) := by
  obtain ⟨k, hone, hk⟩ := exists_one_eq
  have hpos : (0 : ℚ) < one := Nat.cast_pos.mpr one_pos
  have hscaled : (2 : ℚ) ^ ((x.units.log2 : ℤ) - 1073) * one =
      (Nat.pow 2 (x.units.log2 + 1) : ℕ) := by
    have hexponent : (x.units.log2 : ℤ) - 1073 + k = (x.units.log2 + 1 : ℕ) := by omega
    rw [hone, cast_two_pow, cast_two_pow, ← zpow_add₀ two_ne_zero, hexponent]
  have hhighest : (x.highest : ℚ) < 4 * (2 ^ ((x.units.log2 : ℤ) - 1073) * one) := by
    rw [hscaled]
    exact_mod_cast highest_lt hunits
  have hpoint := h.high.trans_lt hhighest
  exact lt_of_mul_lt_mul_right (lt_of_mul_lt_mul_left hpoint (by norm_num)) hpos.le

/-- A power of ten below a power of two, with the bounds 2^3 < 10 and 10^3 < 2^10. -/
theorem exponent_le_of_lt {e l : ℤ} (h : (10 : ℚ) ^ e < 2 ^ l) :
    e ≤ if 0 ≤ l then l / 3 + 1 else -(3 * (-l / 10)) := by
  by_contra hlt
  refine absurd h (not_lt.mpr ?_)
  split at hlt
  · obtain ⟨m, rfl⟩ : ∃ m : ℕ, e = m := Int.eq_ofNat_of_zero_le (by omega)
    calc (2 : ℚ) ^ l ≤ 2 ^ ((3 * m : ℕ) : ℤ) :=
          zpow_le_zpow_right₀ one_le_two (by push_cast; omega)
      _ = 8 ^ m := by rw [zpow_natCast, pow_mul]; norm_num
      _ ≤ 10 ^ m := pow_le_pow_left₀ (by norm_num) (by norm_num) m
      _ = 10 ^ (m : ℤ) := (zpow_natCast 10 m).symm
  · obtain ⟨g, hg⟩ : ∃ g : ℕ, -l / 10 = g := Int.eq_ofNat_of_zero_le (by omega)
    calc (2 : ℚ) ^ l ≤ 2 ^ (-((10 * g : ℕ) : ℤ)) :=
          zpow_le_zpow_right₀ one_le_two (by push_cast; omega)
      _ = (1024 ^ g)⁻¹ := by rw [zpow_neg, zpow_natCast, pow_mul]; norm_num
      _ ≤ (1000 ^ g)⁻¹ := by
          gcongr
          norm_num
      _ = 10 ^ (-((3 * g : ℕ) : ℤ)) := by rw [zpow_neg, zpow_natCast, pow_mul]; norm_num
      _ ≤ 10 ^ e := zpow_le_zpow_right₀ (by norm_num) (by push_cast; omega)

theorem le_coarseExponent (hunits : x.units ≠ 0) (h : x.Within (Decimal.toRat ⟨n, e⟩)) :
    e ≤ x.coarseExponent := by
  have hten : (0 : ℚ) < 10 ^ e := zpow_pos (by norm_num) e
  have hn : (1 : ℚ) ≤ n := Nat.one_le_cast.mpr (h.digits_pos hunits)
  have hle : (10 : ℚ) ^ e ≤ Decimal.toRat ⟨n, e⟩ := le_mul_of_one_le_left hten.le hn
  exact exponent_le_of_lt (hle.trans_lt (h.lt_two_zpow hunits))

end Coarse

theorem within_shortest (x : Double) : x.Within x.shortest.toRat :=
  holds_iff_within_toRat.mp (holds_search x _)

/-- The shortest decimal is on the coarsest grid that has a point in the interval. -/
theorem isGreatest_shortest (hunits : x.units ≠ 0) :
    IsGreatest {e : ℤ | ∃ n : ℕ, x.Within (Decimal.toRat ⟨n, e⟩)} x.shortest.exponent := by
  constructor
  · exact ⟨x.shortest.digits, x.within_shortest⟩
  · rintro e ⟨n, hn⟩
    have hcoarse := le_coarseExponent hunits hn
    exact le_exponent_search _ (by omega) hn

theorem shortest_digits_lt {d : Decimal} {k : ℕ} (hunits : x.units ≠ 0) (h : x.Within d.toRat)
    (hd : d.digits < 10 ^ k) : x.shortest.digits < 10 ^ k := by
  have hten : (0 : ℚ) < 10 := by norm_num
  obtain ⟨hshortest, hgreatest⟩ := isGreatest_shortest hunits
  have hle : d.exponent ≤ x.shortest.exponent := hgreatest ⟨d.digits, h⟩
  have hpos := h.digits_pos hunits
  obtain ⟨j, rfl⟩ : ∃ j, k = j + 1 := by
    refine Nat.exists_eq_add_one_of_ne_zero ?_
    rintro rfl
    rw [pow_zero] at hd
    omega
  by_contra hge
  have hpower : Decimal.toRat ⟨10 ^ j, x.shortest.exponent + 1⟩ =
      (10 ^ (j + 1) : ℕ) * 10 ^ x.shortest.exponent := by
    rw [Decimal.toRat, zpow_add_one₀ hten.ne']
    push_cast
    ring
  have hfrom : d.toRat ≤ Decimal.toRat ⟨10 ^ j, x.shortest.exponent + 1⟩ := by
    rw [hpower]
    exact mul_le_mul (Nat.cast_le.mpr hd.le) (zpow_le_zpow_right₀ (by norm_num) hle)
      (zpow_pos hten _).le (Nat.cast_nonneg _)
  have hto : Decimal.toRat ⟨10 ^ j, x.shortest.exponent + 1⟩ ≤ x.shortest.toRat := by
    rw [hpower]
    exact mul_le_mul_of_nonneg_right (Nat.cast_le.mpr (not_lt.mp hge)) (zpow_pos hten _).le
  have hcoarser := hgreatest ⟨10 ^ j, h.convex x.within_shortest hfrom hto⟩
  omega

end QueryConsole.Double
