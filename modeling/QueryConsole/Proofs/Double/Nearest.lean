import Mathlib.Tactic.FieldSimp
import Mathlib.Tactic.Linarith
import Mathlib.Tactic.Ring
import QueryConsole.Proofs.Double.Rounding
import QueryConsole.Proofs.Double.Value

/-!
The double nearest to a number. Below the sign the bits of a double count the doubles up to it, so
two doubles are neighbours if these differ by one, and one of two neighbours has an even
significand. Hence a number has one nearest double, and rounding a ratio gives it: no double comes
closer than the multiples of the step that is rounded to.
-/

set_option autoImplicit false

namespace QueryConsole.Double

/-- No finite double is nearer to `q` than `x`, and one that is as near leaves it to the even
significand. A zero counts as positive unless it stands for a number below zero. -/
structure Nearest (q : ℚ) (x : Double) : Prop where
  finite : x.isFinite = true
  le : ∀ y : Double, y.isFinite = true → |x.toRat - q| ≤ |y.toRat - q|
  even : ∀ y : Double, y.isFinite = true → |y.toRat - q| = |x.toRat - q| →
    y.toRat = x.toRat ∨ x.significand % 2 = 0
  negative : x.negative = decide (q < 0)

section Magnitude

variable {x y : Double}

theorem magnitude_lt_two_pow (x : Double) : x.magnitude < Nat.pow 2 63 := by
  have hlt : x.exponentField < Nat.pow 2 11 := Nat.mod_lt _ (by decide)
  have hsig := x.significand_lt
  have h11 := two_pow_11
  have h52 := two_pow_52
  have h63 := two_pow_63
  simp only [magnitude, shift, h52, h63]
  omega

theorem negative_magnitude_of_word {s : Bool} {m : ℕ} (hm : m < Nat.pow 2 63)
    (h : x.word = (if s then Nat.pow 2 63 else 0) + m) : x.negative = s ∧ x.magnitude = m := by
  have hlt := x.magnitude_lt_two_pow
  rw [word_eq] at h
  generalize Nat.pow 2 63 = top at hm hlt h
  have hsign : x.negative = s := by
    refine Bool.eq_iff_iff.mpr ⟨fun hx => ?_, fun hs => ?_⟩
    · refine Decidable.byContradiction fun hs => ?_
      rw [if_pos hx, if_neg hs] at h
      omega
    · refine Decidable.byContradiction fun hx => ?_
      rw [if_neg hx, if_pos hs] at h
      omega
  rw [hsign] at h
  exact ⟨hsign, Nat.add_left_cancel h⟩

theorem eq_of_magnitude (hsign : x.negative = y.negative) (h : x.magnitude = y.magnitude) :
    x = y := by
  have hword : x.word = y.word := by rw [word_eq, word_eq, hsign, h]
  rw [← eq_of_word hword]
  exact (eq_of_word rfl).symm

theorem word_ofNat {n : ℕ} (h : n < 18446744073709551616) :
    word ⟨UInt64.ofNat n⟩ = n := UInt64.toNat_ofNat_of_lt h

theorem exists_magnitude (s : Bool) {m : ℕ} (h : m < Nat.pow 2 63) :
    ∃ x : Double, x.negative = s ∧ x.magnitude = m := by
  have h63 := two_pow_63
  refine ⟨⟨UInt64.ofNat ((if s then Nat.pow 2 63 else 0) + m)⟩,
    negative_magnitude_of_word h (word_ofNat ?_)⟩
  split <;> omega

theorem isFinite_iff : x.isFinite = true ↔ x.magnitude < 2047 * Nat.pow 2 52 := by
  constructor
  · exact magnitude_lt
  · intro h
    have h52 := two_pow_52
    have hfull := le_significand (x := x)
    simp only [isFinite, decide_eq_true_eq]
    intro hfield
    simp only [magnitude, shift, hfield, h52] at h hfull
    omega

theorem significand_mod_two (x : Double) : x.significand % 2 = x.magnitude % 2 := by
  have h52 := two_pow_52
  rw [magnitude, h52]
  omega

theorem units_eq_of_magnitude {k s : ℕ} (h : x.magnitude = k * Nat.pow 2 52 + s)
    (hs : s ≤ 9007199254740992) (hk : k = 0 ∨ 4503599627370496 ≤ s) :
    x.units = s * Nat.pow 2 k := by
  have h52 := two_pow_52
  have hlt := x.significand_lt
  have hfull := le_significand (x := x)
  rw [magnitude, h52] at h
  rw [units]
  by_cases hcarry : s = 9007199254740992
  · have hshift : x.shift = k + 1 := by omega
    have hsig : x.significand = 4503599627370496 := by omega
    have hpow : Nat.pow 2 (k + 1) = Nat.pow 2 k * 2 := rfl
    rw [hshift, hsig, hcarry, hpow]
    omega
  · have hshift : x.shift = k := by omega
    have hsig : x.significand = s := by omega
    rw [hshift, hsig]

theorem units_lt_of_magnitude_lt (h : x.magnitude < y.magnitude) : x.units < y.units := by
  have h52 := two_pow_52
  have hltx := x.significand_lt
  have hlty := y.significand_lt
  have hfullx := le_significand (x := x)
  have hfully := le_significand (x := y)
  simp only [magnitude, h52] at h
  rw [units, units]
  rcases Nat.lt_trichotomy x.shift y.shift with hlt | heq | hgt
  · have hstep : Nat.pow 2 (x.shift + 1) ≤ Nat.pow 2 y.shift :=
      Nat.pow_le_pow_right two_pos hlt
    have hpow : Nat.pow 2 (x.shift + 1) = Nat.pow 2 x.shift * 2 := rfl
    calc x.significand * Nat.pow 2 x.shift
        < 9007199254740992 * Nat.pow 2 x.shift :=
          Nat.mul_lt_mul_of_pos_right hltx (Nat.pow_pos two_pos)
      _ ≤ 4503599627370496 * Nat.pow 2 y.shift := by omega
      _ ≤ y.significand * Nat.pow 2 y.shift := Nat.mul_le_mul_right _ (hfully (by omega))
  · rw [heq] at h ⊢
    exact Nat.mul_lt_mul_of_pos_right (by omega) (Nat.pow_pos two_pos)
  · have := hfullx (by omega)
    omega

end Magnitude

section Order

variable {x y : Double}

theorem toRat_eq_div (x : Double) : x.toRat = x.signedUnits / one := by
  rw [eq_div_iff (Nat.cast_ne_zero.mpr one_pos.ne'), toRat_mul_one]

theorem toRat_lt_iff : x.toRat < y.toRat ↔ x.signedUnits < y.signedUnits := by
  rw [toRat_eq_div, toRat_eq_div, div_lt_div_iff_of_pos_right (Nat.cast_pos.mpr one_pos),
    Int.cast_lt]

theorem toRat_lt_of_magnitude_lt (hsign : x.negative = y.negative)
    (h : x.magnitude < y.magnitude) :
    if x.negative then y.toRat < x.toRat else x.toRat < y.toRat := by
  have hunits := units_lt_of_magnitude_lt h
  rw [toRat_lt_iff, toRat_lt_iff, signedUnits, signedUnits, ← hsign]
  split <;> omega

theorem abs_sub_lt_of_between {a b c q : ℚ} (h : |a - q| = |b - q|) (hac : a < c) (hcb : c < b) :
    |c - q| < |a - q| := by
  have hq : q = (a + b) / 2 := by
    rcases abs_eq_abs.mp h with heq | heq <;> linarith
  rw [abs_of_neg (by linarith : a - q < 0), abs_lt]
  constructor <;> linarith

theorem add_le_of_abs_sub_le {a b q : ℚ} (hab : a < b) (h : |b - q| ≤ |a - q|) :
    a + b ≤ 2 * q := by
  have hsq : (b - q) ^ 2 ≤ (a - q) ^ 2 := sq_le_sq.mpr h
  have hprod : (b - a) * (a + b - 2 * q) ≤ 0 := by linarith
  linarith [nonpos_of_mul_nonpos_right hprod (sub_pos.mpr hab)]

theorem le_add_of_abs_sub_le {a b q : ℚ} (hab : a < b) (h : |a - q| ≤ |b - q|) :
    2 * q ≤ a + b := by
  have hsq : (a - q) ^ 2 ≤ (b - q) ^ 2 := sq_le_sq.mpr h
  have hprod : 0 ≤ (b - a) * (a + b - 2 * q) := by linarith
  linarith [nonneg_of_mul_nonneg_right hprod (sub_pos.mpr hab)]

theorem Nearest.not_magnitude_lt {q : ℚ} (hx : x.Nearest q) (hy : y.Nearest q) :
    ¬ x.magnitude < y.magnitude := by
  intro h
  have hsign : x.negative = y.negative := by rw [hx.negative, hy.negative]
  have hdist : |x.toRat - q| = |y.toRat - q| :=
    le_antisymm (hx.le y hy.finite) (hy.le x hx.finite)
  have hne : x.toRat ≠ y.toRat := by
    have hlt := toRat_lt_of_magnitude_lt hsign h
    split at hlt
    · exact hlt.ne'
    · exact hlt.ne
  have hevenx := (hx.even y hy.finite hdist.symm).resolve_left hne.symm
  have heveny := (hy.even x hx.finite hdist).resolve_left hne
  rw [significand_mod_two] at hevenx heveny
  -- Between two doubles with even significands there is one with an odd significand.
  obtain ⟨z, hzsign, hz⟩ := exists_magnitude x.negative
    (lt_of_le_of_lt (Nat.succ_le_of_lt h) y.magnitude_lt_two_pow)
  have hxz := toRat_lt_of_magnitude_lt hzsign.symm (by omega : x.magnitude < z.magnitude)
  have hzy := toRat_lt_of_magnitude_lt (hzsign.trans hsign) (by omega : z.magnitude < y.magnitude)
  have hzfin : z.isFinite = true :=
    isFinite_iff.mpr (lt_of_le_of_lt (by omega) (isFinite_iff.mp hy.finite))
  rw [hzsign] at hzy
  have hcloser : |z.toRat - q| < |x.toRat - q| := by
    cases hneg : x.negative with
    | false =>
      simp only [hneg, Bool.false_eq_true, if_false] at hxz hzy
      exact abs_sub_lt_of_between hdist hxz hzy
    | true =>
      simp only [hneg, if_true] at hxz hzy
      rw [hdist]
      exact abs_sub_lt_of_between hdist.symm hzy hxz
  exact absurd (hx.le z hzfin) (not_le_of_gt hcloser)

theorem Nearest.unique {q : ℚ} (hx : x.Nearest q) (hy : y.Nearest q) : x = y := by
  have hsign : x.negative = y.negative := by rw [hx.negative, hy.negative]
  have hlt := hx.not_magnitude_lt hy
  have hgt := hy.not_magnitude_lt hx
  exact eq_of_magnitude hsign (by omega)

theorem Nearest.toRat_le {p q : ℚ} (hx : x.Nearest p) (hy : y.Nearest q) (h : p ≤ q) :
    x.toRat ≤ y.toRat := by
  rcases eq_or_lt_of_le h with rfl | hlt
  · rw [hx.unique hy]
  · by_contra hyx
    rw [not_le] at hyx
    have hp := add_le_of_abs_sub_le hyx (hx.le y hy.finite)
    have hq := le_add_of_abs_sub_le hyx (hy.le x hx.finite)
    linarith

end Order

section Rounding

theorem roundEven_bounds (a : ℕ) {b : ℕ} (hb : 0 < b) :
    2 * (roundEven a b * b) ≤ 2 * a + b ∧ 2 * a ≤ 2 * (roundEven a b * b) + b ∧
      (roundEven a b % 2 = 0 ∨
        2 * (roundEven a b * b) < 2 * a + b ∧ 2 * a < 2 * (roundEven a b * b) + b) := by
  have hdiv : a / b * b + a % b = a := Nat.div_add_mod' a b
  have hmod := Nat.mod_lt a hb
  have hsucc : (a / b + 1) * b = a / b * b + b := Nat.succ_mul _ _
  unfold roundEven
  generalize a / b = q at hdiv hsucc
  generalize a % b = r at hdiv hmod
  simp only
  split
  · omega
  split
  · omega
  split <;> omega

theorem natAbs_roundEven_le (a : ℕ) {b : ℕ} (hb : 0 < b) (j : ℤ) :
    ((roundEven a b : ℤ) * b - a).natAbs ≤ (j * b - a).natAbs ∧
      ((j * b - a).natAbs = ((roundEven a b : ℤ) * b - a).natAbs →
        j = roundEven a b ∨ roundEven a b % 2 = 0) := by
  obtain ⟨hlow, hhigh, htie⟩ := roundEven_bounds a hb
  generalize roundEven a b = r at *
  have hr : ((r * b : ℕ) : ℤ) = (r : ℤ) * b := Nat.cast_mul r b
  rcases lt_trichotomy j r with hlt | rfl | hgt
  · have hstep : j * b + b ≤ r * b := by
      rw [← add_one_mul]
      exact mul_le_mul_of_nonneg_right (by omega) (by omega)
    omega
  · omega
  · have hstep : (r : ℤ) * b + b ≤ j * b := by
      rw [← add_one_mul]
      exact mul_le_mul_of_nonneg_right (by omega) (by omega)
    omega

/-- A double is a multiple of the step, or it is below the least significand of that step. -/
theorem multiple_or_lt (y : Double) (k : ℕ) :
    (∃ j, y.units = j * Nat.pow 2 k) ∨ 0 < k ∧ y.units < 4503599627370496 * Nat.pow 2 k := by
  rcases Nat.lt_or_ge y.shift k with hlt | hge
  · right
    obtain ⟨l, rfl⟩ : ∃ l, k = l + 1 := ⟨k - 1, by omega⟩
    have hpow : Nat.pow 2 (l + 1) = Nat.pow 2 l * 2 := rfl
    have hstep : Nat.pow 2 y.shift ≤ Nat.pow 2 l :=
      Nat.pow_le_pow_right two_pos (Nat.le_of_lt_succ hlt)
    refine ⟨Nat.succ_pos l, ?_⟩
    calc y.significand * Nat.pow 2 y.shift
        < 9007199254740992 * Nat.pow 2 y.shift :=
          Nat.mul_lt_mul_of_pos_right y.significand_lt (Nat.pow_pos two_pos)
      _ ≤ 4503599627370496 * Nat.pow 2 (l + 1) := by omega
  · left
    have hpow : Nat.pow 2 (y.shift - k + k) = Nat.pow 2 (y.shift - k) * Nat.pow 2 k :=
      Nat.pow_add 2 _ _
    rw [Nat.sub_add_cancel hge] at hpow
    exact ⟨y.significand * Nat.pow 2 (y.shift - k), by rw [units, hpow, Nat.mul_assoc]⟩

def roundingShift (u den : ℕ) : ℕ := (u / den).log2 - 52

def roundedSignificand (u den : ℕ) : ℕ := roundEven u (den * Nat.pow 2 (roundingShift u den))

variable {u den : ℕ}

theorem lt_of_roundingShift (hden : 0 < den) :
    u < 9007199254740992 * (den * Nat.pow 2 (roundingShift u den)) := by
  have hpow : Nat.pow 2 (53 + roundingShift u den) * den =
      9007199254740992 * (den * Nat.pow 2 (roundingShift u den)) := pow_add_mul 53 _ den
  have hlog : Nat.pow 2 ((u / den).log2 + 1) ≤ Nat.pow 2 (53 + roundingShift u den) :=
    Nat.pow_le_pow_right two_pos (by unfold roundingShift; omega)
  rw [← hpow, ← Nat.div_lt_iff_lt_mul hden]
  exact lt_of_lt_of_le Nat.lt_log2_self hlog

theorem le_of_roundingShift (hden : 0 < den) (h : 0 < roundingShift u den) :
    4503599627370496 * (den * Nat.pow 2 (roundingShift u den)) ≤ u := by
  have hpow : Nat.pow 2 (52 + roundingShift u den) * den =
      4503599627370496 * (den * Nat.pow 2 (roundingShift u den)) := pow_add_mul 52 _ den
  have hlog : 52 + roundingShift u den = (u / den).log2 := by
    unfold roundingShift at h ⊢
    omega
  have hne : u / den ≠ 0 := by
    intro hzero
    rw [hzero, Nat.log2_zero] at hlog
    omega
  rw [← hpow, ← Nat.le_div_iff_mul_le hden, hlog]
  exact Nat.log2_self_le hne

theorem roundedSignificand_le (hden : 0 < den) : roundedSignificand u den ≤ 9007199254740992 := by
  have hpos : 0 < den * Nat.pow 2 (roundingShift u den) := Nat.mul_pos hden (Nat.pow_pos two_pos)
  obtain ⟨hlow, -, -⟩ := roundEven_bounds u hpos
  have hlt := lt_of_roundingShift (u := u) hden
  unfold roundedSignificand
  generalize den * Nat.pow 2 (roundingShift u den) = b at *
  by_contra hgt
  have hmul := Nat.mul_le_mul_right b (Nat.succ_le_of_lt (not_le.mp hgt))
  rw [Nat.succ_mul] at hmul
  omega

theorem le_roundedSignificand (hden : 0 < den) :
    roundingShift u den = 0 ∨ 4503599627370496 ≤ roundedSignificand u den := by
  rcases Nat.eq_zero_or_pos (roundingShift u den) with hzero | hshift
  · exact .inl hzero
  · right
    have hpos : 0 < den * Nat.pow 2 (roundingShift u den) :=
      Nat.mul_pos hden (Nat.pow_pos two_pos)
    obtain ⟨-, hhigh, -⟩ := roundEven_bounds u hpos
    have hle := le_of_roundingShift hden hshift
    unfold roundedSignificand
    generalize den * Nat.pow 2 (roundingShift u den) = b at *
    by_contra hlt
    have hmul := Nat.mul_le_mul_right b (Nat.succ_le_of_lt (not_le.mp hlt))
    rw [Nat.succ_mul] at hmul
    omega

theorem exists_mul_eq_of_natAbs {z : ℤ} {j n : ℕ} (h : z.natAbs = j * n) :
    ∃ i : ℤ, z = i * n := by
  have hcast : ((j * n : ℕ) : ℤ) = (j : ℤ) * n := Nat.cast_mul j n
  rcases Int.natAbs_eq z with hz | hz
  · exact ⟨j, by rw [hz, h, hcast]⟩
  · exact ⟨-j, by rw [hz, h, hcast, neg_mul]⟩

def roundedUnits (u den : ℕ) : ℕ := roundedSignificand u den * Nat.pow 2 (roundingShift u den)

/-- No double is nearer to the ratio than the multiple that it is rounded to. -/
theorem natAbs_roundedUnits_le (hden : 0 < den) (y : Double) {z : ℤ} (hz : z.natAbs = y.units) :
    ((roundedUnits u den : ℤ) * den - u).natAbs ≤ (z * den - u).natAbs ∧
      ((z * den - u).natAbs = ((roundedUnits u den : ℤ) * den - u).natAbs →
        z = roundedUnits u den ∨ roundedSignificand u den % 2 = 0) := by
  have hpos : 0 < den * Nat.pow 2 (roundingShift u den) := Nat.mul_pos hden (Nat.pow_pos two_pos)
  have hnearest := natAbs_roundEven_le u hpos
  have hle := le_of_roundingShift (u := u) hden
  have hgrid := multiple_or_lt y (roundingShift u den)
  unfold roundedUnits roundedSignificand
  generalize roundEven u (den * Nat.pow 2 (roundingShift u den)) = r at *
  generalize Nat.pow 2 (roundingShift u den) = step at *
  have hswap : ∀ i : ℤ, i * ((den * step : ℕ) : ℤ) = i * step * den := by
    intro i
    rw [Nat.cast_mul, mul_comm (den : ℤ), mul_assoc]
  simp only [hswap] at hnearest
  rw [Nat.cast_mul]
  rcases hgrid with ⟨j, hj⟩ | ⟨hshift, hlt⟩
  · obtain ⟨i, rfl⟩ := exists_mul_eq_of_natAbs (hz.trans hj)
    exact ⟨(hnearest i).1, fun heq => ((hnearest i).2 heq).imp_left fun hi => by rw [hi]⟩
  · have hfull := (hnearest 4503599627370496).1
    have hu : (4503599627370496 : ℤ) * step * den ≤ u := by
      rw [← hswap]
      exact mod_cast hle hshift
    have hbelow : z * den < (4503599627370496 : ℤ) * step * den :=
      mul_lt_mul_of_pos_right (by omega) (Nat.cast_pos.mpr hden)
    omega

end Rounding

section Ratio

variable {s : Bool} {num den : ℕ}

theorem ofRatio_eq_word (s : Bool) (num den : ℕ) :
    (ofRatio s num den).word = (if s then Nat.pow 2 63 else 0) +
      min (roundingShift (num * one) den * Nat.pow 2 52 + roundedSignificand (num * one) den)
        (2047 * Nat.pow 2 52) := by
  have h52 := two_pow_52
  have h63 := two_pow_63
  refine word_ofNat ?_
  split <;> omega

/-- Unless it is too great for a finite one, a ratio is rounded to the double of its sign and of the
rounded magnitude. -/
theorem negative_magnitude_ofRatio (hfin : (ofRatio s num den).isFinite = true) :
    (ofRatio s num den).negative = s ∧
      (ofRatio s num den).magnitude =
        roundingShift (num * one) den * Nat.pow 2 52 + roundedSignificand (num * one) den := by
  have h52 := two_pow_52
  have h63 := two_pow_63
  obtain ⟨hsign, hmagnitude⟩ :=
    negative_magnitude_of_word (by omega) (ofRatio_eq_word s num den)
  have hlt := isFinite_iff.mp hfin
  exact ⟨hsign, by omega⟩

theorem isFinite_ofRatio (h : roundingShift (num * one) den * Nat.pow 2 52 +
    roundedSignificand (num * one) den < 2047 * Nat.pow 2 52) :
    (ofRatio s num den).isFinite = true := by
  have h52 := two_pow_52
  have h63 := two_pow_63
  obtain ⟨-, hmagnitude⟩ :=
    negative_magnitude_of_word (by omega) (ofRatio_eq_word s num den)
  exact isFinite_iff.mpr (by omega)

theorem units_ofRatio (hden : 0 < den) (hfin : (ofRatio s num den).isFinite = true) :
    (ofRatio s num den).units = roundedUnits (num * one) den :=
  units_eq_of_magnitude (negative_magnitude_ofRatio hfin).2 (roundedSignificand_le hden)
    (le_roundedSignificand hden)

theorem significand_ofRatio_mod_two (hfin : (ofRatio s num den).isFinite = true) :
    (ofRatio s num den).significand % 2 = roundedSignificand (num * one) den % 2 := by
  have h52 := two_pow_52
  rw [significand_mod_two, (negative_magnitude_ofRatio hfin).2, h52]
  omega

section Distance

variable {x y : Double} {p : ℤ}

theorem abs_toRat_sub (x : Double) (p : ℤ) (hden : 0 < den) :
    |x.toRat - p / den| * (one * den) = ((x.signedUnits * den - p * one).natAbs : ℚ) := by
  have hone : (one : ℚ) ≠ 0 := Nat.cast_ne_zero.mpr one_pos.ne'
  have hpos : (0 : ℚ) < one * den :=
    mul_pos (Nat.cast_pos.mpr one_pos) (Nat.cast_pos.mpr hden)
  have hdenq : (den : ℚ) ≠ 0 := Nat.cast_ne_zero.mpr hden.ne'
  rw [← abs_of_pos hpos, ← abs_mul, toRat_eq_div, Nat.cast_natAbs]
  push_cast
  congr 1
  generalize (one : ℚ) = unit at *
  field_simp

theorem abs_toRat_sub_le_iff (hden : 0 < den) :
    |x.toRat - p / den| ≤ |y.toRat - p / den| ↔
      (x.signedUnits * den - p * one).natAbs ≤ (y.signedUnits * den - p * one).natAbs := by
  have hpos : (0 : ℚ) < one * den :=
    mul_pos (Nat.cast_pos.mpr one_pos) (Nat.cast_pos.mpr hden)
  rw [← mul_le_mul_iff_left₀ hpos, abs_toRat_sub x p hden, abs_toRat_sub y p hden, Nat.cast_le]

end Distance

/-- A double on the side of the given sign, so that the ratio is not below zero. -/
def unitsAlong (s : Bool) (x : Double) : ℤ := if s then -x.signedUnits else x.signedUnits

theorem natAbs_unitsAlong (s : Bool) (x : Double) : (x.unitsAlong s).natAbs = x.units := by
  rw [unitsAlong, ← natAbs_signedUnits]
  split
  · rw [Int.natAbs_neg]
  · rfl

theorem toRat_eq_of_unitsAlong_eq {x y : Double} (h : y.unitsAlong s = x.unitsAlong s) :
    y.toRat = x.toRat := by
  have hsigned : y.signedUnits = x.signedUnits := by
    unfold unitsAlong at h
    split at h
    · exact neg_inj.mp h
    · exact h
  rw [toRat_eq_div, toRat_eq_div, hsigned]

theorem natAbs_unitsAlong_sub (s : Bool) (x : Double) (num den : ℕ) :
    (x.signedUnits * den - (if s then -(num : ℤ) else num) * one).natAbs =
      (x.unitsAlong s * den - (num * one : ℕ)).natAbs := by
  rw [Nat.cast_mul, unitsAlong]
  split
  · rw [← Int.natAbs_neg]
    congr 1
    ring
  · rfl

theorem unitsAlong_ofRatio (hden : 0 < den) (hfin : (ofRatio s num den).isFinite = true) :
    (ofRatio s num den).unitsAlong s = roundedUnits (num * one) den := by
  rw [unitsAlong, signedUnits, (negative_magnitude_ofRatio hfin).1, units_ofRatio hden hfin]
  cases s <;> simp

theorem eq_decide_ratio_neg (hden : 0 < den) (hzero : s = true → num ≠ 0) :
    s = decide ((((if s then -(num : ℤ) else num : ℤ) : ℚ) / den) < 0) := by
  have hpos : (0 : ℚ) < den := Nat.cast_pos.mpr hden
  cases s with
  | false =>
    have hnonneg : (0 : ℚ) ≤ num / den := div_nonneg (Nat.cast_nonneg num) hpos.le
    simpa using hnonneg
  | true =>
    have hnum : (0 : ℚ) < num := Nat.cast_pos.mpr (Nat.pos_of_ne_zero (hzero rfl))
    have hneg : -(num : ℚ) / den < 0 := by
      rw [neg_div]
      exact neg_neg_of_pos (div_pos hnum hpos)
    simpa using hneg

/-- Rounding a ratio gives the double that is nearest to it. -/
theorem nearest_ofRatio (hden : 0 < den) (hzero : s = true → num ≠ 0)
    (hfin : (ofRatio s num den).isFinite = true) :
    (ofRatio s num den).Nearest (((if s then -(num : ℤ) else num : ℤ) : ℚ) / den) := by
  have hnearest : ∀ y : Double, _ := fun y =>
    natAbs_roundedUnits_le (u := num * one) hden y (natAbs_unitsAlong s y)
  simp only [← unitsAlong_ofRatio hden hfin, ← natAbs_unitsAlong_sub] at hnearest
  refine ⟨hfin, fun y _ => (abs_toRat_sub_le_iff hden).mpr (hnearest y).1, fun y _ heq => ?_, ?_⟩
  · have hdist := le_antisymm ((abs_toRat_sub_le_iff hden).mp heq.le)
      ((abs_toRat_sub_le_iff hden).mp heq.ge)
    refine ((hnearest y).2 hdist).imp toRat_eq_of_unitsAlong_eq fun hr => ?_
    rw [significand_ofRatio_mod_two hfin, hr]
  · rw [(negative_magnitude_ofRatio hfin).1]
    exact eq_decide_ratio_neg hden hzero

end Ratio

end QueryConsole.Double
