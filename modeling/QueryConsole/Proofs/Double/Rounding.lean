import QueryConsole.Double.Shortest

/-!
Which ratios round to a given double. A finite double is its sign, its step and its significand, and
every ratio in the interval around it rounds to it; the ends of the interval belong to it where the
significand is even. The interval is the one that the shortest decimal is taken from.
-/

set_option autoImplicit false

namespace QueryConsole.Double

theorem two_pow_11 : Nat.pow 2 11 = 2048 := rfl

theorem two_pow_52 : Nat.pow 2 52 = 4503599627370496 := rfl

theorem two_pow_63 : Nat.pow 2 63 = 9223372036854775808 := rfl

theorem fraction_lt (x : Double) : x.fraction < 4503599627370496 := Nat.mod_lt _ (by decide)

theorem significand_lt (x : Double) : x.significand < 9007199254740992 := by
  have hf := x.fraction_lt
  have hp := two_pow_52
  unfold significand
  split <;> omega

theorem le_significand {x : Double} (h : x.shift ≠ 0) : 4503599627370496 ≤ x.significand := by
  have hp := two_pow_52
  unfold shift at h
  unfold significand
  split <;> omega

theorem shift_le {x : Double} (h : x.isFinite = true) : x.shift ≤ 2045 := by
  have hlt : x.exponentField < 2048 := Nat.mod_lt _ (by decide)
  simp only [isFinite, decide_eq_true_eq] at h
  unfold shift
  omega

def magnitude (x : Double) : Nat := x.shift * Nat.pow 2 52 + x.significand

theorem word_eq (x : Double) :
    x.word = (if x.negative then Nat.pow 2 63 else 0) + x.magnitude := by
  have hlt : x.word < 18446744073709551616 := x.bits.toNat_lt
  have h52 := two_pow_52
  have h63 := two_pow_63
  have h11 := two_pow_11
  unfold magnitude shift significand negative exponentField fraction
  simp only [h52, h63, h11, decide_eq_true_eq]
  split <;> split <;> omega

theorem magnitude_lt {x : Double} (h : x.isFinite = true) :
    x.magnitude < 2047 * Nat.pow 2 52 := by
  have hshift := shift_le h
  have hsig := x.significand_lt
  have h52 := two_pow_52
  simp only [magnitude, h52]
  omega

theorem eq_of_word {x : Double} {n : Nat} (h : n = x.word) : ⟨UInt64.ofNat n⟩ = x := by
  cases x with
  | mk bits =>
    subst h
    simp [word]

theorem roundEven_eq {a b s : Nat} (hb : 0 < b) (hlow : 2 * (s * b) ≤ 2 * a + b)
    (hhigh : 2 * a ≤ 2 * (s * b) + b)
    (htie : s % 2 = 0 ∨ 2 * (s * b) < 2 * a + b ∧ 2 * a < 2 * (s * b) + b) :
    roundEven a b = s := by
  have hdiv : a / b * b + a % b = a := Nat.div_add_mod' a b
  have hmod := Nat.mod_lt a hb
  unfold roundEven
  generalize a / b = q at hdiv
  generalize a % b = r at hdiv hmod
  have hcases : s = q ∨ s = q + 1 := by
    rcases Nat.lt_or_ge s q with hlt | hge
    · have hmul := Nat.mul_le_mul_right b (Nat.succ_le_of_lt hlt)
      rw [Nat.succ_mul] at hmul
      omega
    · rcases Nat.lt_or_ge (q + 1) s with hlt | hle
      · have hmul := Nat.mul_le_mul_right b (Nat.succ_le_of_lt hlt)
        rw [Nat.succ_mul, Nat.succ_mul] at hmul
        omega
      · omega
  rcases hcases with rfl | rfl
  · simp only
    split
    · rfl
    split
    · omega
    split
    · rfl
    · omega
  · rw [Nat.succ_mul q b] at hlow hhigh htie
    simp only
    split
    · omega
    split
    · rfl
    split
    · omega
    · rfl

/-- The ratio, taken in units, lies in the interval around the magnitude of `x`. -/
def Holds (x : Double) (num den : Nat) : Prop :=
  if x.significand % 2 = 0 then
    x.lowest * den ≤ 4 * (num * one) ∧ 4 * (num * one) ≤ x.highest * den
  else
    x.lowest * den < 4 * (num * one) ∧ 4 * (num * one) < x.highest * den

/-- The ends of the interval in steps of `x`, where `u` stands over the denominator `den`. The lower
half of the interval is half as long where the numbers below are twice as dense. -/
structure Bounded (x : Double) (u den : Nat) : Prop where
  low : 4 * (x.significand * (den * Nat.pow 2 x.shift)) ≤
    4 * u + (if x.narrowBelow then 1 else 2) * (den * Nat.pow 2 x.shift)
  high : 4 * u ≤ 4 * (x.significand * (den * Nat.pow 2 x.shift)) + 2 * (den * Nat.pow 2 x.shift)
  strict : x.significand % 2 = 0 ∨
    4 * (x.significand * (den * Nat.pow 2 x.shift)) <
        4 * u + (if x.narrowBelow then 1 else 2) * (den * Nat.pow 2 x.shift) ∧
      4 * u < 4 * (x.significand * (den * Nat.pow 2 x.shift)) + 2 * (den * Nat.pow 2 x.shift)

theorem Holds.bounded {x : Double} {num den : Nat} (h : x.Holds num den) :
    x.Bounded (num * one) den := by
  have hlow : x.lowest * den =
      4 * (x.significand * (den * Nat.pow 2 x.shift)) -
        (if x.narrowBelow then 1 else 2) * (den * Nat.pow 2 x.shift) := by
    simp only [lowest, units, Nat.sub_mul]
    congr 1 <;> ac_rfl
  have hhigh : x.highest * den =
      4 * (x.significand * (den * Nat.pow 2 x.shift)) + 2 * (den * Nat.pow 2 x.shift) := by
    simp only [highest, units, Nat.add_mul]
    congr 1 <;> ac_rfl
  unfold Holds at h
  rw [hlow, hhigh] at h
  split at h
  · exact ⟨by omega, h.2, .inl ‹_›⟩
  · exact ⟨by omega, by omega, .inr ⟨by omega, h.2⟩⟩

theorem Bounded.roundEven {x : Double} {u den : Nat} (hden : 0 < den) (h : x.Bounded u den) :
    roundEven u (den * Nat.pow 2 x.shift) = x.significand := by
  have hpos : 0 < den * Nat.pow 2 x.shift := Nat.mul_pos hden (Nat.pow_pos (by decide))
  obtain ⟨hlow, hhigh, hstrict⟩ := h
  generalize den * Nat.pow 2 x.shift = b at *
  have hhalf : (if x.narrowBelow then 1 else 2) * b ≤ 2 * b :=
    Nat.mul_le_mul_right b (by split <;> decide)
  exact roundEven_eq hpos (by omega) (by omega) (by omega)

theorem log2_div {u den k : Nat} (hden : 0 < den) (hlow : Nat.pow 2 k * den ≤ u)
    (hhigh : u < Nat.pow 2 (k + 1) * den) : (u / den).log2 = k := by
  have hle : Nat.pow 2 k ≤ u / den := (Nat.le_div_iff_mul_le hden).2 hlow
  have hpos : 0 < Nat.pow 2 k := Nat.pow_pos (by decide)
  exact (Nat.log2_eq_iff (by omega)).2 ⟨hle, (Nat.div_lt_iff_lt_mul hden).2 hhigh⟩

theorem log2_div_le {u den k : Nat} (hden : 0 < den) (hhigh : u < Nat.pow 2 (k + 1) * den) :
    (u / den).log2 ≤ k := by
  have hlt : u / den < Nat.pow 2 (k + 1) := (Nat.div_lt_iff_lt_mul hden).2 hhigh
  by_cases hzero : u / den = 0
  · rw [hzero]
    exact Nat.zero_le k
  · exact Nat.le_of_lt_succ ((Nat.log2_lt hzero).2 hlt)

theorem pow_add_mul (k e den : Nat) :
    Nat.pow 2 (k + e) * den = Nat.pow 2 k * (den * Nat.pow 2 e) := by
  have h : Nat.pow 2 (k + e) = Nat.pow 2 k * Nat.pow 2 e := Nat.pow_add 2 k e
  rw [h]
  ac_rfl

theorem narrowBelow_eq {x : Double} (hshift : x.shift ≠ 0)
    (hsig : x.significand = 4503599627370496) : x.narrowBelow = true := by
  have h52 := two_pow_52
  unfold shift at hshift
  unfold significand at hsig
  have hne : x.exponentField ≠ 0 := by omega
  rw [if_neg hne] at hsig
  simp only [narrowBelow, decide_eq_true_eq]
  omega

/-- Rounding takes the step of `x`, or half of it for a ratio right below a power of two that is
close enough to be rounded up to it. -/
theorem Bounded.step {x : Double} {u den : Nat} (hden : 0 < den) (h : x.Bounded u den) :
    (u / den).log2 - 52 = x.shift ∨
      (u / den).log2 - 52 + 1 = x.shift ∧ x.significand = 4503599627370496 ∧
        x.narrowBelow = true ∧ u < 4503599627370496 * (den * Nat.pow 2 x.shift) := by
  have h51 : Nat.pow 2 (51 + x.shift) * den = 2251799813685248 * (den * Nat.pow 2 x.shift) :=
    pow_add_mul 51 x.shift den
  have h52 : Nat.pow 2 (52 + x.shift) * den = 4503599627370496 * (den * Nat.pow 2 x.shift) :=
    pow_add_mul 52 x.shift den
  have h53 : Nat.pow 2 (53 + x.shift) * den = 9007199254740992 * (den * Nat.pow 2 x.shift) :=
    pow_add_mul 53 x.shift den
  have hpos : 0 < den * Nat.pow 2 x.shift := Nat.mul_pos hden (Nat.pow_pos (by decide))
  have hnarrow := narrowBelow_eq (x := x)
  have hfull := le_significand (x := x)
  obtain ⟨hlow, hhigh, -⟩ := h
  have hsig := Nat.mul_le_mul_right (den * Nat.pow 2 x.shift) (Nat.le_of_lt_succ x.significand_lt)
  have hlog := log2_div_le (u := u) (k := 52 + x.shift) hden
  rw [show 52 + x.shift + 1 = 53 + x.shift by omega] at hlog
  rcases Nat.eq_zero_or_pos x.shift with hzero | hshift
  -- The first step is the finest one, so rounding cannot take a finer one.
  · left
    have := hlog (by omega)
    omega
  have hfull := hfull (by omega)
  rcases Nat.lt_or_ge u (4503599627370496 * (den * Nat.pow 2 x.shift)) with hbelow | habove
  · right
    have hone : x.significand = 4503599627370496 := by
      rcases Nat.lt_or_ge 4503599627370496 x.significand with hlt | hle
      · have := Nat.mul_le_mul_right (den * Nat.pow 2 x.shift) (Nat.succ_le_of_lt hlt)
        split at hlow <;> omega
      · omega
    have hnarrow := hnarrow (by omega) hone
    rw [hone, hnarrow] at hlow
    simp only [if_true] at hlow
    have hk : (u / den).log2 = 51 + x.shift := by
      refine log2_div hden (by omega) ?_
      rw [show 51 + x.shift + 1 = 52 + x.shift by omega]
      omega
    exact ⟨by omega, hone, hnarrow, hbelow⟩
  · left
    have hk : (u / den).log2 = 52 + x.shift := by
      refine log2_div hden (by omega) ?_
      rw [show 52 + x.shift + 1 = 53 + x.shift by omega]
      omega
    omega

theorem Bounded.magnitude_eq {x : Double} {u den : Nat} (hden : 0 < den) (h : x.Bounded u den) :
    ((u / den).log2 - 52) * Nat.pow 2 52 +
      Double.roundEven u (den * Nat.pow 2 ((u / den).log2 - 52)) = x.magnitude := by
  rcases h.step hden with hk | ⟨hk, hsig, hnarrow, hbelow⟩
  · rw [hk, h.roundEven hden]
    rfl
  · generalize (u / den).log2 - 52 = k at hk ⊢
    have hpos : 0 < den * Nat.pow 2 k := Nat.mul_pos hden (Nat.pow_pos (by decide))
    have hdouble : den * Nat.pow 2 x.shift = 2 * (den * Nat.pow 2 k) := by
      rw [← hk, show Nat.pow 2 (k + 1) = Nat.pow 2 k * 2 from rfl]
      ac_rfl
    have hlow := h.low
    rw [hdouble] at hbelow hlow
    rw [hsig, hnarrow] at hlow
    simp only [if_true] at hlow
    have hcarry : Double.roundEven u (den * Nat.pow 2 k) = 9007199254740992 :=
      roundEven_eq hpos (by omega) (by omega) (.inl (by decide))
    have h52 := two_pow_52
    rw [hcarry, magnitude, hsig, ← hk, h52]
    omega

/-- A ratio in the interval around a finite double rounds to it. -/
theorem ofRatio_eq {x : Double} {num den : Nat} (hfin : x.isFinite = true) (hden : 0 < den)
    (h : x.Holds num den) : ofRatio x.negative num den = x := by
  have hround := h.bounded.magnitude_eq hden
  have hlt := magnitude_lt hfin
  unfold ofRatio
  simp only
  apply eq_of_word
  rw [hround, word_eq, Nat.min_eq_left (Nat.le_of_lt hlt)]

theorem pow_shift_le_units {x : Double} (h : x.significand ≠ 0) : Nat.pow 2 x.shift ≤ x.units :=
  Nat.le_mul_of_pos_left _ (Nat.pos_of_ne_zero h)

theorem holds_units {x : Double} {num den : Nat} (hden : 0 < den)
    (h : num * one = x.units * den) : x.Holds num den := by
  have hpow : 0 < Nat.pow 2 x.shift := Nat.pow_pos (by decide)
  have hpoint : 4 * (num * one) = 4 * x.units * den := by rw [h, Nat.mul_assoc]
  unfold Holds
  rw [hpoint]
  split
  · constructor
    · exact Nat.mul_le_mul_right den (Nat.sub_le _ _)
    · exact Nat.mul_le_mul_right den (Nat.le_add_right _ _)
  · have hle := pow_shift_le_units (x := x) (by omega)
    have hlow : x.lowest < 4 * x.units := by
      unfold lowest
      split <;> omega
    have hhigh : 4 * x.units < x.highest := by
      unfold highest
      omega
    exact ⟨Nat.mul_lt_mul_of_pos_right hlow hden, Nat.mul_lt_mul_of_pos_right hhigh hden⟩

theorem mul_unit_congr {num den num' den' : Nat} (unit : Nat) (heq : num * den' = num' * den) :
    4 * (num * unit) * den' = 4 * (num' * unit) * den := by
  calc 4 * (num * unit) * den' = 4 * unit * (num * den') := by ac_rfl
    _ = 4 * unit * (num' * den) := by rw [heq]
    _ = 4 * (num' * unit) * den := by ac_rfl

theorem Holds.congr {x : Double} {num den num' den' : Nat} (hden : 0 < den) (hden' : 0 < den')
    (heq : num * den' = num' * den) (h : x.Holds num den) : x.Holds num' den' := by
  have hpoint := mul_unit_congr one heq
  have hswap : ∀ n, n * den * den' = n * den' * den := fun n => Nat.mul_right_comm n den den'
  unfold Holds at h ⊢
  split at h
  · rw [if_pos ‹_›]
    have hlow := Nat.mul_le_mul_right den' h.1
    have hhigh := Nat.mul_le_mul_right den' h.2
    rw [hswap, hpoint] at hlow
    rw [hswap, hpoint] at hhigh
    exact ⟨Nat.le_of_mul_le_mul_right hlow hden, Nat.le_of_mul_le_mul_right hhigh hden⟩
  · rw [if_neg ‹_›]
    have hlow := Nat.mul_lt_mul_of_pos_right h.1 hden'
    have hhigh := Nat.mul_lt_mul_of_pos_right h.2 hden'
    rw [hswap, hpoint] at hlow
    rw [hswap, hpoint] at hhigh
    exact ⟨Nat.lt_of_mul_lt_mul_right hlow, Nat.lt_of_mul_lt_mul_right hhigh⟩

end QueryConsole.Double
