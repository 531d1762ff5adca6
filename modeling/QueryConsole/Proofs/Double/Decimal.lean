import Mathlib.Data.List.DropRight
import Mathlib.Data.Nat.Digits.Defs
import QueryConsole.Proofs.Double.Shortest
import QueryConsole.Value.Line

set_option autoImplicit false

namespace QueryConsole

namespace Double

open Numeral

section Value

/-- The exact value of a decimal text, which may have a minus sign, a point and an exponent. -/
def decimalValue? : Text → Option ℚ
  | [] => none
  | c :: t =>
    if c = '-' then (Decimal.read? t).map fun d => -d.toRat
    else (Decimal.read? (c :: t)).map Decimal.toRat

def signedRat (negative : Bool) (q : ℚ) : ℚ := if negative then -q else q

theorem decimalValue?_sign_append {s : Bool} {t : Text} {d : Decimal}
    (hdigit : ∃ c u, t = c :: u ∧ c.isDigit = true) (hread : Decimal.read? t = some d) :
    decimalValue? ((if s then ['-'] else []) ++ t) = some (signedRat s d.toRat) := by
  obtain ⟨c, u, rfl, hc⟩ := hdigit
  cases s with
  | false =>
    change decimalValue? (c :: u) = some d.toRat
    rw [decimalValue?, if_neg (isDigit_ne_minus hc), hread]
    rfl
  | true =>
    change decimalValue? ('-' :: c :: u) = some (-d.toRat)
    rw [decimalValue?, if_pos rfl, hread]
    rfl

theorem Decimal.toRat_nonneg (d : Decimal) : 0 ≤ d.toRat :=
  mul_nonneg (Nat.cast_nonneg _) (zpow_nonneg (by norm_num) _)

theorem exists_decimal_of_decimalValue? {t : Text} {q : ℚ} (h : decimalValue? t = some q) :
    ∃ (u : Text) (d : Decimal), (t = u ∨ t = '-' :: u) ∧ Decimal.read? u = some d ∧
      |q| = d.toRat := by
  cases t with
  | nil => simp [decimalValue?] at h
  | cons c t =>
    rw [decimalValue?] at h
    split at h
    · rename_i hc
      obtain ⟨d, hd, rfl⟩ := Option.map_eq_some_iff.mp h
      exact ⟨t, d, .inr (by rw [hc]), hd, by rw [abs_neg, abs_of_nonneg d.toRat_nonneg]⟩
    · obtain ⟨d, hd, rfl⟩ := Option.map_eq_some_iff.mp h
      exact ⟨c :: t, d, .inl rfl, hd, abs_of_nonneg d.toRat_nonneg⟩

end Value

section Significant

def mantissaDigits (t : Text) : Text := (t.takeWhile (· ≠ 'e')).filter Char.isDigit

def trimZeros (ds : Text) : Text := (ds.dropWhile (· = '0')).rdropWhile (· = '0')

/-- How many digits a decimal text has from the first one to the last one other than zero. -/
def significantDigits (t : Text) : ℕ := (trimZeros (mantissaDigits t)).length

theorem mantissaDigits_of_notMem {t : Text} (h : 'e' ∉ t) :
    mantissaDigits t = t.filter Char.isDigit := by
  rw [mantissaDigits, List.takeWhile_eq_self_iff.mpr]
  intro c hc
  simpa using fun he : c = 'e' => h (he ▸ hc)

theorem mantissaDigits_exponent {t : Text} (u : Text) (h : 'e' ∉ t) :
    mantissaDigits (t ++ 'e' :: u) = t.filter Char.isDigit := by
  rw [mantissaDigits, List.takeWhile_append_of_pos, List.takeWhile_cons_of_neg (by simp),
    List.append_nil]
  intro c hc
  simpa using fun he : c = 'e' => h (he ▸ hc)

theorem significantDigits_minus (t : Text) : significantDigits ('-' :: t) = significantDigits t := by
  rw [significantDigits, mantissaDigits, List.takeWhile_cons_of_pos (by decide),
    List.filter_cons_of_neg (by decide)]
  rfl

theorem dropWhile_zeros_append (n : ℕ) (ds : Text) :
    (List.replicate n '0' ++ ds).dropWhile (· = '0') = ds.dropWhile (· = '0') :=
  List.dropWhile_append_of_pos fun c hc => by simpa using List.eq_of_mem_replicate hc

theorem rdropWhile_append_zeros (ds : Text) (n : ℕ) :
    (ds ++ List.replicate n '0').rdropWhile (· = '0') = ds.rdropWhile (· = '0') := by
  rw [List.rdropWhile, List.reverse_append, List.reverse_replicate, dropWhile_zeros_append,
    List.rdropWhile]

theorem length_trimZeros_le (a b : ℕ) (ds : Text) :
    (trimZeros (List.replicate a '0' ++ ds ++ List.replicate b '0')).length ≤ ds.length := by
  rw [trimZeros, List.append_assoc, dropWhile_zeros_append, List.dropWhile_append]
  split
  · have hzeros := dropWhile_zeros_append b []
    rw [List.append_nil] at hzeros
    rw [hzeros]
    exact Nat.zero_le _
  · rw [rdropWhile_append_zeros]
    exact (List.rdropWhile_prefix _ _).length_le.trans (List.dropWhile_suffix _).length_le

theorem exists_eq_trimZeros (ds : Text) :
    ∃ a b, ds = List.replicate a '0' ++ (trimZeros ds ++ List.replicate b '0') := by
  have hfront : ds.takeWhile (· = '0') = List.replicate (ds.takeWhile (· = '0')).length '0' :=
    List.eq_replicate_iff.mpr ⟨rfl, fun c hc => by simpa using List.mem_takeWhile_imp hc⟩
  have hend : (ds.dropWhile (· = '0')).rtakeWhile (· = '0') =
      List.replicate ((ds.dropWhile (· = '0')).rtakeWhile (· = '0')).length '0' :=
    List.eq_replicate_iff.mpr ⟨rfl, fun c hc => by
      simpa using List.mem_takeWhile_imp (List.mem_reverse.mp hc)⟩
  refine ⟨(ds.takeWhile (· = '0')).length, ((ds.dropWhile (· = '0')).rtakeWhile (· = '0')).length, ?_⟩
  rw [← hfront, ← hend, trimZeros, List.rdropWhile_append_rtakeWhile,
    List.takeWhile_append_dropWhile]

/-- Zeros in front do not count, and zeros at the end only move the digits before them. -/
theorem exists_value_eq {ds : Text} (h : ∀ c ∈ ds, c.isDigit = true) :
    ∃ m z, value ds = m * 10 ^ z ∧ m < 10 ^ (trimZeros ds).length := by
  obtain ⟨a, b, hds⟩ := exists_eq_trimZeros ds
  have hdigits : ∀ c ∈ trimZeros ds, c.isDigit = true := fun c hc =>
    h c ((List.dropWhile_suffix _).subset ((List.rdropWhile_prefix _ _).subset hc))
  refine ⟨value (trimZeros ds), b, ?_, value_lt hdigits⟩
  have hvalue := congrArg value hds
  rwa [Decimal.value_zeros_append, Decimal.value_append_zeros] at hvalue

theorem digits_eq_of_readPoint? {t : Text} {d : Decimal} (h : Decimal.readPoint? t = some d) :
    d.digits = value (t.filter Char.isDigit) := by
  rw [Decimal.readPoint?] at h
  split at h
  · obtain ⟨n, hn, rfl⟩ := Option.map_eq_some_iff.mp h
    obtain ⟨hdigits, rfl⟩ := readNat?_eq_some hn
    rw [List.filter_eq_self.mpr hdigits]
  · rename_i whole part hsplit
    obtain ⟨rfl, -⟩ := splitFirst_eq_some_iff.mp hsplit
    split at h
    · simp at h
    · obtain ⟨n, hn, rfl⟩ := Option.map_eq_some_iff.mp h
      obtain ⟨hdigits, rfl⟩ := readNat?_eq_some hn
      rw [List.filter_append, List.filter_cons_of_neg (by decide), ← List.filter_append,
        List.filter_eq_self.mpr hdigits]

theorem digits_eq_of_read? {t : Text} {d : Decimal} (h : Decimal.read? t = some d) :
    d.digits = value (mantissaDigits t) := by
  rw [Decimal.read?] at h
  split at h
  · rename_i hsplit
    rw [mantissaDigits_of_notMem (splitFirst_eq_none_iff.mp hsplit)]
    exact digits_eq_of_readPoint? h
  · rename_i mantissa exponent hsplit
    obtain ⟨rfl, hmantissa⟩ := splitFirst_eq_some_iff.mp hsplit
    rw [mantissaDigits_exponent _ hmantissa]
    simp only [Option.bind_eq_bind, Option.bind_eq_some_iff, Option.some.injEq] at h
    obtain ⟨r, hr, n, -, rfl⟩ := h
    have hdigits := digits_eq_of_readPoint? hr
    exact hdigits

variable {ds : Text}

theorem filter_point (k : ℕ) (hds : ∀ c ∈ ds, c.isDigit = true) :
    (ds.take k ++ '.' :: ds.drop k).filter Char.isDigit = ds := by
  rw [List.filter_append, List.filter_cons_of_neg (by decide), ← List.filter_append,
    List.take_append_drop, List.filter_eq_self.mpr hds]

theorem filter_zeros (n : ℕ) :
    (List.replicate n '0').filter Char.isDigit = List.replicate n '0' :=
  List.filter_eq_self.mpr fun _ hc => Decimal.isDigit_of_mem_zeros hc

theorem exists_mantissaDigits_text (d : Decimal) :
    ∃ a b, mantissaDigits d.text =
      List.replicate a '0' ++ ofNat d.digits ++ List.replicate b '0' := by
  have hdigits : ∀ c ∈ ofNat d.digits, c.isDigit = true := fun c hc => isDigit_of_mem_ofNat hc
  have he : 'e' ∉ ofNat d.digits := Decimal.notMem_of_digits hdigits rfl
  have hfilter : (ofNat d.digits).filter Char.isDigit = ofNat d.digits :=
    List.filter_eq_self.mpr hdigits
  rw [Decimal.text]
  split
  · rw [mantissaDigits_of_notMem (Decimal.notMem_writePositional d.exponent hdigits)]
    rw [writePositional]
    split
    · generalize (-(((ofNat d.digits).length : ℤ) + d.exponent)).toNat = k
      refine ⟨k + 1, 0, ?_⟩
      rw [List.filter_append, List.filter_append, filter_zeros, hfilter]
      simp [List.replicate_succ]
    split
    · refine ⟨0, d.exponent.toNat + 1, ?_⟩
      rw [List.filter_append, List.filter_append, filter_zeros, hfilter]
      simp [List.replicate_succ']
    · exact ⟨0, 0, by rw [filter_point _ hdigits]; simp⟩
  · rw [writeScientific]
    refine ⟨0, 0, ?_⟩
    split
    · have htake : (ofNat d.digits).take 1 = ofNat d.digits := List.take_of_length_le ‹_›
      rw [htake, List.append_nil, mantissaDigits_exponent _ he, hfilter]
      simp
    · rw [mantissaDigits_exponent _ (Decimal.notMem_point 1 hdigits), filter_point 1 hdigits]
      simp

theorem significantDigits_text_le (d : Decimal) :
    significantDigits d.text ≤ (ofNat d.digits).length := by
  obtain ⟨a, b, hdigits⟩ := exists_mantissaDigits_text d
  rw [significantDigits, hdigits]
  exact length_trimZeros_le a b _

end Significant

section Finite

variable {x : Double}

theorem point_or_exponent_mem_text (d : Decimal) : '.' ∈ d.text ∨ 'e' ∈ d.text := by
  rw [Decimal.text]
  split
  · left
    rw [writePositional]
    split
    · simp
    split
    · simp
    · simp
  · right
    simp [writeScientific]

theorem isDigit_or_minus_of_mem_ofInt {n : ℤ} {c : Char} (h : c ∈ Numeral.ofInt n) :
    c.isDigit = true ∨ c = '-' := by
  rw [ofInt_eq, List.mem_append] at h
  rcases h with h | h
  · split at h
    · exact .inr (List.mem_singleton.mp h)
    · simp at h
  · exact .inl (isDigit_of_mem_ofNat h)

theorem plainInt?_eq_some_iff {n : ℤ} :
    x.plainInt? = some n ↔ x.isFinite = true ∧ x.toRat = n ∧ |n| ≤ 2 ^ 53 := by
  have hlimit : exactLimit = 9007199254740992 := rfl
  have habs : |n| ≤ 2 ^ 53 ↔ n.natAbs ≤ exactLimit := by
    rw [hlimit, Int.abs_eq_natAbs]
    omega
  rw [plainInt?, Option.filter_eq_some_iff, toInt?_eq_some_iff, habs, decide_eq_true_eq, and_assoc]

theorem text_of_plainInt? {n : ℤ} (h : x.plainInt? = some n) : x.text = Numeral.ofInt n := by
  have hfin := (plainInt?_eq_some_iff.mp h).1
  rw [text, isNaN_of_isFinite hfin, if_neg Bool.false_ne_true, if_pos hfin, h]

theorem text_of_not_plain (hfin : x.isFinite = true) (h : x.plainInt? = none) :
    x.text = x.signText ++ x.shortest.text := by
  rw [text, isNaN_of_isFinite hfin, if_neg Bool.false_ne_true, if_pos hfin, h]

theorem text_eq_ofInt_iff (hfin : x.isFinite = true) (n : ℤ) :
    x.text = Numeral.ofInt n ↔ x.toRat = n ∧ |n| ≤ 2 ^ 53 := by
  constructor
  · intro h
    cases hplain : x.plainInt? with
    | some m =>
      rw [text_of_plainInt? hplain] at h
      have hread := readInt?_ofInt m
      rw [h, readInt?_ofInt, Option.some.injEq] at hread
      exact hread ▸ (plainInt?_eq_some_iff.mp hplain).2
    | none =>
      rw [text_of_not_plain hfin hplain] at h
      have hmem : ∀ c ∈ x.shortest.text, c.isDigit = true ∨ c = '-' := fun c hc =>
        isDigit_or_minus_of_mem_ofInt (h ▸ List.mem_append_right _ hc)
      rcases point_or_exponent_mem_text x.shortest with hpoint | hexponent
      · exact absurd (hmem '.' hpoint) (by decide)
      · exact absurd (hmem 'e' hexponent) (by decide)
  · rintro ⟨hvalue, hle⟩
    exact text_of_plainInt? (plainInt?_eq_some_iff.mpr ⟨hfin, hvalue, hle⟩)

theorem units_ne_zero_of_not_plain (hfin : x.isFinite = true) (h : x.plainInt? = none) :
    x.units ≠ 0 := by
  intro hzero
  rw [plainInt?_of_units_eq_zero hfin hzero] at h
  simp at h

theorem abs_toRat (x : Double) : |x.toRat| = x.size := by
  rw [toRat_eq_div, abs_div, Nat.abs_cast, ← Int.cast_abs, Int.abs_eq_natAbs, natAbs_signedUnits,
    Int.cast_natCast, size]

theorem signedRat_neg_iff {s : Bool} {q : ℚ} (hq : 0 < q) : signedRat s q < 0 ↔ s = true := by
  cases s with
  | false => simpa [signedRat] using hq.le
  | true => simpa [signedRat] using hq

theorem toRat_eq_signedRat (x : Double) : x.toRat = signedRat x.negative x.size := by
  rw [toRat_eq_div, signedUnits, signedRat, size]
  split
  · push_cast
    ring
  · rfl

theorem eq_negativeZero_of_units_eq_zero (hneg : x.negative = true) (h : x.units = 0) :
    x = negativeZero :=
  eq_of_magnitude (hneg.trans (by decide)) ((units_eq_zero_iff.mp h).trans (by decide))

theorem size_pos (h : x.units ≠ 0) : 0 < x.size :=
  div_pos (Nat.cast_pos.mpr (Nat.pos_of_ne_zero h)) (Nat.cast_pos.mpr one_pos)

theorem negative_eq_decide (hne : x ≠ negativeZero) : x.negative = decide (x.toRat < 0) := by
  rw [toRat_eq_signedRat]
  by_cases hunits : x.units = 0
  · have hsign : x.negative = false := by
      rw [← Bool.not_eq_true]
      exact fun hneg => hne (eq_negativeZero_of_units_eq_zero hneg hunits)
    rw [hsign, signedRat, if_neg Bool.false_ne_true, size, hunits, Nat.cast_zero, zero_div]
    exact (decide_eq_false (lt_irrefl 0)).symm
  · rw [Bool.eq_iff_iff, decide_eq_true_eq, signedRat_neg_iff (size_pos hunits)]

theorem isRounding_toRat (hfin : x.isFinite = true) :
    (if x = negativeZero then zero else x).IsRounding x.toRat := by
  have hself : ∀ y : Double, y.isFinite = true → y ≠ negativeZero → y.IsRounding y.toRat :=
    fun y hy hne => (isRounding_iff hy (negative_eq_decide hne)).mpr (abs_toRat y ▸ y.within_size)
  split
  · rename_i hzero
    have hvalue : negativeZero.toRat = zero.toRat := by
      rw [toRat_eq_div, toRat_eq_div]
      rfl
    rw [hzero, hvalue]
    exact hself zero rfl (by decide)
  · exact hself x hfin ‹_›

theorem decimalValue?_ofInt (n : ℤ) : decimalValue? (Numeral.ofInt n) = some (n : ℚ) := by
  have hsign : (if n < 0 then ['-'] else []) = if decide (n < 0) = true then ['-'] else [] := by
    simp
  have hvalue : signedRat (decide (n < 0)) (Decimal.toRat ⟨n.natAbs, 0⟩) = n := by
    rw [signedRat, Decimal.toRat, zpow_zero, mul_one, Nat.cast_natAbs]
    by_cases hn : n < 0
    · rw [if_pos (decide_eq_true hn), abs_of_neg hn]
      push_cast
      ring
    · rw [if_neg (by simpa using hn), abs_of_nonneg (not_lt.mp hn)]
  rw [ofInt_eq, hsign, decimalValue?_sign_append (exists_ofNat_eq_cons _) (Decimal.read?_ofNat _),
    hvalue]

theorem isRounding_shortest (hfin : x.isFinite = true) (hunits : x.units ≠ 0) :
    x.IsRounding (signedRat x.negative x.shortest.toRat) := by
  have hin := x.within_shortest
  have hpos := hin.pos hunits
  have hsign : x.negative = decide (signedRat x.negative x.shortest.toRat < 0) := by
    rw [Bool.eq_iff_iff, decide_eq_true_eq, signedRat_neg_iff hpos]
  have habs : |signedRat x.negative x.shortest.toRat| = x.shortest.toRat := by
    rw [signedRat]
    split
    · rw [abs_neg, abs_of_pos hpos]
    · rw [abs_of_pos hpos]
  rw [isRounding_iff hfin hsign, habs]
  exact hin

theorem decimalValue?_shortest (x : Double) :
    decimalValue? (x.signText ++ x.shortest.text) =
      some (signedRat x.negative x.shortest.toRat) := by
  obtain ⟨d, hd, hvalue⟩ := x.shortest.read?_text
  rw [signText, decimalValue?_sign_append x.shortest.exists_text_eq_cons hd,
    Decimal.toRat_eq_of_sameValue hvalue]

theorem significantDigits_signText (x : Double) (t : Text) :
    significantDigits (x.signText ++ t) = significantDigits t := by
  rw [signText]
  split
  · exact significantDigits_minus t
  · rfl

theorem significantDigits_shortest_le (hunits : x.units ≠ 0) {t : Text} {q : ℚ}
    (ht : decimalValue? t = some q) (hq : x.IsRounding q) :
    significantDigits (x.signText ++ x.shortest.text) ≤ significantDigits t := by
  obtain ⟨u, d, hu, hread, habs⟩ := exists_decimal_of_decimalValue? ht
  have hdigits : significantDigits t = significantDigits u := by
    rcases hu with rfl | rfl
    · rfl
    · exact significantDigits_minus u
  have hdigit : ∀ c ∈ mantissaDigits u, c.isDigit = true := fun c hc => (List.mem_filter.mp hc).2
  obtain ⟨m, z, hvalue, hm⟩ := exists_value_eq hdigit
  rw [← digits_eq_of_read? hread] at hvalue
  have hin : x.Within (Decimal.toRat ⟨m, z + d.exponent⟩) := by
    have hmoved : Decimal.toRat ⟨m, z + d.exponent⟩ = d.toRat := by
      rw [Decimal.toRat, Decimal.toRat, hvalue, zpow_add₀ (by norm_num), zpow_natCast]
      push_cast
      ring
    rw [hmoved, ← habs]
    exact hq.within
  have hlt := shortest_digits_lt hunits hin hm
  rw [significantDigits_signText, hdigits]
  refine (significantDigits_text_le x.shortest).trans (Nat.toDigits_length 10 _ _ ?_ hlt)
  refine Nat.pos_of_ne_zero fun hzero => ?_
  rw [← significantDigits, hzero, pow_zero] at hm
  have hpos : 0 < m := hin.digits_pos hunits
  omega

end Finite

/-- The text of a finite double is a decimal that is rounded to it, zero losing its sign. It is an
integer numeral for integers of at most 2^53; any other text has a point or an exponent, and no
decimal text that is rounded to the double has fewer significant digits. -/
theorem line_rounds_back (x : Double) (hfin : x.isFinite = true) :
    (∃ q, decimalValue? (Value.number x).line = some q ∧
      ∀ y : Double, y.IsRounding q ↔ y = if x = negativeZero then zero else x) ∧
    (∀ n : ℤ, (Value.number x).line = Numeral.ofInt n ↔ x.toRat = n ∧ |n| ≤ 2 ^ 53) ∧
    ((¬ ∃ n : ℤ, x.toRat = n ∧ |n| ≤ 2 ^ 53) →
      ('.' ∈ (Value.number x).line ∨ 'e' ∈ (Value.number x).line) ∧
      ∀ t q, decimalValue? t = some q → x.IsRounding q →
        significantDigits (Value.number x).line ≤ significantDigits t) := by
  have hline : (Value.number x).line = x.text := by rw [Value.line]
  rw [hline]
  refine ⟨?_, text_eq_ofInt_iff hfin, fun hnot => ?_⟩
  · have hround : ∃ q, decimalValue? x.text = some q ∧
        (if x = negativeZero then zero else x).IsRounding q := by
      cases hplain : x.plainInt? with
      | some n =>
        have hvalue := (plainInt?_eq_some_iff.mp hplain).2.1
        exact ⟨n, by rw [text_of_plainInt? hplain, decimalValue?_ofInt],
          hvalue ▸ isRounding_toRat hfin⟩
      | none =>
        have hunits := units_ne_zero_of_not_plain hfin hplain
        have hne : x ≠ negativeZero := by
          rintro rfl
          exact hunits (by decide)
        rw [text_of_not_plain hfin hplain, if_neg hne]
        exact ⟨_, decimalValue?_shortest x, isRounding_shortest hfin hunits⟩
    obtain ⟨q, hq, hx⟩ := hround
    exact ⟨q, hq, fun y => ⟨fun hy => hy.unique hx, fun hy => hy ▸ hx⟩⟩
  · have hplain : x.plainInt? = none := by
      rw [Option.eq_none_iff_forall_ne_some]
      intro n hn
      exact hnot ⟨n, (plainInt?_eq_some_iff.mp hn).2⟩
    have hunits := units_ne_zero_of_not_plain hfin hplain
    rw [text_of_not_plain hfin hplain]
    refine ⟨?_, fun t q ht hq => significantDigits_shortest_le hunits ht hq⟩
    exact (point_or_exponent_mem_text x.shortest).imp (List.mem_append_right _)
      (List.mem_append_right _)

theorem line_rounds_back_least :
    (⟨1⟩ : Double).isFinite = true ∧
    (¬ ∃ n : ℤ, (⟨1⟩ : Double).toRat = n ∧ |n| ≤ 2 ^ 53) ∧
    (Value.number ⟨1⟩).line = "5e-324".toList ∧
    (∃ q, decimalValue? "5e-324".toList = some q ∧ ∀ y : Double, y.IsRounding q ↔ y = ⟨1⟩) ∧
    ∀ t q, decimalValue? t = some q → (⟨1⟩ : Double).IsRounding q → 1 ≤ significantDigits t := by
  have hfin : (⟨1⟩ : Double).isFinite = true := rfl
  have hplain : (⟨1⟩ : Double).plainInt? = none := by decide +kernel
  have hnot : ¬ ∃ n : ℤ, (⟨1⟩ : Double).toRat = n ∧ |n| ≤ 2 ^ 53 := by
    rintro ⟨n, hn⟩
    rw [plainInt?_eq_some_iff.mpr ⟨hfin, hn⟩] at hplain
    simp at hplain
  have hline : (Value.number ⟨1⟩).line = "5e-324".toList := by
    rw [Value.line]
    decide +kernel
  have hdigits : significantDigits "5e-324".toList = 1 := by decide +kernel
  obtain ⟨hround, -, hshortest⟩ := line_rounds_back ⟨1⟩ hfin
  rw [hline, if_neg (by decide)] at hround
  refine ⟨hfin, hnot, hline, hround, fun t q ht hq => ?_⟩
  have hle := (hshortest hnot).2 t q ht hq
  rwa [hline, hdigits] at hle

end Double

end QueryConsole
