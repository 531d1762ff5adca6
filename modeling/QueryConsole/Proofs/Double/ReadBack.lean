import QueryConsole.Double.Written
import QueryConsole.Proofs.Double.Rounding
import QueryConsole.Proofs.Numeral

/-!
Doubles read back from their texts. The reader takes a decimal with or without a point and an
exponent, and rounds its value. It gives back the double that was written, but for the sign of zero
and the bits of a number that is none.
-/

set_option autoImplicit false

namespace QueryConsole.Double

open Numeral

namespace Decimal

def numerator (d : Decimal) : Nat := d.digits * Nat.pow 10 d.exponent.toNat

def denominator (d : Decimal) : Nat := tensBelow d.exponent

theorem denominator_pos (d : Decimal) : 0 < d.denominator := Nat.pow_pos (by decide)

def SameValue (d r : Decimal) : Prop :=
  d.numerator * r.denominator = r.numerator * d.denominator

def readPoint? (t : Text) : Option Decimal :=
  match splitFirst '.' t with
  | none => (readNat? t).map fun n => ⟨n, 0⟩
  | some (whole, part) =>
    if whole = [] ∨ part = [] then none
    else (readNat? (whole ++ part)).map fun n => ⟨n, -part.length⟩

def read? (t : Text) : Option Decimal :=
  match splitFirst 'e' t with
  | none => readPoint? t
  | some (mantissa, exponent) => do
    let d ← readPoint? mantissa
    let n ← readInt? exponent
    some ⟨d.digits, d.exponent + n⟩

theorem notMem_of_digits {c : Char} {t : Text} (ht : ∀ d ∈ t, d.isDigit = true)
    (hc : c.isDigit = false) : c ∉ t := by
  intro hmem
  rw [ht c hmem] at hc
  exact Bool.noConfusion hc

theorem readPoint?_digits {t : Text} (hne : t ≠ []) (ht : ∀ c ∈ t, c.isDigit = true) :
    readPoint? t = some ⟨value t, 0⟩ := by
  have hsplit := splitFirst_eq_none_iff.2 (notMem_of_digits (c := '.') ht rfl)
  rw [readPoint?, hsplit]
  simp only [readNat?_of_digits hne ht]
  rfl

theorem readPoint?_point (whole part : Text) (hwhole : whole ≠ []) (hpart : part ≠ [])
    (ht : ∀ c ∈ whole ++ part, c.isDigit = true) :
    readPoint? (whole ++ '.' :: part) = some ⟨value (whole ++ part), -part.length⟩ := by
  have hdot : '.' ∉ whole :=
    notMem_of_digits (fun c hc => ht c (List.mem_append_left part hc)) rfl
  rw [readPoint?, splitFirst_append part hdot]
  simp only [hwhole, hpart, or_self, if_false]
  rw [readNat?_of_digits (List.append_ne_nil_of_left_ne_nil hwhole part) ht]
  rfl

theorem read?_of_notMem {t : Text} (h : 'e' ∉ t) : read? t = readPoint? t := by
  rw [read?, splitFirst_eq_none_iff.2 h]

theorem read?_ofNat (n : Nat) : read? (ofNat n) = some ⟨n, 0⟩ := by
  have hdigits : ∀ c ∈ ofNat n, c.isDigit = true := fun c hc => isDigit_of_mem_ofNat hc
  rw [read?_of_notMem (notMem_of_digits hdigits rfl),
    readPoint?_digits (ofNat_ne_nil n) hdigits, value_ofNat]

theorem read?_exponent {mantissa : Text} {d : Decimal} (n : Int) (h : 'e' ∉ mantissa)
    (hd : readPoint? mantissa = some d) :
    read? (mantissa ++ 'e' :: Numeral.ofInt n) = some ⟨d.digits, d.exponent + n⟩ := by
  rw [read?, splitFirst_append _ h]
  simp [hd, readInt?_ofInt]

theorem isDigit_of_mem_zeros {n : Nat} {c : Char} (hc : c ∈ List.replicate n '0') :
    c.isDigit = true := by
  rw [(List.mem_replicate.1 hc).2]
  decide

theorem value_zeros_append (n : Nat) (t : Text) :
    value (List.replicate n '0' ++ t) = value t := by
  rw [value, valueAfter_append, valueAfter_zeros, Nat.mul_zero]
  rfl

theorem value_append_zeros (t : Text) (n : Nat) :
    value (t ++ List.replicate n '0') = value t * Nat.pow 10 n := by
  rw [value, valueAfter_append, valueAfter_zeros, Nat.mul_comm]
  rfl

variable {ds : Text}

theorem readPoint?_below (k : Nat) (hne : ds ≠ []) (hds : ∀ c ∈ ds, c.isDigit = true) :
    readPoint? ("0.".toList ++ List.replicate k '0' ++ ds) =
      some ⟨value ds, -((k + ds.length : Nat) : Int)⟩ := by
  have h := readPoint?_point ['0'] (List.replicate k '0' ++ ds) (by simp)
    (by simp [hne]) (by
      intro c hc
      simp only [List.cons_append, List.nil_append, List.mem_cons, List.mem_append] at hc
      rcases hc with rfl | hc | hc
      · decide
      · exact isDigit_of_mem_zeros hc
      · exact hds c hc)
  have hvalue : value (['0'] ++ (List.replicate k '0' ++ ds)) = value ds := by
    rw [← List.append_assoc]
    exact value_zeros_append (k + 1) ds
  rw [hvalue] at h
  simpa using h

theorem readPoint?_above (k : Nat) (hne : ds ≠ []) (hds : ∀ c ∈ ds, c.isDigit = true) :
    readPoint? (ds ++ List.replicate k '0' ++ ".0".toList) =
      some ⟨value ds * Nat.pow 10 (k + 1), -1⟩ := by
  have h := readPoint?_point (ds ++ List.replicate k '0') ['0']
    (by simp [hne]) (by simp) (by
      intro c hc
      simp only [List.mem_append, List.mem_singleton] at hc
      rcases hc with (hc | hc) | rfl
      · exact hds c hc
      · exact isDigit_of_mem_zeros hc
      · decide)
  have hvalue : value (ds ++ List.replicate k '0' ++ ['0']) = value ds * Nat.pow 10 (k + 1) := by
    rw [← value_append_zeros, List.replicate_succ', List.append_assoc]
  rw [hvalue] at h
  exact h

theorem readPoint?_within {k : Nat} (hpos : 0 < k) (hlt : k < ds.length)
    (hds : ∀ c ∈ ds, c.isDigit = true) :
    readPoint? (ds.take k ++ '.' :: ds.drop k) =
      some ⟨value ds, -((ds.length - k : Nat) : Int)⟩ := by
  have h := readPoint?_point (ds.take k) (ds.drop k)
    (List.length_pos_iff.1 (by rw [List.length_take]; omega))
    (List.length_pos_iff.1 (by rw [List.length_drop]; omega))
    (by rw [List.take_append_drop]; exact hds)
  rw [List.take_append_drop, List.length_drop] at h
  exact h

theorem notMem_point (k : Nat) (hds : ∀ c ∈ ds, c.isDigit = true) :
    'e' ∉ ds.take k ++ '.' :: ds.drop k := by
  have he : 'e' ∉ ds := notMem_of_digits hds rfl
  have htake : 'e' ∉ ds.take k := fun h => he (List.mem_of_mem_take h)
  have hdrop : 'e' ∉ ds.drop k := fun h => he (List.mem_of_mem_drop h)
  simp [htake, hdrop]

theorem notMem_writePositional (e : Int) (hds : ∀ c ∈ ds, c.isDigit = true) :
    'e' ∉ writePositional ds e := by
  have he : 'e' ∉ ds := notMem_of_digits hds rfl
  unfold writePositional
  simp only
  split
  · simp [he]
  split
  · simp [he]
  · exact notMem_point _ hds

theorem read?_writePositional (n : Nat) (e : Int) :
    ∃ r, read? (writePositional (ofNat n) e) = some r ∧ SameValue ⟨n, e⟩ r := by
  have hdigits : ∀ c ∈ ofNat n, c.isDigit = true := fun c hc => isDigit_of_mem_ofNat hc
  have hlength : 0 < (ofNat n).length := List.length_pos_iff.2 (ofNat_ne_nil n)
  have hvalue := value_ofNat n
  rw [read?_of_notMem (notMem_writePositional e hdigits)]
  unfold writePositional
  simp only
  split
  · rw [readPoint?_below _ (ofNat_ne_nil n) hdigits, hvalue]
    refine ⟨_, rfl, ?_⟩
    have he : -(((-((ofNat n).length + e)).toNat + (ofNat n).length : Nat) : Int) = e := by omega
    rw [he]
    rfl
  split
  · rw [readPoint?_above _ (ofNat_ne_nil n) hdigits, hvalue]
    refine ⟨_, rfl, ?_⟩
    have he : (-e).toNat = 0 := by omega
    have hpow : Nat.pow 10 (e.toNat + 1) = Nat.pow 10 e.toNat * 10 := rfl
    rw [hpow]
    simp only [SameValue, numerator, denominator, tensBelow, he]
    change n * Nat.pow 10 e.toNat * 10 = n * (Nat.pow 10 e.toNat * 10) * 1 * 1
    rw [Nat.mul_one, Nat.mul_one, Nat.mul_assoc]
  · rw [readPoint?_within (by omega) (by omega) hdigits, hvalue]
    refine ⟨_, rfl, ?_⟩
    have he : -(((ofNat n).length - ((ofNat n).length + e).toNat : Nat) : Int) = e := by omega
    rw [he]
    rfl

theorem read?_writeScientific (n : Nat) (e : Int) :
    read? (writeScientific (ofNat n) e) = some ⟨n, e⟩ := by
  have hdigits : ∀ c ∈ ofNat n, c.isDigit = true := fun c hc => isDigit_of_mem_ofNat hc
  have hlength : 0 < (ofNat n).length := List.length_pos_iff.2 (ofNat_ne_nil n)
  have hvalue := value_ofNat n
  unfold writeScientific
  simp only
  split
  · have htake : (ofNat n).take 1 = ofNat n := List.take_of_length_le ‹_›
    rw [htake, List.append_nil]
    rw [read?_exponent _ (notMem_of_digits hdigits rfl)
      (readPoint?_digits (ofNat_ne_nil n) hdigits), hvalue]
    simp only [Option.some.injEq, Decimal.mk.injEq, true_and]
    omega
  · rw [read?_exponent _ ?_ (readPoint?_within (by decide) (by omega) hdigits), hvalue]
    · simp only [Option.some.injEq, Decimal.mk.injEq, true_and]
      omega
    · exact notMem_point 1 hdigits

theorem read?_text (d : Decimal) : ∃ r, read? d.text = some r ∧ d.SameValue r := by
  unfold text
  simp only
  split
  · exact read?_writePositional d.digits d.exponent
  · exact ⟨d, read?_writeScientific d.digits d.exponent, rfl⟩

theorem exists_text_eq_cons (d : Decimal) : ∃ c t, d.text = c :: t ∧ c.isDigit = true := by
  have hdigits : ∀ c ∈ ofNat d.digits, c.isDigit = true := fun c hc => isDigit_of_mem_ofNat hc
  obtain ⟨c, t, ht, hc⟩ := exists_ofNat_eq_cons d.digits
  unfold text writePositional writeScientific
  rw [ht]
  simp only
  split
  · split
    · exact ⟨'0', _, rfl, by decide⟩
    split
    · exact ⟨c, _, rfl, hc⟩
    · obtain ⟨k, hk⟩ : ∃ k, (((c :: t).length : Int) + d.exponent).toNat = k + 1 :=
        Nat.exists_eq_add_one.2 (by omega)
      rw [hk]
      exact ⟨c, _, rfl, hc⟩
  · exact ⟨c, _, rfl, hc⟩

end Decimal

def nan : Double := ⟨0x7ff8000000000000⟩

def infinity (negative : Bool) : Double :=
  ⟨if negative then 0xfff0000000000000 else 0x7ff0000000000000⟩

def zero : Double := ⟨0⟩

def negativeZero : Double := ⟨0x8000000000000000⟩

/-- The numbers that are told apart: zero has one sign, and all that are no numbers are one. -/
def normal (x : Double) : Double :=
  if x.isNaN then nan else if x = negativeZero then zero else x

def readMagnitude? (negative : Bool) (t : Text) : Option Double :=
  if t = "inf".toList then some (infinity negative)
  else (Decimal.read? t).map fun d => ofRatio negative d.numerator d.denominator

def read? : Text → Option Double
  | [] => none
  | c :: t =>
    if c :: t = "nan".toList then some nan
    else if c = '-' then readMagnitude? true t
    else readMagnitude? false (c :: t)

theorem read?_signText {x : Double} {c : Char} {t : Text} (hsign : c ≠ '-')
    (hnan : c :: t ≠ "nan".toList) :
    read? (x.signText ++ c :: t) = readMagnitude? x.negative (c :: t) := by
  unfold signText
  split
  · simp [read?, *]
  · simp only [List.nil_append, read?]
    rw [if_neg hnan, if_neg hsign]
    simp [*]

theorem readMagnitude?_of_digit {negative : Bool} {c : Char} {t : Text} {d : Decimal}
    (hc : c.isDigit = true) (hd : Decimal.read? (c :: t) = some d) :
    readMagnitude? negative (c :: t) = some (ofRatio negative d.numerator d.denominator) := by
  have hinf : c :: t ≠ "inf".toList := by
    intro h
    have : c = 'i' := (List.cons.inj h).1
    subst this
    simp at hc
  rw [readMagnitude?, if_neg hinf, hd]
  rfl

theorem read?_signText_of_digit {x : Double} {c : Char} {t : Text} {d : Decimal}
    (hc : c.isDigit = true) (hd : Decimal.read? (c :: t) = some d) :
    read? (x.signText ++ c :: t) = some (ofRatio x.negative d.numerator d.denominator) := by
  have hnan : c :: t ≠ "nan".toList := by
    intro h
    have : c = 'n' := (List.cons.inj h).1
    subst this
    simp at hc
  rw [read?_signText (isDigit_ne_minus hc) hnan, readMagnitude?_of_digit hc hd]

theorem isNaN_of_isFinite {x : Double} (h : x.isFinite = true) : x.isNaN = false := by
  simp only [isFinite, decide_eq_true_eq] at h
  simp [isNaN, h]

theorem units_eq_zero_iff {x : Double} : x.units = 0 ↔ x.magnitude = 0 := by
  have hpow : 0 < Nat.pow 2 x.shift := Nat.pow_pos (by decide)
  have hfull := le_significand (x := x)
  have h52 := two_pow_52
  rw [units, Nat.mul_eq_zero]
  simp only [magnitude, h52]
  omega

theorem normal_of_units_ne_zero {x : Double} (hfin : x.isFinite = true) (h : x.units ≠ 0) :
    x.normal = x := by
  have hne : x ≠ negativeZero := by
    intro hx
    subst hx
    exact h rfl
  simp [normal, isNaN_of_isFinite hfin, hne]

theorem normal_of_units_eq_zero {x : Double} (hfin : x.isFinite = true) (h : x.units = 0) :
    x.normal = zero := by
  have hword := x.word_eq
  rw [units_eq_zero_iff.1 h] at hword
  have hbits : x = negativeZero ∨ x = zero := by
    split at hword
    · exact .inl (eq_of_word (x := x) (n := Nat.pow 2 63) (by omega)).symm
    · exact .inr (eq_of_word (x := x) (n := 0) (by omega)).symm
  rcases hbits with rfl | rfl <;> decide

theorem isFinite_of_plainInt? {x : Double} {n : Int} (h : x.plainInt? = some n) :
    x.isFinite = true ∧ n.natAbs * one = x.units ∧
      (x.units ≠ 0 → x.negative = decide (n < 0)) := by
  obtain ⟨h, -⟩ := Option.filter_eq_some_iff.1 h
  unfold toInt? at h
  split at h
  · rename_i hfin
    have hdiv : x.units / one * one = x.units :=
      Nat.div_mul_cancel (Nat.dvd_of_mod_eq_zero hfin.2)
    simp only [Option.some.injEq] at h
    subst h
    generalize x.units / one = q at hdiv ⊢
    refine ⟨hfin.1, ?_, ?_⟩
    · split <;> simp [hdiv]
    · intro hne
      have hq : q ≠ 0 := by
        intro hq
        subst hq
        exact hne (by rw [← hdiv, Nat.zero_mul])
      cases x.negative with
      | false => simp
      | true => simp; omega
  · simp at h

theorem plainInt?_of_units_eq_zero {x : Double} (hfin : x.isFinite = true) (h : x.units = 0) :
    x.plainInt? = some 0 := by
  have hint : x.toInt? = some 0 := by
    simp [toInt?, hfin, h]
  rw [plainInt?, hint]
  rfl

theorem readsBack_iff {x : Double} {d : Decimal} :
    x.readsBack d.exponent d.digits = true ↔ x.Holds d.numerator d.denominator := by
  have hpoint : 4 * (d.digits * tensAbove d.exponent) = 4 * (d.numerator * one) := by
    rw [tensAbove, Nat.mul_comm one, Decimal.numerator, Nat.mul_assoc]
  unfold readsBack Holds
  simp only
  rw [hpoint, Decimal.denominator]
  split <;> simp

theorem readsBack_of_pointOn? {x : Double} {e : Int} {d : Nat} (h : x.pointOn? e = some d) :
    x.readsBack e d = true := by
  unfold pointOn? at h
  simp only at h
  generalize x.units * tensBelow e / tensAbove e = q at h
  generalize x.units * tensBelow e % tensAbove e = r at h
  generalize tensAbove e = b at h
  split at h
  · rename_i hlow hhigh
    split at h
    · exact Option.some.inj h ▸ hlow
    · exact Option.some.inj h ▸ hhigh
  · rename_i hlow _
    exact Option.some.inj h ▸ hlow
  · rename_i _ hhigh
    exact Option.some.inj h ▸ hhigh
  · simp at h

/-- On a grid as fine as the units the magnitude itself is a point. -/
theorem holds_finest {x : Double} {d : Decimal} {k : Nat} (hone : one = Nat.pow 2 k)
    (hdigits : d.digits = x.units * Nat.pow 5 k) (hexponent : d.exponent = -(k : Int)) :
    x.Holds d.numerator d.denominator := by
  have hpow : Nat.pow 5 k * Nat.pow 2 k = Nat.pow 10 k := (Nat.mul_pow 5 2 k).symm
  have habove : (-(k : Int)).toNat = 0 := by omega
  have hbelow : (- -(k : Int)).toNat = k := by omega
  apply holds_units d.denominator_pos
  rw [Decimal.numerator, Decimal.denominator, tensBelow, hdigits, hexponent, habove, hbelow, hone,
    ← hpow, show Nat.pow 10 0 = 1 from rfl, Nat.mul_one, Nat.mul_assoc]

theorem holds_search (x : Double) (n : Nat) :
    x.Holds (x.search n).numerator (x.search n).denominator := by
  induction n with
  | zero =>
    obtain ⟨k, hk⟩ : ∃ k : Nat, 1074 = k := ⟨1074, rfl⟩
    have hone : one = Nat.pow 2 k := by
      unfold one
      rw [hk]
    have hdigits : (x.search 0).digits = x.units * Nat.pow 5 k := by
      unfold search
      rw [hk]
    have hexponent : (x.search 0).exponent = -(k : Int) := by
      rw [search, ← hk]
      rfl
    exact holds_finest hone hdigits hexponent
  | succ n ih =>
    unfold search
    split
    · exact readsBack_iff.1 (readsBack_of_pointOn? ‹_›)
    · exact ih

theorem read?_of_holds {x : Double} {t : Text} {d : Decimal} (hfin : x.isFinite = true)
    (hdigit : ∃ c u, t = c :: u ∧ c.isDigit = true) (hread : Decimal.read? t = some d)
    (h : x.Holds d.numerator d.denominator) : read? (x.signText ++ t) = some x := by
  obtain ⟨c, u, rfl, hc⟩ := hdigit
  rw [read?_signText_of_digit hc hread, ofRatio_eq hfin d.denominator_pos h]

theorem read?_integer {x : Double} {n : Nat} (hfin : x.isFinite = true)
    (hunits : n * one = x.units) : read? (x.signText ++ ofNat n) = some x := by
  refine read?_of_holds hfin (exists_ofNat_eq_cons n) (Decimal.read?_ofNat n)
    (holds_units (Decimal.denominator_pos _) ?_)
  change n * 1 * one = x.units * 1
  rw [Nat.mul_one, Nat.mul_one, hunits]

theorem read?_shortest {x : Double} (hfin : x.isFinite = true) :
    read? (x.signText ++ x.shortest.text) = some x := by
  obtain ⟨r, hr, hvalue⟩ := x.shortest.read?_text
  have hholds := holds_search x (x.coarseExponent + 1074).toNat
  exact read?_of_holds hfin x.shortest.exists_text_eq_cons hr
    (hholds.congr (Decimal.denominator_pos _) r.denominator_pos hvalue)

theorem ofInt_eq (n : Int) :
    Numeral.ofInt n = (if n < 0 then ['-'] else []) ++ ofNat n.natAbs := by
  cases n with
  | ofNat n => simp [Numeral.ofInt]
  | negSucc n => simp [Numeral.ofInt, Int.negSucc_lt_zero]

theorem read?_plain {x : Double} {n : Int} (h : x.plainInt? = some n) :
    read? (Numeral.ofInt n) = some x.normal := by
  obtain ⟨hfin, hunits, hsign⟩ := isFinite_of_plainInt? h
  rw [ofInt_eq]
  by_cases hzero : x.units = 0
  · have hn : n = 0 := by
      have := h.symm.trans (plainInt?_of_units_eq_zero hfin hzero)
      exact Option.some.inj this
    subst hn
    rw [normal_of_units_eq_zero hfin hzero]
    have hzero : zero.units = 0 := by decide
    exact read?_integer (x := zero) rfl (by rw [hzero, Int.natAbs_zero, Nat.zero_mul])
  · rw [normal_of_units_ne_zero hfin hzero, ← read?_integer hfin hunits, signText, hsign hzero]
    simp only [decide_eq_true_eq]

theorem eq_infinity {x : Double} (hnan : x.isNaN = false) (hfin : x.isFinite = false) :
    x = infinity x.negative := by
  have hword := x.word_eq
  have h52 := two_pow_52
  simp only [isFinite, decide_eq_false_iff_not, Decidable.not_not] at hfin
  simp only [isNaN, hfin, true_and, decide_eq_false_iff_not, Decidable.not_not] at hnan
  rw [magnitude, shift, significand, hfin, hnan, h52] at hword
  cases hneg : x.negative with
  | false =>
    rw [hneg] at hword
    exact (eq_of_word hword.symm).symm
  | true =>
    rw [hneg] at hword
    exact (eq_of_word hword.symm).symm

/-- The text of a double reads back as that double. -/
theorem read?_text (x : Double) : read? x.text = some x.normal := by
  unfold text
  split
  · rename_i hnan
    simp [read?, normal, hnan]
  split
  · rename_i hfin
    split
    · exact read?_plain ‹_›
    · rename_i hplain
      have hunits : x.units ≠ 0 := by
        intro hzero
        rw [plainInt?_of_units_eq_zero hfin hzero] at hplain
        simp at hplain
      rw [normal_of_units_ne_zero hfin hunits]
      exact read?_shortest hfin
  · rename_i hnan hfin
    have hx := eq_infinity (by simpa using hnan) (by simpa using hfin)
    rw [hx]
    cases x.negative <;> decide

theorem text_ne_nil (x : Double) : x.text ≠ [] := by
  intro h
  have hread := x.read?_text
  rw [h] at hread
  simp [read?] at hread

theorem text_of_units_eq_zero {x : Double} (hfin : x.isFinite = true) (h : x.units = 0) :
    x.text = ['0'] := by
  have hnan : ¬ x.isNaN = true := by
    rw [isNaN_of_isFinite hfin]
    exact Bool.false_ne_true
  rw [text, if_neg hnan, if_pos hfin, plainInt?_of_units_eq_zero hfin h]
  rfl

theorem text_normal (x : Double) : x.normal.text = x.text := by
  unfold normal
  split
  · rename_i hnan
    rw [text, text, if_pos hnan, if_pos (show nan.isNaN = true from rfl)]
  split
  · rename_i hzero
    rw [hzero, text_of_units_eq_zero (x := zero) rfl rfl,
      text_of_units_eq_zero (x := negativeZero) rfl rfl]
  · rfl

def isBare (c : Char) : Bool := c.isAlphanum || c = '-' || c = '.'

theorem isBare_of_isDigit {c : Char} (h : c.isDigit = true) : isBare c = true := by
  simp [isBare, Char.isAlphanum, h]

theorem isBare_of_all {t : Text} (h : t.all isBare = true) : ∀ c ∈ t, isBare c = true :=
  List.all_eq_true.1 h

theorem isBare_of_mem_ofNat {n : Nat} {c : Char} (hc : c ∈ ofNat n) : isBare c = true :=
  isBare_of_isDigit (isDigit_of_mem_ofNat hc)

theorem isBare_of_mem_ofInt {n : Int} {c : Char} (hc : c ∈ Numeral.ofInt n) :
    isBare c = true := by
  rw [ofInt_eq, List.mem_append] at hc
  rcases hc with hc | hc
  · split at hc
    · rw [List.mem_singleton.1 hc]
      decide
    · simp at hc
  · exact isBare_of_mem_ofNat hc

theorem isBare_of_mem_decimal (d : Decimal) : ∀ c ∈ d.text, isBare c = true := by
  have hdigits : ∀ c ∈ ofNat d.digits, isBare c = true := fun c hc => isBare_of_mem_ofNat hc
  have hzeros : ∀ n, ∀ c ∈ List.replicate n '0', isBare c = true :=
    fun n c hc => isBare_of_isDigit (Decimal.isDigit_of_mem_zeros hc)
  have htake : ∀ n, ∀ c ∈ (ofNat d.digits).take n, isBare c = true :=
    fun n c hc => hdigits c (List.mem_of_mem_take hc)
  have hdrop : ∀ n, ∀ c ∈ (ofNat d.digits).drop n, isBare c = true :=
    fun n c hc => hdigits c (List.mem_of_mem_drop hc)
  unfold Decimal.text writePositional writeScientific
  simp only
  split
  · split
    · exact List.forall_mem_append.2 ⟨List.forall_mem_append.2 ⟨isBare_of_all rfl, hzeros _⟩,
        hdigits⟩
    split
    · exact List.forall_mem_append.2 ⟨List.forall_mem_append.2 ⟨hdigits, hzeros _⟩,
        isBare_of_all rfl⟩
    · exact List.forall_mem_append.2 ⟨htake _, List.forall_mem_cons.2 ⟨rfl, hdrop _⟩⟩
  · refine List.forall_mem_append.2 ⟨List.forall_mem_append.2 ⟨htake 1, ?_⟩,
      List.forall_mem_cons.2 ⟨rfl, fun c hc => isBare_of_mem_ofInt hc⟩⟩
    split
    · simp
    · exact List.forall_mem_cons.2 ⟨rfl, hdrop 1⟩

theorem isBare_of_mem_text {x : Double} {c : Char} (hc : c ∈ x.text) : isBare c = true := by
  have hsign : ∀ c ∈ x.signText, isBare c = true := by
    unfold signText
    cases x.negative with
    | false => exact isBare_of_all rfl
    | true => exact isBare_of_all rfl
  unfold text at hc
  split at hc
  · exact isBare_of_all (t := "nan".toList) rfl c hc
  split at hc
  · split at hc
    · exact isBare_of_mem_ofInt hc
    · rcases List.mem_append.1 hc with hc | hc
      · exact hsign c hc
      · exact isBare_of_mem_decimal _ c hc
  · rcases List.mem_append.1 hc with hc | hc
    · exact hsign c hc
    · exact isBare_of_all (t := "inf".toList) rfl c hc

end QueryConsole.Double
