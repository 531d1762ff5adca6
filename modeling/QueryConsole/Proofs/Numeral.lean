import QueryConsole.Numeral

set_option autoImplicit false

namespace QueryConsole

def Bounds.Contains (b : Bounds) (n : Int) : Prop := b.least ≤ n ∧ n ≤ b.greatest

instance (b : Bounds) (n : Int) : Decidable (b.Contains n) := inferInstanceAs (Decidable (_ ∧ _))

/-- A type that has each number within the bounds once, and no others. -/
structure Bounds.OfType {α : Type} (b : Bounds) (toInt : α → Int) (ofInt : Int → α) : Prop where
  contains_zero : b.Contains 0
  contains_toInt (x : α) : b.Contains (toInt x)
  ofInt_toInt (x : α) : ofInt (toInt x) = x
  toInt_ofInt {n : Int} : b.Contains n → toInt (ofInt n) = n

theorem Bounds.ofType_id : Bounds.id.OfType Int64.toInt Int64.ofInt where
  contains_zero := by decide
  contains_toInt id := ⟨id.le_toInt, Int.le_of_lt_add_one id.toInt_lt⟩
  ofInt_toInt id := Int64.ofInt_toInt id
  toInt_ofInt h := Int64.toInt_ofInt_of_le h.1 (Int.lt_add_one_of_le h.2)

theorem Bounds.ofType_port :
    Bounds.port.OfType (fun port : UInt16 => (port.toNat : Int)) fun n => .ofNat n.toNat where
  contains_zero := by decide
  contains_toInt port := ⟨Int.natCast_nonneg _, Int.ofNat_le.mpr (Nat.le_of_lt_succ port.toNat_lt)⟩
  ofInt_toInt port := by simp
  toInt_ofInt {n} h := by
    obtain ⟨hleast, hgreatest⟩ := h
    simp only [port] at hleast hgreatest
    rw [UInt16.toNat_ofNat_of_lt' (Nat.lt_succ_of_le (by omega)), Int.toNat_of_nonneg hleast]

theorem Bounds.ofType_width :
    Bounds.width.OfType (fun w : UInt64 => (w.toNat : Int)) fun n => .ofNat n.toNat where
  contains_zero := by decide
  contains_toInt w := ⟨Int.natCast_nonneg _, Int.ofNat_le.mpr (Nat.le_of_lt_succ w.toNat_lt)⟩
  ofInt_toInt w := by simp
  toInt_ofInt {n} h := by
    obtain ⟨hleast, hgreatest⟩ := h
    simp only [width] at hleast hgreatest
    rw [UInt64.toNat_ofNat_of_lt' (Nat.lt_succ_of_le (by omega)), Int.toNat_of_nonneg hleast]

namespace Numeral

theorem isDigit_of_mem_ofNat {n : Nat} {c : Char} (h : c ∈ ofNat n) : c.isDigit = true :=
  Nat.isDigit_of_mem_toDigits (by decide) (by decide) h

theorem ofNat_ne_nil (n : Nat) : ofNat n ≠ [] := Nat.toDigits_ne_nil

/-- The value of a text of digits that stand behind `n`. -/
def valueAfter (n : Nat) (t : Text) : Nat := Nat.ofDigitChars 10 t n

def value (t : Text) : Nat := valueAfter 0 t

@[simp] theorem valueAfter_nil (n : Nat) : valueAfter n [] = n := Nat.ofDigitChars_nil

theorem valueAfter_cons (n : Nat) (c : Char) (t : Text) :
    valueAfter n (c :: t) = valueAfter (10 * n + digit c) t := Nat.ofDigitChars_cons

theorem valueAfter_append (n : Nat) (t u : Text) :
    valueAfter n (t ++ u) = valueAfter (valueAfter n t) u := Nat.ofDigitChars_append n

theorem valueAfter_zeros (n k : Nat) :
    valueAfter n (List.replicate k '0') = Nat.pow 10 k * n := Nat.ofDigitChars_replicate_zero

theorem value_ofNat (n : Nat) : value (ofNat n) = n := Nat.ofDigitChars_ten_toDigits

theorem le_valueAfter (n : Nat) (t : Text) : n ≤ valueAfter n t := by
  induction t generalizing n with
  | nil => simp
  | cons c t ih =>
    have h := ih (10 * n + digit c)
    rw [valueAfter_cons]
    omega

theorem digit_lt {c : Char} (h : c.isDigit = true) : digit c < 10 := by
  have hnine : c.toNat ≤ '9'.toNat := (Char.isDigit_iff_toNat.mp h).2
  have hzero : '0'.toNat = 48 := rfl
  have hnine' : '9'.toNat = 57 := rfl
  rw [digit]
  omega

theorem valueAfter_lt {t : Text} (ht : ∀ c ∈ t, c.isDigit = true) (n : Nat) :
    valueAfter n t < (n + 1) * Nat.pow 10 t.length := by
  induction t generalizing n with
  | nil => simp
  | cons c t ih =>
    obtain ⟨hc, ht⟩ := List.forall_mem_cons.mp ht
    have hdigit := digit_lt hc
    rw [valueAfter_cons, List.length_cons]
    calc valueAfter (10 * n + digit c) t
        < (10 * n + digit c + 1) * Nat.pow 10 t.length := ih ht _
      _ ≤ ((n + 1) * 10) * Nat.pow 10 t.length := Nat.mul_le_mul_right _ (by omega)
      _ = (n + 1) * (Nat.pow 10 t.length * 10) := by rw [Nat.mul_assoc, Nat.mul_comm 10]

theorem value_lt {t : Text} (ht : ∀ c ∈ t, c.isDigit = true) :
    value t < Nat.pow 10 t.length := by
  have h := valueAfter_lt ht 0
  rwa [Nat.zero_add, Nat.one_mul] at h

def readNat? (t : Text) : Option Nat :=
  if t ≠ [] ∧ t.all Char.isDigit then some (value t) else none

def readInt? : Text → Option Int
  | [] => none
  | c :: t =>
    if c = '-' then (readNat? t).map fun n => -(n : Int)
    else (readNat? (c :: t)).map Int.ofNat

theorem readNat?_of_digits {t : Text} (hne : t ≠ []) (ht : ∀ c ∈ t, c.isDigit = true) :
    readNat? t = some (value t) :=
  if_pos ⟨hne, List.all_eq_true.2 ht⟩

theorem readNat?_eq_some {t : Text} {n : Nat} (h : readNat? t = some n) :
    (∀ c ∈ t, c.isDigit = true) ∧ n = value t := by
  rw [readNat?] at h
  split at h
  · rename_i ht
    exact ⟨List.all_eq_true.mp ht.2, (Option.some.inj h).symm⟩
  · simp at h

theorem readNat?_ofNat (n : Nat) : readNat? (ofNat n) = some n := by
  rw [readNat?_of_digits (ofNat_ne_nil n) fun c hc => isDigit_of_mem_ofNat hc, value_ofNat]

theorem exists_ofNat_eq_cons (n : Nat) : ∃ c t, ofNat n = c :: t ∧ c.isDigit = true := by
  cases h : ofNat n with
  | nil => exact absurd h (ofNat_ne_nil n)
  | cons c t => exact ⟨c, t, rfl, isDigit_of_mem_ofNat (n := n) (by simp [h])⟩

theorem isDigit_ne_minus {c : Char} (h : c.isDigit = true) : c ≠ '-' := by
  intro hminus
  subst hminus
  simp at h

theorem isDigit_ne_plus {c : Char} (h : c.isDigit = true) : c ≠ '+' := by
  intro hplus
  subst hplus
  simp at h

theorem readInt?_ofInt (n : Int) : readInt? (ofInt n) = some n := by
  cases n with
  | ofNat n =>
    obtain ⟨c, t, ht, hc⟩ := exists_ofNat_eq_cons n
    have h := readNat?_ofNat n
    simp only [ofInt]
    rw [ht] at h ⊢
    simp [readInt?, isDigit_ne_minus hc, h]
  | negSucc n =>
    simp only [ofInt, readInt?, readNat?_ofNat, if_true]
    rfl

def signed (negative : Bool) (n : Nat) : Int := if negative then -(n : Int) else n

@[simp] theorem signed_false (n : Nat) : signed false n = n := rfl

@[simp] theorem signed_true (n : Nat) : signed true n = -(n : Int) := rfl

@[simp] theorem signed_zero (negative : Bool) : signed negative 0 = 0 := by
  cases negative with
  | false => rfl
  | true => rfl

theorem contains_signed_of_le {b : Bounds} {negative : Bool} {k n : Nat} (hzero : b.Contains 0)
    (hle : k ≤ n) (h : b.Contains (signed negative n)) : b.Contains (signed negative k) := by
  obtain ⟨hleast, hgreatest⟩ := h
  obtain ⟨hbelow, habove⟩ := hzero
  cases negative with
  | false =>
    rw [signed_false] at hgreatest
    exact ⟨by rw [signed_false]; omega, by rw [signed_false]; omega⟩
  | true =>
    rw [signed_true] at hleast
    exact ⟨by rw [signed_true]; omega, by rw [signed_true]; omega⟩

def overflow (negative : Bool) : Fault := if negative then .tooSmall else .tooLarge

theorem readDigits_cons {b : Bounds} {negative : Bool} {c : Char} (t : Text) (n : Nat)
    (hzero : b.Contains 0) (hc : c.isDigit = true) :
    readDigits b negative (signed negative n) (c :: t) =
      if b.Contains (signed negative (10 * n + digit c)) then
        readDigits b negative (signed negative (10 * n + digit c)) t
      else .error (overflow negative) := by
  obtain ⟨hbelow, habove⟩ := hzero
  cases negative with
  | false =>
    have hnext : 10 * (n : Int) + digit c = (10 * n + digit c : Nat) := by omega
    simp only [readDigits, hc, if_true, Bool.false_eq_true, if_false, signed_false, overflow,
      hnext, Bounds.Contains]
    split
    · rw [if_neg (by omega)]
    · rw [if_neg (by omega), if_pos (by omega)]
  | true =>
    have hnext : 10 * -(n : Int) - digit c = -(10 * n + digit c : Nat) := by omega
    simp only [readDigits, hc, if_true, signed_true, overflow, hnext, Bounds.Contains]
    rw [if_neg (by omega)]
    split
    · rw [if_neg (by omega)]
    · rw [if_pos (by omega)]

/-- A text that is read digit by digit is made of digits, and is worth what is read. Digits whose
value is in bounds are never out of bounds on the way. -/
theorem readDigits_eq_ok_iff {b : Bounds} {negative : Bool} {t : Text} {n : Nat} {m : Int}
    (hzero : b.Contains 0) (hn : b.Contains (signed negative n)) :
    readDigits b negative (signed negative n) t = .ok m ↔
      (∀ c ∈ t, c.isDigit = true) ∧ b.Contains (signed negative (valueAfter n t)) ∧
        m = signed negative (valueAfter n t) := by
  induction t generalizing n with
  | nil =>
    rw [readDigits, valueAfter_nil, Except.ok.injEq]
    exact ⟨fun h => ⟨by simp, hn, h.symm⟩, fun h => h.2.2.symm⟩
  | cons c t ih =>
    rw [valueAfter_cons, List.forall_mem_cons]
    cases hc : c.isDigit with
    | false => simp [readDigits, hc]
    | true =>
      rw [readDigits_cons t n hzero hc]
      split
      · rename_i hnext
        rw [ih hnext]
        simp
      · rename_i hnext
        have hout : ¬ b.Contains (signed negative (valueAfter (10 * n + digit c) t)) :=
          fun h => hnext (contains_signed_of_le hzero (le_valueAfter _ t) h)
        simp [hout]

theorem readDigits_zero_eq_ok_iff {b : Bounds} {negative : Bool} {t : Text} {m : Int}
    (hzero : b.Contains 0) :
    readDigits b negative 0 t = .ok m ↔
      (∀ c ∈ t, c.isDigit = true) ∧ b.Contains (signed negative (value t)) ∧
        m = signed negative (value t) := by
  have hstart : b.Contains (signed negative 0) := by rwa [signed_zero]
  have h : readDigits b negative (signed negative 0) t = .ok m ↔ _ :=
    readDigits_eq_ok_iff hzero hstart
  rwa [signed_zero] at h

def IsDigits (t : Text) : Prop := t ≠ [] ∧ ∀ c ∈ t, c.isDigit = true

theorem isDigits_ofNat (n : Nat) : IsDigits (ofNat n) :=
  ⟨ofNat_ne_nil n, fun _ hc => isDigit_of_mem_ofNat hc⟩

theorem readSigned_eq_ok_iff {b : Bounds} {negative : Bool} {t : Text} {m : Int}
    (hzero : b.Contains 0) :
    readSigned b negative t = .ok m ↔
      IsDigits t ∧ b.Contains (signed negative (value t)) ∧ m = signed negative (value t) := by
  cases t with
  | nil => simp [readSigned, IsDigits]
  | cons c t => simp [readSigned, IsDigits, readDigits_zero_eq_ok_iff hzero]

def IsSign (b : Bounds) (c : Char) : Prop := c = '+' ∨ c = '-' ∧ b.least < 0

/-- What stands behind the sign of a text, or all of a text without one, and whether the sign is a
minus. -/
inductive Body (b : Bounds) : Text → Bool → Text → Prop where
  | bare {t : Text} : (∀ c ∈ t.head?, ¬ IsSign b c) → Body b t false t
  | plus (t : Text) : Body b ('+' :: t) false t
  | minus (t : Text) : b.least < 0 → Body b ('-' :: t) true t

theorem IsDigits.body {b : Bounds} {t : Text} (h : IsDigits t) : Body b t false t := by
  obtain ⟨c, u, rfl⟩ := List.exists_cons_of_ne_nil h.1
  have hdigit := h.2 c List.mem_cons_self
  have hsign : ¬ IsSign b c := by
    intro hc
    obtain hplus | hminus := hc
    · exact isDigit_ne_plus hdigit hplus
    · exact isDigit_ne_minus hdigit hminus.1
  exact .bare (by simpa using hsign)

theorem exists_body (b : Bounds) (t : Text) : ∃ negative body, Body b t negative body := by
  cases t with
  | nil => exact ⟨false, [], .bare (by simp)⟩
  | cons c t =>
    by_cases hc : IsSign b c
    · obtain rfl | ⟨rfl, hb⟩ := hc
      · exact ⟨false, t, .plus t⟩
      · exact ⟨true, t, .minus t hb⟩
    · exact ⟨false, c :: t, .bare (by simpa using hc)⟩

theorem Body.ne_nil {b : Bounds} {t body : Text} {negative : Bool} (h : Body b t negative body)
    (hbody : body ≠ []) : t ≠ [] := by
  cases h with
  | bare => exact hbody
  | plus t => simp
  | minus t => simp

theorem Body.read_eq {b : Bounds} {t body : Text} {negative : Bool} (h : Body b t negative body)
    (ht : t ≠ []) : read b t = readSigned b negative body := by
  cases h with
  | bare hsign =>
    obtain ⟨c, u, rfl⟩ := List.exists_cons_of_ne_nil ht
    have hc : ¬ IsSign b c := hsign c (by simp)
    rw [read, if_neg fun hplus => hc (.inl hplus), if_neg fun hminus => hc (.inr hminus)]
    rfl
  | plus t => rw [read, if_pos rfl]
  | minus t hb => rw [read, if_neg (by decide), if_pos ⟨rfl, hb⟩]

def IsNumeral (b : Bounds) (t : Text) (n : Int) : Prop :=
  ∃ negative digits, Body b t negative digits ∧ IsDigits digits ∧ n = signed negative (value digits)

theorem isNumeral_ofInt {b : Bounds} {n : Int} (hn : n < 0 → b.least < 0) :
    IsNumeral b (ofInt n) n := by
  cases n with
  | ofNat n =>
    refine ⟨false, ofNat n, (isDigits_ofNat n).body, isDigits_ofNat n, ?_⟩
    rw [value_ofNat]
    rfl
  | negSucc n =>
    have hb : b.least < 0 := hn (Int.negSucc_lt_zero n)
    refine ⟨true, ofNat (n + 1), .minus _ hb, isDigits_ofNat (n + 1), ?_⟩
    rw [value_ofNat]
    rfl

/-- A text is read as a number exactly if it is a numeral of that number and the type has it. -/
theorem read_eq_ok_iff {b : Bounds} {t : Text} {m : Int} (hzero : b.Contains 0) :
    read b t = .ok m ↔ IsNumeral b t m ∧ b.Contains m := by
  constructor
  · intro h
    by_cases ht : t = []
    · simp [ht, read] at h
    · obtain ⟨negative, body, hbody⟩ := exists_body b t
      rw [hbody.read_eq ht, readSigned_eq_ok_iff hzero] at h
      obtain ⟨hdigits, hin, rfl⟩ := h
      exact ⟨⟨negative, body, hbody, hdigits, rfl⟩, hin⟩
  · intro h
    obtain ⟨⟨negative, digits, hbody, hdigits, rfl⟩, hin⟩ := h
    rw [hbody.read_eq (hbody.ne_nil hdigits.1), readSigned_eq_ok_iff hzero]
    exact ⟨hdigits, hin, rfl⟩

def Unsigned (t digits : Text) : Prop :=
  (t = digits ∨ t = '+' :: digits) ∧ digits ≠ [] ∧ ∀ c ∈ digits, c.isDigit = true

theorem isNumeral_iff_unsigned {b : Bounds} {t : Text} {n : Nat} (hb : b.least = 0) :
    IsNumeral b t n ↔ ∃ digits, Unsigned t digits ∧ value digits = n := by
  constructor
  · intro h
    obtain ⟨negative, digits, hbody, hdigits, hn⟩ := h
    cases hbody with
    | bare => exact ⟨_, ⟨.inl rfl, hdigits⟩, (Int.ofNat.inj hn).symm⟩
    | plus => exact ⟨_, ⟨.inr rfl, hdigits⟩, (Int.ofNat.inj hn).symm⟩
    | minus _ hminus => omega
  · intro h
    obtain ⟨digits, ⟨ht, hdigits⟩, rfl⟩ := h
    obtain rfl | rfl := ht
    · exact ⟨false, _, IsDigits.body hdigits, hdigits, rfl⟩
    · exact ⟨false, _, .plus digits, hdigits, rfl⟩

inductive Denotes : Text → Int → Prop where
  | plain {digits : Text} : IsDigits digits → Denotes digits (value digits)
  | plus {digits : Text} : IsDigits digits → Denotes ('+' :: digits) (value digits)
  | minus {digits : Text} : IsDigits digits → Denotes ('-' :: digits) (-(value digits : Int))

theorem isNumeral_iff_denotes {b : Bounds} {t : Text} {n : Int} (hb : b.least < 0) :
    IsNumeral b t n ↔ Denotes t n := by
  constructor
  · intro h
    obtain ⟨negative, digits, hbody, hdigits, rfl⟩ := h
    cases hbody with
    | bare => exact .plain hdigits
    | plus => exact .plus hdigits
    | minus => exact .minus hdigits
  · intro h
    cases h with
    | plain hdigits => exact ⟨false, _, hdigits.body, hdigits, rfl⟩
    | plus hdigits => exact ⟨false, _, .plus _, hdigits, rfl⟩
    | minus hdigits => exact ⟨true, _, .minus _ hb, hdigits, rfl⟩

theorem denotes_ofInt (n : Int) : Denotes (ofInt n) n :=
  (isNumeral_iff_denotes (b := .id) (by decide)).mp (isNumeral_ofInt fun _ => by decide)

section OfType

variable {α : Type} {b : Bounds} {toInt : α → Int} {f : Int → α}

theorem map_read_eq_ok_iff (hb : b.OfType toInt f) {t : Text} {x : α} :
    (read b t).map f = .ok x ↔ IsNumeral b t (toInt x) := by
  constructor
  · intro h
    cases hread : read b t with
    | error fault => simp [hread, Except.map] at h
    | ok m =>
      obtain ⟨hnumeral, hin⟩ := (read_eq_ok_iff hb.contains_zero).mp hread
      simp only [hread, Except.map, Except.ok.injEq] at h
      rwa [← h, hb.toInt_ofInt hin]
  · intro h
    have hread := (read_eq_ok_iff hb.contains_zero).mpr ⟨h, hb.contains_toInt x⟩
    simp [hread, Except.map, hb.ofInt_toInt]

theorem map_read_ofInt (hb : b.OfType toInt f) (x : α) :
    (read b (ofInt (toInt x))).map f = .ok x := by
  have hsign : toInt x < 0 → b.least < 0 := Int.lt_of_le_of_lt (hb.contains_toInt x).1
  exact (map_read_eq_ok_iff hb).mpr (isNumeral_ofInt hsign)

end OfType

theorem readId_eq_ok_iff {t : Text} {id : Int64} : readId t = .ok id ↔ Denotes t id.toInt :=
  (map_read_eq_ok_iff Bounds.ofType_id).trans (isNumeral_iff_denotes (by decide))

theorem readPort_eq_ok_iff {t : Text} {port : UInt16} :
    readPort t = .ok port ↔ ∃ digits, Unsigned t digits ∧ value digits = port.toNat :=
  (map_read_eq_ok_iff Bounds.ofType_port).trans (isNumeral_iff_unsigned rfl)

theorem readWidth_eq_ok_iff {t : Text} {w : UInt64} :
    readWidth t = .ok w ↔ ∃ digits, Unsigned t digits ∧ value digits = w.toNat :=
  (map_read_eq_ok_iff Bounds.ofType_width).trans (isNumeral_iff_unsigned rfl)

theorem readPort_ofNat (p : UInt16) : readPort (ofNat p.toNat) = .ok p :=
  map_read_ofInt Bounds.ofType_port p

theorem readWidth_ofNat (w : UInt64) : readWidth (ofNat w.toNat) = .ok w :=
  map_read_ofInt Bounds.ofType_width w

end Numeral

end QueryConsole
