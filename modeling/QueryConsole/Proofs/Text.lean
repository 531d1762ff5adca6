import QueryConsole.Text

set_option autoImplicit false

namespace QueryConsole

section Bytes

variable {m n : Nat}

theorem firstByte_lt (h : m < n) (hn : n < 256) (t u : List UInt8) :
    UInt8.ofNat m :: t < UInt8.ofNat n :: u := by
  rw [List.cons_lt_cons_iff, UInt8.lt_iff_toNat_lt, UInt8.toNat_ofNat', UInt8.toNat_ofNat']
  omega

theorem lastByte_lt {bs cs : List UInt8} (h : m < n)
    (hless : m / 64 < n / 64 → ∀ t u, bs ++ t < cs ++ u) (hsame : m / 64 = n / 64 → bs = cs)
    (t u : List UInt8) :
    (bs ++ [UInt8.ofNat (m % 64 + 128)]) ++ t < (cs ++ [UInt8.ofNat (n % 64 + 128)]) ++ u := by
  rw [List.append_assoc, List.append_assoc]
  rcases Nat.lt_or_ge (m / 64) (n / 64) with hq | hq
  · exact hless hq _ _
  · have hdigit : m % 64 + 128 < n % 64 + 128 := by omega
    rw [hsame (by omega)]
    exact List.append_left_lt (firstByte_lt hdigit (by omega) t u)

def codeBytes (n : Nat) : List UInt8 :=
  if n ≤ 0x7f then [UInt8.ofNat n]
  else if n ≤ 0x7ff then [UInt8.ofNat (n / 64 % 32 + 192)] ++ [UInt8.ofNat (n % 64 + 128)]
  else if n ≤ 0xffff then
    ([UInt8.ofNat (n / 64 / 64 % 16 + 224)] ++ [UInt8.ofNat (n / 64 % 64 + 128)]) ++
      [UInt8.ofNat (n % 64 + 128)]
  else
    (([UInt8.ofNat (n / 64 / 64 / 64 % 8 + 240)] ++ [UInt8.ofNat (n / 64 / 64 % 64 + 128)]) ++
      [UInt8.ofNat (n / 64 % 64 + 128)]) ++ [UInt8.ofNat (n % 64 + 128)]

theorem utf8EncodeChar_eq (c : Char) : String.utf8EncodeChar c = codeBytes c.val.toNat := by
  simp only [String.utf8EncodeChar, codeBytes, Nat.div_div_eq_div_mul]
  rfl

/-- Whatever follows them, the bytes of the lesser code point come first. -/
theorem codeBytes_append_lt (h : m < n) (hn : n < 1114112) (t u : List UInt8) :
    codeBytes m ++ t < codeBytes n ++ u := by
  unfold codeBytes
  split
  · split
    · exact firstByte_lt h (by omega) _ _
    split
    · exact firstByte_lt (by omega) (by omega) _ _
    split
    · exact firstByte_lt (by omega) (by omega) _ _
    · exact firstByte_lt (by omega) (by omega) _ _
  split
  · rw [if_neg (by omega)]
    split
    · refine lastByte_lt h (fun hq => ?_) (fun hq => by rw [hq]) t u
      exact firstByte_lt (by omega) (by omega)
    split
    · exact firstByte_lt (by omega) (by omega) _ _
    · exact firstByte_lt (by omega) (by omega) _ _
  split
  · rw [if_neg (by omega), if_neg (by omega)]
    split
    · refine lastByte_lt h (fun hq => ?_) (fun hq => by rw [hq]) t u
      refine lastByte_lt hq (fun hq => ?_) (fun hq => by rw [hq])
      exact firstByte_lt (by omega) (by omega)
    · exact firstByte_lt (by omega) (by omega) _ _
  · rw [if_neg (by omega), if_neg (by omega), if_neg (by omega)]
    refine lastByte_lt h (fun hq => ?_) (fun hq => by rw [hq]) t u
    refine lastByte_lt hq (fun hq => ?_) (fun hq => by rw [hq])
    refine lastByte_lt hq (fun hq => ?_) (fun hq => by rw [hq])
    exact firstByte_lt (by omega) (by omega)

end Bytes

theorem utf8EncodeChar_append_lt {c d : Char} (h : c < d) (t u : List UInt8) :
    String.utf8EncodeChar c ++ t < String.utf8EncodeChar d ++ u := by
  have hlt : c.val.toNat < d.val.toNat := h
  have hd := d.valid
  simp only [UInt32.isValidChar, Nat.isValidChar] at hd
  rw [utf8EncodeChar_eq, utf8EncodeChar_eq]
  exact codeBytes_append_lt hlt (by omega) t u

theorem utf8_lt_of_lt {t u : Text} (h : t < u) : utf8 t < utf8 u := by
  induction t generalizing u with
  | nil =>
    cases u with
    | nil => exact absurd h (List.lt_irrefl [])
    | cons d u =>
      obtain ⟨b, bs, hd⟩ := List.exists_cons_of_ne_nil (String.utf8EncodeChar_ne_nil (c := d))
      rw [utf8, utf8, List.flatMap_cons, hd]
      exact List.nil_lt_cons b _
  | cons c t ih =>
    cases u with
    | nil => exact absurd h (List.not_lt_nil _)
    | cons d u =>
      simp only [utf8, List.flatMap_cons] at ih ⊢
      rcases List.cons_lt_cons_iff.mp h with hlt | ⟨rfl, hlt⟩
      · exact utf8EncodeChar_append_lt hlt _ _
      · exact List.append_left_lt (ih hlt)

theorem lt_of_not_lt_of_ne {t u : Text} (hlt : ¬ t < u) (hne : t ≠ u) : u < t :=
  Decidable.byContradiction fun hgt =>
    hne (List.le_antisymm (List.not_lt.mp hgt) (List.not_lt.mp hlt))

theorem utf8_lt_iff {t u : Text} : utf8 t < utf8 u ↔ t < u := by
  constructor
  · intro h
    refine Decidable.byContradiction fun hnot => ?_
    by_cases heq : t = u
    · subst heq
      exact List.lt_irrefl _ h
    · exact List.lt_asymm h (utf8_lt_of_lt (lt_of_not_lt_of_ne hnot heq))
  · exact utf8_lt_of_lt

end QueryConsole
