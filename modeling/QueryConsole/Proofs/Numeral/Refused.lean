import QueryConsole.Proofs.Numeral

/-!
Texts that are no numerals of a type, and what they are refused for. Behind the sign the characters
are gone through from the left: the first one that is no digit, or that carries the number out of
the bounds, decides. The numbers that a digit is added by do not leave the bounds before the number
itself does, so that none of them is lost on the way.
-/

set_option autoImplicit false

namespace QueryConsole.Numeral

theorem value_concat (digits : Text) (c : Char) :
    value (digits ++ [c]) = 10 * value digits + digit c := by
  rw [value, valueAfter_append, valueAfter_cons, valueAfter_nil]
  rfl

theorem signed_next (negative : Bool) (n d : Nat) :
    signed negative (10 * n + d) = 10 * signed negative n + signed negative d := by
  cases negative with
  | false =>
    simp only [signed_false]
    omega
  | true =>
    simp only [signed_true]
    omega

/-- Digits that behind their sign are worth a number of the type. The parts of them from the left
come to less, and are so as well. -/
structure Fits (b : Bounds) (negative : Bool) (digits : Text) : Prop where
  isDigit : ∀ c ∈ digits, c.isDigit = true
  contains : b.Contains (signed negative (value digits))

theorem fits_nil {b : Bounds} (negative : Bool) (hzero : b.Contains 0) : Fits b negative [] where
  isDigit := by simp
  contains := by simpa [value] using hzero

theorem Fits.concat {b : Bounds} {negative : Bool} {digits : Text} {c : Char}
    (h : Fits b negative digits) (hc : c.isDigit = true)
    (hin : b.Contains (signed negative (value (digits ++ [c])))) :
    Fits b negative (digits ++ [c]) where
  isDigit := List.forall_mem_append.mpr ⟨h.isDigit, by simpa using hc⟩
  contains := hin

/-- What is wrong with a character behind digits. A character that is no digit is not asked what it
would make of the number. -/
inductive Problem (b : Bounds) (negative : Bool) (digits : Text) (c : Char) : Fault → Prop where
  | noDigit : c.isDigit = false → Problem b negative digits c .invalidDigit
  | outside : c.isDigit = true → ¬ b.Contains (signed negative (value (digits ++ [c]))) →
      Problem b negative digits c (overflow negative)

/-- What a text is refused for: that it is empty, that it is a sign alone, or its first problem from
the left. -/
inductive RefusedFor (b : Bounds) : Text → Fault → Prop where
  | empty : RefusedFor b [] .empty
  | sign {c : Char} : IsSign b c → RefusedFor b [c] .invalidDigit
  | problem {t digits rest : Text} {negative : Bool} {c : Char} {fault : Fault} :
      Body b t negative (digits ++ c :: rest) → Fits b negative digits →
      Problem b negative digits c fault → RefusedFor b t fault

section Digits

variable {b : Bounds} {negative : Bool} {digits : Text}

theorem readDigits_append {n : Nat} (rest : Text) (hzero : b.Contains 0)
    (hdigits : ∀ c ∈ digits, c.isDigit = true)
    (hin : b.Contains (signed negative (valueAfter n digits))) :
    readDigits b negative (signed negative n) (digits ++ rest) =
      readDigits b negative (signed negative (valueAfter n digits)) rest := by
  induction digits generalizing n with
  | nil => rw [valueAfter_nil, List.nil_append]
  | cons c digits ih =>
    obtain ⟨hc, hdigits⟩ := List.forall_mem_cons.mp hdigits
    rw [valueAfter_cons] at hin ⊢
    have hnext := contains_signed_of_le hzero (le_valueAfter _ digits) hin
    rw [List.cons_append, readDigits_cons _ n hzero hc, if_pos hnext]
    exact ih hdigits hin

theorem readDigits_of_outside {n : Nat} (rest : Text) (hzero : b.Contains 0)
    (hdigits : ∀ c ∈ digits, c.isDigit = true) (hn : b.Contains (signed negative n))
    (hout : ¬ b.Contains (signed negative (valueAfter n digits))) :
    readDigits b negative (signed negative n) (digits ++ rest) = .error (overflow negative) := by
  induction digits generalizing n with
  | nil => exact absurd hn hout
  | cons c digits ih =>
    obtain ⟨hc, hdigits⟩ := List.forall_mem_cons.mp hdigits
    rw [valueAfter_cons] at hout
    rw [List.cons_append, readDigits_cons _ n hzero hc]
    split
    · rename_i hnext
      exact ih hdigits hnext hout
    · rfl

theorem Problem.readDigits_eq {c : Char} {fault : Fault} (h : Problem b negative digits c fault)
    (rest : Text) (hzero : b.Contains 0) :
    readDigits b negative (signed negative (value digits)) (c :: rest) = .error fault := by
  cases h with
  | noDigit hc => simp [readDigits, hc]
  | outside hc hout =>
    rw [value_concat] at hout
    rw [readDigits_cons rest _ hzero hc, if_neg hout]

theorem exists_problem {t : Text} {fault : Fault} (hzero : b.Contains 0)
    (hfits : Fits b negative digits)
    (h : readDigits b negative (signed negative (value digits)) t = .error fault) :
    ∃ more c rest, t = more ++ c :: rest ∧ Fits b negative (digits ++ more) ∧
      Problem b negative (digits ++ more) c fault := by
  induction t generalizing digits with
  | nil => simp [readDigits] at h
  | cons c t ih =>
    cases hc : c.isDigit with
    | false =>
      have hproblem : Problem b negative digits c .invalidDigit := .noDigit hc
      rw [hproblem.readDigits_eq t hzero, Except.error.injEq] at h
      refine ⟨[], c, t, rfl, ?_⟩
      rw [List.append_nil, ← h]
      exact ⟨hfits, hproblem⟩
    | true =>
      by_cases hin : b.Contains (signed negative (value (digits ++ [c])))
      · rw [readDigits_cons t _ hzero hc, ← value_concat, if_pos hin] at h
        obtain ⟨more, d, rest, rfl, hmore⟩ := ih (hfits.concat hc hin) h
        refine ⟨c :: more, d, rest, rfl, ?_⟩
        rwa [List.append_cons]
      · have hproblem : Problem b negative digits c (overflow negative) := .outside hc hin
        rw [hproblem.readDigits_eq t hzero, Except.error.injEq] at h
        refine ⟨[], c, t, rfl, ?_⟩
        rw [List.append_nil, ← h]
        exact ⟨hfits, hproblem⟩

theorem contains_product {n d : Nat} (hzero : b.Contains 0)
    (h : b.Contains (10 * signed negative n + signed negative d)) :
    b.Contains (10 * signed negative n) := by
  have hproduct : 10 * signed negative n = signed negative (10 * n) := by
    have hnext := signed_next negative n 0
    rw [Nat.add_zero, signed_zero] at hnext
    omega
  rw [← signed_next] at h
  rw [hproduct]
  exact contains_signed_of_le hzero (by omega) h

end Digits

section Read

variable {b : Bounds} {t : Text} {negative : Bool}

theorem Body.read_eq_readDigits {body : Text} (h : Body b t negative body) (hbody : body ≠ []) :
    read b t = readDigits b negative (signed negative 0) body := by
  obtain ⟨c, u, rfl⟩ := List.exists_cons_of_ne_nil hbody
  rw [h.read_eq (h.ne_nil hbody), signed_zero]
  rfl

theorem Body.exists_sign (h : Body b t negative []) (ht : t ≠ []) : ∃ c, t = [c] ∧ IsSign b c := by
  cases h with
  | bare => exact absurd rfl ht
  | plus => exact ⟨'+', rfl, .inl rfl⟩
  | minus _ hb => exact ⟨'-', rfl, .inr ⟨rfl, hb⟩⟩

theorem read_eq_error_iff {fault : Fault} (hzero : b.Contains 0) :
    read b t = .error fault ↔ RefusedFor b t fault := by
  constructor
  · intro h
    by_cases ht : t = []
    · subst ht
      simp only [read, Except.error.injEq] at h
      exact h ▸ .empty
    · obtain ⟨negative, body, hbody⟩ := exists_body b t
      by_cases hnil : body = []
      · subst hnil
        rw [hbody.read_eq ht, readSigned, Except.error.injEq] at h
        obtain ⟨c, rfl, hc⟩ := hbody.exists_sign ht
        exact h ▸ .sign hc
      · rw [hbody.read_eq_readDigits hnil] at h
        obtain ⟨digits, c, rest, rfl, hfits, hproblem⟩ :=
          exists_problem hzero (fits_nil negative hzero) h
        exact .problem hbody hfits hproblem
  · intro h
    cases h with
    | empty => rfl
    | sign hc =>
      obtain rfl | ⟨rfl, hb⟩ := hc
      · exact (Body.plus []).read_eq (by simp)
      · exact (Body.minus [] hb).read_eq (by simp)
    | problem hbody hfits hproblem =>
      rw [hbody.read_eq_readDigits (by simp), readDigits_append _ hzero hfits.isDigit hfits.contains]
      exact hproblem.readDigits_eq _ hzero

theorem read_of_outside {digits rest : Text} {c : Char} (hzero : b.Contains 0)
    (hbody : Body b t negative (digits ++ c :: rest))
    (hdigits : ∀ d ∈ digits ++ [c], d.isDigit = true)
    (hout : ¬ (b.Contains (10 * signed negative (value digits)) ∧
      b.Contains (10 * signed negative (value digits) + signed negative (digit c)))) :
    read b t = .error (overflow negative) := by
  have hvalue : ¬ b.Contains (signed negative (value (digits ++ [c]))) := by
    intro hin
    rw [value_concat, signed_next] at hin
    exact hout ⟨contains_product hzero hin, hin⟩
  rw [hbody.read_eq_readDigits (by simp), List.append_cons]
  exact readDigits_of_outside rest hzero hdigits (by rwa [signed_zero]) hvalue

end Read

structure ReadsExactly {α : Type} (b : Bounds) (toInt : α → Int)
    (reader : Text → Except Fault α) : Prop where
  range (n : Int) : b.Contains n ↔ ∃ x, toInt x = n
  accepts (t : Text) (x : α) : reader t = .ok x ↔ IsNumeral b t (toInt x)
  readsBack (x : α) : reader (ofInt (toInt x)) = .ok x
  refuses (t : Text) (fault : Fault) : reader t = .error fault ↔ RefusedFor b t fault
  /-- A digit is added by a product and a sum. Wherever one of them leaves the bounds, it is this
  that the text is refused for. -/
  notices {t digits rest : Text} {negative : Bool} {c : Char} :
    Body b t negative (digits ++ c :: rest) → (∀ d ∈ digits ++ [c], d.isDigit = true) →
    ¬ (b.Contains (10 * signed negative (value digits)) ∧
      b.Contains (10 * signed negative (value digits) + signed negative (digit c))) →
    reader t = .error (overflow negative)

theorem map_read_eq_error_iff {α : Type} {b : Bounds} {t : Text} {f : Int → α} {fault : Fault} :
    (read b t).map f = .error fault ↔ read b t = .error fault := by
  cases read b t with
  | error fault => simp [Except.map]
  | ok n => simp [Except.map]

theorem readsExactly {α : Type} {b : Bounds} {toInt : α → Int} {f : Int → α}
    (hb : b.OfType toInt f) : ReadsExactly b toInt fun t => (read b t).map f where
  range n := by
    constructor
    · intro hn
      exact ⟨f n, hb.toInt_ofInt hn⟩
    · intro h
      obtain ⟨x, rfl⟩ := h
      exact hb.contains_toInt x
  accepts t x := map_read_eq_ok_iff hb
  readsBack x := map_read_ofInt hb x
  refuses t fault := map_read_eq_error_iff.trans (read_eq_error_iff hb.contains_zero)
  notices hbody hdigits hout :=
    map_read_eq_error_iff.mpr (read_of_outside hb.contains_zero hbody hdigits hout)

/-- Ids, ports and widths are read from their numerals and from nothing else, with no number of
their type left out, and any other text is refused for its first problem. -/
theorem readers_exact :
    ReadsExactly .id Int64.toInt readId ∧
    ReadsExactly .port (fun port : UInt16 => (port.toNat : Int)) readPort ∧
    ReadsExactly .width (fun w : UInt64 => (w.toNat : Int)) readWidth :=
  ⟨readsExactly Bounds.ofType_id, readsExactly Bounds.ofType_port, readsExactly Bounds.ofType_width⟩

example : readPort "+0065535".toList = .ok 65535 := by rfl

example : readPort "65535x".toList = .error .invalidDigit := by rfl

example : readId "-9223372036854775809x".toList = .error .tooSmall := by rfl

end QueryConsole.Numeral
