import QueryConsole.Value.Quoted

set_option autoImplicit false

namespace QueryConsole.Quoted

def IsMark (mark : Char) : Prop := mark = '\'' ∨ mark = '"'

theorem isMark_quoteMark (s : Text) : IsMark (quoteMark s) := by
  unfold quoteMark IsMark
  split
  · exact .inr rfl
  · exact .inl rfl

theorem IsMark.isControl {mark : Char} (hm : IsMark mark) : isControl mark = false := by
  rcases hm with rfl | rfl <;> decide

theorem IsMark.ne_backslash {mark : Char} (hm : IsMark mark) : ('\\' : Char) ≠ mark := by
  rcases hm with rfl | rfl <;> decide

theorem hexValue?_digitChar {n : Nat} (h : n < 16) : hexValue? n.digitChar = some n := by
  have hall : ∀ m < 16, hexValue? (Nat.digitChar m) = some m := by decide
  exact hall n h

theorem isControl_digitChar {n : Nat} (h : n < 16) : isControl n.digitChar = false := by
  have hall : ∀ m < 16, isControl (Nat.digitChar m) = false := by decide
  exact hall n h

theorem toNat_lt_of_isControl {c : Char} (h : isControl c = true) : c.toNat < 256 := by
  simp only [isControl, decide_eq_true_eq] at h
  omega

theorem readHexPair?_digits {c : Char} (h : c.toNat < 256) :
    readHexPair? (c.toNat / 16).digitChar (c.toNat % 16).digitChar = some c := by
  have hhigh := hexValue?_digitChar (n := c.toNat / 16) (by omega)
  have hlow := hexValue?_digitChar (n := c.toNat % 16) (Nat.mod_lt _ (by decide))
  have hsum : 16 * (c.toNat / 16) + c.toNat % 16 = c.toNat := Nat.div_add_mod _ _
  simp [readHexPair?, hhigh, hlow, hsum, Char.ofNat_toNat]

/-- A character between the quotes is escaped by one character, escaped by its number, or stands for
itself. -/
inductive Escaped (mark c : Char) : Text → Prop where
  | short (e : Char) (hx : e ≠ 'x') (hc : isControl e = false)
      (hread : readEscape? mark e = some c) : Escaped mark c ['\\', e]
  | number (h : isControl c = true) : Escaped mark c ('\\' :: 'x' :: hexPair c.toNat)
  | plain (hback : c ≠ '\\') (hmark : c ≠ mark) (hc : isControl c = false) : Escaped mark c [c]

theorem escaped_escape {mark : Char} (hm : IsMark mark) (c : Char) :
    Escaped mark c (escape mark c) := by
  unfold escape
  split
  · subst_vars
    exact .short '\\' (by decide) rfl (by simp [readEscape?])
  split
  · subst_vars
    exact .short 'n' (by decide) rfl (by simp [readEscape?])
  split
  · subst_vars
    exact .short 'r' (by decide) rfl (by simp [readEscape?])
  split
  · subst_vars
    exact .short 't' (by decide) rfl (by simp [readEscape?])
  split
  · subst_vars
    rcases hm with rfl | rfl
    · exact .short '\'' (by decide) rfl (by simp [readEscape?])
    · exact .short '"' (by decide) rfl (by simp [readEscape?])
  split
  · exact .number ‹_›
  · exact .plain ‹_› ‹_› (by simpa using ‹¬ isControl c = true›)

theorem readBody?_escape {mark : Char} (hm : IsMark mark) (c : Char) (t : Text) :
    readBody? mark (escape mark c ++ t) = (readBody? mark t).map fun p => (c :: p.1, p.2) := by
  have hslash := hm.ne_backslash
  have h := escaped_escape hm c
  generalize escape mark c = u at h
  cases h with
  | short e hx _ hread =>
    simp only [List.cons_append, List.nil_append]
    rw [readBody?.eq_def]
    simp only [hslash, if_false, if_true]
    split
    · rename_i heq
      simp only [List.cons.injEq] at heq
      exact absurd heq.1 hx
    · rename_i heq
      simp only [List.cons.injEq] at heq
      obtain ⟨rfl, rfl⟩ := heq
      rw [hread]
      cases readBody? mark t <;> rfl
    · rename_i heq
      simp at heq
  | number hctl =>
    have hc := readHexPair?_digits (toNat_lt_of_isControl hctl)
    simp only [hexPair, List.cons_append, List.nil_append]
    rw [readBody?]
    simp only [hslash, if_false, if_true, hc]
    cases readBody? mark t <;> rfl
  | plain hback hmark _ =>
    simp only [List.cons_append, List.nil_append]
    rw [readBody?.eq_def]
    simp only [hback, hmark, if_false]
    cases readBody? mark t <;> rfl

theorem readBody?_flatMap_escape {mark : Char} (hm : IsMark mark) (s t : Text) :
    readBody? mark (s.flatMap (escape mark) ++ mark :: t) = some (s, t) := by
  induction s with
  | nil =>
    simp only [List.flatMap_nil, List.nil_append]
    rw [readBody?.eq_def]
    simp
  | cons c s ih =>
    rw [List.flatMap_cons, List.append_assoc, readBody?_escape hm, ih]
    rfl

theorem read?_write (s t : Text) : read? (write s ++ t) = some (s, t) := by
  have hm := isMark_quoteMark s
  simp only [write, List.cons_append, List.append_assoc, List.nil_append, read?]
  rw [readBody?_flatMap_escape hm]
  exact if_pos hm

theorem isControl_of_mem_escape {mark c d : Char} (hm : IsMark mark) (hd : d ∈ escape mark c) :
    isControl d = false := by
  have h := escaped_escape hm c
  generalize escape mark c = u at h hd
  cases h with
  | short e _ he _ =>
    simp only [List.mem_cons, List.not_mem_nil, or_false] at hd
    rcases hd with rfl | rfl
    · decide
    · exact he
  | number hctl =>
    have hlt := toNat_lt_of_isControl hctl
    simp only [hexPair, List.mem_cons, List.not_mem_nil, or_false] at hd
    rcases hd with rfl | rfl | rfl | rfl
    · decide
    · decide
    · exact isControl_digitChar (by omega)
    · exact isControl_digitChar (Nat.mod_lt _ (by decide))
  | plain _ _ hc =>
    simp only [List.mem_singleton] at hd
    rwa [hd]

theorem isControl_of_mem_write {s : Text} {c : Char} (hc : c ∈ write s) : isControl c = false := by
  have hm := isMark_quoteMark s
  simp only [write, List.cons_append, List.mem_cons, List.mem_append, List.mem_flatMap,
    List.not_mem_nil, or_false] at hc
  rcases hc with rfl | ⟨d, _, hd⟩ | rfl
  · exact hm.isControl
  · exact isControl_of_mem_escape hm hd
  · exact hm.isControl

end QueryConsole.Quoted
