set_option autoImplicit false

namespace QueryConsole

abbrev Text := List Char

def splitFirst (c : Char) : Text → Option (Text × Text)
  | [] => none
  | d :: t =>
    if d = c then some ([], t)
    else (splitFirst c t).map fun p => (d :: p.1, p.2)

def splitLast (c : Char) : Text → Option (Text × Text)
  | [] => none
  | d :: t =>
    match splitLast c t with
    | some p => some (d :: p.1, p.2)
    | none => if d = c then some ([], t) else none

theorem splitFirst_eq_none_iff {c : Char} {t : Text} : splitFirst c t = none ↔ c ∉ t := by
  induction t with
  | nil => simp [splitFirst]
  | cons d t ih =>
    by_cases h : d = c
    · simp [splitFirst, h]
    · simp [splitFirst, h, ih, Ne.symm h]

theorem splitFirst_append {c : Char} {a : Text} (b : Text) (h : c ∉ a) :
    splitFirst c (a ++ c :: b) = some (a, b) := by
  induction a with
  | nil => simp [splitFirst]
  | cons d a ih =>
    have hd : d ≠ c := fun e => h (e ▸ List.mem_cons_self)
    simp [splitFirst, hd, ih fun m => h (List.mem_cons_of_mem d m)]

theorem splitFirst_eq_some_iff {c : Char} {t a b : Text} :
    splitFirst c t = some (a, b) ↔ t = a ++ c :: b ∧ c ∉ a := by
  constructor
  · intro h
    induction t generalizing a with
    | nil => simp [splitFirst] at h
    | cons d t ih =>
      by_cases hd : d = c
      · simp only [splitFirst, hd, if_true, Option.some.injEq, Prod.mk.injEq] at h
        simp [← h.1, h.2, hd]
      · simp only [splitFirst, hd, if_false, Option.map_eq_some_iff, Prod.mk.injEq] at h
        obtain ⟨p, hp, ha, hb⟩ := h
        obtain ⟨ht, hc⟩ := ih (a := p.1) (by rw [hp, ← hb])
        simp [← ha, ht, hc, Ne.symm hd]
  · rintro ⟨rfl, h⟩
    exact splitFirst_append b h

theorem splitLast_eq_none_iff {c : Char} {t : Text} : splitLast c t = none ↔ c ∉ t := by
  induction t with
  | nil => simp [splitLast]
  | cons d t ih =>
    cases h : splitLast c t with
    | some p =>
      have hc : c ∈ t := Decidable.byContradiction fun n => by simp [ih.2 n] at h
      simp [splitLast, h, hc]
    | none =>
      by_cases hd : d = c
      · simp [splitLast, h, hd]
      · simp [splitLast, h, hd, Ne.symm hd, ih.1 h]

theorem splitLast_append {c : Char} (a : Text) {b : Text} (h : c ∉ b) :
    splitLast c (a ++ c :: b) = some (a, b) := by
  induction a with
  | nil => simp [splitLast, splitLast_eq_none_iff.2 h]
  | cons d a ih => simp [splitLast, ih]

theorem splitLast_eq_some_iff {c : Char} {t a b : Text} :
    splitLast c t = some (a, b) ↔ t = a ++ c :: b ∧ c ∉ b := by
  constructor
  · intro h
    induction t generalizing a with
    | nil => simp [splitLast] at h
    | cons d t ih =>
      cases hs : splitLast c t with
      | some p =>
        simp only [splitLast, hs, Option.some.injEq, Prod.mk.injEq] at h
        obtain ⟨ht, hc⟩ := ih (a := p.1) (by rw [hs, ← h.2])
        simp [← h.1, ht, hc]
      | none =>
        simp only [splitLast, hs] at h
        split at h
        · simp only [Option.some.injEq, Prod.mk.injEq] at h
          rename_i hd
          simp [← h.1, ← h.2, hd, splitLast_eq_none_iff.1 hs]
        · simp at h
  · rintro ⟨rfl, h⟩
    exact splitLast_append a h

def padRight (width : Nat) (t : Text) : Text :=
  t ++ List.replicate (width - t.length) ' '

theorem length_padRight (width : Nat) (t : Text) :
    (padRight width t).length = max width t.length := by
  simp [padRight]; omega

def utf8 (t : Text) : List UInt8 := t.flatMap String.utf8EncodeChar

@[simp] theorem utf8_nil : utf8 [] = [] := rfl

@[simp] theorem utf8_append (t u : Text) : utf8 (t ++ u) = utf8 t ++ utf8 u := by
  simp [utf8]

end QueryConsole
