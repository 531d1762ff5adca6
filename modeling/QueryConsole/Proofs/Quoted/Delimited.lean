import QueryConsole.Proofs.Quoted

set_option autoImplicit false

namespace QueryConsole.Quoted

def escapesNext (t : Text) : Bool := t.foldl (fun escaped c => !escaped && c = '\\') false

theorem escapesNext_cons_of_ne {c : Char} (t : Text) (h : c ≠ '\\') :
    escapesNext (c :: t) = escapesNext t := by
  simp [escapesNext, h]

theorem escapesNext_backslash_cons (e : Char) (t : Text) :
    escapesNext ('\\' :: e :: t) = escapesNext t := by
  simp [escapesNext]

/-- A body in which each mark stands directly behind a backslash that escapes it, while a mark
behind the body is not escaped. -/
structure Enclosed (mark : Char) (body : Text) : Prop where
  inside : ∀ before after, body = before ++ mark :: after →
    ∃ start, before = start ++ ['\\'] ∧ escapesNext start = false
  closing : escapesNext body = false

section Enclosed

variable {mark : Char} {body : Text}

theorem enclosed_nil (mark : Char) : Enclosed mark [] := by
  refine ⟨fun before after h => ?_, rfl⟩
  simp at h

theorem Enclosed.plain {c : Char} (h : Enclosed mark body) (hmark : c ≠ mark) (hslash : c ≠ '\\') :
    Enclosed mark (c :: body) := by
  refine ⟨fun before after hsplit => ?_, ?_⟩
  · cases before with
    | nil => exact absurd (List.cons.inj hsplit).1 hmark
    | cons d before =>
      obtain ⟨rfl, hrest⟩ := List.cons.inj hsplit
      obtain ⟨start, rfl, hstart⟩ := h.inside before after hrest
      exact ⟨c :: start, rfl, by rw [escapesNext_cons_of_ne start hslash, hstart]⟩
  · rw [escapesNext_cons_of_ne body hslash, h.closing]

theorem Enclosed.escaped (h : Enclosed mark body) (hm : IsMark mark) (e : Char) :
    Enclosed mark ('\\' :: e :: body) := by
  refine ⟨fun before after hsplit => ?_, ?_⟩
  · match before with
    | [] => exact absurd (List.cons.inj hsplit).1 hm.ne_backslash
    | [d] =>
      obtain ⟨rfl, -⟩ := List.cons.inj hsplit
      exact ⟨[], rfl, rfl⟩
    | d :: d' :: before =>
      simp only [List.cons_append, List.cons.injEq] at hsplit
      obtain ⟨rfl, rfl, hrest⟩ := hsplit
      obtain ⟨start, rfl, hstart⟩ := h.inside before after hrest
      exact ⟨'\\' :: e :: start, rfl, by rw [escapesNext_backslash_cons, hstart]⟩
  · rw [escapesNext_backslash_cons, h.closing]

end Enclosed

/-- The body that stands between two marks for a text, with each of its characters standing for
itself or escaped. -/
inductive StandsFor (mark : Char) : Text → Text → Prop where
  | nil : StandsFor mark [] []
  | plain {c : Char} {body s : Text} : c ≠ mark → c ≠ '\\' → StandsFor mark body s →
      StandsFor mark (c :: body) (c :: s)
  | short {e c : Char} {body s : Text} : readEscape? mark e = some c → StandsFor mark body s →
      StandsFor mark ('\\' :: e :: body) (c :: s)
  | number {a b c : Char} {body s : Text} : readHexPair? a b = some c → StandsFor mark body s →
      StandsFor mark ('\\' :: 'x' :: a :: b :: body) (c :: s)

theorem hexValue?_eq_none_of_mark {mark : Char} (hm : IsMark mark) : hexValue? mark = none := by
  rcases hm with rfl | rfl <;> decide

theorem readHexPair?_eq_some {a b c : Char} (h : readHexPair? a b = some c) :
    hexValue? a ≠ none ∧ hexValue? b ≠ none := by
  simp only [readHexPair?, Option.bind_eq_bind, Option.bind_eq_some_iff] at h
  obtain ⟨m, hfirst, n, hsecond, -⟩ := h
  rw [hfirst, hsecond]
  exact ⟨Option.some_ne_none m, Option.some_ne_none n⟩

theorem StandsFor.enclosed {mark : Char} {body s : Text} (hm : IsMark mark)
    (h : StandsFor mark body s) : Enclosed mark body := by
  have hplain : ∀ {d : Char}, hexValue? d ≠ none → d ≠ mark ∧ d ≠ '\\' := by
    intro d hd
    refine ⟨fun hmark => hd ?_, fun hslash => hd ?_⟩
    · rw [hmark, hexValue?_eq_none_of_mark hm]
    · rw [hslash]
      decide
  induction h with
  | nil => exact enclosed_nil mark
  | plain hmark hslash _ ih => exact ih.plain hmark hslash
  | short _ _ ih => exact ih.escaped hm _
  | number hpair _ ih =>
    obtain ⟨ha, hb⟩ := readHexPair?_eq_some hpair
    exact ((ih.plain (hplain hb).1 (hplain hb).2).plain (hplain ha).1 (hplain ha).2).escaped hm 'x'

theorem readEscape?_x {mark : Char} (hm : IsMark mark) : readEscape? mark 'x' = none := by
  rcases hm with rfl | rfl <;> simp [readEscape?]

theorem readBody?_of_standsFor {mark : Char} {body s : Text} (hm : IsMark mark)
    (h : StandsFor mark body s) (rest : Text) :
    readBody? mark (body ++ mark :: rest) = some (s, rest) := by
  have hslash := hm.ne_backslash
  induction h with
  | nil =>
    rw [List.nil_append, readBody?.eq_def]
    simp
  | plain hmark hne _ ih =>
    rw [List.cons_append, readBody?.eq_def]
    simp [hmark, hne, ih]
  | @short e c body s hread _ ih =>
    have hx : e ≠ 'x' := by
      rintro rfl
      simp [readEscape?_x hm] at hread
    rw [List.cons_append, List.cons_append, readBody?.eq_def]
    simp only [hslash, if_false, if_true]
    split
    · rename_i heq
      exact absurd (List.cons.inj heq).1 hx
    · rename_i heq
      obtain ⟨rfl, rfl⟩ := List.cons.inj heq
      simp [hread, ih]
    · rename_i heq
      simp at heq
  | number hpair _ ih =>
    simp only [List.cons_append]
    rw [readBody?]
    simp [hslash, hpair, ih]

theorem standsFor_of_readBody? {mark : Char} {t s rest : Text}
    (h : readBody? mark t = some (s, rest)) :
    ∃ body, t = body ++ mark :: rest ∧ StandsFor mark body s := by
  fun_induction readBody? mark t generalizing s with
  | case1 => simp at h
  | case2 t =>
    obtain ⟨rfl, rfl⟩ := Prod.mk.inj (Option.some.inj h)
    exact ⟨[], rfl, .nil⟩
  | case3 a b u _ ih =>
    simp only [Option.bind_eq_bind, Option.bind_eq_some_iff, Option.some.injEq,
      Prod.mk.injEq] at h
    obtain ⟨c, hpair, ⟨s, _⟩, hread, rfl, rfl⟩ := h
    obtain ⟨body, rfl, hbody⟩ := ih hread
    exact ⟨'\\' :: 'x' :: a :: b :: body, rfl, .number hpair hbody⟩
  | case4 e u _ _ ih =>
    simp only [Option.bind_eq_bind, Option.bind_eq_some_iff, Option.some.injEq,
      Prod.mk.injEq] at h
    obtain ⟨c, hescape, ⟨s, _⟩, hread, rfl, rfl⟩ := h
    obtain ⟨body, rfl, hbody⟩ := ih hread
    exact ⟨'\\' :: e :: body, rfl, .short hescape hbody⟩
  | case5 => simp at h
  | case6 c t hmark hslash ih =>
    simp only [Option.bind_eq_bind, Option.bind_eq_some_iff, Option.some.injEq,
      Prod.mk.injEq] at h
    obtain ⟨⟨s, _⟩, hread, rfl, rfl⟩ := h
    obtain ⟨body, rfl, hbody⟩ := ih hread
    exact ⟨c :: body, rfl, .plain hmark hslash hbody⟩

theorem read?_eq_some_iff {t s rest : Text} :
    read? t = some (s, rest) ↔ ∃ mark body, IsMark mark ∧ t = mark :: body ++ mark :: rest ∧
      Enclosed mark body ∧ StandsFor mark body s := by
  constructor
  · intro h
    cases t with
    | nil => simp [read?] at h
    | cons mark t =>
      rw [read?] at h
      split at h
      · rename_i hm
        obtain ⟨body, rfl, hbody⟩ := standsFor_of_readBody? h
        exact ⟨mark, body, hm, rfl, hbody.enclosed hm, hbody⟩
      · simp at h
  · rintro ⟨mark, body, hm, rfl, -, hbody⟩
    rw [List.cons_append, read?, ← readBody?_of_standsFor hm hbody rest]
    exact if_pos hm

theorem enclosed_write (s : Text) :
    Enclosed (quoteMark s) (s.flatMap (escape (quoteMark s))) := by
  have hm := isMark_quoteMark s
  obtain ⟨body, hbody, hstands⟩ :=
    standsFor_of_readBody? (readBody?_flatMap_escape hm s [])
  rw [List.append_cancel_right hbody]
  exact hstands.enclosed hm

/-- Quoted text has no control characters and ends at the first mark that is not escaped, so it is
read back whatever follows it. -/
theorem write_delimited (s : Text) :
    (∀ c ∈ write s, isControl c = false) ∧
    (∃ mark body, IsMark mark ∧ write s = mark :: body ++ [mark] ∧ Enclosed mark body) ∧
    (∀ rest, read? (write s ++ rest) = some (s, rest)) ∧
    ∀ t u rest, read? t = some (u, rest) ↔ ∃ mark body, IsMark mark ∧
      t = mark :: body ++ mark :: rest ∧ Enclosed mark body ∧ StandsFor mark body u :=
  ⟨fun _ hc => isControl_of_mem_write hc,
    ⟨quoteMark s, s.flatMap (escape (quoteMark s)), isMark_quoteMark s, rfl, enclosed_write s⟩,
    read?_write s, fun _ _ _ => read?_eq_some_iff⟩

example : write "'\"\\x41\\'".toList = "'\\'\"\\\\x41\\\\\\''".toList := by decide

end QueryConsole.Quoted
