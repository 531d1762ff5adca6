import QueryConsole.Proofs.Double.ReadBack
import QueryConsole.Proofs.Quoted
import QueryConsole.Value.Layout.Lemmas

/-!
What breaking lines does to the text of a value. A layout has the pieces of the one-line text, and a
line feed comes from a broken gap only, so the text without its breaks is the one-line text.
-/

set_option autoImplicit false

namespace QueryConsole

/-- The text with one space for each line feed and all the spaces behind it. -/
def unbreak : Text → Text
  | [] => []
  | c :: t =>
    if c = '\n' then ' ' :: unbreak (t.dropWhile fun d => d = ' ')
    else c :: unbreak t
termination_by t => t.length
decreasing_by
  · have := (List.dropWhile_sublist (fun d => decide (d = ' ')) (l := t)).length_le
    simp only [List.length_cons]
    omega
  · simp

theorem unbreak_append {t : Text} (ht : '\n' ∉ t) (u : Text) :
    unbreak (t ++ u) = t ++ unbreak u := by
  induction t with
  | nil => rfl
  | cons c t ih =>
    simp only [List.mem_cons, not_or] at ht
    rw [List.cons_append, unbreak, if_neg (Ne.symm ht.1), ih ht.2]
    rfl

theorem unbreak_indent {c : Char} {u : Text} (n : Nat) (hc : c ≠ ' ') :
    unbreak ('\n' :: (List.replicate n ' ' ++ c :: u)) = ' ' :: unbreak (c :: u) := by
  rw [unbreak, if_pos rfl, List.dropWhile_append_of_pos (by simp)]
  simp [hc]

theorem feed_append {t u before after : Text} (h : t ++ u = before ++ '\n' :: after) :
    (∃ inner, t = before ++ '\n' :: inner ∧ after = inner ++ u) ∨
      ∃ rest, u = rest ++ '\n' :: after ∧ before = t ++ rest := by
  rcases List.append_eq_append_iff.1 h with ⟨rest, hbefore, hu⟩ | ⟨inner, ht, hafter⟩
  · exact .inr ⟨rest, hu, hbefore⟩
  · cases inner with
    | nil => exact .inr ⟨[], hafter.symm, by simpa using ht.symm⟩
    | cons c inner =>
      obtain ⟨hc, hafter⟩ := List.cons.inj hafter
      exact .inl ⟨inner, by rw [ht, hc], hafter⟩

namespace Piece

def Solid (p : Piece) : Prop :=
  '\n' ∉ p.text ∧ ∃ c t, p.text = c :: t ∧ c ≠ ' ' ∧ c ≠ '\n'

theorem solid_of_bare {t : Text} (hne : t ≠ []) (h : ∀ c ∈ t, Double.isBare c = true) :
    (word t).Solid := by
  have hfeed : '\n' ∉ t := fun hmem => absurd (h _ hmem) (by decide)
  cases t with
  | nil => exact absurd rfl hne
  | cons c t =>
    have hc := h c (by simp)
    have hother : ∀ d, Double.isBare d = false → c ≠ d := by
      intro d hd heq
      rw [heq, hd] at hc
      exact Bool.noConfusion hc
    exact ⟨hfeed, c, t, rfl, hother _ rfl, hother _ rfl⟩

theorem solid_of_quoted {s t : Text} (ht : '\n' ∉ t) : (word (Quoted.write s ++ t)).Solid := by
  have hfeed : '\n' ∉ Quoted.write s := by
    intro hmem
    exact absurd (Quoted.isControl_of_mem_write hmem) (by decide)
  refine ⟨by simp [text, hfeed, ht], Quoted.quoteMark s, _, rfl, ?_, ?_⟩
  · rcases Quoted.isMark_quoteMark s with h | h <;> rw [h] <;> decide
  · rcases Quoted.isMark_quoteMark s with h | h <;> rw [h] <;> decide

def StartsSolid : List Piece → Prop
  | [] => False
  | p :: _ => p.Solid

/-- Each piece is solid but for the breaks, which indent and have something solid behind them. -/
inductive WellSpaced : List Piece → Prop where
  | nil : WellSpaced []
  | solid {p : Piece} {ps : List Piece} : p.Solid → WellSpaced ps → WellSpaced (p :: ps)
  | lineBreak {n : Nat} {ps : List Piece} :
    0 < n → StartsSolid ps → WellSpaced ps → WellSpaced (.gap (some n) :: ps)

theorem solid_gap : (gap none).Solid := ⟨by decide, ',', [' '], rfl, by decide, by decide⟩

theorem StartsSolid.append {ps : List Piece} (h : StartsSolid ps) (qs : List Piece) :
    StartsSolid (ps ++ qs) := by
  cases ps with
  | nil => exact h.elim
  | cons p ps => exact h

theorem WellSpaced.append {ps qs : List Piece} (hps : WellSpaced ps) (hqs : WellSpaced qs) :
    WellSpaced (ps ++ qs) := by
  induction hps with
  | nil => exact hqs
  | solid hp _ ih => exact .solid hp ih
  | lineBreak hn hstart _ ih => exact .lineBreak hn (hstart.append qs) ih

theorem StartsSolid.exists_texts_eq {ps : List Piece} (h : StartsSolid ps) :
    ∃ c t, texts ps = c :: t ∧ c ≠ ' ' ∧ c ≠ '\n' := by
  cases ps with
  | nil => exact h.elim
  | cons p ps =>
    obtain ⟨-, c, t, ht, hspace, hfeed⟩ := h
    exact ⟨c, t ++ texts ps, by rw [texts_cons, ht]; rfl, hspace, hfeed⟩

theorem joined_of_solid {p : Piece} (h : p.Solid) : p.joined = p := by
  cases p with
  | gap b =>
    cases b with
    | none => rfl
    | some n => exact absurd (by simp [text]) h.1
  | _ => rfl

theorem unbreak_texts {ps : List Piece} (h : WellSpaced ps) :
    unbreak (texts ps) = texts (ps.map joined) := by
  induction h with
  | nil => simp [unbreak]
  | solid hp _ ih =>
    rw [List.map_cons, texts_cons, texts_cons, unbreak_append hp.1, joined_of_solid hp, ih]
  | @lineBreak n ps _ hstart _ ih =>
    obtain ⟨c, t, ht, hspace, -⟩ := hstart.exists_texts_eq
    rw [List.map_cons, texts_cons, texts_cons, ← ih, ht]
    change unbreak (',' :: '\n' :: (List.replicate n ' ' ++ c :: t)) =
      ',' :: ' ' :: unbreak (c :: t)
    rw [unbreak, if_neg (by decide), unbreak_indent n hspace]

theorem break_text {n : Nat} {before inner : Text}
    (h : (gap (some n)).text = before ++ '\n' :: inner) :
    before = [','] ∧ inner = List.replicate n ' ' := by
  cases before with
  | nil => simp [text] at h
  | cons c before =>
    obtain ⟨rfl, h⟩ := List.cons.inj h
    cases before with
    | nil => exact ⟨rfl, (List.cons.inj (List.cons.inj h).2).2.symm⟩
    | cons d before =>
      have hmem : '\n' ∈ List.replicate n ' ' := by
        rw [(List.cons.inj (List.cons.inj h).2).2]
        exact List.mem_append_right before List.mem_cons_self
      simp at hmem

theorem exists_gap_of_feed {ps : List Piece} (h : WellSpaced ps) {before after : Text}
    (heq : texts ps = before ++ '\n' :: after) :
    ∃ front n back, ps = front ++ .gap (some n) :: back ∧ before = texts front ++ [','] ∧
      after = List.replicate n ' ' ++ texts back ∧ 0 < n ∧ StartsSolid back := by
  induction h generalizing before with
  | nil => simp at heq
  | @solid p ps hp _ ih =>
    rw [texts_cons] at heq
    rcases feed_append heq with ⟨inner, ht, -⟩ | ⟨rest, hrest, hbefore⟩
    · exact absurd (by rw [ht]; simp) hp.1
    · obtain ⟨front, n, back, rfl, rfl, hback⟩ := ih hrest
      exact ⟨p :: front, n, back, rfl, by simp [hbefore], hback⟩
  | @lineBreak n ps hn hstart _ ih =>
    rw [texts_cons] at heq
    rcases feed_append heq with ⟨inner, ht, hafter⟩ | ⟨rest, hrest, hbefore⟩
    · obtain ⟨hbefore, hinner⟩ := break_text ht
      exact ⟨[], n, ps, rfl, hbefore, by rw [hafter, hinner], hn, hstart⟩
    · obtain ⟨front, m, back, rfl, rfl, hback⟩ := ih hrest
      exact ⟨.gap (some n) :: front, m, back, rfl, by simp [hbefore], hback⟩

/-- A line feed is a break: it has a comma before it, and behind it an indent and more text. -/
theorem breaks_texts {ps : List Piece} (h : WellSpaced ps) {before after : Text}
    (heq : texts ps = before ++ '\n' :: after) :
    before.getLast? = some ',' ∧
      ∃ n c t, after = List.replicate n ' ' ++ c :: t ∧ 0 < n ∧ c ≠ ' ' ∧ c ≠ '\n' := by
  obtain ⟨front, n, back, -, rfl, rfl, hn, hstart⟩ := exists_gap_of_feed h heq
  obtain ⟨c, t, hback, hspace, hfeed⟩ := hstart.exists_texts_eq
  exact ⟨by simp, n, c, t, by rw [hback], hn, hspace, hfeed⟩

end Piece

namespace Value

open Piece

theorem solid_keyText (k : Text) : (word (keyText k)).Solid := solid_of_quoted (by decide)

theorem solid_string (s : Text) : (word (Quoted.write s)).Solid := by
  have h := solid_of_quoted (s := s) (t := []) (by simp)
  rwa [List.append_nil] at h

theorem solid_number (x : Double) : (word x.text).Solid :=
  solid_of_bare x.text_ne_nil fun _ hc => Double.isBare_of_mem_text hc

theorem solid_bracket {c : Char} (hc : c ∈ ['[', ']', '\x7b', '\x7d']) :
    (opener c).Solid ∧ (closer c).Solid := by
  have hall : ∀ d ∈ ['[', ']', '\x7b', '\x7d'], d ≠ ' ' ∧ d ≠ '\n' := by simp
  obtain ⟨hspace, hfeed⟩ := hall c hc
  have hmem : '\n' ∉ [c] := fun h => hfeed (List.mem_singleton.1 h).symm
  exact ⟨⟨hmem, c, [], rfl, hspace, hfeed⟩, hmem, c, [], rfl, hspace, hfeed⟩

theorem startsSolid_pieces (v : Value) : StartsSolid (pieces v) := by
  cases v with
  | unset => exact solid_of_bare (List.cons_ne_nil _ _) (Double.isBare_of_all rfl)
  | null => exact solid_of_bare (List.cons_ne_nil _ _) (Double.isBare_of_all rfl)
  | bool b =>
    cases b with
    | false => exact solid_of_bare (List.cons_ne_nil _ _) (Double.isBare_of_all rfl)
    | true => exact solid_of_bare (List.cons_ne_nil _ _) (Double.isBare_of_all rfl)
  | number x => exact solid_number x
  | string s => exact solid_string s
  | list vs => exact (solid_bracket (by simp)).1
  | record es => exact (solid_bracket (by simp)).1

theorem wellSpaced_word {v : Value} (h : pieces v = [.word v.line]) : WellSpaced (pieces v) := by
  have hstart := startsSolid_pieces v
  rw [h] at hstart ⊢
  exact .solid hstart .nil

mutual
theorem wellSpaced_pieces : (v : Value) → WellSpaced (pieces v)
  | .unset | .null | .bool _ | .number _ | .string _ => wellSpaced_word rfl
  | .list vs =>
    .solid (solid_bracket (by simp)).1
      ((wellSpaced_piecesList vs).append (.solid (solid_bracket (by simp)).2 .nil))
  | .record es =>
    .solid (solid_bracket (by simp)).1
      ((wellSpaced_piecesEntries es).append (.solid (solid_bracket (by simp)).2 .nil))

theorem wellSpaced_piecesList : (vs : List Value) → WellSpaced (piecesList vs)
  | [] => .nil
  | [v] => wellSpaced_pieces v
  | v :: w :: vs =>
    (wellSpaced_pieces v).append (.solid solid_gap (wellSpaced_piecesList (w :: vs)))

theorem wellSpaced_piecesEntries : (es : List (Text × Value)) → WellSpaced (piecesEntries es)
  | [] => .nil
  | [(k, v)] => .solid (solid_keyText k) (wellSpaced_pieces v)
  | (k, v) :: e :: es =>
    .solid (solid_keyText k)
      ((wellSpaced_pieces v).append (.solid solid_gap (wellSpaced_piecesEntries (e :: es))))
end

theorem startsSolid_layout (width column room : Nat) (v : Value) :
    StartsSolid (layout width column room v) := by
  cases v with
  | list vs =>
    unfold layout
    split
    · exact startsSolid_pieces _
    · exact (solid_bracket (by simp)).1
  | record es =>
    unfold layout
    split
    · exact startsSolid_pieces _
    · exact (solid_bracket (by simp)).1
  | _ => exact startsSolid_pieces _

theorem startsSolid_layoutList (width column room : Nat) (v : Value) (vs : List Value) :
    StartsSolid (layoutList width column room (v :: vs)) := by
  cases vs with
  | nil => exact startsSolid_layout width column room v
  | cons w vs => exact (startsSolid_layout width column 1 v).append _

theorem startsSolid_layoutEntries (width column room : Nat) (e : Text × Value)
    (es : List (Text × Value)) : StartsSolid (layoutEntries width column room (e :: es)) := by
  cases es with
  | nil => exact solid_keyText e.1
  | cons f es => exact solid_keyText e.1

mutual
theorem wellSpaced_layout (width : Nat) :
    (column room : Nat) → (v : Value) → WellSpaced (layout width column room v)
  | _, _, .unset | _, _, .null | _, _, .bool _ | _, _, .number _ | _, _, .string _ =>
    wellSpaced_pieces _
  | column, room, .list vs => by
    unfold layout
    split
    · exact wellSpaced_pieces _
    · exact .solid (solid_bracket (by simp)).1
        ((wellSpaced_layoutList width column (room + 1) vs).append
          (.solid (solid_bracket (by simp)).2 .nil))
  | column, room, .record es => by
    unfold layout
    split
    · exact wellSpaced_pieces _
    · exact .solid (solid_bracket (by simp)).1
        ((wellSpaced_layoutEntries width column (room + 1) es).append
          (.solid (solid_bracket (by simp)).2 .nil))

theorem wellSpaced_layoutList (width column room : Nat) :
    (vs : List Value) → WellSpaced (layoutList width (column + 1) room vs)
  | [] => .nil
  | [v] => wellSpaced_layout width (column + 1) room v
  | v :: w :: vs =>
    (wellSpaced_layout width (column + 1) 1 v).append
      (.lineBreak (Nat.succ_pos column) (startsSolid_layoutList width (column + 1) room w vs)
        (wellSpaced_layoutList width column room (w :: vs)))

theorem wellSpaced_layoutEntries (width column room : Nat) :
    (es : List (Text × Value)) → WellSpaced (layoutEntries width (column + 1) room es)
  | [] => .nil
  | [(k, v)] => .solid (solid_keyText k) (wellSpaced_layout width _ room v)
  | (k, v) :: e :: es =>
    .solid (solid_keyText k)
      ((wellSpaced_layout width _ 1 v).append
        (.lineBreak (Nat.succ_pos column) (startsSolid_layoutEntries width (column + 1) room e es)
          (wellSpaced_layoutEntries width column room (e :: es))))
end

theorem unbreak_dump (width : Nat) (v : Value) : unbreak (v.dump width) = v.line := by
  rw [dump, unbreak_texts (wellSpaced_layout width 0 0 v), joined_layout, texts_pieces]

/-- A dump is the one-line text but for its breaks, each of which stands for the space behind a
comma. -/
theorem dump_breaks (width : Nat) (v : Value) :
    (∀ before after, v.dump width = before ++ '\n' :: after →
      before.getLast? = some ',' ∧
        ∃ n c t, after = List.replicate n ' ' ++ c :: t ∧ 0 < n ∧ c ≠ ' ' ∧ c ≠ '\n') ∧
    unbreak (v.dump width) = v.line ∧
    (layout width 0 0 v).map Piece.joined = pieces v :=
  ⟨fun _ _ heq => breaks_texts (wellSpaced_layout width 0 0 v) heq, unbreak_dump width v,
    joined_layout width 0 0 v⟩

end Value

end QueryConsole
