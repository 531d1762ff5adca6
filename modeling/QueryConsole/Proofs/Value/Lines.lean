import QueryConsole.Proofs.Value.Breaks
import QueryConsole.Proofs.Value.Laid

set_option autoImplicit false

namespace QueryConsole

theorem Value.lt_of_fits {width column room : Nat} {v : Value}
    (h : fits width column room v.line.length = true) :
    column + v.line.length + room < width := by
  obtain ⟨c, t, hline, -⟩ := (startsSolid_pieces v).exists_texts_eq
  have hpos : 0 < v.line.length := by
    rw [← texts_pieces, hline]
    exact Nat.succ_pos t.length
  simp only [fits, decide_eq_true_eq] at h
  omega

namespace Piece

/-- A line of a text that is put together from pieces. -/
structure Line where
  indent : Nat
  body : List Piece
  broken : Bool

namespace Line

def text (l : Line) : Text :=
  List.replicate l.indent ' ' ++ texts l.body ++ if l.broken then [','] else []

def start (indent : Nat) : Line := ⟨indent, [], false⟩

def add (l : Line) (ps : List Piece) : Line := { l with body := l.body ++ ps }

def close (l : Line) : Line := { l with broken := true }

end Line

def linesFrom (l : Line) : List Piece → List Line
  | [] => [l]
  | .gap (some n) :: ps => l.close :: linesFrom (.start n) ps
  | p :: ps => linesFrom (l.add [p]) ps

def lines (ps : List Piece) : List Line := linesFrom (.start 0) ps

theorem Line.text_add {l : Line} (h : l.broken = false) (ps : List Piece) :
    (l.add ps).text = l.text ++ texts ps := by
  simp [text, add, h]

theorem Line.text_close {l : Line} (h : l.broken = false) : l.close.text = l.text ++ [','] := by
  simp [text, close, h]

theorem linesFrom_append {ps : List Piece} (h : ps.map joined = ps) (l : Line) (qs : List Piece) :
    linesFrom l (ps ++ qs) = linesFrom (l.add ps) qs := by
  induction ps generalizing l with
  | nil => simp [Line.add]
  | cons p ps ih =>
    obtain ⟨hp, hps⟩ := List.cons.inj h
    have hadd : (l.add [p]).add ps = l.add (p :: ps) := by simp [Line.add]
    have hstep : linesFrom l (p :: (ps ++ qs)) = linesFrom (l.add [p]) (ps ++ qs) := by
      cases p with
      | gap b =>
        cases b with
        | none => rfl
        | some n => simp [joined] at hp
      | _ => rfl
    rw [List.cons_append, hstep, ih hps, hadd]

theorem map_text_linesFrom {ps : List Piece} (h : WellSpaced ps) {l : Line}
    (hopen : l.broken = false) (hfeed : '\n' ∉ l.text) :
    (linesFrom l ps).map Line.text = (l.text ++ texts ps).splitOn '\n' := by
  induction h generalizing l with
  | nil =>
    rw [texts_nil, List.append_nil, List.splitOn_eq_singleton hfeed]
    rfl
  | @solid p ps hp _ ih =>
    have hstep : linesFrom l ([p] ++ ps) = linesFrom (l.add [p]) ps :=
      linesFrom_append (by simp [joined_of_solid hp]) l ps
    have htext : (l.add [p]).text = l.text ++ p.text := by simp [Line.text_add hopen]
    rw [List.singleton_append] at hstep
    rw [hstep, texts_cons, ← List.append_assoc, ← htext]
    exact ih hopen (by simp [htext, hfeed, hp.1])
  | @lineBreak n ps _ _ _ ih =>
    have hindent : '\n' ∉ (Line.start n).text := by simp [Line.text, Line.start]
    have hsplit : l.text ++ texts (gap (some n) :: ps) =
        (l.text ++ [',']) ++ '\n' :: ((Line.start n).text ++ texts ps) := by
      simp [Piece.text, Line.text, Line.start]
    rw [hsplit, List.splitOn_append_cons_self_of_not_mem (by simp [hfeed]), ← ih rfl hindent,
      ← Line.text_close hopen]
    rfl

def Leads (p : Piece) : Prop := (∃ c, p = .opener c) ∨ ∃ k, p = .word (keyText k)

def Closes (p : Piece) : Prop := ∃ c, p = .closer c

/-- One value that has no entries, behind opening brackets and keys and before closing brackets. -/
def Exhausted (ps : List Piece) : Prop :=
  ∃ front v back, ps = front ++ Value.pieces v ++ back ∧ (∀ p ∈ front, p.Leads) ∧
    Value.IsAtom v ∧ ∀ p ∈ back, p.Closes

theorem gap_not_mem_pieces {v : Value} (h : v.IsAtom) (b : Option Nat) :
    .gap b ∉ Value.pieces v := by
  cases v with
  | list vs =>
    rw [show vs = [] from h]
    simp [Value.pieces, Value.piecesList]
  | record es =>
    rw [show es = [] from h]
    simp [Value.pieces, Value.piecesEntries]
  | _ => simp [Value.pieces]

theorem Exhausted.gap_not_mem {ps : List Piece} (h : Exhausted ps) (b : Option Nat) :
    .gap b ∉ ps := by
  obtain ⟨front, v, back, rfl, hfront, hv, hback⟩ := h
  simp only [List.mem_append, not_or]
  refine ⟨⟨fun hmem => ?_, gap_not_mem_pieces hv b⟩, fun hmem => ?_⟩
  · obtain ⟨c, hc⟩ | ⟨k, hk⟩ := hfront _ hmem
    · exact Piece.noConfusion hc
    · exact Piece.noConfusion hk
  · obtain ⟨c, hc⟩ := hback _ hmem
    exact Piece.noConfusion hc

namespace Line

structure Leading (l : Line) (column : Nat) : Prop where
  unbroken : l.broken = false
  leads : ∀ p ∈ l.body, p.Leads
  length : l.text.length = column

structure Filled (width room : Nat) (l : Line) : Prop where
  unbroken : l.broken = false
  short : Exhausted l.body ∨ l.text.length + room < width

/-- A line that is not shorter than the width has nothing to break. -/
def Kept (width : Nat) (l : Line) : Prop := width ≤ l.text.length → Exhausted l.body

theorem leading_start (indent : Nat) : (start indent).Leading indent :=
  ⟨rfl, by simp [start], by simp [start, text]⟩

variable {l : Line} {width column room : Nat}

theorem Leading.add (h : l.Leading column) {p : Piece} (hp : p.Leads) :
    (l.add [p]).Leading (column + p.text.length) where
  unbroken := h.unbroken
  leads q hq := by
    obtain hq | hq := List.mem_append.mp hq
    · exact h.leads q hq
    · rwa [List.mem_singleton.mp hq]
  length := by simp [text_add h.unbroken, h.length]

theorem Leading.filled_of_isAtom (h : l.Leading column) {v : Value} (hv : v.IsAtom) :
    (l.add v.pieces).Filled width room where
  unbroken := h.unbroken
  short := .inl ⟨l.body, v, [], by simp [Line.add], h.leads, hv, by simp⟩

theorem Leading.filled_of_fits (h : l.Leading column) {v : Value}
    (hfits : Value.fits width column room v.line.length = true) :
    (l.add v.pieces).Filled width room where
  unbroken := h.unbroken
  short := by
    have hlt := Value.lt_of_fits hfits
    rw [text_add h.unbroken, List.length_append, h.length, Value.texts_pieces]
    exact .inr (by omega)

theorem Filled.add_closer (h : l.Filled width (room + 1)) (c : Char) :
    (l.add [.closer c]).Filled width room where
  unbroken := h.unbroken
  short := by
    obtain ⟨front, v, back, hbody, hfront, hv, hback⟩ | hshort := h.short
    · refine .inl ⟨front, v, back ++ [.closer c], by simp [Line.add, hbody], hfront, hv, ?_⟩
      intro p hp
      obtain hp | hp := List.mem_append.mp hp
      · exact hback p hp
      · exact ⟨c, List.mem_singleton.mp hp⟩
    · rw [text_add h.unbroken, List.length_append]
      simp only [texts_cons, texts_nil, Piece.text, List.append_nil, List.length_singleton]
      exact .inr (by omega)

theorem Filled.kept (h : l.Filled width 0) : l.Kept width := by
  intro hwide
  obtain hbody | hshort := h.short
  · exact hbody
  · omega

theorem Filled.kept_close (h : l.Filled width 1) : l.close.Kept width := by
  intro hwide
  obtain hbody | hshort := h.short
  · exact hbody
  · rw [text_close h.unbroken, List.length_append, List.length_singleton] at hwide
    omega

end Line

end Piece

namespace Value

open Piece

/-- Behind what leads to a part of a layout, the part and all that follows it stays on lines that
are kept, if what follows does so behind a line that is filled. -/
theorem kept_of_laid {width column room : Nat} {part : Part} {ps : List Piece}
    (h : Laid width part column room ps) {l : Line} (hl : l.Leading column) (rest : List Piece)
    (hrest : ∀ m : Line, m.Filled width room → ∀ k ∈ linesFrom m rest, k.Kept width) :
    ∀ k ∈ linesFrom l (ps ++ rest), k.Kept width := by
  induction h generalizing l rest with
  | @whole column room v hv =>
    rw [linesFrom_append (joined_pieces v)]
    rcases hv with hatom | hfits
    · exact hrest _ (hl.filled_of_isAtom hatom)
    · exact hrest _ (hl.filled_of_fits hfits)
  | @broken column room v b c ps _ _ _ ih =>
    have hstep : linesFrom l (.opener b :: ps ++ [.closer c] ++ rest) =
        linesFrom (l.add [.opener b]) (ps ++ .closer c :: rest) := by
      simp [linesFrom]
    rw [hstep]
    exact ih (hl.add (.inl ⟨b, rfl⟩)) _ fun m hm => hrest _ (hm.add_closer c)
  | item _ ih => exact ih hl rest hrest
  | @entry column room k ps _ ih => exact ih (hl.add (.inr ⟨k, rfl⟩)) rest hrest
  | @more column room ps qs _ _ ihps ihqs =>
    rw [List.append_assoc]
    refine ihps hl _ fun m hm k hk => ?_
    obtain rfl | hk := List.mem_cons.mp hk
    · exact hm.kept_close
    · exact ihqs (Line.leading_start column) rest hrest k hk

/-- A line of a dump that is not shorter than the width has nothing left to break: it has no gap
before its end, but one value without entries behind opening brackets and keys and before closing
brackets. -/
theorem lines_exhausted (width : Nat) (v : Value) :
    (lines (layout width 0 0 v)).map Line.text = (v.dump width).splitOn '\n' ∧
    ∀ l ∈ lines (layout width 0 0 v), width ≤ l.text.length →
      (∀ b, .gap b ∉ l.body) ∧ Exhausted l.body := by
  have hstart : '\n' ∉ (Line.start 0).text := by simp [Line.start, Line.text]
  refine ⟨map_text_linesFrom (wellSpaced_layout width 0 0 v) rfl hstart, ?_⟩
  have hkept := kept_of_laid (laid_layout width 0 0 v) (Line.leading_start 0) []
    fun m hm k hk => List.mem_singleton.mp hk ▸ hm.kept
  rw [List.append_nil] at hkept
  intro l hl hwide
  have hbody : Exhausted l.body := hkept l hl hwide
  exact ⟨hbody.gap_not_mem, hbody⟩

end Value

end QueryConsole
