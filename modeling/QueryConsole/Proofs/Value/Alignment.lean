import QueryConsole.Proofs.Value.Breaks
import QueryConsole.Proofs.Value.Laid

set_option autoImplicit false

namespace QueryConsole

def endColumn (t : Text) : Nat := (t.reverse.takeWhile fun c => c ≠ '\n').length

theorem endColumn_append {u : Text} (h : '\n' ∉ u) (t : Text) :
    endColumn (t ++ u) = endColumn t + u.length := by
  have hall : ∀ c ∈ u.reverse, decide (c ≠ '\n') = true := by
    intro c hc
    rw [List.mem_reverse] at hc
    exact decide_eq_true fun heq => h (heq ▸ hc)
  rw [endColumn, List.reverse_append, List.takeWhile_append_of_pos hall, List.length_append,
    List.length_reverse, Nat.add_comm]
  rfl

theorem endColumn_feed (t : Text) : endColumn (t ++ ['\n']) = 0 := by
  simp [endColumn]

namespace Piece

theorem endColumn_solid {p : Piece} (hp : p.Solid) (before : List Piece) :
    endColumn (texts (before ++ [p])) = endColumn (texts before) + p.text.length := by
  rw [texts_append, texts_cons, texts_nil, List.append_nil, endColumn_append hp.1]

theorem endColumn_break (n : Nat) (before : List Piece) :
    endColumn (texts (before ++ [.gap (some n)])) = n := by
  have hsplit : texts (before ++ [.gap (some n)]) =
      (texts before ++ [',']) ++ ['\n'] ++ List.replicate n ' ' := by
    simp [text]
  rw [hsplit, endColumn_append (by simp), endColumn_feed, Nat.zero_add, List.length_replicate]

inductive Balanced : List Piece → Prop where
  | nil : Balanced []
  | plain {p : Piece} {ps : List Piece} :
    (∀ c, p ≠ .opener c ∧ p ≠ .closer c) → Balanced ps → Balanced (p :: ps)
  | bracket {b c : Char} {ps qs : List Piece} :
    Balanced ps → Balanced qs → Balanced (.opener b :: ps ++ .closer c :: qs)

theorem Balanced.append {ps qs : List Piece} (hps : Balanced ps) (hqs : Balanced qs) :
    Balanced (ps ++ qs) := by
  induction hps with
  | nil => exact hqs
  | plain hp _ ih => exact .plain hp ih
  | @bracket b c ps rs hps _ _ ih =>
    rw [List.append_assoc, List.cons_append]
    exact .bracket hps ih

theorem balanced_word (t : Text) : Balanced [.word t] := .plain (by simp) .nil

theorem balanced_gap (b : Option Nat) : Balanced [.gap b] := .plain (by simp) .nil

/-- The innermost bracket that is open behind the pieces, with closed ones only behind it, stands in
the column before `n`. -/
def OpenBefore (n : Nat) (ps : List Piece) : Prop :=
  ∃ front b inside, ps = front ++ .opener b :: inside ∧ Balanced inside ∧
    n = endColumn (texts front) + 1

theorem OpenBefore.append {n : Nat} {ps qs : List Piece} (h : OpenBefore n ps)
    (hqs : Balanced qs) : OpenBefore n (ps ++ qs) := by
  obtain ⟨front, b, inside, rfl, hinside, hn⟩ := h
  exact ⟨front, b, inside ++ qs, by simp, hinside.append hqs, hn⟩

/-- Behind the pieces `before`, each break indents to the column after the innermost bracket that is
open there. -/
def Aligned (before : List Piece) : List Piece → Prop
  | [] => True
  | p :: ps => (∀ n, p = .gap (some n) → OpenBefore n before) ∧ Aligned (before ++ [p]) ps

theorem aligned_append {before ps qs : List Piece} :
    Aligned before (ps ++ qs) ↔ Aligned before ps ∧ Aligned (before ++ ps) qs := by
  induction ps generalizing before with
  | nil => simp [Aligned]
  | cons p ps ih => simp [Aligned, ih, and_assoc]

theorem aligned_of_joined {ps : List Piece} (h : ps.map joined = ps) (before : List Piece) :
    Aligned before ps := by
  induction ps generalizing before with
  | nil => trivial
  | cons p ps ih =>
    obtain ⟨hp, hps⟩ := List.cons.inj h
    refine ⟨?_, ih hps _⟩
    rintro n rfl
    simp [joined] at hp

end Piece

namespace Value

open Piece

mutual
theorem balanced_pieces : (v : Value) → Balanced (pieces v)
  | .unset | .null | .bool _ | .number _ | .string _ => balanced_word _
  | .list vs => .bracket (balanced_piecesList vs) .nil
  | .record es => .bracket (balanced_piecesEntries es) .nil

theorem balanced_piecesList : (vs : List Value) → Balanced (piecesList vs)
  | [] => .nil
  | [v] => balanced_pieces v
  | v :: w :: vs =>
    (balanced_pieces v).append ((balanced_gap none).append (balanced_piecesList (w :: vs)))

theorem balanced_piecesEntries : (es : List (Text × Value)) → Balanced (piecesEntries es)
  | [] => .nil
  | [(k, v)] => (balanced_word (keyText k)).append (balanced_pieces v)
  | (k, v) :: e :: es =>
    ((balanced_word (keyText k)).append (balanced_pieces v)).append
      ((balanced_gap none).append (balanced_piecesEntries (e :: es)))
end

variable {width column room : Nat} {part : Part} {ps : List Piece}

theorem balanced_of_laid (h : Laid width part column room ps) : Balanced ps := by
  induction h with
  | whole => exact balanced_pieces _
  | broken _ _ _ ih => exact .bracket ih .nil
  | item _ ih => exact ih
  | entry _ ih => exact (balanced_word _).append ih
  | more _ _ ihps ihqs => exact ihps.append ((balanced_gap _).append ihqs)

/-- A part of a layout is aligned behind pieces that end in its column. The entries of a list or a
record need the bracket that they stand behind. -/
theorem aligned_of_laid (h : Laid width part column room ps) {before : List Piece}
    (hcolumn : endColumn (Piece.texts before) = column)
    (hopen : part = .entries → OpenBefore column before) : Aligned before ps := by
  induction h generalizing before with
  | whole => exact aligned_of_joined (joined_pieces _) before
  | @broken column room v b c ps _ hjoined _ ih =>
    have hsolid : (Piece.opener b).Solid := by
      have hstart := startsSolid_pieces v
      rw [← hjoined] at hstart
      exact hstart
    have hbehind : endColumn (Piece.texts (before ++ [.opener b])) = column + 1 := by
      rw [endColumn_solid hsolid, hcolumn]
      rfl
    have hinside : OpenBefore (column + 1) (before ++ [.opener b]) :=
      ⟨before, b, [], rfl, .nil, by rw [hcolumn]⟩
    exact ⟨nofun, aligned_append.mpr ⟨ih hbehind fun _ => hinside, nofun, trivial⟩⟩
  | item _ ih => exact ih hcolumn nofun
  | @entry column room k ps _ ih =>
    refine ⟨nofun, ih ?_ nofun⟩
    rw [endColumn_solid (solid_keyText k), hcolumn]
    rfl
  | @more column room ps qs hps _ ihps ihqs =>
    have hbreak : OpenBefore column (before ++ ps) := (hopen rfl).append (balanced_of_laid hps)
    refine aligned_append.mpr ⟨ihps hcolumn hopen, fun n hn => ?_, ?_⟩
    · obtain rfl : column = n := by simpa using hn
      exact hbreak
    · exact ihqs (endColumn_break column _) fun _ => hbreak.append (balanced_gap _)

/-- Brackets are closed, and each line but the first begins in the column after the innermost one
that is open there. -/
theorem dump_aligned (width : Nat) (v : Value) :
    Balanced (layout width 0 0 v) ∧
    ∀ before after, v.dump width = before ++ '\n' :: after →
      ∃ ps n qs c t,
        layout width 0 0 v = ps ++ .gap (some n) :: qs ∧ before = Piece.texts ps ++ [','] ∧
        OpenBefore n ps ∧ after = List.replicate n ' ' ++ c :: t ∧ c ≠ ' ' ∧ c ≠ '\n' := by
  have hlaid := laid_layout width 0 0 v
  refine ⟨balanced_of_laid hlaid, fun before after heq => ?_⟩
  obtain ⟨ps, n, qs, hlayout, rfl, rfl, -, hstart⟩ :=
    exists_gap_of_feed (wellSpaced_layout width 0 0 v) heq
  have haligned : Aligned [] (layout width 0 0 v) := aligned_of_laid hlaid rfl nofun
  rw [hlayout] at haligned
  have hopen : OpenBefore n ps := (aligned_append.mp haligned).2.1 n rfl
  obtain ⟨c, t, hqs, hspace, hfeed⟩ := hstart.exists_texts_eq
  exact ⟨ps, n, qs, c, t, hlayout, rfl, hopen, by rw [hqs], hspace, hfeed⟩

example : (list [.null, .list [.null, .null]]).dump 14 = "[None,\n [None,\n  None]]".toList := by
  decide

end Value

end QueryConsole
