import QueryConsole.Proofs.Value.Alignment
import QueryConsole.Proofs.Value.Lines
import QueryConsole.Proofs.Value.Widening

/-!
When a list or a record is spread over several lines. Wherever it stands in a layout, its brackets
belong together, so it is one of the parts that the rules of the layout are about, and the rules
decide by the length that its line would have if it stood on one. It is spread exactly if that line
does not stay below the width.
-/

set_option autoImplicit false

namespace QueryConsole

def lineRest (t : Text) : Nat := (t.takeWhile fun c => c ≠ '\n').length

theorem lineRest_append {t : Text} (h : '\n' ∉ t) (u : Text) :
    lineRest (t ++ u) = t.length + lineRest u := by
  have hall : ∀ c ∈ t, decide (c ≠ '\n') = true := by
    intro c hc
    exact decide_eq_true fun heq => h (heq ▸ hc)
  rw [lineRest, List.takeWhile_append_of_pos hall, List.length_append]
  rfl

namespace Piece

theorem exists_gap_of_feed_mem {ps : List Piece} (h : WellSpaced ps) (hmem : '\n' ∈ texts ps) :
    ∃ n, .gap (some n) ∈ ps := by
  obtain ⟨before, after, heq⟩ := List.append_of_mem hmem
  obtain ⟨front, n, back, rfl, -⟩ := exists_gap_of_feed h heq
  exact ⟨n, by simp⟩

theorem gap_not_mem_joined (n : Nat) (ps : List Piece) : .gap (some n) ∉ ps.map joined := by
  rintro hmem
  obtain ⟨p, -, hp⟩ := List.mem_map.mp hmem
  cases p <;> simp [joined] at hp

theorem Balanced.eq_of_closed {ps ps' qs qs' : List Piece} {c c' : Char} (hps : Balanced ps)
    (hps' : Balanced ps') (h : ps ++ .closer c :: qs = ps' ++ .closer c' :: qs') :
    ps = ps' ∧ c = c' ∧ qs = qs' := by
  induction hps generalizing ps' c c' qs qs' with
  | nil =>
    cases hps' with
    | nil => simpa using h
    | plain hp _ => exact absurd (List.cons.inj h).1.symm (hp c).2
    | bracket _ _ => exact Piece.noConfusion (List.cons.inj h).1
  | @plain p ps hp _ ih =>
    cases hps' with
    | nil => exact absurd (List.cons.inj h).1 (hp c').2
    | plain _ hps' =>
      obtain ⟨rfl, htail⟩ := List.cons.inj h
      obtain ⟨rfl, hrest⟩ := ih hps' htail
      exact ⟨rfl, hrest⟩
    | @bracket b _ _ _ _ _ => exact absurd (List.cons.inj h).1 (hp b).1
  | @bracket b d ps rs _ _ ihps ihrs =>
    cases hps' with
    | nil => exact Piece.noConfusion (List.cons.inj h).1
    | plain hp _ => exact absurd (List.cons.inj h).1.symm (hp b).1
    | @bracket b' d' ps' rs' hps' hrs' =>
      simp only [List.cons_append, List.append_assoc] at h
      obtain ⟨hb, htail⟩ := List.cons.inj h
      obtain ⟨rfl, rfl, hbehind⟩ := ihps hps' htail
      obtain ⟨rfl, hrest⟩ := ihrs hrs' hbehind
      exact ⟨by rw [hb], hrest⟩

/-- Two brackets that belong together stand both in front of the end of balanced pieces or both
behind it. -/
theorem Balanced.bracket_append {ps rest before inside after : List Piece} {b c : Char}
    (hps : Balanced ps) (hinside : Balanced inside)
    (h : ps ++ rest = before ++ .opener b :: (inside ++ .closer c :: after)) :
    (∃ mid, ps = before ++ .opener b :: (inside ++ .closer c :: mid) ∧ after = mid ++ rest) ∨
      ∃ mid, before = ps ++ mid ∧ rest = mid ++ .opener b :: (inside ++ .closer c :: after) := by
  induction hps generalizing rest before with
  | nil => exact .inr ⟨before, rfl, h⟩
  | @plain p ps hp _ ih =>
    cases before with
    | nil => exact absurd (List.cons.inj h).1 (hp b).1
    | cons q before =>
      obtain ⟨rfl, htail⟩ := List.cons.inj h
      obtain ⟨mid, rfl, hafter⟩ | ⟨mid, rfl, hrest⟩ := ih htail
      · exact .inl ⟨mid, rfl, hafter⟩
      · exact .inr ⟨mid, rfl, hrest⟩
  | @bracket d e ps qs hps _ ihps ihqs =>
    simp only [List.cons_append, List.append_assoc] at h
    cases before with
    | nil =>
      obtain ⟨hd, htail⟩ := List.cons.inj h
      obtain ⟨rfl, rfl, rfl⟩ := hps.eq_of_closed hinside htail
      exact .inl ⟨qs, by rw [hd]; rfl, rfl⟩
    | cons q before =>
      obtain ⟨rfl, htail⟩ := List.cons.inj h
      obtain ⟨mid, rfl, rfl⟩ | ⟨mid, rfl, hrest⟩ := ihps htail
      · exact .inl ⟨mid ++ .closer e :: qs, by simp, by simp⟩
      · cases mid with
        | nil => exact Piece.noConfusion (List.cons.inj hrest).1
        | cons q mid =>
          obtain ⟨rfl, hbehind⟩ := List.cons.inj hrest
          obtain ⟨mid', rfl, hafter⟩ | ⟨mid', rfl, hlast⟩ := ihqs hbehind
          · exact .inl ⟨mid', by simp, hafter⟩
          · exact .inr ⟨mid', by simp, hlast⟩

theorem joined_eq_opener {p : Piece} {c : Char} (h : p.joined = .opener c) : p = .opener c := by
  cases p <;> simp_all [joined]

theorem joined_eq_closer {p : Piece} {c : Char} (h : p.joined = .closer c) : p = .closer c := by
  cases p <;> simp_all [joined]

theorem Balanced.of_joined {ps qs : List Piece} (h : Balanced qs) (heq : ps.map joined = qs) :
    Balanced ps := by
  induction h generalizing ps with
  | nil => rw [List.map_eq_nil_iff.mp heq]; exact .nil
  | plain hp _ ih =>
    obtain ⟨p, ps, rfl, rfl, hps⟩ := List.map_eq_cons_iff.mp heq
    refine .plain (fun c => ⟨?_, ?_⟩) (ih hps)
    · rintro rfl
      exact (hp c).1 rfl
    · rintro rfl
      exact (hp c).2 rfl
  | bracket _ _ ihps ihqs =>
    obtain ⟨p, ps, rfl, hp, hps⟩ := List.map_eq_cons_iff.mp heq
    obtain ⟨front, rest, rfl, hfront, hrest⟩ := List.map_eq_append_iff.mp hps
    obtain ⟨q, back, rfl, hq, hback⟩ := List.map_eq_cons_iff.mp hrest
    rw [joined_eq_opener hp, joined_eq_closer hq]
    exact .bracket (ihps hfront) (ihqs hback)

inductive EndsLine : List Piece → Prop where
  | nil : EndsLine []
  | lineBreak {n : Nat} {ps : List Piece} : EndsLine (.gap (some n) :: ps)
  | closer {c : Char} {ps : List Piece} : EndsLine ps → EndsLine (.closer c :: ps)

/-- Between `before` and `after`, the pieces are spread over several lines exactly if the line that
they would be on does not stay below the width. -/
structure Fitted (width : Nat) (before ps after : List Piece) : Prop where
  spread_iff : '\n' ∈ texts ps ↔
    width ≤ endColumn (texts before) + (texts (ps.map joined)).length + lineRest (texts after)
  endsLine : '\n' ∈ texts ps → EndsLine after

theorem joined_of_feed_not_mem {ps : List Piece} (h : '\n' ∉ texts ps) : ps.map joined = ps := by
  induction ps with
  | nil => rfl
  | cons p ps ih =>
    rw [texts_cons, List.mem_append, not_or] at h
    have hp : p.joined = p := by
      cases p with
      | gap b =>
        cases b with
        | none => rfl
        | some n => exact absurd (by simp [text]) h.1
      | _ => rfl
    rw [List.map_cons, hp, ih h.2]

theorem fitted_of_lt {width : Nat} {before earlier ps later after : List Piece}
    (hfeed : '\n' ∉ texts (earlier ++ ps ++ later))
    (hwidth : endColumn (texts before) + (texts (earlier ++ ps ++ later)).length +
      lineRest (texts after) < width) :
    Fitted width (before ++ earlier) ps (later ++ after) := by
  simp only [texts_append, List.mem_append, not_or, List.length_append] at hfeed hwidth
  obtain ⟨⟨hearlier, hps⟩, hlater⟩ := hfeed
  refine ⟨iff_of_false hps ?_, fun hspread => absurd hspread hps⟩
  rw [joined_of_feed_not_mem hps, texts_append, texts_append, endColumn_append hearlier,
    lineRest_append hlater]
  omega

end Piece

namespace Value

open Piece

theorem feed_not_mem_pieces (v : Value) : '\n' ∉ Piece.texts (pieces v) := by
  intro hmem
  obtain ⟨n, hgap⟩ := exists_gap_of_feed_mem (wellSpaced_pieces v) hmem
  rw [← joined_pieces v] at hgap
  exact gap_not_mem_joined n _ hgap

variable {width column room : Nat} {ps : List Piece}

theorem le_of_not_fits {v : Value} (h : fits width column room v.line.length = false) :
    width ≤ column + v.line.length + room := by
  simp only [fits, decide_eq_false_iff_not] at h
  omega

def Breakable (v : Value) : Prop := .gap none ∈ pieces v

theorem not_breakable_of_isAtom {v : Value} (h : v.IsAtom) : ¬ v.Breakable :=
  gap_not_mem_pieces h none

theorem breakable_of_joined {v : Value} {b : Option Nat} (h : ps.map Piece.joined = pieces v)
    (hmem : .gap b ∈ ps) : v.Breakable := by
  rw [Breakable, ← h]
  exact List.mem_map_of_mem hmem

theorem feed_mem_of_laid {part : Part} (h : Laid width part column room ps)
    (hgap : .gap none ∈ ps.map Piece.joined)
    (hwidth : width ≤ column + (Piece.texts (ps.map Piece.joined)).length + room) :
    '\n' ∈ Piece.texts ps := by
  induction h with
  | @whole column room v hv =>
    rw [joined_pieces] at hgap hwidth
    rw [texts_pieces] at hwidth
    rcases hv with hatom | hfits
    · exact absurd hgap (not_breakable_of_isAtom hatom)
    · exact absurd hwidth (Nat.not_le.mpr (lt_of_fits hfits))
  | broken _ _ _ ih =>
    have hmem := ih (by simpa [joined] using hgap) (by simp [joined, Piece.text] at hwidth; omega)
    simp [hmem]
  | item _ ih => exact ih hgap hwidth
  | entry _ ih =>
    have hmem := ih (by simpa [joined] using hgap) (by simp [joined, Piece.text] at hwidth; omega)
    simp [hmem]
  | more _ _ _ _ => simp [Piece.text]

/-- Wherever pieces of the given column and room stand, each pair of brackets in them that has a
separator between its two is fitted. -/
def BracketsFitted (width column room : Nat) (ps : List Piece) : Prop :=
  ∀ before after : List Piece, endColumn (Piece.texts before) = column →
    lineRest (Piece.texts after) = room → EndsLine after →
    ∀ (earlier inside later : List Piece) (b c : Char), Balanced inside →
      .gap none ∈ inside.map Piece.joined →
      ps = earlier ++ .opener b :: (inside ++ .closer c :: later) →
      Fitted width (before ++ earlier) (.opener b :: inside ++ [.closer c]) (later ++ after)

theorem bracketsFitted_whole {v : Value}
    (h : v.IsAtom ∨ fits width column room v.line.length = true) :
    BracketsFitted width column room (pieces v) := by
  intro before after hbefore hafter hends earlier inside later b c hinside hgap heq
  have hpieces : pieces v = earlier ++ (.opener b :: inside ++ [.closer c]) ++ later := by
    simp [heq]
  obtain hatom | hfits := h
  · refine absurd ?_ (not_breakable_of_isAtom hatom)
    rw [Breakable, ← joined_pieces, hpieces]
    simp [hgap]
  · apply fitted_of_lt
    · rw [← hpieces]
      exact feed_not_mem_pieces v
    · rw [← hpieces, texts_pieces, hbefore, hafter]
      exact lt_of_fits hfits

section Broken

variable {v : Value} {d e : Char}

theorem fitted_broken (hfits : fits width column room v.line.length = false)
    (hjoined : (Piece.opener d :: ps ++ [Piece.closer e]).map Piece.joined = pieces v)
    (hlaid : Laid width .entries (column + 1) (room + 1) ps)
    (hgap : .gap none ∈ ps.map Piece.joined) {before after : List Piece}
    (hbefore : endColumn (Piece.texts before) = column)
    (hafter : lineRest (Piece.texts after) = room) (hends : EndsLine after) :
    Fitted width before (.opener d :: ps ++ [.closer e]) after := by
  have hwidth := le_of_not_fits hfits
  rw [← texts_pieces, ← hjoined] at hwidth
  have hfeed := feed_mem_of_laid (.broken hfits hjoined hlaid) (by simp [hgap]) hwidth
  rw [← hbefore, ← hafter] at hwidth
  exact ⟨iff_of_true hfeed hwidth, fun _ => hends⟩

theorem feed_not_mem_brackets
    (hjoined : (Piece.opener d :: ps ++ [Piece.closer e]).map Piece.joined = pieces v) :
    '\n' ∉ [d] ∧ '\n' ∉ [e] := by
  have hfeed := feed_not_mem_pieces v
  rw [← hjoined] at hfeed
  simp only [List.map_cons, List.map_append, texts_cons, texts_append, List.mem_append,
    not_or] at hfeed
  exact ⟨hfeed.1.1, hfeed.2.1⟩

theorem bracketsFitted_broken (hfits : fits width column room v.line.length = false)
    (hjoined : (Piece.opener d :: ps ++ [Piece.closer e]).map Piece.joined = pieces v)
    (hlaid : Laid width .entries (column + 1) (room + 1) ps)
    (hps : BracketsFitted width (column + 1) (room + 1) ps) :
    BracketsFitted width column room (.opener d :: ps ++ [.closer e]) := by
  intro before after hbefore hafter hends earlier inside later b c hinside hgap heq
  have hbalanced : Balanced ps := balanced_of_laid hlaid
  cases earlier with
  | nil =>
    obtain ⟨hopener, htail⟩ := List.cons.inj heq
    obtain ⟨rfl, rfl, rfl⟩ := hbalanced.eq_of_closed hinside htail
    obtain rfl : d = b := Piece.opener.inj hopener
    rw [List.append_nil, List.nil_append]
    exact fitted_broken hfits hjoined hlaid hgap hbefore hafter hends
  | cons q earlier =>
    obtain ⟨rfl, htail⟩ := List.cons.inj heq
    obtain ⟨hopener, hcloser⟩ := feed_not_mem_brackets hjoined
    have hcolumn : endColumn (Piece.texts (before ++ [.opener d])) = column + 1 := by
      rw [texts_append, ← hbefore]
      exact endColumn_append hopener _
    have hroom : lineRest (Piece.texts (.closer e :: after)) = room + 1 := by
      rw [texts_cons, ← hafter, Nat.add_comm]
      exact lineRest_append hcloser _
    obtain ⟨mid, hmid, rfl⟩ | ⟨mid, -, hrest⟩ := hbalanced.bracket_append hinside htail
    · have hfitted := hps _ _ hcolumn hroom (.closer hends) _ _ _ _ _ hinside hgap hmid
      simpa using hfitted
    · -- Only the closing bracket of the part itself is left behind its entries.
      cases mid with
      | nil => exact Piece.noConfusion (List.cons.inj hrest).1
      | cons q mid => simp at hrest

end Broken

theorem bracketsFitted_entry {k : Text}
    (h : BracketsFitted width (column + (keyText k).length) room ps) :
    BracketsFitted width column room (.word (keyText k) :: ps) := by
  intro before after hbefore hafter hends earlier inside later b c hinside hgap heq
  cases earlier with
  | nil => exact Piece.noConfusion (List.cons.inj heq).1
  | cons q earlier =>
    obtain ⟨rfl, htail⟩ := List.cons.inj heq
    have hcolumn : endColumn (Piece.texts (before ++ [.word (keyText k)])) =
        column + (keyText k).length := by
      rw [endColumn_solid (solid_keyText k), hbefore]
      rfl
    have hfitted := h _ after hcolumn hafter hends _ _ _ _ _ hinside hgap htail
    simpa using hfitted

theorem bracketsFitted_more {qs : List Piece} (hbalanced : Balanced ps)
    (hps : BracketsFitted width column 1 ps) (hqs : BracketsFitted width column room qs) :
    BracketsFitted width column room (ps ++ .gap (some column) :: qs) := by
  intro before after hbefore hafter hends earlier inside later b c hinside hgap heq
  obtain ⟨mid, hfront, rfl⟩ | ⟨mid, rfl, hrest⟩ := hbalanced.bracket_append hinside heq
  · have hroom : lineRest (Piece.texts (.gap (some column) :: (qs ++ after))) = 1 := by
      simp [Piece.text, lineRest]
    have hfitted := hps before _ hbefore hroom .lineBreak _ _ _ _ _ hinside hgap hfront
    simpa using hfitted
  · cases mid with
    | nil => exact Piece.noConfusion (List.cons.inj hrest).1
    | cons q mid =>
      obtain ⟨rfl, htail⟩ := List.cons.inj hrest
      have hcolumn : endColumn (Piece.texts (before ++ ps ++ [.gap (some column)])) = column :=
        endColumn_break column _
      have hfitted := hqs _ after hcolumn hafter hends _ _ _ _ _ hinside hgap htail
      simpa using hfitted

/-- Two brackets that belong together are one of the parts of a layout that its rules are about,
and the column and the room of that part are those of the text around it. -/
theorem bracketsFitted_of_laid {part : Part} (h : Laid width part column room ps) :
    BracketsFitted width column room ps := by
  induction h with
  | whole hv => exact bracketsFitted_whole hv
  | broken hfits hjoined hlaid ih => exact bracketsFitted_broken hfits hjoined hlaid ih
  | item _ ih => exact ih
  | entry _ ih => exact bracketsFitted_entry ih
  | more hps _ ihps ihqs => exact bracketsFitted_more (balanced_of_laid hps) ihps ihqs

theorem Breakable.exists_bracket {v : Value} (h : v.Breakable) :
    ∃ b inside c, pieces v = .opener b :: inside ++ [.closer c] ∧ Balanced inside ∧
      .gap none ∈ inside := by
  cases v with
  | list vs =>
    exact ⟨'[', _, ']', rfl, balanced_piecesList vs, by simpa [Breakable, pieces] using h⟩
  | record es =>
    exact ⟨'\x7b', _, '\x7d', rfl, balanced_piecesEntries es,
      by simpa [Breakable, pieces] using h⟩
  | _ => exact absurd h (not_breakable_of_isAtom trivial)

theorem fitted_layout {v u : Value} {before after : List Piece}
    (h : layout width 0 0 v = before ++ ps ++ after) (hu : ps.map Piece.joined = pieces u)
    (hbreak : u.Breakable) : Fitted width before ps after := by
  obtain ⟨b, inside, c, hpieces, hinside, hgap⟩ := hbreak.exists_bracket
  rw [hpieces] at hu
  obtain ⟨p, rest, rfl, hp, hrest⟩ := List.map_eq_cons_iff.mp hu
  obtain ⟨inside, closing, rfl, rfl, hclosing⟩ := List.map_eq_append_iff.mp hrest
  obtain ⟨q, tail, rfl, hq, htail⟩ := List.map_eq_cons_iff.mp hclosing
  rw [List.map_eq_nil_iff.mp htail, joined_eq_opener hp, joined_eq_closer hq] at h ⊢
  have hfitted := bracketsFitted_of_laid (laid_layout width 0 0 v) [] [] rfl rfl .nil _ _ _ _ _
    (hinside.of_joined rfl) hgap (by simpa using h)
  simpa using hfitted

def entryCount : Value → Nat
  | .list vs => vs.length
  | .record es => es.length
  | _ => 0

theorem breakable_of_entryCount {v : Value} (h : 2 ≤ v.entryCount) : v.Breakable := by
  match v, h with
  | .list (v :: w :: vs), _ => simp [Breakable, pieces, piecesList]
  | .record ((k, v) :: e :: es), _ => simp [Breakable, pieces, piecesEntries]

theorem dump_eq_line_iff_feed (width : Nat) (v : Value) :
    v.dump width = v.line ↔ '\n' ∉ v.dump width := by
  constructor
  · intro h
    rw [h, ← texts_pieces]
    exact feed_not_mem_pieces v
  · intro h
    rw [dump, ← joined_of_feed_not_mem h, joined_layout, texts_pieces]

theorem dump_eq_line_iff (width : Nat) (v : Value) :
    v.dump width = v.line ↔ v.line.length < width ∨ ¬ v.Breakable := by
  rw [dump_eq_line_iff_feed, ← Nat.not_le]
  by_cases hbreak : v.Breakable
  · have hfitted : '\n' ∈ v.dump width ↔ width ≤ v.line.length := by
      have hwhole : layout width 0 0 v = [] ++ layout width 0 0 v ++ [] := by simp
      have h := (fitted_layout hwhole (joined_layout width 0 0 v) hbreak).spread_iff
      rw [joined_layout, texts_pieces] at h
      simpa [dump, endColumn, lineRest] using h
    rw [hfitted]
    simp [hbreak]
  · refine iff_of_true (fun hmem => ?_) (.inr hbreak)
    obtain ⟨n, hgap⟩ := exists_gap_of_feed_mem (wellSpaced_layout width 0 0 v) hmem
    exact hbreak (breakable_of_joined (joined_layout width 0 0 v) hgap)

/-- Wherever a list or a record with a separator stands, it is spread over several lines exactly if
the line that would hold it on one, with the brackets and the comma behind it, does not stay below
the width. So a value that would just fill its line is spread, like one that is too long for it. -/
theorem spread_iff_reaches_width (width : Nat) (v : Value) :
    (∀ before ps after u, layout width 0 0 v = before ++ ps ++ after →
      ps.map Piece.joined = pieces u → u.Breakable →
      ('\n' ∈ Piece.texts ps ↔
        width ≤ endColumn (Piece.texts before) + u.line.length +
          lineRest (Piece.texts after)) ∧
      ('\n' ∈ Piece.texts ps → EndsLine after)) ∧
    (∀ u : Value, 2 ≤ u.entryCount → u.Breakable) ∧
    (v.dump width = v.line ↔ v.line.length < width ∨ ¬ v.Breakable) := by
  refine ⟨fun before ps after u h hu hbreak => ?_, fun _ => breakable_of_entryCount,
    dump_eq_line_iff width v⟩
  obtain ⟨hspread, hends⟩ := fitted_layout h hu hbreak
  rw [hu, texts_pieces] at hspread
  exact ⟨hspread, hends⟩

/-- The list would just fill the line, and is broken. -/
theorem dump_of_exact_width :
    (list [.null, .null]).line.length = 12 ∧
      (list [.null, .null]).dump 12 = "[None,\n None]".toList ∧
      (list [.null, .null]).dump 12 ≠ (list [.null, .null]).line := by
  decide

end Value

end QueryConsole
