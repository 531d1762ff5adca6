import QueryConsole.Proofs.Table.Drawing

set_option autoImplicit false

namespace QueryConsole

theorem length_splitOn (c : Char) (t : Text) : (t.splitOn c).length = t.count c + 1 := by
  induction t with
  | nil => rfl
  | cons d t ih =>
    rw [List.splitOn] at ih ⊢
    rw [List.splitOnP_cons_eq_if_modifyHead, List.count_cons]
    split
    · rw [List.length_cons, ih]
    · rw [List.length_modifyHead, ih, Nat.add_zero]

theorem splitOn_flatMap_append {c : Char} {ts : List Text} (h : ∀ t ∈ ts, c ∉ t) :
    (ts.flatMap (· ++ [c])).splitOn c = ts ++ [[]] := by
  induction ts with
  | nil => rfl
  | cons t ts ih =>
    obtain ⟨ht, hts⟩ := List.forall_mem_cons.mp h
    rw [List.flatMap_cons, List.append_assoc, List.singleton_append,
      List.splitOn_append_cons_self_of_not_mem ht, ih hts, List.cons_append]

theorem count_flatMap_append {c : Char} (ts : List Text) :
    (ts.flatMap (· ++ [c])).count c = ts.flatten.count c + ts.length := by
  induction ts with
  | nil => rfl
  | cons t ts ih =>
    rw [List.flatMap_cons, List.flatten_cons, List.count_append, List.count_append,
      List.count_append, ih, List.count_singleton_self, List.length_cons]
    omega

theorem count_intercalate {c d : Char} (h : d ≠ c) (ts : List Text) :
    ([d].intercalate ts).count c = ts.flatten.count c := by
  induction ts with
  | nil => rfl
  | cons t ts ih =>
    cases ts with
    | nil => simp [List.intercalate]
    | cons u ts =>
      rw [List.intercalate_cons_cons, List.count_append, List.count_append, ih,
        List.count_singleton, if_neg (by simpa using h), Nat.add_zero, @List.flatten_cons _ t,
        List.count_append]

theorem count_feed_padRight (n : Nat) (t : Text) : (padRight n t).count '\n' = t.count '\n' := by
  rw [padRight, List.count_append, List.count_replicate, if_neg (by decide), Nat.add_zero]

namespace Table

variable {ws : List Nat}

/-- The names and those cells that stand in a column. -/
def shown (t : Table) : List Text := (t.fields :: t.rows).flatMap (·.take t.fields.length)

def OneLined (t : Table) : Prop := ∀ cell ∈ t.shown, '\n' ∉ cell

instance (t : Table) : Decidable t.OneLined :=
  inferInstanceAs (Decidable (∀ cell ∈ t.shown, '\n' ∉ cell))

def feeds (t : Table) : Nat := t.shown.flatten.count '\n'

theorem feeds_eq_zero_iff {t : Table} : t.feeds = 0 ↔ t.OneLined := by
  rw [feeds, List.count_eq_zero, List.mem_flatten]
  exact ⟨fun h cell hcell hfeed => h ⟨cell, hcell, hfeed⟩,
    fun h ⟨cell, hcell, hfeed⟩ => h cell hcell hfeed⟩

theorem count_feed_paddedCells (ws : List Nat) (cells : List Text) :
    (paddedCells ws cells).flatten.count '\n' = (cells.take ws.length).flatten.count '\n' := by
  induction ws generalizing cells with
  | nil => rfl
  | cons w ws ih =>
    rw [paddedCells, List.flatten_cons, List.count_append, ih]
    cases cells with
    | nil => simp [count_feed_padRight]
    | cons cell cells => simp [count_feed_padRight]

theorem count_feed_lineOf (ws : List Nat) (cells : List Text) :
    (lineOf ws cells).count '\n' = (cells.take ws.length).flatten.count '\n' := by
  rw [lineOf, count_intercalate (by decide), count_feed_paddedCells]

theorem feed_not_mem_ruleOf (ws : List Nat) : '\n' ∉ ruleOf ws := by
  simp [ruleOf]

theorem count_feed_lines (t : Table) : t.lines.flatten.count '\n' = t.feeds := by
  have hline : ∀ cells, (lineOf t.widths cells).count '\n' =
      (cells.take t.fields.length).flatten.count '\n' := by
    intro cells
    rw [count_feed_lineOf, length_widths]
  have hrule : (ruleOf t.widths).count '\n' = 0 := List.count_eq_zero.mpr (feed_not_mem_ruleOf _)
  have hrows : (t.rows.map (lineOf t.widths)).flatten.count '\n' =
      (t.rows.flatMap (·.take t.fields.length)).flatten.count '\n' := by
    induction t.rows with
    | nil => rfl
    | cons row rows ih => simp [hline, ih]
  simp [lines, feeds, shown, hline, hrule, hrows]

def drawnLines (t : Table) : List Text := (t.chunks.flatten.splitOn '\n').dropLast

theorem splitOn_chunks (t : Table) : t.chunks.flatten.splitOn '\n' = t.drawnLines ++ [[]] := by
  obtain ⟨before, hbefore⟩ : ∃ before, t.chunks.flatten = before ++ ['\n'] := by
    rw [flatten_chunks, text, lines, List.flatMap_append, List.flatMap_singleton,
      ← List.append_assoc]
    exact ⟨_, rfl⟩
  have hsplit : t.chunks.flatten.splitOn '\n' = before.splitOn '\n' ++ [[]] := by
    rw [hbefore, List.splitOn_append_cons_self, List.splitOn_nil]
  rw [drawnLines, hsplit, List.dropLast_concat]

theorem length_drawnLines (t : Table) : t.drawnLines.length = t.rows.length + 3 + t.feeds := by
  rw [drawnLines, List.length_dropLast, length_splitOn, flatten_chunks, text, count_flatMap_append,
    count_feed_lines]
  simp [lines]
  omega

theorem feed_not_mem_lines {t : Table} (h : t.OneLined) : ∀ l ∈ t.lines, '\n' ∉ l := by
  intro l hl hfeed
  have hpos : 0 < t.lines.flatten.count '\n' :=
    List.count_pos_iff.mpr (List.mem_flatten.mpr ⟨l, hl, hfeed⟩)
  rw [count_feed_lines, feeds_eq_zero_iff.mpr h] at hpos
  exact Nat.lt_irrefl 0 hpos

theorem drawnLines_of_oneLined {t : Table} (h : t.OneLined) : t.drawnLines = t.lines := by
  rw [drawnLines, flatten_chunks, text, splitOn_flatMap_append (feed_not_mem_lines h),
    List.dropLast_concat]

theorem holds_widths {t : Table} {cells : List Text} (h : cells ∈ t.fields :: t.rows) :
    Holds t.widths cells := by
  obtain rfl | h := List.mem_cons.mp h
  · exact holds_foldl_widen (.inl (holds_names t.fields))
  · exact holds_foldl_widen (.inr h)

theorem exists_cells_of_getElem?_lines {t : Table} {i : Nat} {l : Text}
    (h : t.lines[i]? = some l) (hsecond : i ≠ 1) (hlast : i + 1 ≠ t.lines.length) :
    ∃ cells ∈ t.fields :: t.rows, l = lineOf t.widths cells := by
  match i with
  | 0 => exact ⟨t.fields, List.mem_cons_self, (Option.some.inj h).symm⟩
  | 1 => exact absurd rfl hsecond
  | i + 2 =>
    have hrows : (t.rows.map (lineOf t.widths) ++ [ruleOf t.widths])[i]? = some l := h
    have hi : i ≠ t.rows.length := by
      rintro rfl
      simp [lines] at hlast
    rw [List.getElem?_append] at hrows
    split at hrows
    · rw [List.getElem?_map, Option.map_eq_some_iff] at hrows
      obtain ⟨row, hrow, rfl⟩ := hrows
      exact ⟨row, List.mem_cons_of_mem _ (List.mem_of_getElem? hrow), rfl⟩
    · rename_i hge
      rw [List.length_map] at hge
      rw [List.getElem?_eq_none (by simp; omega)] at hrows
      simp at hrows

theorem length_lineOf_add_one {t : Table} {cells : List Text} (h : cells ∈ t.fields :: t.rows)
    (hfields : t.fields ≠ []) :
    (lineOf t.widths cells).length + 1 = (ruleOf t.widths).length := by
  have hpos : 0 < span t.widths := by
    cases hws : t.widths with
    | nil =>
      have hlength := length_widths t
      rw [hws] at hlength
      exact absurd (List.length_eq_zero_iff.mp hlength.symm) hfields
    | cons w ws =>
      rw [span_cons]
      omega
  rw [length_lineOf (holds_widths h), (ruleDrawn_ruleOf t.widths).length_eq]
  omega

/-- The header, a rule, a line for each row and the rule again, where a line of cells has one
character less than the rule. -/
structure OneLinePerRow (t : Table) : Prop where
  count : t.drawnLines.length = t.rows.length + 3
  second : t.drawnLines[1]? = some (ruleOf t.widths)
  last : t.drawnLines.getLast? = some (ruleOf t.widths)
  other : t.fields ≠ [] → ∀ i l, i ≠ 1 → i + 1 ≠ t.drawnLines.length →
    t.drawnLines[i]? = some l → l.length + 1 = (ruleOf t.widths).length

theorem OneLined.oneLinePerRow {t : Table} (h : t.OneLined) : t.OneLinePerRow := by
  have hlines := drawnLines_of_oneLined h
  refine ⟨?_, ?_, ?_, fun hfields i l hsecond hlast hl => ?_⟩
  · rw [length_drawnLines, feeds_eq_zero_iff.mpr h]
  · rw [hlines]
    rfl
  · rw [hlines, lines, List.getLast?_concat]
  · rw [hlines] at hlast hl
    obtain ⟨cells, hcells, rfl⟩ := exists_cells_of_getElem?_lines hl hsecond hlast
    exact length_lineOf_add_one hcells hfields

/-- A table that an answer gives is drawn with one line for each row exactly if nothing of it that
is shown has a line feed. -/
theorem oneLinePerRow_iff (t : Table) :
    t.chunks.flatten.splitOn '\n' = t.drawnLines ++ [[]] ∧
    t.drawnLines.length = t.rows.length + 3 + t.feeds ∧
    (t.OneLinePerRow ↔ t.OneLined) := by
  refine ⟨splitOn_chunks t, length_drawnLines t, fun h => ?_, fun h => h.oneLinePerRow⟩
  have hcount := h.count
  rw [length_drawnLines] at hcount
  exact feeds_eq_zero_iff.mp (by omega)

theorem drawnLines_of_feed :
    Table.ofAnswer [("fields".toList, .list [.string "a".toList]),
        ("rows".toList, .list [.list [.string "b\nc".toList]])] =
      .ok ⟨["a".toList], [["b\nc".toList]]⟩ ∧
    drawnLines ⟨["a".toList], [["b\nc".toList]]⟩ =
      [" a   ".toList, "----- ".toList, " b".toList, "c ".toList, "----- ".toList] ∧
    ¬ OneLinePerRow ⟨["a".toList], [["b\nc".toList]]⟩ := by
  have hlines : drawnLines ⟨["a".toList], [["b\nc".toList]]⟩ =
      [" a   ".toList, "----- ".toList, " b".toList, "c ".toList, "----- ".toList] := by decide
  refine ⟨rfl, hlines, fun h => ?_⟩
  have hcount := h.count
  rw [hlines] at hcount
  simp at hcount

end Table

end QueryConsole
