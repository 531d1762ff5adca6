import QueryConsole.Output

/-!
Where the characters of a drawing stand. The rule and the lines of cells are made of one band for
each column, three characters wider than the column, so the bands of all lines begin at the same
offsets. No cell is longer than its column, since a column is widened for each row.
-/

set_option autoImplicit false

namespace QueryConsole

theorem getElem?_padRight {n i : Nat} {t : Text} (h : t.length ≤ n) (hi : i < n) :
    (padRight n t)[i]? = some (t.getD i ' ') := by
  rw [padRight, List.getElem?_append]
  split
  · rename_i hlt
    rw [List.getD_eq_getElem?_getD, List.getElem?_eq_getElem hlt]
    rfl
  · rename_i hge
    rw [List.getElem?_replicate, if_pos (by omega), List.getD_eq_getElem?_getD,
      List.getElem?_eq_none (by omega)]
    rfl

namespace Table

variable {ws : List Nat} {i w : Nat}

section Widths

def Holds (ws : List Nat) (cells : List Text) : Prop :=
  ∀ i w, ws[i]? = some w → (cells.getD i []).length ≤ w

theorem getElem?_widen (ws : List Nat) (cells : List Text) (i : Nat) :
    (widen ws cells)[i]? = ws[i]?.map fun w => max w (cells.getD i []).length := by
  fun_induction widen ws cells generalizing i with
  | case1 w ws cell cells ih =>
    cases i with
    | zero => simp
    | succ i => simpa using ih i
  | case2 ws cells hne =>
    cases ws with
    | nil => simp
    | cons w ws =>
      cases cells with
      | nil => simp
      | cons cell cells => exact absurd rfl (hne w ws cell cells rfl)

theorem length_widen (ws : List Nat) (cells : List Text) : (widen ws cells).length = ws.length := by
  fun_induction widen ws cells with
  | case1 w ws cell cells ih => simp [ih]
  | case2 ws cells hne => rfl

theorem holds_widen (ws : List Nat) (cells : List Text) : Holds (widen ws cells) cells := by
  intro i w hw
  rw [getElem?_widen, Option.map_eq_some_iff] at hw
  obtain ⟨v, -, rfl⟩ := hw
  exact Nat.le_max_right _ _

theorem Holds.widen {cells : List Text} (h : Holds ws cells) (row : List Text) :
    Holds (widen ws row) cells := by
  intro i w hw
  rw [getElem?_widen, Option.map_eq_some_iff] at hw
  obtain ⟨v, hv, rfl⟩ := hw
  exact Nat.le_trans (h i v hv) (Nat.le_max_left _ _)

theorem holds_foldl_widen {rows : List (List Text)} {cells : List Text}
    (h : Holds ws cells ∨ cells ∈ rows) : Holds (rows.foldl widen ws) cells := by
  induction rows generalizing ws with
  | nil => simpa using h
  | cons row rows ih =>
    refine ih ?_
    obtain h | h := h
    · exact .inl (h.widen row)
    · obtain rfl | h := List.mem_cons.mp h
      · exact .inl (holds_widen ws cells)
      · exact .inr h

theorem holds_names (fields : List Text) : Holds (fields.map List.length) fields := by
  intro i w hw
  rw [List.getElem?_map, Option.map_eq_some_iff] at hw
  obtain ⟨field, hfield, rfl⟩ := hw
  rw [List.getD_eq_getElem?_getD, hfield]
  exact Nat.le_refl _

theorem length_foldl_widen (rows : List (List Text)) (ws : List Nat) :
    (rows.foldl widen ws).length = ws.length := by
  induction rows generalizing ws with
  | nil => rfl
  | cons row rows ih => rw [List.foldl_cons, ih, length_widen]

theorem length_widths (t : Table) : t.widths.length = t.fields.length := by
  rw [widths, length_foldl_widen, List.length_map]

end Widths

/-- The characters that columns take up with the three of padding that each has. -/
def span : List Nat → Nat
  | [] => 0
  | w :: ws => w + 3 + span ws

def offset (ws : List Nat) (i : Nat) : Nat := span (ws.take i)

@[simp] theorem span_cons (w : Nat) (ws : List Nat) : span (w :: ws) = w + 3 + span ws := rfl

theorem span_append (us vs : List Nat) : span (us ++ vs) = span us + span vs := by
  induction us with
  | nil => simp [span]
  | cons u us ih => simp [ih, Nat.add_assoc]

@[simp] theorem offset_zero (ws : List Nat) : offset ws 0 = 0 := rfl

@[simp] theorem offset_succ (w : Nat) (ws : List Nat) (i : Nat) :
    offset (w :: ws) (i + 1) = w + 3 + offset ws i := by
  simp [offset]

theorem offset_le_span (ws : List Nat) (i : Nat) : offset ws i ≤ span ws := by
  have hsplit := span_append (ws.take i) (ws.drop i)
  rw [List.take_append_drop] at hsplit
  rw [offset]
  omega

theorem offset_next (h : ws[i]? = some w) : offset ws (i + 1) = offset ws i + w + 3 := by
  rw [offset, List.take_add_one, h, span_append]
  simp [offset, span, Nat.add_assoc]

theorem offset_add_le (h : ws[i]? = some w) : offset ws i + w + 3 ≤ span ws := by
  rw [← offset_next h]
  exact offset_le_span ws (i + 1)

theorem exists_band {p : Nat} (h : p < span ws) :
    ∃ i w q, ws[i]? = some w ∧ q < w + 3 ∧ p = offset ws i + q := by
  induction ws generalizing p with
  | nil => simp [span] at h
  | cons v ws ih =>
    by_cases hp : p < v + 3
    · exact ⟨0, v, p, rfl, hp, by simp⟩
    · rw [span_cons] at h
      have hrest : p - (v + 3) < span ws := by omega
      obtain ⟨i, w, q, hi, hq, hp⟩ := ih hrest
      exact ⟨i + 1, w, q, by simpa using hi, hq, by rw [offset_succ]; omega⟩

theorem getElem?_flatten_bands {bands : List Text} {q : Nat}
    (h : bands.map List.length = ws.map (· + 3)) (hi : ws[i]? = some w) (hq : q < w + 3) :
    bands.flatten[offset ws i + q]? = (bands.getD i [])[q]? := by
  induction ws generalizing bands i with
  | nil => simp at hi
  | cons v ws ih =>
    obtain ⟨band, bands, rfl, (hband : band.length = v + 3), hbands⟩ := List.map_eq_cons_iff.mp h
    cases i with
    | zero =>
      obtain rfl : v = w := by simpa using hi
      rw [List.flatten_cons, offset_zero, Nat.zero_add, List.getElem?_append_left (by omega)]
      rfl
    | succ i =>
      have hplace : v + 3 + offset ws i + q - (v + 3) = offset ws i + q := by omega
      rw [List.flatten_cons, offset_succ, List.getElem?_append_right (by omega), hband, hplace,
        ih hbands (by simpa using hi)]
      rfl

theorem length_flatten_bands {bands : List Text} (h : bands.map List.length = ws.map (· + 3)) :
    bands.flatten.length = span ws := by
  induction ws generalizing bands with
  | nil =>
    rw [List.map_eq_nil_iff.mp h]
    rfl
  | cons w ws ih =>
    obtain ⟨band, bands, rfl, hband, hbands⟩ := List.map_eq_cons_iff.mp h
    rw [List.flatten_cons, List.length_append, hband, ih hbands, span]

structure RuleDrawn (ws : List Nat) (rule : Text) : Prop where
  length_eq : rule.length = span ws
  dash : ∀ i w p, ws[i]? = some w → offset ws i ≤ p → p ≤ offset ws i + w + 1 → rule[p]? = some '-'
  gap : ∀ i w, ws[i]? = some w → rule[offset ws i + w + 2]? = some ' '

def ruleBand (w : Nat) : Text := List.replicate (w + 2) '-' ++ [' ']

theorem ruleDrawn_ruleOf (ws : List Nat) : RuleDrawn ws (ruleOf ws) := by
  have hrule : ruleOf ws = (ws.map ruleBand).flatten := List.flatMap_def
  have hbands : (ws.map ruleBand).map List.length = ws.map (· + 3) := by simp [ruleBand]
  have hband : ∀ i w q, ws[i]? = some w → q < w + 3 →
      (ruleOf ws)[offset ws i + q]? = (ruleBand w)[q]? := by
    intro i w q hi hq
    rw [hrule, getElem?_flatten_bands hbands hi hq, List.getD_eq_getElem?_getD, List.getElem?_map, hi]
    rfl
  refine ⟨?_, ?_, ?_⟩
  · rw [hrule, length_flatten_bands hbands]
  · intro i w p hi hfrom hto
    have hq := hband i w (p - offset ws i) hi (by omega)
    rw [Nat.add_sub_cancel' hfrom] at hq
    rw [hq, ruleBand, List.getElem?_append_left (by simp; omega), List.getElem?_replicate,
      if_pos (by omega)]
  · intro i w hi
    rw [Nat.add_assoc, hband i w (w + 2) hi (by omega), ruleBand]
    simp

/-- A line of cells, each of them at the left end of its column. -/
structure CellsDrawn (ws : List Nat) (cells : List Text) (t : Text) : Prop where
  length_eq : t.length = span ws - 1
  cell : ∀ i w, ws[i]? = some w → (cells.getD i []).length ≤ w ∧
    ∀ q, q < w → t[offset ws i + 1 + q]? = some ((cells.getD i []).getD q ' ')
  blank : ∀ p, p < t.length →
    (∀ i w, ws[i]? = some w → ¬ (offset ws i + 1 ≤ p ∧ p ≤ offset ws i + w)) → t[p]? = some ' '
  gap : ∀ i w, ws[i]? = some w → i + 1 < ws.length → t[offset ws i + w + 2]? = some ' '

theorem intercalate_append {sep : Text} {ts : List Text} (h : ts ≠ []) :
    sep.intercalate ts ++ sep = (ts.map (· ++ sep)).flatten := by
  induction ts with
  | nil => exact absurd rfl h
  | cons t ts ih =>
    cases ts with
    | nil => simp [List.intercalate]
    | cons u ts => simpa [List.intercalate] using ih (List.cons_ne_nil u ts)

theorem getElem?_paddedCells (ws : List Nat) (cells : List Text) (i : Nat) :
    (paddedCells ws cells)[i]? =
      ws[i]?.map fun w => ' ' :: padRight w (cells.getD i []) ++ [' '] := by
  induction ws generalizing cells i with
  | nil => simp [paddedCells]
  | cons w ws ih =>
    cases i with
    | zero => cases cells <;> rfl
    | succ i =>
      rw [paddedCells, List.getElem?_cons_succ, List.getElem?_cons_succ, ih]
      cases cells <;> rfl

def cellBand (w : Nat) (cell : Text) : Text := padRight (w + 3) (' ' :: cell)

theorem cellBand_eq {cell : Text} (h : cell.length ≤ w) :
    ' ' :: padRight w cell ++ [' '] ++ [' '] = cellBand w cell := by
  have hpad : w + 3 - (cell.length + 1) = w - cell.length + 2 := by omega
  rw [cellBand, padRight, padRight, List.length_cons, hpad, ← List.replicate_append_replicate]
  simp

theorem getElem?_cellBand {cell : Text} {q : Nat} (h : cell.length ≤ w) (hq : q < w + 3) :
    (cellBand w cell)[q]? = some ((' ' :: cell).getD q ' ') :=
  getElem?_padRight (by rw [List.length_cons]; omega) hq

def cellBands (ws : List Nat) (cells : List Text) : List Text :=
  (paddedCells ws cells).map (· ++ [' '])

theorem length_paddedCells (ws : List Nat) (cells : List Text) :
    (paddedCells ws cells).length = ws.length := by
  induction ws generalizing cells with
  | nil => rfl
  | cons w ws ih => rw [paddedCells, List.length_cons, List.length_cons, ih]

theorem lineOf_append (cells : List Text) (h : ws ≠ []) :
    lineOf ws cells ++ [' '] = (cellBands ws cells).flatten := by
  apply intercalate_append
  rw [← List.length_pos_iff, length_paddedCells]
  exact List.length_pos_iff.mpr h

theorem getElem?_cellBands {cells : List Text} (h : Holds ws cells) (i : Nat) :
    (cellBands ws cells)[i]? = ws[i]?.map fun w => cellBand w (cells.getD i []) := by
  rw [cellBands, List.getElem?_map, getElem?_paddedCells, Option.map_map]
  cases hi : ws[i]? with
  | none => rfl
  | some w => exact congrArg some (cellBand_eq (h i w hi))

theorem map_length_cellBands {cells : List Text} (h : Holds ws cells) :
    (cellBands ws cells).map List.length = ws.map (· + 3) := by
  apply List.ext_getElem?
  intro i
  rw [List.getElem?_map, getElem?_cellBands h, List.getElem?_map, Option.map_map]
  cases hi : ws[i]? with
  | none => rfl
  | some w =>
    have hcell := h i w hi
    simp only [Option.map_some, Function.comp, cellBand, length_padRight, List.length_cons]
    congr 1
    omega

theorem length_lineOf {cells : List Text} (h : Holds ws cells) :
    (lineOf ws cells).length = span ws - 1 := by
  cases ws with
  | nil => rfl
  | cons w ws =>
    have hline := congrArg List.length (lineOf_append cells (List.cons_ne_nil w ws))
    rw [length_flatten_bands (map_length_cellBands h), List.length_append,
      List.length_singleton] at hline
    omega

theorem getElem?_lineOf {cells : List Text} {q : Nat} (h : Holds ws cells) (hi : ws[i]? = some w)
    (hq : q < w + 3) (hend : offset ws i + q < (lineOf ws cells).length) :
    (lineOf ws cells)[offset ws i + q]? = some ((' ' :: cells.getD i []).getD q ' ') := by
  have hne : ws ≠ [] := by
    rintro rfl
    simp at hi
  rw [← List.getElem?_append_left hend, lineOf_append cells hne,
    getElem?_flatten_bands (map_length_cellBands h) hi hq, List.getD_eq_getElem?_getD,
    getElem?_cellBands h, hi]
  exact getElem?_cellBand (h i w hi) hq

theorem getD_cell_eq_space {cell : Text} {q : Nat} (h : cell.length ≤ w) (hq : q = 0 ∨ w < q) :
    (' ' :: cell).getD q ' ' = ' ' := by
  cases q with
  | zero => rfl
  | succ q =>
    rw [List.getD_cons_succ, List.getD_eq_getElem?_getD, List.getElem?_eq_none (by omega)]
    rfl

theorem cellsDrawn_lineOf {cells : List Text} (h : Holds ws cells) :
    CellsDrawn ws cells (lineOf ws cells) := by
  have hlength := length_lineOf h
  refine ⟨hlength, fun i w hi => ⟨h i w hi, fun q hq => ?_⟩, fun p hp hout => ?_,
    fun i w hi hnext => ?_⟩
  · have hle := offset_add_le hi
    rw [Nat.add_assoc, getElem?_lineOf h hi (by omega) (by omega), Nat.add_comm 1 q,
      List.getD_cons_succ]
  · have hspan : p < span ws := by omega
    obtain ⟨i, w, q, hi, hq, rfl⟩ := exists_band hspan
    have hcell := hout i w hi
    rw [getElem?_lineOf h hi hq hp, getD_cell_eq_space (h i w hi) (by omega)]
  · have hafter := offset_add_le (List.getElem?_eq_getElem hnext)
    rw [offset_next hi] at hafter
    rw [Nat.add_assoc, getElem?_lineOf h hi (by omega) (by omega),
      getD_cell_eq_space (h i w hi) (by omega)]

/-- A drawing has a header, a rule, a line for each row and the same rule again, each with a line
feed behind it, and the columns of all of them stand at the same offsets. -/
theorem chunks_drawn (t : Table) :
    t.widths.length = t.fields.length ∧
    ∃ (header rule : Text) (rows : List Text),
      t.chunks.flatten = (header :: rule :: rows ++ [rule]).flatMap (· ++ ['\n']) ∧
      RuleDrawn t.widths rule ∧ CellsDrawn t.widths t.fields header ∧
      rows.length = t.rows.length ∧
      (∀ (k : Nat) cells line, t.rows[k]? = some cells → rows[k]? = some line →
        CellsDrawn t.widths cells line) ∧
      (t.fields = [] → ∀ line ∈ header :: rule :: rows, line = []) := by
  have hheader : CellsDrawn t.widths t.fields (lineOf t.widths t.fields) :=
    cellsDrawn_lineOf (holds_foldl_widen (.inl (holds_names t.fields)))
  have hrows : ∀ cells ∈ t.rows, CellsDrawn t.widths cells (lineOf t.widths cells) :=
    fun cells hcells => cellsDrawn_lineOf (holds_foldl_widen (.inr hcells))
  refine ⟨length_widths t, lineOf t.widths t.fields, ruleOf t.widths, t.rows.map (lineOf t.widths),
    t.flatten_chunks, ruleDrawn_ruleOf t.widths, hheader, List.length_map _, ?_, ?_⟩
  · intro k cells line hcells hline
    rw [List.getElem?_map, hcells, Option.map_some, Option.some.injEq] at hline
    rw [← hline]
    exact hrows cells (List.mem_of_getElem? hcells)
  · intro hfields line hline
    have hwidths : t.widths = [] := by
      rw [← List.length_eq_zero_iff, length_widths, hfields, List.length_nil]
    simp only [hwidths, List.mem_cons, List.mem_map] at hline
    obtain rfl | rfl | ⟨cells, -, rfl⟩ := hline
    · rfl
    · rfl
    · rfl

example : (⟨["a".toList, "b".toList], [["1".toList]]⟩ : Table).text =
    " a   b \n--- --- \n 1     \n--- --- \n".toList := by decide

end Table

end QueryConsole
