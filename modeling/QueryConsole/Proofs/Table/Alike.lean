import QueryConsole.Proofs.Table.Lines

set_option autoImplicit false

namespace QueryConsole

def trimEnd (t : Text) : Text := (t.reverse.dropWhile (· = ' ')).reverse

theorem trimEnd_padRight (n : Nat) (t : Text) : trimEnd (padRight n t) = trimEnd t := by
  have hspaces : ∀ k, (List.replicate k ' ' ++ t.reverse).dropWhile (· = ' ') =
      t.reverse.dropWhile (· = ' ') := by
    intro k
    rw [List.dropWhile_append_of_pos]
    intro c hc
    simpa using (List.eq_of_mem_replicate hc)
  rw [trimEnd, padRight, List.reverse_append, List.reverse_replicate, hspaces, trimEnd]

theorem trimEnd_eq_self {t : Text} (h : t.getLast? ≠ some ' ') : trimEnd t = t := by
  rw [← List.head?_reverse] at h
  rw [trimEnd]
  cases hrev : t.reverse with
  | nil => simpa using hrev.symm
  | cons c s =>
    rw [hrev, List.head?_cons, ne_eq, Option.some.injEq] at h
    rw [List.dropWhile_cons_of_neg (by simpa using h), ← hrev, List.reverse_reverse]

namespace Table

variable {vs ws : List Nat} {cells others : List Text}

theorem ruleOf_cons (w : Nat) (ws : List Nat) :
    ruleOf (w :: ws) = List.replicate (w + 2) '-' ++ ' ' :: ruleOf ws := by
  simp [ruleOf]

theorem ruleOf_ne_nil (w : Nat) (ws : List Nat) : ruleOf (w :: ws) ≠ [] := by
  simp [ruleOf_cons]

theorem splitFirst_ruleOf (w : Nat) (ws : List Nat) :
    splitFirst ' ' (ruleOf (w :: ws)) = some (List.replicate (w + 2) '-', ruleOf ws) := by
  rw [ruleOf_cons, splitFirst_append _ (by simp)]

theorem ruleOf_injective (h : ruleOf vs = ruleOf ws) : vs = ws := by
  induction vs generalizing ws with
  | nil =>
    cases ws with
    | nil => rfl
    | cons w ws => exact absurd h.symm (ruleOf_ne_nil w ws)
  | cons v vs ih =>
    cases ws with
    | nil => exact absurd h (ruleOf_ne_nil v vs)
    | cons w ws =>
      have hsplit := congrArg (splitFirst ' ') h
      rw [splitFirst_ruleOf, splitFirst_ruleOf, Option.some.injEq, Prod.mk.injEq] at hsplit
      obtain ⟨hdashes, hrest⟩ := hsplit
      have hlength := congrArg List.length hdashes
      rw [List.length_replicate, List.length_replicate] at hlength
      rw [ih hrest, Nat.add_right_cancel hlength]

def CellsAlike (ws : List Nat) (cells others : List Text) : Prop :=
  ∀ i w, ws[i]? = some w → padRight w (cells.getD i []) = padRight w (others.getD i [])

theorem paddedCells_eq_iff :
    paddedCells ws cells = paddedCells ws others ↔ CellsAlike ws cells others := by
  constructor
  · intro h i w hi
    have hcell := congrArg (·[i]?) h
    simpa [getElem?_paddedCells, hi] using hcell
  · intro h
    apply List.ext_getElem?
    intro i
    rw [getElem?_paddedCells, getElem?_paddedCells]
    cases hi : ws[i]? with
    | none => rfl
    | some w => rw [Option.map_some, Option.map_some, h i w hi]

theorem paddedCells_eq_of_lineOf_eq (hcells : Holds ws cells) (hothers : Holds ws others)
    (h : lineOf ws cells = lineOf ws others) :
    paddedCells ws cells = paddedCells ws others := by
  cases ws with
  | nil => rfl
  | cons w ws =>
    have hbands : cellBands (w :: ws) cells = cellBands (w :: ws) others := by
      rw [List.eq_iff_flatten_eq, map_length_cellBands hcells, map_length_cellBands hothers,
        ← lineOf_append cells (List.cons_ne_nil w ws),
        ← lineOf_append others (List.cons_ne_nil w ws), h]
      exact ⟨rfl, rfl⟩
    exact List.map_inj_right (fun _ _ => List.append_cancel_right) |>.mp hbands

theorem lineOf_eq_iff (hcells : Holds ws cells) (hothers : Holds ws others) :
    lineOf ws cells = lineOf ws others ↔ CellsAlike ws cells others := by
  rw [← paddedCells_eq_iff]
  refine ⟨paddedCells_eq_of_lineOf_eq hcells hothers, fun h => ?_⟩
  rw [lineOf, lineOf, h]

/-- The columns of both tables are equally wide, and they show the same in the header and in each
row, of which there are equally many. -/
structure Alike (t u : Table) : Prop where
  columns : t.fields.length = u.fields.length
  widths : t.widths = u.widths
  count : t.rows.length = u.rows.length
  header : CellsAlike t.widths t.fields u.fields
  row : ∀ (k : Nat) row other, t.rows[k]? = some row → u.rows[k]? = some other →
    CellsAlike t.widths row other

variable {t u : Table}

theorem map_lineOf_eq_iff (hwidths : t.widths = u.widths) :
    t.rows.map (lineOf t.widths) = u.rows.map (lineOf u.widths) ↔
      t.rows.length = u.rows.length ∧ ∀ (k : Nat) row other, t.rows[k]? = some row →
        u.rows[k]? = some other → CellsAlike t.widths row other := by
  have hline : ∀ (k : Nat) row other, t.rows[k]? = some row → u.rows[k]? = some other →
      (lineOf t.widths row = lineOf u.widths other ↔ CellsAlike t.widths row other) := by
    intro k row other hrow hother
    have hholds : Holds u.widths other :=
      holds_widths (List.mem_cons_of_mem _ (List.mem_of_getElem? hother))
    rw [← hwidths] at hholds ⊢
    exact lineOf_eq_iff (holds_widths (List.mem_cons_of_mem _ (List.mem_of_getElem? hrow))) hholds
  constructor
  · intro h
    refine ⟨by simpa using congrArg List.length h, fun k row other hrow hother => ?_⟩
    have hk := congrArg (·[k]?) h
    simp only [List.getElem?_map, hrow, hother, Option.map_some, Option.some.injEq] at hk
    exact (hline k row other hrow hother).mp hk
  · rintro ⟨hcount, hrows⟩
    apply List.ext_getElem (by simpa using hcount)
    intro k hk hk'
    rw [List.length_map] at hk hk'
    have hrow := List.getElem?_eq_getElem hk
    have hother := List.getElem?_eq_getElem hk'
    rw [List.getElem_map, List.getElem_map]
    exact (hline k _ _ hrow hother).mpr (hrows k _ _ hrow hother)

theorem lines_eq_iff : t.lines = u.lines ↔ t.Alike u := by
  have hheader : t.widths = u.widths → (lineOf t.widths t.fields = lineOf u.widths u.fields ↔
      CellsAlike t.widths t.fields u.fields) := by
    intro hwidths
    have hholds : Holds u.widths u.fields := holds_widths List.mem_cons_self
    rw [← hwidths] at hholds ⊢
    exact lineOf_eq_iff (holds_widths List.mem_cons_self) hholds
  constructor
  · intro h
    simp only [lines, List.cons_append, List.cons.injEq] at h
    obtain ⟨hfirst, hrule, hrest⟩ := h
    have hwidths := ruleOf_injective hrule
    rw [hrule] at hrest
    obtain ⟨hcount, hrows⟩ := (map_lineOf_eq_iff hwidths).mp (List.append_cancel_right hrest)
    exact ⟨by rw [← length_widths, ← length_widths, hwidths], hwidths, hcount,
      (hheader hwidths).mp hfirst, hrows⟩
  · intro h
    rw [lines, lines, (hheader h.widths).mpr h.header, ← h.widths,
      (map_lineOf_eq_iff h.widths).mpr ⟨h.count, h.row⟩, h.widths]

theorem chunks_eq_iff (ht : t.OneLined) (hu : u.OneLined) :
    t.chunks.flatten = u.chunks.flatten ↔ t.Alike u := by
  rw [← lines_eq_iff]
  constructor
  · intro h
    rw [← drawnLines_of_oneLined ht, ← drawnLines_of_oneLined hu]
    exact congrArg (fun drawing => (List.splitOn '\n' drawing).dropLast) h
  · intro h
    rw [flatten_chunks, flatten_chunks, text, text, h]

def Rectangular (t : Table) : Prop := ∀ row ∈ t.rows, row.length = t.fields.length

instance (t : Table) : Decidable t.Rectangular :=
  inferInstanceAs (Decidable (∀ row ∈ t.rows, row.length = t.fields.length))

def Trimmed (t : Table) : Prop :=
  ∀ cells ∈ t.fields :: t.rows, ∀ cell ∈ cells, cell.getLast? ≠ some ' '

instance (t : Table) : Decidable t.Trimmed :=
  inferInstanceAs
    (Decidable (∀ cells ∈ t.fields :: t.rows, ∀ cell ∈ cells, cell.getLast? ≠ some ' '))

theorem CellsAlike.eq (h : CellsAlike ws cells others) (hcells : cells.length = ws.length)
    (hothers : others.length = ws.length) (htrim : ∀ cell ∈ cells, cell.getLast? ≠ some ' ')
    (htrim' : ∀ cell ∈ others, cell.getLast? ≠ some ' ') : cells = others := by
  apply List.ext_getElem (hcells.trans hothers.symm)
  intro i hi hi'
  have hpad := congrArg trimEnd (h i _ (List.getElem?_eq_getElem (hcells ▸ hi)))
  rw [trimEnd_padRight, trimEnd_padRight, List.getD_eq_getElem?_getD, List.getD_eq_getElem?_getD,
    List.getElem?_eq_getElem hi, List.getElem?_eq_getElem hi', Option.getD_some, Option.getD_some,
    trimEnd_eq_self (htrim _ (List.getElem_mem hi)),
    trimEnd_eq_self (htrim' _ (List.getElem_mem hi'))] at hpad
  exact hpad

theorem Alike.eq (h : t.Alike u) (ht : t.Rectangular) (hu : u.Rectangular) (htrim : t.Trimmed)
    (htrim' : u.Trimmed) : t = u := by
  have hcolumns : t.fields.length = t.widths.length := (length_widths t).symm
  have hcolumns' : u.fields.length = t.widths.length := h.columns ▸ hcolumns
  have hfields : t.fields = u.fields :=
    h.header.eq hcolumns hcolumns' (htrim _ List.mem_cons_self) (htrim' _ List.mem_cons_self)
  have hrows : t.rows = u.rows := by
    apply List.ext_getElem h.count
    intro k hk hk'
    have hrow := List.getElem_mem hk
    have hother := List.getElem_mem hk'
    exact (h.row k _ _ (List.getElem?_eq_getElem hk) (List.getElem?_eq_getElem hk')).eq
      ((ht _ hrow).trans hcolumns) ((hu _ hother).trans hcolumns')
      (htrim _ (List.mem_cons_of_mem _ hrow)) (htrim' _ (List.mem_cons_of_mem _ hother))
  cases t
  cases u
  rw [mk.injEq]
  exact ⟨hfields, hrows⟩

/-- Two tables without line feeds in what they show have the same drawing exactly if they are alike,
and no two such tables do that have full rows and no spaces at the ends of their cells. -/
theorem drawing_unambiguous (t u : Table) (ht : t.OneLined) (hu : u.OneLined) :
    (t.chunks.flatten = u.chunks.flatten ↔ t.Alike u) ∧
    (t.Rectangular → u.Rectangular → t.Trimmed → u.Trimmed →
      (t.chunks.flatten = u.chunks.flatten ↔ t = u)) := by
  refine ⟨chunks_eq_iff ht hu, fun hrect hrect' htrim htrim' => ⟨fun h => ?_, fun h => ?_⟩⟩
  · exact ((chunks_eq_iff ht hu).mp h).eq hrect hrect' htrim htrim'
  · rw [h]

/-- Two drawings of the same text, one with a row that is too long and one that is too short, and
two of different texts, in which dashes and spaces stand where the other has a gap. -/
theorem drawing_unambiguous_ragged :
    (OneLined ⟨["a".toList, "b".toList], [["--- ".toList, "1".toList], [[], " ".toList]]⟩ ∧
      OneLined ⟨["a   ".toList, "b".toList], [["---".toList, "1".toList, "\n".toList], []]⟩ ∧
      Alike ⟨["a".toList, "b".toList], [["--- ".toList, "1".toList], [[], " ".toList]]⟩
        ⟨["a   ".toList, "b".toList], [["---".toList, "1".toList, "\n".toList], []]⟩) ∧
    OneLined ⟨["a".toList, "b".toList], [["-   -".toList, "1".toList]]⟩ ∧
      OneLined ⟨["a".toList, "b".toList], [["-".toList, "-   1".toList]]⟩ ∧
      Rectangular ⟨["a".toList, "b".toList], [["-   -".toList, "1".toList]]⟩ ∧
      Rectangular ⟨["a".toList, "b".toList], [["-".toList, "-   1".toList]]⟩ ∧
      Trimmed ⟨["a".toList, "b".toList], [["-   -".toList, "1".toList]]⟩ ∧
      Trimmed ⟨["a".toList, "b".toList], [["-".toList, "-   1".toList]]⟩ ∧
      (chunks ⟨["a".toList, "b".toList], [["-   -".toList, "1".toList]]⟩).flatten ≠
        (chunks ⟨["a".toList, "b".toList], [["-".toList, "-   1".toList]]⟩).flatten := by
  refine ⟨⟨by decide, by decide, ?_⟩, by decide, by decide, by decide, by decide, by decide,
    by decide, fun h => ?_⟩
  · exact (drawing_unambiguous _ _ (by decide) (by decide)).1.mp (by decide)
  · have heq := ((drawing_unambiguous _ _ (by decide) (by decide)).2 (by decide) (by decide)
      (by decide) (by decide)).mp h
    exact absurd heq (by decide)

end Table

end QueryConsole
