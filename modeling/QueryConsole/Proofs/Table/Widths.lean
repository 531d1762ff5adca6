import Mathlib.Order.Bounds.Basic
import QueryConsole.Proofs.Table.Alike

set_option autoImplicit false

namespace QueryConsole

namespace Table

def columnWidth (i : ℕ) (rows : List (List Text)) (w : ℕ) : ℕ :=
  rows.foldl (fun w row => max w (row.getD i []).length) w

theorem columnWidth_cons (i : ℕ) (row : List Text) (rows : List (List Text)) (w : ℕ) :
    columnWidth i (row :: rows) w = columnWidth i rows (max w (row.getD i []).length) := rfl

theorem getElem?_foldl_widen (rows : List (List Text)) (ws : List ℕ) (i : ℕ) :
    (rows.foldl widen ws)[i]? = ws[i]?.map (columnWidth i rows) := by
  induction rows generalizing ws with
  | nil =>
    have hid : columnWidth i [] = id := rfl
    rw [hid, Option.map_id]
    rfl
  | cons row rows ih =>
    rw [List.foldl_cons, ih, getElem?_widen, Option.map_map]
    rfl

theorem getElem?_widths (t : Table) (i : ℕ) :
    t.widths[i]? = t.fields[i]?.map fun field => columnWidth i t.rows field.length := by
  rw [widths, getElem?_foldl_widen, List.getElem?_map, Option.map_map]
  rfl

def columnLengths (i : ℕ) (rows : List (List Text)) (w : ℕ) : Set ℕ :=
  {n | n = w ∨ ∃ row ∈ rows, ∃ cell, row[i]? = some cell ∧ n = cell.length}

theorem getElem?_eq_some_of_lt_length {i w : ℕ} {row : List Text}
    (h : w < (row.getD i []).length) : row[i]? = some (row.getD i []) := by
  rw [List.getD_eq_getElem?_getD] at h ⊢
  cases hcell : row[i]? with
  | none => simp [hcell] at h
  | some cell => rfl

theorem isGreatest_columnWidth (i : ℕ) (rows : List (List Text)) (w : ℕ) :
    IsGreatest (columnLengths i rows w) (columnWidth i rows w) := by
  induction rows generalizing w with
  | nil =>
    refine ⟨.inl rfl, ?_⟩
    rintro n (rfl | ⟨row, hrow, -⟩)
    · exact le_rfl
    · exact absurd hrow List.not_mem_nil
  | cons row rows ih =>
    obtain ⟨hmem, hupper⟩ := ih (max w (row.getD i []).length)
    rw [columnWidth_cons]
    constructor
    · obtain hfirst | ⟨other, hother, hcell⟩ := hmem
      · rw [hfirst]
        rcases Nat.lt_or_ge w (row.getD i []).length with hlt | hge
        · rw [max_eq_right hlt.le]
          exact .inr ⟨row, List.mem_cons_self, _, getElem?_eq_some_of_lt_length hlt, rfl⟩
        · exact .inl (max_eq_left hge)
      · exact .inr ⟨other, List.mem_cons_of_mem row hother, hcell⟩
    · rintro n (rfl | ⟨other, hother, cell, hcell, rfl⟩)
      · exact (le_max_left n _).trans (hupper (.inl rfl))
      · obtain rfl | hother := List.mem_cons.mp hother
        · have hlength : cell.length = (other.getD i []).length := by
            rw [List.getD_eq_getElem?_getD, hcell, Option.getD_some]
          rw [hlength]
          exact (le_max_right w _).trans (hupper (.inl rfl))
        · exact hupper (.inr ⟨other, hother, cell, hcell, rfl⟩)

theorem columnWidth_eq_of_perm {rows others : List (List Text)} (h : rows.Perm others) (i w : ℕ) :
    columnWidth i rows w = columnWidth i others w := by
  refine h.foldl_eq' (fun row _ other _ w => ?_) w
  rw [Nat.max_assoc, Nat.max_assoc, Nat.max_comm (List.length _)]

theorem widths_eq_of_perm {t : Table} {rows : List (List Text)} (h : t.rows.Perm rows) :
    widths ⟨t.fields, rows⟩ = t.widths := by
  apply List.ext_getElem?
  intro i
  rw [getElem?_widths, getElem?_widths]
  simp only [columnWidth_eq_of_perm h]

/-- The row with `n` cells that has the cells of another one, without those that are too many and
with empty ones for those that are too few. -/
def fitRow (n : ℕ) (cells : List Text) : List Text := (cells.take n).rightpad n []

theorem length_fitRow (n : ℕ) (cells : List Text) : (fitRow n cells).length = n := by
  simp [fitRow]

theorem getD_fitRow {n i : ℕ} (h : i < n) (cells : List Text) :
    (fitRow n cells).getD i [] = cells.getD i [] := by
  rw [fitRow, List.rightpad, List.getD_eq_getElem?_getD, List.getD_eq_getElem?_getD,
    List.getElem?_append]
  split
  · rw [List.getElem?_take_of_lt h]
  · rename_i hge
    rw [List.length_take] at hge
    rw [List.getElem?_replicate, List.getElem?_eq_none (by omega : cells.length ≤ i)]
    split <;> rfl

def fitted (t : Table) : Table := ⟨t.fields, t.rows.map (fitRow t.fields.length)⟩

theorem rectangular_fitted (t : Table) : t.fitted.Rectangular := by
  intro row hrow
  obtain ⟨cells, -, rfl⟩ := List.mem_map.mp hrow
  exact length_fitRow _ cells

theorem widths_fitted (t : Table) : t.fitted.widths = t.widths := by
  apply List.ext_getElem?
  intro i
  rw [getElem?_widths, getElem?_widths]
  cases hfield : t.fields[i]? with
  | none => simp [fitted, hfield]
  | some field =>
    have hi : i < t.fields.length := (List.getElem?_eq_some_iff.mp hfield).1
    simp only [fitted, hfield, Option.map_some, columnWidth, List.foldl_map, getD_fitRow hi]

theorem alike_fitted (t : Table) : t.fitted.Alike t := by
  refine ⟨rfl, widths_fitted t, List.length_map _, fun i w _ => rfl, ?_⟩
  intro k row other hrow hother i w hi
  have hcolumn : i < t.fields.length := by
    rw [← length_widths, ← widths_fitted]
    exact (List.getElem?_eq_some_iff.mp hi).1
  rw [fitted, List.getElem?_map, hother, Option.map_some, Option.some.injEq] at hrow
  rw [← hrow, getD_fitRow hcolumn]

theorem chunks_fitted (t : Table) : t.fitted.chunks.flatten = t.chunks.flatten := by
  rw [flatten_chunks, flatten_chunks, text, text, lines_eq_iff.mpr (alike_fitted t)]

/-- Each column is as wide as the longest of its name and of the cells that stand in it. Hence
neither the lengths of the rows nor their order count. -/
theorem widths_greatest (t : Table) :
    t.widths.length = t.fields.length ∧
    (∀ (i : ℕ) field, t.fields[i]? = some field → ∃ w, t.widths[i]? = some w ∧
      IsGreatest {n | n = field.length ∨
        ∃ row ∈ t.rows, ∃ cell, row[i]? = some cell ∧ n = cell.length} w) ∧
    (t.fitted.Rectangular ∧ t.fitted.widths = t.widths ∧
      t.fitted.chunks.flatten = t.chunks.flatten) ∧
    ∀ rows, t.rows.Perm rows → widths ⟨t.fields, rows⟩ = t.widths := by
  refine ⟨length_widths t, fun i field hfield => ?_,
    ⟨rectangular_fitted t, widths_fitted t, chunks_fitted t⟩, fun rows h => widths_eq_of_perm h⟩
  refine ⟨columnWidth i t.rows field.length, ?_, isGreatest_columnWidth i t.rows field.length⟩
  rw [getElem?_widths, hfield, Option.map_some]

example : fitted ⟨["a".toList, "b".toList], [["1".toList], ["2".toList, [], "xyz".toList]]⟩ =
    ⟨["a".toList, "b".toList], [["1".toList, []], ["2".toList, []]]⟩ := by decide

end Table

end QueryConsole
