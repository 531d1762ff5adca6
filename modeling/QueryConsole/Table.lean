import QueryConsole.Value.Entry

set_option autoImplicit false

namespace QueryConsole

structure Table where
  fields : List Text
  rows : List (List Text)
  deriving DecidableEq, Repr

namespace Table

def widen : List Nat → List Text → List Nat
  | w :: ws, cell :: cells => max w cell.length :: widen ws cells
  | ws, _ => ws

def widths (t : Table) : List Nat := t.rows.foldl widen (t.fields.map List.length)

def paddedCells : List Nat → List Text → List Text
  | [], _ => []
  | w :: ws, cells => (' ' :: padRight w (cells.headD []) ++ [' ']) :: paddedCells ws cells.tail

def lineOf (widths : List Nat) (cells : List Text) : Text :=
  [' '].intercalate (paddedCells widths cells)

def ruleOf (widths : List Nat) : Text :=
  widths.flatMap fun w => List.replicate (w + 2) '-' ++ [' ']

def lines (t : Table) : List Text :=
  lineOf t.widths t.fields :: ruleOf t.widths :: t.rows.map (lineOf t.widths) ++ [ruleOf t.widths]

def text (t : Table) : Text := t.lines.flatMap (· ++ ['\n'])

def fieldsKey : Text := "fields".toList
def rowsKey : Text := "rows".toList

/-- The table in an answer. The names are decoded before the rows are looked at. -/
def ofAnswer (answer : Record) : Except EntryFault Table := do
  let fields ← Value.texts fieldsKey (← answer.list fieldsKey)
  let rows ← Value.textLists rowsKey (← answer.list rowsKey)
  return ⟨fields, rows⟩

def toAnswer (t : Table) : Record :=
  Record.ofList
    [(fieldsKey, .list (t.fields.map .string)),
      (rowsKey, .list (t.rows.map fun row => .list (row.map .string)))]

end Table

end QueryConsole
