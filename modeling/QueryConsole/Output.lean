import QueryConsole.Table
import QueryConsole.Value.Layout

/-!
The results of a query and how they are written out. A detail is followed by a blank line, a table
is drawn, and any other value is laid out within the width. Writing goes in many small chunks, some
of them empty, to a sink that may take a chunk in several parts and may run full; the bytes that fit
are kept, and only a sink that took everything is flushed.
-/

set_option autoImplicit false

namespace QueryConsole

inductive Output where
  | detail : Text → Output
  | table : Table → Output
  | generic : Value → Output

def Table.cellChunks (width : Nat) (cell : Text) : List Text :=
  [' '] :: cell :: List.replicate (width - cell.length) [' '] ++ [[' ']]

def Table.lineCells : List Nat → List Text → List (List Text)
  | [], _ => []
  | w :: ws, cells => cellChunks w (cells.headD []) :: lineCells ws cells.tail

def Table.lineChunks (widths : List Nat) (cells : List Text) : List Text :=
  ((lineCells widths cells).intersperse [[' ']]).flatten ++ [['\n']]

def Table.chunks (t : Table) : List Text :=
  lineChunks t.widths t.fields ++ [ruleOf t.widths, ['\n']] ++
    t.rows.flatMap (lineChunks t.widths) ++ [ruleOf t.widths, ['\n']]

theorem Table.flatten_cellChunks (width : Nat) (cell : Text) :
    (cellChunks width cell).flatten = ' ' :: padRight width cell ++ [' '] := by
  simp [cellChunks, padRight]

theorem Table.flatten_lineCells (widths : List Nat) (cells : List Text) :
    (lineCells widths cells).map List.flatten = paddedCells widths cells := by
  induction widths generalizing cells with
  | nil => rfl
  | cons w ws ih => simp only [lineCells, paddedCells, List.map_cons, flatten_cellChunks, ih]

theorem Table.flatten_gaps (cells : List (List Text)) :
    (cells.intersperse [[' ']]).flatten.flatten = [' '].intercalate (cells.map List.flatten) := by
  induction cells with
  | nil => rfl
  | cons first rest ih =>
    cases rest with
    | nil => simp [List.intercalate]
    | cons second rest => simpa [List.intercalate] using ih

theorem Table.flatten_lineChunks (widths : List Nat) (cells : List Text) :
    (lineChunks widths cells).flatten = lineOf widths cells ++ ['\n'] := by
  rw [lineChunks, lineOf, List.flatten_append, flatten_gaps, flatten_lineCells]
  rfl

theorem Table.flatten_chunks (t : Table) : t.chunks.flatten = t.text := by
  have hrows : (t.rows.flatMap (lineChunks t.widths)).flatten =
      (t.rows.map (lineOf t.widths)).flatMap (· ++ ['\n']) := by
    induction t.rows with
    | nil => rfl
    | cons row rows ih => simp [flatten_lineChunks, ih]
  simp [chunks, text, lines, flatten_lineChunks, hrows]

namespace Output

def chunks (width : Nat) : Output → List Text
  | .detail s => [s, ['\n'], ['\n']]
  | .table t => t.chunks
  | .generic v => [v.dump width, ['\n']]

def text (width : Nat) (o : Output) : Text := (o.chunks width).flatten

end Output

/-- How many of the bytes on offer are taken at once, by the number of those taken before. Some may
be left for the next offer, though not all. -/
structure Pace where
  share : Nat → Nat → Nat
  share_pos : ∀ taken offered, 0 < offered → 0 < share taken offered

def Pace.eager : Pace := ⟨fun _ offered => offered, fun _ _ h => h⟩

/-- Where bytes are written to. The room that is left is stated for a sink that can run full, and
for each flush the number of bytes that had been written by then. -/
structure Sink where
  pace : Pace
  room : Option Nat
  written : List UInt8
  flushedAt : List Nat

structure WriteZero where
  sink : Sink

instance : Coe WriteZero Sink := ⟨WriteZero.sink⟩

namespace Sink

def fresh (pace : Pace) (room : Option Nat) : Sink := ⟨pace, room, [], []⟩

def empty (room : Option Nat) : Sink := fresh .eager room

def hold (s : Sink) (bytes : List UInt8) : Sink :=
  { s with room := s.room.map (· - bytes.length), written := s.written ++ bytes }

def taken (s : Sink) (offered : Nat) : Nat :=
  min (s.room.getD offered) (min offered (s.pace.share s.written.length offered))

theorem taken_le (s : Sink) (offered : Nat) : s.taken offered ≤ offered := by
  unfold taken; omega

def write (s : Sink) (bytes : List UInt8) : Except WriteZero Sink :=
  if bytes = [] then .ok s
  else if s.taken bytes.length = 0 then .error ⟨s⟩
  else (s.hold (bytes.take (s.taken bytes.length))).write (bytes.drop (s.taken bytes.length))
termination_by bytes.length
decreasing_by
  have hle := s.taken_le bytes.length
  rw [List.length_drop]
  omega

def writeAll (s : Sink) (chunks : List Text) : Except WriteZero Sink :=
  chunks.foldlM (fun s c => s.write (utf8 c)) s

def flush (s : Sink) : Sink := { s with flushedAt := s.flushedAt ++ [s.written.length] }

def flushes (s : Sink) : Nat := s.flushedAt.length

end Sink

def render (width : Nat) (outputs : List Output) (s : Sink) : Except WriteZero Sink :=
  (s.writeAll (outputs.flatMap (·.chunks width))).map Sink.flush

def renderText (width : Nat) (outputs : List Output) : Text := outputs.flatMap (·.text width)

end QueryConsole
