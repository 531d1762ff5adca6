import QueryConsole.Value.Line

/-!
The text of a value within a line width. A list or a record stays on one line where it fits, and
otherwise has each entry on a line of its own, aligned behind the opening bracket. The text is put
together from pieces, so that the brackets and the gaps between entries can be told from the same
characters inside quoted text.
-/

set_option autoImplicit false

namespace QueryConsole

inductive Piece where
  | opener : Char → Piece
  | closer : Char → Piece
  | word : Text → Piece
  /-- The separator of two entries, either on the line or with a break and an indent behind it. -/
  | gap : Option Nat → Piece
  deriving DecidableEq, Repr

def Piece.text : Piece → Text
  | .opener c => [c]
  | .closer c => [c]
  | .word t => t
  | .gap none => [',', ' ']
  | .gap (some indent) => ',' :: '\n' :: List.replicate indent ' '

def Piece.texts (ps : List Piece) : Text := ps.flatMap Piece.text

def Piece.joined : Piece → Piece
  | .gap _ => .gap none
  | p => p

namespace Value

mutual
def pieces : Value → List Piece
  | .list vs => .opener '[' :: piecesList vs ++ [.closer ']']
  | .record es => .opener '\x7b' :: piecesEntries es ++ [.closer '\x7d']
  | v => [.word v.line]

def piecesList : List Value → List Piece
  | [] => []
  | [v] => pieces v
  | v :: w :: vs => pieces v ++ .gap none :: piecesList (w :: vs)

def piecesEntries : List (Text × Value) → List Piece
  | [] => []
  | [(k, v)] => .word (keyText k) :: pieces v
  | (k, v) :: e :: es => .word (keyText k) :: pieces v ++ .gap none :: piecesEntries (e :: es)
end

/-- Whether a text of the given length may stand at `column` with `room` characters kept free
behind it. One more column is left unused. -/
def fits (width column room length : Nat) : Bool := length ≤ width - (1 + column + room)

mutual
/-- The pieces of a value that starts at `column` and is followed by `room` characters of brackets
and commas on its last line. -/
def layout (width column room : Nat) : Value → List Piece
  | .list vs =>
    if fits width column room (Value.list vs).line.length then pieces (.list vs)
    else .opener '[' :: layoutList width (column + 1) (room + 1) vs ++ [.closer ']']
  | .record es =>
    if fits width column room (Value.record es).line.length then pieces (.record es)
    else .opener '\x7b' :: layoutEntries width (column + 1) (room + 1) es ++ [.closer '\x7d']
  | v => pieces v

/-- The entry before a gap has only the comma behind it. -/
def layoutList (width column room : Nat) : List Value → List Piece
  | [] => []
  | [v] => layout width column room v
  | v :: w :: vs =>
    layout width column 1 v ++ .gap (some column) :: layoutList width column room (w :: vs)

def layoutEntries (width column room : Nat) : List (Text × Value) → List Piece
  | [] => []
  | [(k, v)] => .word (keyText k) :: layout width (column + (keyText k).length) room v
  | (k, v) :: e :: es =>
    .word (keyText k) :: layout width (column + (keyText k).length) 1 v ++
      .gap (some column) :: layoutEntries width column room (e :: es)
end

def dump (width : Nat) (v : Value) : Text := Piece.texts (layout width 0 0 v)

def defaultWidth : UInt64 := 80

end Value

end QueryConsole
