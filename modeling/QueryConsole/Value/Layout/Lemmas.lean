import QueryConsole.Value.Layout

set_option autoImplicit false

namespace QueryConsole

@[simp] theorem Piece.texts_nil : Piece.texts [] = [] := rfl

@[simp] theorem Piece.texts_cons (p : Piece) (ps : List Piece) :
    Piece.texts (p :: ps) = p.text ++ Piece.texts ps := rfl

@[simp] theorem Piece.texts_append (ps qs : List Piece) :
    Piece.texts (ps ++ qs) = Piece.texts ps ++ Piece.texts qs := by simp [Piece.texts]

namespace Value

mutual
theorem texts_pieces : (v : Value) → Piece.texts (pieces v) = v.line
  | .unset | .null | .bool _ | .number _ | .string _ => by simp [pieces, line, Piece.text]
  | .list vs => by simp [pieces, line, Piece.text, texts_piecesList vs]
  | .record es => by simp [pieces, line, Piece.text, texts_piecesEntries es]

theorem texts_piecesList : (vs : List Value) → Piece.texts (piecesList vs) = lineList vs
  | [] => rfl
  | [v] => by simp [piecesList, lineList, texts_pieces v]
  | v :: w :: vs => by
    simp [piecesList, lineList, Piece.text, texts_pieces v, texts_piecesList (w :: vs)]

theorem texts_piecesEntries :
    (es : List (Text × Value)) → Piece.texts (piecesEntries es) = lineEntries es
  | [] => rfl
  | [(k, v)] => by simp [piecesEntries, lineEntries, Piece.text, texts_pieces v]
  | (k, v) :: e :: es => by
    simp [piecesEntries, lineEntries, Piece.text, texts_pieces v, texts_piecesEntries (e :: es)]
end

mutual
theorem joined_pieces : (v : Value) → (pieces v).map Piece.joined = pieces v
  | .unset | .null | .bool _ | .number _ | .string _ => rfl
  | .list vs => by simp [pieces, Piece.joined, joined_piecesList vs]
  | .record es => by simp [pieces, Piece.joined, joined_piecesEntries es]

theorem joined_piecesList : (vs : List Value) → (piecesList vs).map Piece.joined = piecesList vs
  | [] => rfl
  | [v] => by simp [piecesList, joined_pieces v]
  | v :: w :: vs => by
    simp [piecesList, Piece.joined, joined_pieces v, joined_piecesList (w :: vs)]

theorem joined_piecesEntries :
    (es : List (Text × Value)) → (piecesEntries es).map Piece.joined = piecesEntries es
  | [] => rfl
  | [(k, v)] => by simp [piecesEntries, Piece.joined, joined_pieces v]
  | (k, v) :: e :: es => by
    simp [piecesEntries, Piece.joined, joined_pieces v, joined_piecesEntries (e :: es)]
end

mutual
theorem joined_layout (width : Nat) :
    (column room : Nat) → (v : Value) → (layout width column room v).map Piece.joined = pieces v
  | _, _, .unset | _, _, .null | _, _, .bool _ | _, _, .number _ | _, _, .string _ => rfl
  | column, room, .list vs => by
    unfold layout
    split
    · exact joined_pieces _
    · simp [pieces, Piece.joined, joined_layoutList width (column + 1) (room + 1) vs]
  | column, room, .record es => by
    unfold layout
    split
    · exact joined_pieces _
    · simp [pieces, Piece.joined, joined_layoutEntries width (column + 1) (room + 1) es]

theorem joined_layoutList (width column room : Nat) :
    (vs : List Value) → (layoutList width column room vs).map Piece.joined = piecesList vs
  | [] => rfl
  | [v] => by simp [layoutList, piecesList, joined_layout width column room v]
  | v :: w :: vs => by
    simp [layoutList, piecesList, Piece.joined, joined_layout width column 1 v,
      joined_layoutList width column room (w :: vs)]

theorem joined_layoutEntries (width column room : Nat) :
    (es : List (Text × Value)) →
      (layoutEntries width column room es).map Piece.joined = piecesEntries es
  | [] => rfl
  | [(k, v)] => by
    simp [layoutEntries, piecesEntries, Piece.joined, joined_layout width _ room v]
  | (k, v) :: e :: es => by
    simp [layoutEntries, piecesEntries, Piece.joined, joined_layout width _ 1 v,
      joined_layoutEntries width column room (e :: es)]
end

end Value

end QueryConsole
