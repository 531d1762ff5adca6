import QueryConsole.Value.Layout.Lemmas

/-!
The rules of a layout. A value stands on one line where it has no entries or fits; otherwise its
entries stand one below the other between its brackets. The column of each part and the room behind
it follow from these rules alone, so a fact about all layouts is proved by going through them.
-/

set_option autoImplicit false

namespace QueryConsole.Value

/-- Scalars, and lists and records without entries. -/
def IsAtom : Value → Prop
  | .list vs => vs = []
  | .record es => es = []
  | _ => True

inductive Part where
  | value | entries

/-- The layouts within `width` that start at a column and leave room for the given number of
characters behind them. -/
inductive Laid (width : Nat) : Part → Nat → Nat → List Piece → Prop where
  | whole {column room : Nat} {v : Value} :
      v.IsAtom ∨ fits width column room v.line.length = true →
      Laid width .value column room (pieces v)
  | broken {column room : Nat} {v : Value} {b c : Char} {ps : List Piece} :
      fits width column room v.line.length = false →
      (Piece.opener b :: ps ++ [Piece.closer c]).map Piece.joined = pieces v →
      Laid width .entries (column + 1) (room + 1) ps →
      Laid width .value column room (.opener b :: ps ++ [.closer c])
  | item {column room : Nat} {ps : List Piece} :
      Laid width .value column room ps → Laid width .entries column room ps
  | entry {column room : Nat} {k : Text} {ps : List Piece} :
      Laid width .value (column + (keyText k).length) room ps →
      Laid width .entries column room (.word (keyText k) :: ps)
  | more {column room : Nat} {ps qs : List Piece} :
      Laid width .entries column 1 ps → Laid width .entries column room qs →
      Laid width .entries column room (ps ++ .gap (some column) :: qs)

mutual
theorem laid_layout (width : Nat) : (column room : Nat) → (v : Value) →
    Laid width .value column room (layout width column room v)
  | _, _, .unset | _, _, .null | _, _, .bool _ | _, _, .number _ | _, _, .string _ =>
    .whole (.inl trivial)
  | column, room, .list vs => by
    have hjoined := joined_layout width column room (.list vs)
    cases hfits : fits width column room (Value.list vs).line.length with
    | true =>
      rw [layout, if_pos hfits]
      exact .whole (.inr hfits)
    | false =>
      by_cases hvs : vs = []
      · subst hvs
        rw [layout, if_neg (by simp [hfits])]
        exact .whole (v := .list []) (.inl rfl)
      · rw [layout, if_neg (by simp [hfits])] at hjoined ⊢
        exact .broken hfits hjoined (laid_layoutList width (column + 1) (room + 1) vs hvs)
  | column, room, .record es => by
    have hjoined := joined_layout width column room (.record es)
    cases hfits : fits width column room (Value.record es).line.length with
    | true =>
      rw [layout, if_pos hfits]
      exact .whole (.inr hfits)
    | false =>
      by_cases hes : es = []
      · subst hes
        rw [layout, if_neg (by simp [hfits])]
        exact .whole (v := .record []) (.inl rfl)
      · rw [layout, if_neg (by simp [hfits])] at hjoined ⊢
        exact .broken hfits hjoined (laid_layoutEntries width (column + 1) (room + 1) es hes)

theorem laid_layoutList (width column room : Nat) : (vs : List Value) → vs ≠ [] →
    Laid width .entries column room (layoutList width column room vs)
  | [], h => absurd rfl h
  | [v], _ => .item (laid_layout width column room v)
  | v :: w :: vs, _ =>
    .more (.item (laid_layout width column 1 v))
      (laid_layoutList width column room (w :: vs) (List.cons_ne_nil w vs))

theorem laid_layoutEntries (width column room : Nat) : (es : List (Text × Value)) → es ≠ [] →
    Laid width .entries column room (layoutEntries width column room es)
  | [], h => absurd rfl h
  | [(_, v)], _ => .entry (laid_layout width _ room v)
  | (_, v) :: e :: es, _ =>
    .more (.entry (laid_layout width _ 1 v))
      (laid_layoutEntries width column room (e :: es) (List.cons_ne_nil e es))
end

end QueryConsole.Value
