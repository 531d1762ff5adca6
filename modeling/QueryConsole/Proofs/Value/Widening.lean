import QueryConsole.Proofs.Value.Breaks

set_option autoImplicit false

namespace QueryConsole

namespace Piece

/-- The second pieces are the first with some of the breaks taken back. -/
inductive Eased : List Piece → List Piece → Prop where
  | nil : Eased [] []
  | keep {p : Piece} {ps qs : List Piece} : Eased ps qs → Eased (p :: ps) (p :: qs)
  | join {n : Nat} {ps qs : List Piece} :
    Eased ps qs → Eased (.gap (some n) :: ps) (.gap none :: qs)

theorem eased_refl (ps : List Piece) : Eased ps ps := by
  induction ps with
  | nil => exact .nil
  | cons p ps ih => exact .keep ih

theorem eased_joined (ps : List Piece) : Eased ps (ps.map joined) := by
  induction ps with
  | nil => exact .nil
  | cons p ps ih =>
    cases p with
    | gap b =>
      cases b with
      | none => exact .keep ih
      | some n => exact .join ih
    | _ => exact .keep ih

theorem Eased.append {ps qs rs ss : List Piece} (h : Eased ps qs) (h' : Eased rs ss) :
    Eased (ps ++ rs) (qs ++ ss) := by
  induction h with
  | nil => exact h'
  | keep _ ih => exact .keep ih
  | join _ ih => exact .join ih

theorem Eased.count_feed_le {ps qs : List Piece} (h : Eased ps qs) :
    (texts qs).count '\n' ≤ (texts ps).count '\n' := by
  induction h with
  | nil => exact Nat.le_refl _
  | keep _ ih =>
    rw [texts_cons, texts_cons, List.count_append, List.count_append]
    omega
  | join _ ih =>
    have hgap : (gap none).text.count '\n' = 0 := rfl
    rw [texts_cons, texts_cons, List.count_append, List.count_append, hgap]
    omega

theorem Eased.exists_gap {n : Nat} {ps front back : List Piece}
    (h : Eased ps (front ++ .gap (some n) :: back)) :
    ∃ before after, ps = before ++ .gap (some n) :: after ∧
      before.map joined = front.map joined := by
  induction front generalizing ps with
  | nil =>
    cases h with
    | keep _ => exact ⟨[], _, rfl, rfl⟩
  | cons p front ih =>
    cases h with
    | keep h =>
      obtain ⟨before, after, rfl, hjoined⟩ := ih h
      exact ⟨p :: before, after, rfl, by rw [List.map_cons, List.map_cons, hjoined]⟩
    | @join m _ _ h =>
      obtain ⟨before, after, rfl, hjoined⟩ := ih h
      exact ⟨.gap (some m) :: before, after, rfl, by rw [List.map_cons, List.map_cons, hjoined]; rfl⟩

theorem WellSpaced.cut {p q : Piece} {ps qs : List Piece} (h : WellSpaced (ps ++ p :: qs))
    (hq : q.Solid) : WellSpaced (ps ++ [q]) := by
  induction ps with
  | nil => exact .solid hq .nil
  | cons r ps ih =>
    cases h with
    | solid hr h => exact .solid hr (ih h)
    | lineBreak hn hstart h =>
      refine .lineBreak hn ?_ (ih h)
      cases ps with
      | nil => exact hq
      | cons s ps => exact hstart

theorem unbreak_before_gap {b : Option Nat} {ps qs : List Piece}
    (h : WellSpaced (ps ++ .gap b :: qs)) :
    unbreak (texts ps ++ [',']) = texts (ps.map joined) ++ [','] := by
  have hcomma : (word [',']).Solid := ⟨by decide, ',', [], rfl, by decide, by decide⟩
  have hunbreak := unbreak_texts (h.cut hcomma)
  simpa [joined, text] using hunbreak

end Piece

namespace Value

open Piece

theorem fits_of_le {width wider column room length : Nat} (h : width ≤ wider)
    (hfits : fits width column room length = true) : fits wider column room length = true := by
  simp only [fits, decide_eq_true_eq] at hfits ⊢
  omega

theorem layout_of_fits {width column room : Nat} {v : Value}
    (h : fits width column room v.line.length = true) : layout width column room v = pieces v := by
  cases v with
  | list vs => rw [layout, if_pos h]
  | record es => rw [layout, if_pos h]
  | _ => rfl

theorem dump_of_lt {width : Nat} {v : Value} (h : v.line.length < width) :
    v.dump width = v.line := by
  have hfits : fits width 0 0 v.line.length = true := by
    simp only [fits, decide_eq_true_eq]
    omega
  rw [dump, layout_of_fits hfits, texts_pieces]

theorem eased_of_fits (width : Nat) {wider column room : Nat} {v : Value}
    (h : fits wider column room v.line.length = true) :
    Eased (layout width column room v) (layout wider column room v) := by
  rw [layout_of_fits h, ← joined_layout width column room v]
  exact eased_joined _

mutual
theorem eased_layout {width wider : Nat} (h : width ≤ wider) : (column room : Nat) → (v : Value) →
    Eased (layout width column room v) (layout wider column room v)
  | _, _, .unset | _, _, .null | _, _, .bool _ | _, _, .number _ | _, _, .string _ => eased_refl _
  | column, room, .list vs => by
    by_cases hwider : fits wider column room (Value.list vs).line.length = true
    · exact eased_of_fits width hwider
    · have hwidth := mt (fits_of_le h) hwider
      rw [layout, if_neg hwidth, layout, if_neg hwider]
      exact .keep ((eased_layoutList h (column + 1) (room + 1) vs).append (eased_refl _))
  | column, room, .record es => by
    by_cases hwider : fits wider column room (Value.record es).line.length = true
    · exact eased_of_fits width hwider
    · have hwidth := mt (fits_of_le h) hwider
      rw [layout, if_neg hwidth, layout, if_neg hwider]
      exact .keep ((eased_layoutEntries h (column + 1) (room + 1) es).append (eased_refl _))

theorem eased_layoutList {width wider : Nat} (h : width ≤ wider) (column room : Nat) :
    (vs : List Value) → Eased (layoutList width column room vs) (layoutList wider column room vs)
  | [] => .nil
  | [v] => eased_layout h column room v
  | v :: w :: vs =>
    (eased_layout h column 1 v).append (.keep (eased_layoutList h column room (w :: vs)))

theorem eased_layoutEntries {width wider : Nat} (h : width ≤ wider) (column room : Nat) :
    (es : List (Text × Value)) →
      Eased (layoutEntries width column room es) (layoutEntries wider column room es)
  | [] => .nil
  | [(_, v)] => .keep (eased_layout h _ room v)
  | (_, v) :: e :: es =>
    .keep ((eased_layout h _ 1 v).append (.keep (eased_layoutEntries h column room (e :: es))))
end

def EndsInSeparator (v : Value) (t : Text) : Prop :=
  ∃ front back, pieces v = front ++ .gap none :: back ∧ t = Piece.texts front ++ [',']

/-- Each break at a larger width stands for a separator that is broken at a smaller width too, so
the lines do not become more, and a width that is larger than the one-line text leaves none. -/
theorem dump_widening {width wider : Nat} (h : width ≤ wider) (v : Value) :
    (∀ before after, v.dump wider = before ++ '\n' :: after →
      v.EndsInSeparator (unbreak before) ∧
        ∃ earlier later, v.dump width = earlier ++ '\n' :: later ∧
          unbreak earlier = unbreak before) ∧
    (v.dump wider).count '\n' ≤ (v.dump width).count '\n' ∧
    (v.line.length < width → v.dump width = v.line) := by
  have heased := eased_layout h 0 0 v
  refine ⟨fun before after heq => ?_, heased.count_feed_le, dump_of_lt⟩
  have hspaced := wellSpaced_layout wider 0 0 v
  obtain ⟨front, n, back, hwider, rfl, -, -, -⟩ := exists_gap_of_feed hspaced heq
  rw [hwider] at heased hspaced
  have hfront := unbreak_before_gap hspaced
  constructor
  · refine ⟨front.map joined, back.map joined, ?_, hfront⟩
    rw [← joined_layout wider 0 0 v, hwider, List.map_append]
    rfl
  · obtain ⟨front', back', hwidth, hjoined⟩ := heased.exists_gap
    have hnarrow := wellSpaced_layout width 0 0 v
    rw [hwidth] at hnarrow
    refine ⟨Piece.texts front' ++ [','], List.replicate n ' ' ++ Piece.texts back', ?_, ?_⟩
    · rw [dump, hwidth]
      simp [Piece.text]
    · rw [unbreak_before_gap hnarrow, hjoined, hfront]

/-- At fourteen characters both lists are broken, at sixteen only the outer one. -/
theorem dump_widening_nested :
    14 ≤ 16 ∧
    (list [.null, .list [.null, .null]]).dump 16 =
      "[None,".toList ++ '\n' :: " [None, None]]".toList ∧
    ∃ earlier later,
      (list [.null, .list [.null, .null]]).dump 14 = earlier ++ '\n' :: later ∧
        unbreak earlier = unbreak "[None,".toList :=
  ⟨by decide, by decide,
    ((dump_widening (show 14 ≤ 16 by decide) _).1 "[None,".toList " [None, None]]".toList
      (by decide)).2⟩

end Value

end QueryConsole
