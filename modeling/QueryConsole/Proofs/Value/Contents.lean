import Mathlib.Logic.Relation
import QueryConsole.Proofs.Text
import QueryConsole.Proofs.Value.Record
import QueryConsole.Proofs.Value.Spreading

/-!
What the text of a record depends on. Its entries may arrive in any order, and an entry may be
replaced by a later one of the same key, at any depth. The text shows each key once, with the last
value that was given for it, and the keys are in the order of their bytes; so entries that come to
the same are written alike at every width.
-/

set_option autoImplicit false

namespace QueryConsole

namespace Value

/-- A change to one record, at any depth, that does not change what the record comes to. -/
inductive Rearranged : Value → Value → Prop where
  | permuted {es fs : List (Text × Value)} :
      es.Perm fs → (Record.keys es).Nodup → Rearranged (.record es) (.record fs)
  | overridden {before after : List (Text × Value)} {k : Text} {v : Value} :
      k ∈ Record.keys after →
      Rearranged (.record (before ++ (k, v) :: after)) (.record (before ++ after))
  | element {before after : List Value} {v w : Value} :
      Rearranged v w → Rearranged (.list (before ++ v :: after)) (.list (before ++ w :: after))
  | entry {before after : List (Text × Value)} {k : Text} {v w : Value} :
      Rearranged v w →
      Rearranged (.record (before ++ (k, v) :: after)) (.record (before ++ (k, w) :: after))

inductive Subject where
  | value : Value → Subject
  | items : List Value → Subject
  | entries : List (Text × Value) → List Text → Subject

/-- How a value is written, with breaks or without. A record shows each of its keys once, in the
order of their bytes and each with the value that counts. -/
inductive Shows : List Piece → Subject → Prop where
  | word {v : Value} :
      (∀ vs, v ≠ .list vs) → (∀ es, v ≠ .record es) → Shows [.word v.line] (.value v)
  | list {vs : List Value} {ps : List Piece} :
      Shows ps (.items vs) → Shows (.opener '[' :: ps ++ [.closer ']']) (.value (.list vs))
  | record {es : List (Text × Value)} {ks : List Text} {ps : List Piece} :
      ks.Pairwise (fun k l => utf8 k < utf8 l) → (∀ k, k ∈ ks ↔ k ∈ Record.keys es) →
      Shows ps (.entries es ks) →
      Shows (.opener '\x7b' :: ps ++ [.closer '\x7d']) (.value (.record es))
  | noItems : Shows [] (.items [])
  | lastItem {v : Value} {ps : List Piece} : Shows ps (.value v) → Shows ps (.items [v])
  | item {v w : Value} {vs : List Value} {ps qs : List Piece} {b : Option Nat} :
      Shows ps (.value v) → Shows qs (.items (w :: vs)) →
      Shows (ps ++ .gap b :: qs) (.items (v :: w :: vs))
  | noEntries {es : List (Text × Value)} : Shows [] (.entries es [])
  | lastEntry {es : List (Text × Value)} {k : Text} {v : Value} {ps : List Piece} :
      Record.Counts es k v → Shows ps (.value v) →
      Shows (.word (keyText k) :: ps) (.entries es [k])
  | entry {es : List (Text × Value)} {k l : Text} {ks : List Text} {v : Value}
      {ps qs : List Piece} {b : Option Nat} :
      Record.Counts es k v → Shows ps (.value v) → Shows qs (.entries es (l :: ks)) →
      Shows (.word (keyText k) :: ps ++ .gap b :: qs) (.entries es (k :: l :: ks))

theorem canonList_eq_map (vs : List Value) : canonList vs = vs.map canon := by
  induction vs with
  | nil => rfl
  | cons v vs ih => rw [canonList, ih, List.map_cons]

theorem canonEntries_eq_map (es : List (Text × Value)) :
    canonEntries es = es.map (Prod.map id canon) := by
  induction es with
  | nil => rfl
  | cons e es ih =>
    obtain ⟨k, v⟩ := e
    rw [canonEntries, ih, List.map_cons]
    rfl

theorem keys_canonEntries (es : List (Text × Value)) :
    Record.keys (canonEntries es) = Record.keys es := by
  simp [canonEntries_eq_map, Record.keys]

theorem exists_counts_of_canonEntries {es : List (Text × Value)} {k : Text} {u : Value}
    (h : Record.Counts (canonEntries es) k u) : ∃ v, Record.Counts es k v ∧ u = v.canon := by
  obtain ⟨before, after, heq, hafter⟩ := h
  rw [canonEntries_eq_map] at heq
  obtain ⟨before, rest, rfl, rfl, hrest⟩ := List.map_eq_append_iff.mp heq
  obtain ⟨⟨l, v⟩, after, rfl, hhead, rfl⟩ := List.map_eq_cons_iff.mp hrest
  obtain ⟨rfl, rfl⟩ := Prod.mk.inj hhead
  refine ⟨v, ⟨before, after, rfl, ?_⟩, rfl⟩
  rwa [← canonEntries_eq_map, keys_canonEntries] at hafter

theorem Rearranged.canon_eq {v w : Value} (h : Rearranged v w) : v.canon = w.canon := by
  induction h with
  | permuted hperm hkeys =>
    have hcanon := hperm.map (Prod.map id canon)
    rw [← canonEntries_eq_map, ← canonEntries_eq_map] at hcanon
    rw [canon, canon, Record.ofList_eq_of_perm hcanon (by rwa [keys_canonEntries])]
  | @overridden before after k v hk =>
    have hafter : k ∈ Record.keys (after.map (Prod.map id canon)) := by
      rwa [← canonEntries_eq_map, keys_canonEntries]
    rw [canon, canon, canonEntries_eq_map, canonEntries_eq_map, List.map_append, List.map_cons,
      List.map_append]
    exact congrArg Value.record (Record.ofList_overridden v.canon hafter)
  | element _ ih =>
    rw [canon, canon, canonList_eq_map, canonList_eq_map, List.map_append, List.map_append,
      List.map_cons, List.map_cons, ih]
  | entry _ ih =>
    rw [canon, canon, canonEntries_eq_map, canonEntries_eq_map, List.map_append, List.map_append,
      List.map_cons, List.map_cons, Prod.map, Prod.map, ih]

theorem canon_eq_of_eqvGen {v w : Value} (h : Relation.EqvGen Rearranged v w) :
    v.canon = w.canon := by
  induction h with
  | rel v w h => exact h.canon_eq
  | refl v => rfl
  | symm v w _ ih => exact ih.symm
  | trans u v w _ _ ih ih' => exact ih.trans ih'

theorem shows_piecesEntries {es r : List (Text × Value)}
    (h : ∀ e ∈ r, ∃ v, Record.Counts es e.1 v ∧ Shows (pieces e.2) (.value v)) :
    Shows (piecesEntries r) (.entries es (Record.keys r)) := by
  induction r with
  | nil => exact .noEntries
  | cons e r ih =>
    obtain ⟨⟨v, hcounts, hv⟩, hrest⟩ := List.forall_mem_cons.mp h
    cases r with
    | nil => exact .lastEntry hcounts hv
    | cons f r => exact .entry hcounts hv (ih hrest)

theorem shows_record {es : List (Text × Value)}
    (h : ∀ e ∈ es, Shows (pieces e.2.canon) (.value e.2)) :
    Shows (pieces (canon (.record es))) (.value (.record es)) := by
  have hordered : (Record.keys (Record.ofList (canonEntries es))).Pairwise
      fun k l => utf8 k < utf8 l :=
    List.pairwise_map.mpr ((Record.ordered_ofList _).imp utf8_lt_iff.mpr)
  refine .record hordered (fun k => ?_) (shows_piecesEntries ?_)
  · rw [Record.mem_keys_ofList, keys_canonEntries]
  · rintro ⟨k, u⟩ hmem
    obtain ⟨v, hcounts, rfl⟩ := exists_counts_of_canonEntries (Record.mem_ofList_iff.mp hmem)
    exact ⟨v, hcounts, h (k, v) hcounts.mem⟩

mutual
theorem shows_canon : (v : Value) → Shows (pieces v.canon) (.value v)
  | .unset | .null | .bool _ | .number _ | .string _ => .word nofun nofun
  | .list vs => .list (shows_canonList vs)
  | .record es => shows_record (shows_canonEntries es)

theorem shows_canonList : (vs : List Value) → Shows (piecesList (canonList vs)) (.items vs)
  | [] => .noItems
  | [v] => .lastItem (shows_canon v)
  | v :: w :: vs => .item (shows_canon v) (shows_canonList (w :: vs))

theorem shows_canonEntries :
    (es : List (Text × Value)) → ∀ e ∈ es, Shows (pieces e.2.canon) (.value e.2)
  | [] => nofun
  | (_, v) :: es => List.forall_mem_cons.mpr ⟨shows_canon v, shows_canonEntries es⟩
end

theorem joined_eq_word {p : Piece} {t : Text} (h : p.joined = .word t) : p = .word t := by
  cases p with
  | gap b => simp [Piece.joined] at h
  | _ => exact h

theorem exists_gap_of_joined {p : Piece} {b : Option Nat} (h : p.joined = .gap b) :
    ∃ b, p = .gap b := by
  cases p with
  | gap b => exact ⟨b, rfl⟩
  | _ => simp [Piece.joined] at h

section Joined

variable {ps qs rs : List Piece}

theorem exists_of_joined_bracket {b c : Char}
    (h : ps.map Piece.joined = .opener b :: qs ++ [.closer c]) :
    ∃ inner, ps = .opener b :: inner ++ [.closer c] ∧ inner.map Piece.joined = qs := by
  rw [List.cons_append] at h
  obtain ⟨p, rest, rfl, hp, hrest⟩ := List.map_eq_cons_iff.mp h
  obtain ⟨inner, last, rfl, hinner, hlast⟩ := List.map_eq_append_iff.mp hrest
  obtain ⟨q, tail, rfl, hq, htail⟩ := List.map_eq_cons_iff.mp hlast
  rw [List.map_eq_nil_iff] at htail
  rw [Piece.joined_eq_opener hp, Piece.joined_eq_closer hq, htail]
  exact ⟨inner, rfl, hinner⟩

theorem exists_of_joined_gap {b : Option Nat} (h : ps.map Piece.joined = qs ++ .gap b :: rs) :
    ∃ front c back, ps = front ++ .gap c :: back ∧ front.map Piece.joined = qs ∧
      back.map Piece.joined = rs := by
  obtain ⟨front, rest, rfl, hfront, hrest⟩ := List.map_eq_append_iff.mp h
  obtain ⟨p, back, rfl, hp, hback⟩ := List.map_eq_cons_iff.mp hrest
  obtain ⟨c, rfl⟩ := exists_gap_of_joined hp
  exact ⟨front, c, back, rfl, hfront, hback⟩

theorem exists_of_joined_word {t : Text} (h : ps.map Piece.joined = .word t :: qs) :
    ∃ back, ps = .word t :: back ∧ back.map Piece.joined = qs := by
  obtain ⟨p, back, rfl, hp, hback⟩ := List.map_eq_cons_iff.mp h
  rw [joined_eq_word hp]
  exact ⟨back, rfl, hback⟩

theorem Shows.of_joined {s : Subject} (h : Shows qs s) (heq : ps.map Piece.joined = qs) :
    Shows ps s := by
  induction h generalizing ps with
  | word hlist hrecord =>
    obtain ⟨back, rfl, hback⟩ := exists_of_joined_word heq
    rw [List.map_eq_nil_iff.mp hback]
    exact .word hlist hrecord
  | list _ ih =>
    obtain ⟨inner, rfl, hinner⟩ := exists_of_joined_bracket heq
    exact .list (ih hinner)
  | record hordered hkeys _ ih =>
    obtain ⟨inner, rfl, hinner⟩ := exists_of_joined_bracket heq
    exact .record hordered hkeys (ih hinner)
  | noItems =>
    rw [List.map_eq_nil_iff.mp heq]
    exact .noItems
  | lastItem _ ih => exact .lastItem (ih heq)
  | item _ _ ih ih' =>
    obtain ⟨front, b, back, rfl, hfront, hback⟩ := exists_of_joined_gap heq
    exact .item (ih hfront) (ih' hback)
  | noEntries =>
    rw [List.map_eq_nil_iff.mp heq]
    exact .noEntries
  | lastEntry hcounts _ ih =>
    obtain ⟨back, rfl, hback⟩ := exists_of_joined_word heq
    exact .lastEntry hcounts (ih hback)
  | entry hcounts _ _ ih ih' =>
    obtain ⟨rest, rfl, hrest⟩ := exists_of_joined_word heq
    obtain ⟨front, b, back, rfl, hfront, hback⟩ := exists_of_joined_gap hrest
    exact .entry hcounts (ih hfront) (ih' hback)

end Joined

theorem shows_layout (width : Nat) (v : Value) :
    Shows (layout width 0 0 v.canon) (.value v) :=
  (shows_canon v).of_joined (joined_layout width 0 0 v.canon)

/-- The tab comes before the letter, but what is written for it comes behind. -/
theorem exists_lt_keyText_gt : ∃ k l : Text, k < l ∧ keyText l < keyText k :=
  ⟨['\t'], ['A'], by decide, by decide⟩

/-- A record is written by what its entries come to, each key once and in the order of the bytes,
which is the order of the code points and not that of the keys as they are written. -/
theorem dump_of_contents :
    (∀ v w : Value, Relation.EqvGen Rearranged v w →
      v.canon.line = w.canon.line ∧ ∀ width, v.canon.dump width = w.canon.dump width) ∧
    (∀ v : Value, ∃ ps, Shows ps (.value v) ∧ v.canon.line = Piece.texts ps) ∧
    (∀ (v : Value) (width : Nat), ∃ ps, Shows ps (.value v) ∧
      v.canon.dump width = Piece.texts ps) ∧
    (∀ k l : Text, utf8 k < utf8 l ↔ k < l) ∧
    ∃ k l : Text, k < l ∧ keyText l < keyText k := by
  refine ⟨fun v w h => ?_, fun v => ?_, fun v width => ?_, fun k l => utf8_lt_iff,
    exists_lt_keyText_gt⟩
  · rw [canon_eq_of_eqvGen h]
    exact ⟨rfl, fun _ => rfl⟩
  · exact ⟨pieces v.canon, shows_canon v, (texts_pieces v.canon).symm⟩
  · exact ⟨layout width 0 0 v.canon, shows_layout width v, rfl⟩

end Value

end QueryConsole
