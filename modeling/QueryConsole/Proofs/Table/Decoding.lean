import QueryConsole.Proofs.Value.Entry
import QueryConsole.Table

set_option autoImplicit false

namespace QueryConsole

namespace Table

open Value (ofTexts)

/-- The first thing that is wrong with an answer from which no table can be read, and the reason
that is given for it. -/
inductive Unfit (answer : Record) : EntryFault → Text → Prop where
  | namesMissing :
      answer.Lacks "fields".toList →
      Unfit answer (.missing "fields".toList) "`fields` is missing".toList
  | namesUnlisted {v : Value} :
      answer.get? "fields".toList = some v → v ≠ .unset → (∀ vs, v ≠ .list vs) →
      Unfit answer (.mismatch "fields".toList .list) "`fields` is not a list".toList
  | noName {vs : List Value} {v : Value} :
      answer.get? "fields".toList = some (.list vs) → v ∈ vs → (∀ s, v ≠ .string s) →
      Unfit answer (.mismatch "fields".toList .texts) "`fields` is not a list of strings".toList
  | rowsMissing {fields : List Text} :
      answer.get? "fields".toList = some (ofTexts fields) → answer.Lacks "rows".toList →
      Unfit answer (.missing "rows".toList) "`rows` is missing".toList
  | rowsUnlisted {fields : List Text} {v : Value} :
      answer.get? "fields".toList = some (ofTexts fields) →
      answer.get? "rows".toList = some v → v ≠ .unset → (∀ vs, v ≠ .list vs) →
      Unfit answer (.mismatch "rows".toList .list) "`rows` is not a list".toList
  | rowUnlisted {fields : List Text} {rows : List (List Text)} {v : Value} {rest : List Value} :
      answer.get? "fields".toList = some (ofTexts fields) →
      answer.get? "rows".toList = some (.list (rows.map ofTexts ++ v :: rest)) →
      (∀ vs, v ≠ .list vs) →
      Unfit answer (.mismatch "rows".toList .lists) "`rows` is not a list of lists".toList
  | noCell {fields : List Text} {rows : List (List Text)} {vs rest : List Value} {v : Value} :
      answer.get? "fields".toList = some (ofTexts fields) →
      answer.get? "rows".toList = some (.list (rows.map ofTexts ++ .list vs :: rest)) →
      v ∈ vs → (∀ s, v ≠ .string s) →
      Unfit answer (.mismatch "rows".toList .texts) "`rows` is not a list of strings".toList

variable {answer : Record} {fault : EntryFault} {reason : Text}

theorem Unfit.reason_eq (h : Unfit answer fault reason) : reason = fault.message := by
  cases h <;> decide

theorem ofAnswer_eq (answer : Record) :
    ofAnswer answer =
      (answer.list fieldsKey >>= Value.texts fieldsKey) >>= fun fields =>
        (answer.list rowsKey >>= Value.textLists rowsKey) >>= fun rows => .ok ⟨fields, rows⟩ := by
  rw [ofAnswer]
  cases answer.list fieldsKey with
  | error e => rfl
  | ok vs =>
    cases answer.list rowsKey with
    | error e => rfl
    | ok us => rfl

theorem readNames_eq_ok_iff {fields : List Text} :
    (answer.list fieldsKey >>= Value.texts fieldsKey) = .ok fields ↔
      answer.get? fieldsKey = some (ofTexts fields) := by
  simp [bind_eq_ok_iff, Record.list_eq_ok_iff, Value.texts_eq_ok_iff, ofTexts]

theorem readRows_eq_ok_iff {rows : List (List Text)} :
    (answer.list rowsKey >>= Value.textLists rowsKey) = .ok rows ↔
      answer.get? rowsKey = some (.list (rows.map ofTexts)) := by
  simp [bind_eq_ok_iff, Record.list_eq_ok_iff, Value.textLists_eq_ok_iff]

theorem readNames_eq_error_iff :
    (answer.list fieldsKey >>= Value.texts fieldsKey) = .error fault ↔
      answer.Unlisted fieldsKey fault ∨
      ∃ vs, answer.get? fieldsKey = some (.list vs) ∧ fault = .mismatch fieldsKey .texts ∧
        ∃ v ∈ vs, ∀ s, v ≠ .string s := by
  simp only [bind_eq_error_iff, Record.list_eq_error_iff, Record.list_eq_ok_iff,
    Value.texts_eq_error_iff]

theorem readRows_eq_error_iff :
    (answer.list rowsKey >>= Value.textLists rowsKey) = .error fault ↔
      answer.Unlisted rowsKey fault ∨
      ∃ vs, answer.get? rowsKey = some (.list vs) ∧
        ∃ (rows : List (List Text)) (v : Value) (rest : List Value),
          vs = rows.map ofTexts ++ v :: rest ∧ Value.NoRow rowsKey v fault := by
  simp only [bind_eq_error_iff, Record.list_eq_error_iff, Record.list_eq_ok_iff,
    Value.textLists_eq_error_iff]

theorem ofAnswer_eq_ok_iff {t : Table} :
    ofAnswer answer = .ok t ↔
      answer.get? fieldsKey = some (ofTexts t.fields) ∧
      answer.get? rowsKey = some (.list (t.rows.map ofTexts)) := by
  rw [ofAnswer_eq, bind_eq_ok_iff]
  constructor
  · rintro ⟨fields, hfields, h⟩
    obtain ⟨rows, hrows, ht⟩ := bind_eq_ok_iff.mp h
    cases ht
    exact ⟨readNames_eq_ok_iff.mp hfields, readRows_eq_ok_iff.mp hrows⟩
  · rintro ⟨hfields, hrows⟩
    exact ⟨t.fields, readNames_eq_ok_iff.mpr hfields,
      bind_eq_ok_iff.mpr ⟨t.rows, readRows_eq_ok_iff.mpr hrows, rfl⟩⟩

theorem ofAnswer_eq_error_iff :
    ofAnswer answer = .error fault ↔
      (answer.list fieldsKey >>= Value.texts fieldsKey) = .error fault ∨
      ∃ fields, answer.get? fieldsKey = some (ofTexts fields) ∧
        (answer.list rowsKey >>= Value.textLists rowsKey) = .error fault := by
  have hrows : ∀ fields : List Text,
      ((answer.list rowsKey >>= Value.textLists rowsKey) >>= fun rows =>
        Except.ok (Table.mk fields rows)) = .error fault ↔
      (answer.list rowsKey >>= Value.textLists rowsKey) = .error fault := by
    intro fields
    rw [bind_eq_error_iff]
    exact or_iff_left fun ⟨_, _, h⟩ => nomatch h
  rw [ofAnswer_eq, bind_eq_error_iff]
  simp only [hrows, readNames_eq_ok_iff]

theorem exists_unfit (h : ofAnswer answer = .error fault) :
    ∃ reason, Unfit answer fault reason := by
  rw [ofAnswer_eq_error_iff, readNames_eq_error_iff, readRows_eq_error_iff] at h
  rcases h with (hunlisted | ⟨vs, hvs, rfl, v, hv, htext⟩) | ⟨fields, hfields, hrows⟩
  · cases hunlisted with
    | missing hlacks => exact ⟨_, .namesMissing hlacks⟩
    | mismatch hv hkind hlist => exact ⟨_, .namesUnlisted hv hkind hlist⟩
  · exact ⟨_, .noName hvs hv htext⟩
  · rcases hrows with hunlisted | ⟨vs, hvs, rows, v, rest, rfl, hrow⟩
    · cases hunlisted with
      | missing hlacks => exact ⟨_, .rowsMissing hfields hlacks⟩
      | mismatch hv hkind hlist => exact ⟨_, .rowsUnlisted hfields hv hkind hlist⟩
    · cases hrow with
      | list hlist => exact ⟨_, .rowUnlisted hfields hvs hlist⟩
      | text hv htext => exact ⟨_, .noCell hfields hvs hv htext⟩

theorem Unfit.ofAnswer_eq (h : Unfit answer fault reason) : ofAnswer answer = .error fault := by
  rw [ofAnswer_eq_error_iff, readNames_eq_error_iff, readRows_eq_error_iff]
  cases h with
  | namesMissing hlacks => exact .inl (.inl (.missing hlacks))
  | namesUnlisted hv hkind hlist => exact .inl (.inl (.mismatch hv hkind hlist))
  | noName hvs hv htext => exact .inl (.inr ⟨_, hvs, rfl, _, hv, htext⟩)
  | rowsMissing hfields hlacks => exact .inr ⟨_, hfields, .inl (.missing hlacks)⟩
  | rowsUnlisted hfields hv hkind hlist => exact .inr ⟨_, hfields, .inl (.mismatch hv hkind hlist)⟩
  | rowUnlisted hfields hvs hlist =>
    exact .inr ⟨_, hfields, .inr ⟨_, hvs, _, _, _, rfl, .list hlist⟩⟩
  | noCell hfields hvs hv htext =>
    exact .inr ⟨_, hfields, .inr ⟨_, hvs, _, _, _, rfl, .text hv htext⟩⟩

theorem ofAnswer_eq_error_iff_unfit :
    ofAnswer answer = .error fault ↔ Unfit answer fault fault.message := by
  constructor
  · intro h
    obtain ⟨reason, hunfit⟩ := exists_unfit h
    exact hunfit.reason_eq ▸ hunfit
  · exact fun h => h.ofAnswer_eq

theorem ofAnswer_congr {other : Record} (hfields : other.get? fieldsKey = answer.get? fieldsKey)
    (hrows : other.get? rowsKey = answer.get? rowsKey) : ofAnswer other = ofAnswer answer := by
  rw [ofAnswer_eq, ofAnswer_eq, Record.list_congr hfields, Record.list_congr hrows]

theorem ofAnswer_toAnswer (t : Table) : ofAnswer t.toAnswer = .ok t :=
  ofAnswer_eq_ok_iff.mpr ⟨rfl, rfl⟩

/-- A table is read exactly from those answers whose two entries are its names and its rows, and no
other entry matters. An answer without a table is refused for the first thing that is wrong with it.
So a table is read back from the answer that has its names and rows. -/
theorem decoding_exact (answer : Record) (t : Table) :
    (ofAnswer answer = .ok t ↔
      answer.get? "fields".toList = some (.list (t.fields.map .string)) ∧
      answer.get? "rows".toList =
        some (.list (t.rows.map fun row => .list (row.map .string)))) ∧
    (∀ other : Record, other.get? "fields".toList = answer.get? "fields".toList →
      other.get? "rows".toList = answer.get? "rows".toList → ofAnswer other = ofAnswer answer) ∧
    (∀ fault, ofAnswer answer = .error fault ↔ Unfit answer fault fault.message) ∧
    ofAnswer t.toAnswer = .ok t :=
  ⟨ofAnswer_eq_ok_iff, fun _ => ofAnswer_congr, fun _ => ofAnswer_eq_error_iff_unfit,
    ofAnswer_toAnswer t⟩

end Table

end QueryConsole
