import QueryConsole.Value.Entry

set_option autoImplicit false

namespace QueryConsole

theorem bind_eq_ok_iff {α β ε : Type} {x : Except ε α} {f : α → Except ε β} {b : β} :
    (x >>= f) = .ok b ↔ ∃ a, x = .ok a ∧ f a = .ok b := by
  cases x with
  | error e => simp [bind, Except.bind]
  | ok a => simp [bind, Except.bind]

theorem bind_eq_error_iff {α β ε : Type} {x : Except ε α} {f : α → Except ε β} {e : ε} :
    (x >>= f) = .error e ↔ x = .error e ∨ ∃ a, x = .ok a ∧ f a = .error e := by
  cases x with
  | error e => simp [bind, Except.bind]
  | ok a => simp [bind, Except.bind]

theorem map_eq_ok_iff {α β ε : Type} {x : Except ε α} {f : α → β} {b : β} :
    x.map f = .ok b ↔ ∃ a, x = .ok a ∧ f a = b := by
  cases x with
  | error e => simp [Except.map]
  | ok a => simp [Except.map]

theorem map_eq_error_iff {α β ε : Type} {x : Except ε α} {f : α → β} {e : ε} :
    x.map f = .error e ↔ x = .error e := by
  cases x with
  | error e => simp [Except.map]
  | ok a => simp [Except.map]

namespace Record

variable {r : Record} {key : Text}

/-- The entry is left out or has no kind. -/
def Lacks (r : Record) (key : Text) : Prop := r.get? key = none ∨ r.get? key = some .unset

theorem present?_eq_none_iff : r.present? key = none ↔ r.Lacks key := by
  rw [present?, Lacks]
  cases r.get? key with
  | none => simp
  | some v => cases v <;> simp

theorem present?_eq_some_iff {v : Value} :
    r.present? key = some v ↔ r.get? key = some v ∧ v ≠ .unset := by
  rw [present?]
  cases r.get? key with
  | none => simp
  | some w => cases w <;> cases v <;> simp

theorem present?_congr {s : Record} (h : s.get? key = r.get? key) :
    s.present? key = r.present? key := by
  rw [present?, present?, h]

theorem text?_congr {s : Record} (h : s.get? key = r.get? key) : s.text? key = r.text? key := by
  rw [text?, text?, present?_congr h]

theorem int?_congr {s : Record} (h : s.get? key = r.get? key) : s.int? key = r.int? key := by
  rw [int?, int?, present?_congr h]

theorem list_congr {s : Record} (h : s.get? key = r.get? key) : s.list key = r.list key := by
  rw [list, list, present?_congr h]

theorem text?_eq_ok_iff {result : Option Text} :
    r.text? key = .ok result ↔ r.present? key = result.map .string := by
  rw [text?]
  cases r.present? key with
  | none => cases result <;> simp
  | some v => cases v <;> cases result <;> simp

theorem exists_text?_iff :
    (∃ result, r.text? key = .ok result) ↔
      ∀ v, r.present? key = some v → ∃ s, v = .string s := by
  constructor
  · rintro ⟨result, h⟩ v hv
    rw [text?_eq_ok_iff, hv] at h
    obtain ⟨s, -, hs⟩ := Option.map_eq_some_iff.mp h.symm
    exact ⟨s, hs.symm⟩
  · intro h
    cases hv : r.present? key with
    | none => exact ⟨none, text?_eq_ok_iff.mpr hv⟩
    | some v =>
      obtain ⟨s, rfl⟩ := h v hv
      exact ⟨some s, text?_eq_ok_iff.mpr hv⟩

theorem exists_int?_iff :
    (∃ result, r.int? key = .ok result) ↔
      ∀ v, r.present? key = some v → ∃ x n, v = .number x ∧ x.toInt? = some n := by
  rw [int?]
  cases r.present? key with
  | none => simp
  | some v =>
    cases v with
    | number x => cases hx : x.toInt? <;> simp [hx]
    | _ => simp

theorem text?_eq_error_iff {fault : EntryFault} :
    r.text? key = .error fault ↔
      (∀ result, r.text? key ≠ .ok result) ∧ fault = .mismatch key .text := by
  rw [text?]
  cases r.present? key with
  | none => simp
  | some v => cases v <;> simp [eq_comm]

theorem int?_eq_ok_iff {result : Option Int64} :
    r.int? key = .ok result ↔
      r.present? key = none ∧ result = none ∨
      ∃ x n, r.present? key = some (.number x) ∧ x.toInt? = some n ∧
        result = some (Int64.ofInt (Bounds.id.clamp n)) := by
  rw [int?]
  cases r.present? key with
  | none => simp [eq_comm]
  | some v =>
    cases v with
    | number x => cases hx : x.toInt? <;> simp [hx, eq_comm]
    | _ => simp

theorem int?_eq_error_iff {fault : EntryFault} :
    r.int? key = .error fault ↔
      (∀ result, r.int? key ≠ .ok result) ∧ fault = .mismatch key .integer := by
  rw [int?]
  cases r.present? key with
  | none => simp
  | some v =>
    cases v with
    | number x => cases hx : x.toInt? <;> simp [hx, eq_comm]
    | _ => simp [eq_comm]

theorem list_eq_ok_iff {vs : List Value} : r.list key = .ok vs ↔ r.get? key = some (.list vs) := by
  have hpresent : r.present? key = some (.list vs) ↔ r.get? key = some (.list vs) := by
    simp [present?_eq_some_iff]
  rw [← hpresent, list]
  cases r.present? key with
  | none => simp
  | some v => cases v <;> simp

inductive Unlisted (r : Record) (key : Text) : EntryFault → Prop where
  | missing : r.Lacks key → Unlisted r key (.missing key)
  | mismatch {v : Value} :
      r.get? key = some v → v ≠ .unset → (∀ vs, v ≠ .list vs) → Unlisted r key (.mismatch key .list)

theorem list_eq_error_iff {fault : EntryFault} :
    r.list key = .error fault ↔ r.Unlisted key fault := by
  constructor
  · intro h
    rw [list] at h
    cases hv : r.present? key with
    | none =>
      rw [hv] at h
      cases h
      exact .missing (present?_eq_none_iff.mp hv)
    | some v =>
      obtain ⟨hget, hkind⟩ := present?_eq_some_iff.mp hv
      cases v with
      | list vs => simp [hv] at h
      | _ =>
        rw [hv] at h
        cases h
        exact .mismatch hget hkind nofun
  · intro h
    cases h with
    | missing hlacks => rw [list, present?_eq_none_iff.mpr hlacks]
    | @mismatch v hget hkind hlist =>
      rw [list, present?_eq_some_iff.mpr ⟨hget, hkind⟩]
      cases v with
      | list vs => exact absurd rfl (hlist vs)
      | _ => rfl

end Record

namespace Value

variable {key : Text} {vs : List Value} {fault : EntryFault}

def ofTexts (ts : List Text) : Value := .list (ts.map .string)

theorem texts_eq_ok_iff {ts : List Text} : Value.texts key vs = .ok ts ↔ vs = ts.map .string := by
  induction vs generalizing ts with
  | nil => cases ts <;> simp [Value.texts]
  | cons v vs ih =>
    cases v with
    | string s =>
      simp only [Value.texts, map_eq_ok_iff, ih]
      constructor
      · rintro ⟨rest, rfl, rfl⟩
        rfl
      · intro h
        obtain ⟨t, rest, rfl, ht, hrest⟩ := List.map_eq_cons_iff.mp h.symm
        exact ⟨rest, hrest.symm, by rw [string.inj ht]⟩
    | _ => cases ts <;> simp [Value.texts]

theorem texts_eq_error_iff :
    Value.texts key vs = .error fault ↔
      fault = .mismatch key .texts ∧ ∃ v ∈ vs, ∀ s, v ≠ .string s := by
  induction vs with
  | nil => simp [Value.texts]
  | cons v vs ih =>
    cases v with
    | string s => simp [Value.texts, map_eq_error_iff, ih]
    | _ => simp [Value.texts, eq_comm]

theorem textLists_list_cons (us vs : List Value) :
    Value.textLists key (.list us :: vs) =
      Value.texts key us >>= fun row => (Value.textLists key vs).map (row :: ·) := by
  rw [Value.textLists]
  cases Value.texts key us with
  | error e => rfl
  | ok row => rfl

theorem textLists_cons_eq_ok_iff {v : Value} {rows : List (List Text)} :
    Value.textLists key (v :: vs) = .ok rows ↔
      ∃ row rest, v = ofTexts row ∧ Value.textLists key vs = .ok rest ∧ rows = row :: rest := by
  cases v with
  | list us =>
    simp only [textLists_list_cons, bind_eq_ok_iff, map_eq_ok_iff, texts_eq_ok_iff, ofTexts,
      list.injEq]
    constructor
    · rintro ⟨row, hrow, rest, hrest, rfl⟩
      exact ⟨row, rest, hrow, hrest, rfl⟩
    · rintro ⟨row, rest, hrow, hrest, rfl⟩
      exact ⟨row, hrow, rest, hrest, rfl⟩
  | _ => simp [Value.textLists, ofTexts]

theorem textLists_eq_ok_iff {rows : List (List Text)} :
    Value.textLists key vs = .ok rows ↔ vs = rows.map ofTexts := by
  induction vs generalizing rows with
  | nil => cases rows <;> simp [Value.textLists]
  | cons v vs ih =>
    rw [textLists_cons_eq_ok_iff]
    cases rows with
    | nil => simp
    | cons row rows => simp [ih]

inductive NoRow (key : Text) : Value → EntryFault → Prop where
  | list {v : Value} : (∀ vs, v ≠ .list vs) → NoRow key v (.mismatch key .lists)
  | text {vs : List Value} {v : Value} :
      v ∈ vs → (∀ s, v ≠ .string s) → NoRow key (.list vs) (.mismatch key .texts)

theorem noRow_list_iff : NoRow key (.list vs) fault ↔ Value.texts key vs = .error fault := by
  rw [texts_eq_error_iff]
  constructor
  · intro h
    cases h with
    | list hlist => exact absurd rfl (hlist vs)
    | text hmem htext => exact ⟨rfl, _, hmem, htext⟩
  · rintro ⟨rfl, v, hmem, htext⟩
    exact .text hmem htext

theorem textLists_cons_eq_error_iff {v : Value} :
    Value.textLists key (v :: vs) = .error fault ↔
      NoRow key v fault ∨ ∃ row, v = ofTexts row ∧ Value.textLists key vs = .error fault := by
  cases v with
  | list us =>
    simp only [textLists_list_cons, bind_eq_error_iff, map_eq_error_iff, texts_eq_ok_iff, ofTexts,
      list.injEq, noRow_list_iff]
  | _ =>
    constructor
    · intro h
      cases h
      exact .inl (.list nofun)
    · rintro (h | ⟨row, h, -⟩)
      · cases h
        rfl
      · cases h

/-- The rows in front of the first one that is none do not count. -/
theorem textLists_eq_error_iff :
    Value.textLists key vs = .error fault ↔
      ∃ (rows : List (List Text)) (v : Value) (rest : List Value),
        vs = rows.map ofTexts ++ v :: rest ∧ NoRow key v fault := by
  induction vs with
  | nil => simp [Value.textLists]
  | cons u us ih =>
    rw [textLists_cons_eq_error_iff, ih]
    constructor
    · rintro (h | ⟨row, rfl, rows, v, rest, rfl, h⟩)
      · exact ⟨[], u, us, rfl, h⟩
      · exact ⟨row :: rows, v, rest, rfl, h⟩
    · rintro ⟨rows, v, rest, hvs, h⟩
      cases rows with
      | nil =>
        obtain ⟨rfl, rfl⟩ := List.cons.inj hvs
        exact .inl h
      | cons row rows =>
        obtain ⟨rfl, rfl⟩ := List.cons.inj hvs
        exact .inr ⟨row, rfl, rows, v, rest, rfl, h⟩

end Value

end QueryConsole
