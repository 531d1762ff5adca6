import QueryConsole.Proofs.Invocation

set_option autoImplicit false

namespace QueryConsole.Invocation

open Numeral (Denotes)

def BeginsAsId (t : Text) : Prop := ∃ c u, t = c :: u ∧ (c.isDigit = true ∨ c = '-')

theorem looksLikeId_eq_true_iff {t : Text} : looksLikeId t = true ↔ BeginsAsId t := by
  cases t with
  | nil => simp [looksLikeId, BeginsAsId]
  | cons c u => simp [looksLikeId, BeginsAsId]

def IsId (t : Text) : Prop := ∃ n, Denotes t n ∧ Bounds.id.Contains n

theorem exists_readId_eq_ok_iff {t : Text} : (∃ id, Numeral.readId t = .ok id) ↔ IsId t := by
  simp only [Numeral.readId_eq_ok_iff]
  constructor
  · rintro ⟨id, hid⟩
    exact ⟨id.toInt, hid, Bounds.ofType_id.contains_toInt id⟩
  · rintro ⟨n, hn, hin⟩
    exact ⟨Int64.ofInt n, (Bounds.ofType_id.toInt_ofInt hin).symm ▸ hn⟩

theorem exists_readId_eq_error_iff {t : Text} :
    (∃ fault, Numeral.readId t = .error fault) ↔ ¬ IsId t := by
  rw [← exists_readId_eq_ok_iff]
  cases Numeral.readId t with
  | error fault => simp
  | ok id => simp

/-- The argument that has to be an id: the first one where it begins as ids do, else the second one
of at least three. -/
inductive IdPlace : List Text → Text → Prop where
  | first {first : Text} (second : Text) (rest : List Text) :
      BeginsAsId first → IdPlace (first :: second :: rest) first
  | second {first : Text} (second sql : Text) (extra : List Text) :
      ¬ BeginsAsId first → IdPlace (first :: second :: sql :: extra) second

inductive TooFew : List Text → Prop where
  | none : TooFew []
  | two {first : Text} (second : Text) : ¬ BeginsAsId first → TooFew [first, second]

theorem map_readId_eq_error_iff {value : Text} {f : Int64 → Invocation} {fault : ArgsFault} :
    (readId value).map f = .error fault ↔
      ∃ reason, Numeral.readId value = .error reason ∧ fault = .invalidId value reason := by
  rw [readId]
  cases Numeral.readId value with
  | error reason =>
    change Except.error (ArgsFault.invalidId value reason) = .error fault ↔ _
    simp [eq_comm]
  | ok id =>
    change Except.ok (f id) = .error fault ↔ _
    simp

inductive RefusedFor (args : List Text) : ArgsFault → Prop where
  | usage : TooFew args → RefusedFor args .usage
  | invalidId {value : Text} {reason : Numeral.Fault} :
      IdPlace args value → Numeral.readId value = .error reason →
      RefusedFor args (.invalidId value reason)

theorem resolve_eq_error_iff {args : List Text} {fault : ArgsFault} :
    resolve args = .error fault ↔ RefusedFor args fault := by
  constructor
  · intro h
    cases args with
    | nil =>
      simp only [resolve, Except.error.injEq] at h
      exact h ▸ .usage .none
    | cons first rest =>
      cases rest with
      | nil => simp [resolve] at h
      | cons second rest =>
        cases hfirst : looksLikeId first with
        | true =>
          simp only [resolve, hfirst, if_true, map_readId_eq_error_iff] at h
          obtain ⟨reason, hreason, rfl⟩ := h
          exact .invalidId (.first second rest (looksLikeId_eq_true_iff.mp hfirst)) hreason
        | false =>
          have hbegins : ¬ BeginsAsId first := by simp [← looksLikeId_eq_true_iff, hfirst]
          simp only [resolve, hfirst, Bool.false_eq_true, if_false] at h
          cases rest with
          | nil =>
            simp only [Except.error.injEq] at h
            exact h ▸ .usage (.two second hbegins)
          | cons sql extra =>
            simp only [map_readId_eq_error_iff] at h
            obtain ⟨reason, hreason, rfl⟩ := h
            exact .invalidId (.second second sql extra hbegins) hreason
  · intro h
    cases h with
    | usage hfew =>
      cases hfew with
      | none => rfl
      | two second hbegins => simp [resolve, looksLikeId_eq_true_iff, hbegins]
    | invalidId hplace hreason =>
      cases hplace with
      | first second rest hbegins =>
        simp only [resolve, looksLikeId_eq_true_iff.mpr hbegins, if_true]
        exact map_readId_eq_error_iff.mpr ⟨_, hreason, rfl⟩
      | second second sql extra hbegins =>
        simp only [resolve, looksLikeId_eq_true_iff, hbegins, if_false]
        exact map_readId_eq_error_iff.mpr ⟨_, hreason, rfl⟩

/-- Arguments are refused as too few, or for the one that has to be an id and is none, with what
is wrong with it as a numeral. -/
theorem resolve_refuses :
    (∀ args, resolve args = .error .usage ↔ TooFew args) ∧
    (∀ args value reason, resolve args = .error (.invalidId value reason) ↔
      IdPlace args value ∧ Numeral.readId value = .error reason) ∧
    ∀ args value, (∃ reason, resolve args = .error (.invalidId value reason)) ↔
      IdPlace args value ∧ ¬ IsId value := by
  have hinvalid : ∀ args value reason, resolve args = .error (.invalidId value reason) ↔
      IdPlace args value ∧ Numeral.readId value = .error reason := by
    intro args value reason
    rw [resolve_eq_error_iff]
    constructor
    · rintro (_ | ⟨hplace, hreason⟩)
      exact ⟨hplace, hreason⟩
    · rintro ⟨hplace, hreason⟩
      exact .invalidId hplace hreason
  refine ⟨fun args => ?_, hinvalid, fun args value => ?_⟩
  · rw [resolve_eq_error_iff]
    constructor
    · rintro (hfew | _)
      exact hfew
    · exact .usage
  · simp only [hinvalid, exists_and_left, exists_readId_eq_error_iff]

example : resolve ["1a".toList, "5".toList, "select 1".toList] =
    .error (.invalidId "1a".toList .invalidDigit) := by rfl

end QueryConsole.Invocation
