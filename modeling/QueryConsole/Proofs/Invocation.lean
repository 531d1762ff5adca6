import QueryConsole.Invocation
import QueryConsole.Proofs.Numeral

set_option autoImplicit false

namespace QueryConsole.Invocation

open Numeral (Denotes)

theorem looksLikeId_ofInt (n : Int) : looksLikeId (Numeral.ofInt n) = true := by
  cases n with
  | ofNat n =>
    obtain ⟨c, t, ht, hc⟩ := Numeral.exists_ofNat_eq_cons n
    simp [Numeral.ofInt, ht, looksLikeId, hc]
  | negSucc n => simp [Numeral.ofInt, looksLikeId]

theorem readId_eq_ok_iff {value : Text} {id : Int64} :
    readId value = .ok id ↔ Denotes value id.toInt := by
  rw [← Numeral.readId_eq_ok_iff, readId]
  cases Numeral.readId value with
  | error fault => exact ⟨nofun, nofun⟩
  | ok id' =>
    change (Except.ok id' : Except ArgsFault Int64) = .ok id ↔ _
    simp only [Except.ok.injEq]

theorem map_readId_eq_ok_iff {value : Text} {f : Int64 → Invocation} {i : Invocation} :
    (readId value).map f = .ok i ↔ ∃ id : Int64, Denotes value id.toInt ∧ f id = i := by
  simp only [← readId_eq_ok_iff]
  cases readId value with
  | error fault => simp [Except.map]
  | ok id => simp [Except.map]

/-- The forms of the arguments for an invocation: its kind alone, its id and statements where the
kind is empty, or all of them. -/
inductive Written : List Text → Invocation → Prop where
  | kind (kind : Text) : Written [kind] ⟨kind, 0, [], []⟩
  | id {numeral : Text} {id : Int64} (sql : Text) (extra : List Text) :
      looksLikeId numeral = true → Denotes numeral id.toInt →
      Written (numeral :: sql :: extra) ⟨[], id, sql, extra⟩
  | full {kind numeral : Text} {id : Int64} (sql : Text) (extra : List Text) :
      looksLikeId kind = false → Denotes numeral id.toInt →
      Written (kind :: numeral :: sql :: extra) ⟨kind, id, sql, extra⟩

theorem resolve_eq_ok_iff {args : List Text} {i : Invocation} :
    resolve args = .ok i ↔ Written args i := by
  constructor
  · intro h
    cases args with
    | nil => simp [resolve] at h
    | cons first rest =>
      cases rest with
      | nil =>
        simp only [resolve, Except.ok.injEq] at h
        rw [← h]
        exact .kind first
      | cons second rest =>
        cases hfirst : looksLikeId first with
        | true =>
          simp only [resolve, hfirst, if_true, map_readId_eq_ok_iff] at h
          obtain ⟨id, hid, rfl⟩ := h
          exact .id second rest hfirst hid
        | false =>
          simp only [resolve, hfirst, Bool.false_eq_true, if_false] at h
          cases rest with
          | nil => simp at h
          | cons sql extra =>
            simp only [map_readId_eq_ok_iff] at h
            obtain ⟨id, hid, rfl⟩ := h
            exact .full sql extra hfirst hid
  · intro h
    cases h with
    | kind kind => rfl
    | id sql extra hlooks hid =>
      simp only [resolve, hlooks, if_true]
      exact map_readId_eq_ok_iff.mpr ⟨_, hid, rfl⟩
    | full sql extra hlooks hid =>
      simp only [resolve, hlooks, Bool.false_eq_true, if_false]
      exact map_readId_eq_ok_iff.mpr ⟨_, hid, rfl⟩

theorem written_full {i : Invocation} (h : looksLikeId i.kind = false) :
    Written (i.kind :: Numeral.ofInt i.hintId.toInt :: i.sql :: i.extraSqls) i :=
  .full i.sql i.extraSqls h (Numeral.denotes_ofInt i.hintId.toInt)

theorem written_id {i : Invocation} (h : i.kind = []) :
    Written (Numeral.ofInt i.hintId.toInt :: i.sql :: i.extraSqls) i := by
  obtain ⟨kind, id, sql, extra⟩ := i
  subst h
  exact .id sql extra (looksLikeId_ofInt id.toInt) (Numeral.denotes_ofInt id.toInt)

theorem Written.eq_of_looksLikeId {args : List Text} {i : Invocation} (h : Written args i)
    (hlooks : looksLikeId i.kind = true) : args = [i.kind] ∧ i = ⟨i.kind, 0, [], []⟩ := by
  cases h with
  | kind kind => exact ⟨rfl, rfl⟩
  | id sql extra _ _ => simp [looksLikeId] at hlooks
  | full sql extra hother _ => simp [hother] at hlooks

theorem exists_written_iff (i : Invocation) :
    (∃ args, Written args i) ↔ looksLikeId i.kind = false ∨ i = ⟨i.kind, 0, [], []⟩ := by
  constructor
  · intro h
    obtain ⟨args, hwritten⟩ := h
    cases hlooks : looksLikeId i.kind with
    | false => exact .inl rfl
    | true => exact .inr (hwritten.eq_of_looksLikeId hlooks).2
  · intro h
    obtain h | h := h
    · exact ⟨_, written_full h⟩
    · exact ⟨[i.kind], h ▸ .kind i.kind⟩

/-- Arguments resolve to the invocation that they are a form of and to nothing else. All forms of an
invocation are at hand as long as its kind does not look like an id; one that does can only stand
alone. -/
theorem resolve_lossless :
    (∀ args i, resolve args = .ok i ↔ Written args i) ∧
    (∀ i : Invocation, looksLikeId i.kind = false →
      resolve (i.kind :: Numeral.ofInt i.hintId.toInt :: i.sql :: i.extraSqls) = .ok i) ∧
    (∀ i : Invocation, i.kind = [] →
      resolve (Numeral.ofInt i.hintId.toInt :: i.sql :: i.extraSqls) = .ok i) ∧
    (∀ args i, looksLikeId i.kind = true → resolve args = .ok i → args = [i.kind]) ∧
    ∀ i, (∃ args, resolve args = .ok i) ↔
      looksLikeId i.kind = false ∨ i = ⟨i.kind, 0, [], []⟩ := by
  refine ⟨fun args i => resolve_eq_ok_iff, fun i h => resolve_eq_ok_iff.mpr (written_full h),
    fun i h => resolve_eq_ok_iff.mpr (written_id h),
    fun args i hlooks h => ((resolve_eq_ok_iff.mp h).eq_of_looksLikeId hlooks).1, fun i => ?_⟩
  rw [← exists_written_iff i]
  exact exists_congr fun args => resolve_eq_ok_iff

end QueryConsole.Invocation
