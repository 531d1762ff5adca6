import QueryConsole.Dispatch
import QueryConsole.Proofs.Value.Integer

set_option autoImplicit false

namespace QueryConsole

inductive Form where
  | describe | single | batch
  deriving DecidableEq, Repr

def Mode.form : Mode → Form
  | .describe _ => .describe
  | .single _ _ _ => .single
  | .batch _ _ _ _ => .batch

def Form.operation : Form → Text
  | .describe => Operation.kindInfo
  | .single => Operation.singleQuery
  | .batch => Operation.multiQuery

structure Call.SameRequest (c d : Call) : Prop where
  operation : c.operation = d.operation
  args : c.args = d.args

/-- Two invocations that ask for the same thing. A description makes use of the kind alone. -/
structure Invocation.AsksAs (i j : Invocation) : Prop where
  form : i.mode.form = j.mode.form
  kind : i.kind = j.kind
  statements : i.mode.form ≠ .describe → i.sql :: i.extraSqls = j.sql :: j.extraSqls
  hint : i.mode.form ≠ .describe →
    ∃ x : Double, x.Nearest i.hintId.toInt ∧ x.Nearest j.hintId.toInt

section Sent

theorem texts_inj {ts us : List Text} :
    ts.map Value.string = us.map Value.string ↔ ts = us :=
  List.map_inj_right fun _ _ => Value.string.inj

theorem int_eq_int_iff {m n : Int64} :
    Value.int m = .int n ↔ ∃ x : Double, x.Nearest m.toInt ∧ x.Nearest n.toInt := by
  have hm := Double.nearest_ofInt (natAbs_toInt_le m)
  have hn := Double.nearest_ofInt (natAbs_toInt_le n)
  rw [Value.int, Value.int, Value.number.injEq]
  constructor
  · intro h
    rw [← h] at hn
    exact ⟨Double.ofInt m.toInt, hm, hn⟩
  · intro h
    obtain ⟨x, hxm, hxn⟩ := h
    rw [hm.unique hxm, hn.unique hxn]

theorem eq_of_int_eq_int {m n : Int64} (hm : |m.toInt| ≤ 9007199254740992)
    (hn : |n.toInt| ≤ 9007199254740992) (h : Value.int m = .int n) : m = n := by
  have hback : readBack m = readBack n := by
    rw [Value.int, Value.int, Value.number.injEq] at h
    have hrounded := Double.toRat_ofInt (natAbs_toInt_le m)
    rw [h, Double.toRat_ofInt (natAbs_toInt_le n), Int.cast_inj] at hrounded
    rw [readBack, readBack, hrounded]
  rwa [readBack_of_abs_le hm, readBack_of_abs_le hn] at hback

end Sent

namespace Invocation

variable (i : Invocation)

theorem form_cases :
    (i.mode.form = .describe ∧ i.sql = []) ∨
    (i.mode.form = .single ∧ i.sql ≠ [] ∧ i.extraSqls = []) ∨
    (i.mode.form = .batch ∧ i.sql ≠ [] ∧ i.extraSqls ≠ []) := by
  by_cases hsql : i.sql = []
  · simp [mode, hsql, Mode.form]
  · by_cases hextra : i.extraSqls = [] <;> simp [mode, hsql, hextra, Mode.form]

theorem extraSqls_eq_nil (h : i.mode.form = .single) : i.extraSqls = [] := by
  obtain ⟨hform, -⟩ | ⟨-, -, hextra⟩ | ⟨hform, -⟩ := i.form_cases
  · simp [hform] at h
  · exact hextra
  · simp [hform] at h

end Invocation

def Invocation.firstArgs (i : Invocation) : Record :=
  match i.mode.form with
  | .describe => [(Key.facets, .list [.string Key.detail]), (Key.kind, .string i.kind)]
  | .single =>
    [(Key.convert, .bool true), (Key.hintId, .int i.hintId), (Key.kind, .string i.kind),
      (Key.sql, .string i.sql)]
  | .batch =>
    [(Key.convert, .bool true), (Key.hintId, .int i.hintId), (Key.kind, .string i.kind),
      (Key.sqls, .list ((i.sql :: i.extraSqls).map .string))]

def firstCall (service : Option Text) (i : Invocation) : Call :=
  ⟨i.mode.form.operation, i.firstArgs, service⟩

namespace Plan

/-- Every dispatch begins with the call of its form, and ends there if that call fails. -/
theorem exists_dispatch_eq_call (i : Invocation) :
    ∃ go, dispatch i = .call i.mode.form.operation i.firstArgs go ∧
      ∀ s, go (.error s) = .done (.error (.remote s)) := by
  rw [dispatch, Invocation.firstArgs, Invocation.mode]
  by_cases hsql : i.sql = []
  · rw [if_pos hsql]
    exact ⟨_, rfl, fun _ => rfl⟩
  · by_cases hextra : i.extraSqls = []
    · rw [if_neg hsql, if_pos hextra]
      exact ⟨_, rfl, fun _ => rfl⟩
    · rw [if_neg hsql, if_neg hextra]
      exact ⟨_, rfl, fun _ => rfl⟩

theorem head?_made_dispatch (channel : Channel) (i : Invocation) (script : Script) :
    ((dispatch i).run channel script).made.head? = some (firstCall channel.service i) := by
  obtain ⟨go, hplan, -⟩ := exists_dispatch_eq_call i
  rw [hplan, run]
  rfl

end Plan

theorem Form.operation_inj {f g : Form} : f.operation = g.operation ↔ f = g := by
  constructor
  · cases f <;> cases g <;> decide
  · intro h
    rw [h]

theorem firstArgs_eq_iff {i j : Invocation} (hsame : i.mode.form = j.mode.form) :
    i.firstArgs = j.firstArgs ↔ i.AsksAs j := by
  rw [Invocation.firstArgs, Invocation.firstArgs, ← hsame]
  cases hform : i.mode.form with
  | describe =>
    simp only [List.cons.injEq, Prod.mk.injEq, Value.string.injEq, true_and, and_true]
    constructor
    · intro hkind
      exact ⟨hsame, hkind, fun hne => absurd hform hne, fun hne => absurd hform hne⟩
    · intro h
      exact h.kind
  | single =>
    have hne : i.mode.form ≠ .describe := by simp [hform]
    have hi := i.extraSqls_eq_nil hform
    have hj := j.extraSqls_eq_nil (hsame ▸ hform)
    simp only [List.cons.injEq, Prod.mk.injEq, Value.string.injEq, int_eq_int_iff, true_and,
      and_true]
    constructor
    · intro h
      obtain ⟨hhint, hkind, hsql⟩ := h
      exact ⟨hsame, hkind, fun _ => by rw [hsql, hi, hj], fun _ => hhint⟩
    · intro h
      exact ⟨h.hint hne, h.kind, (List.cons.inj (h.statements hne)).1⟩
  | batch =>
    have hne : i.mode.form ≠ .describe := by simp [hform]
    simp only [List.cons.injEq, Prod.mk.injEq, Value.string.injEq, Value.list.injEq,
      int_eq_int_iff, texts_inj, true_and, and_true]
    constructor
    · intro h
      obtain ⟨hhint, hkind, hsql, hextra⟩ := h
      exact ⟨hsame, hkind, fun _ => by rw [hsql, hextra], fun _ => hhint⟩
    · intro h
      exact ⟨h.hint hne, h.kind, List.cons.inj (h.statements hne)⟩

theorem sameRequest_iff (service service' : Option Text) (i j : Invocation) :
    (firstCall service i).SameRequest (firstCall service' j) ↔ i.AsksAs j := by
  constructor
  · intro h
    exact (firstArgs_eq_iff (Form.operation_inj.mp h.operation)).mp h.args
  · intro h
    exact ⟨congrArg Form.operation h.form, (firstArgs_eq_iff h.form).mpr h⟩

theorem Invocation.AsksAs.eq {i j : Invocation} (h : i.AsksAs j) (hne : i.mode.form ≠ .describe)
    (hi : |i.hintId.toInt| ≤ 9007199254740992) (hj : |j.hintId.toInt| ≤ 9007199254740992) :
    i = j := by
  have hhint := eq_of_int_eq_int hi hj (int_eq_int_iff.mpr (h.hint hne))
  obtain ⟨hsql, hextra⟩ := List.cons.inj (h.statements hne)
  cases i
  cases j
  rw [Invocation.mk.injEq]
  exact ⟨h.kind, hhint, hsql, hextra⟩

/-- The first calls of two invocations are the same request exactly if the invocations ask for the
same thing, whatever is answered and whatever the calls go over. -/
theorem Plan.first_requests (channel channel' : Channel) (script script' : Script)
    (i j : Invocation) :
    ∃ c d, ((dispatch i).run channel script).made.head? = some c ∧
      ((dispatch j).run channel' script').made.head? = some d ∧
      (c.SameRequest d ↔ i.AsksAs j) ∧
      (i.mode.form ≠ .describe → j.mode.form ≠ .describe →
        |i.hintId.toInt| ≤ 9007199254740992 → |j.hintId.toInt| ≤ 9007199254740992 →
        c.SameRequest d → i = j) := by
  have hi := head?_made_dispatch channel i script
  have hj := head?_made_dispatch channel' j script'
  have hsame := sameRequest_iff channel.service channel'.service i j
  refine ⟨_, _, hi, hj, hsame, ?_⟩
  intro hne _ hibound hjbound h
  exact (hsame.mp h).eq hne hibound hjbound

end QueryConsole
