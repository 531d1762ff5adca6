import QueryConsole.Proofs.Dispatch.Reported
import QueryConsole.Proofs.Double.Integer
import QueryConsole.Proofs.Value.Record

set_option autoImplicit false

namespace QueryConsole

/-- What becomes of the integer `n`: it is sent as `x`, which is the integer `k`, and comes back
as `m`. -/
structure ComesBack (n : Int64) (x : Double) (k : ℤ) (m : Int64) : Prop where
  sent : Value.int n = .number x
  nearest : x.Nearest n.toInt
  value : x.toRat = k
  saturated : m.toInt = max (-9223372036854775808) (min 9223372036854775807 k)
  read : ∀ (entries : List (Text × Value)) (key : Text), Record.Counts entries key (.int n) →
    (Record.ofList entries).int? key = .ok (some m)
  exact : |n.toInt| ≤ 9007199254740992 → m = n
  close : |m.toInt - n.toInt| ≤ 512
  again : Value.int m = Value.int n

theorem natAbs_toInt_le (n : Int64) : n.toInt.natAbs ≤ 9223372036854775808 := by
  have hlow := n.le_toInt
  have hhigh := n.toInt_lt
  omega

def readBack (n : Int64) : Int64 := Int64.ofInt (Bounds.id.clamp (Double.rounded n.toInt))

theorem toInt_readBack (n : Int64) :
    (readBack n).toInt =
      max (-9223372036854775808) (min 9223372036854775807 (Double.rounded n.toInt)) :=
  Record.toInt_ofInt_clamp _

theorem int?_of_counts {entries : List (Text × Value)} {key : Text} {n : Int64}
    (h : Record.Counts entries key (.int n)) :
    (Record.ofList entries).int? key = .ok (some (readBack n)) := by
  have hpresent : (Record.ofList entries).present? key = some (.int n) :=
    Record.present?_eq_some_iff.mpr ⟨Record.get?_ofList_eq_some_iff.mpr h, nofun⟩
  have hvalue := Double.toInt?_ofInt (natAbs_toInt_le n)
  exact Record.int?_eq_ok_iff.mpr (.inr ⟨_, _, hpresent, hvalue, rfl⟩)

/-- Rounding does not lead out of the range except for the number behind its upper end. -/
theorem rounded_mem_range (n : Int64) :
    -9223372036854775808 ≤ Double.rounded n.toInt ∧
      Double.rounded n.toInt ≤ 9223372036854775808 := by
  have hlow := n.le_toInt
  have hhigh := n.toInt_lt
  have hleast : Double.rounded (-9223372036854775808) = -9223372036854775808 := by decide
  have hgreatest : Double.rounded 9223372036854775807 = 9223372036854775808 := by decide
  constructor
  · rw [← hleast]
    exact Double.rounded_le_rounded (by decide) (natAbs_toInt_le n) hlow
  · rw [← hgreatest]
    exact Double.rounded_le_rounded (natAbs_toInt_le n) (by decide) (by omega)

theorem toInt_readBack_cases (n : Int64) :
    (readBack n).toInt = Double.rounded n.toInt ∨
      (readBack n).toInt = 9223372036854775807 ∧
        Double.rounded n.toInt = 9223372036854775808 := by
  obtain ⟨hlow, hhigh⟩ := rounded_mem_range n
  rw [toInt_readBack]
  omega

theorem readBack_le_readBack {n n' : Int64} (h : n ≤ n') : readBack n ≤ readBack n' := by
  have hle := Double.rounded_le_rounded (natAbs_toInt_le n) (natAbs_toInt_le n')
    (Int64.le_iff_toInt_le.mp h)
  rw [Int64.le_iff_toInt_le, toInt_readBack, toInt_readBack]
  omega

theorem abs_readBack_sub_le (n : Int64) : |(readBack n).toInt - n.toInt| ≤ 512 := by
  have hclose := abs_le.mp (Double.abs_rounded_sub_le (natAbs_toInt_le n))
  have hhigh := n.toInt_lt
  rw [abs_le]
  rcases toInt_readBack_cases n with h | ⟨h, hk⟩ <;> omega

theorem readBack_of_abs_le {n : Int64} (h : |n.toInt| ≤ 9007199254740992) : readBack n = n := by
  have hk := Double.rounded_of_natAbs_le (n := n.toInt) (by have := abs_le.mp h; omega)
  have hlow := n.le_toInt
  have hhigh := n.toInt_lt
  rw [← Int64.toInt_inj, toInt_readBack, hk]
  omega

theorem ofInt_readBack (n : Int64) :
    Double.ofInt (readBack n).toInt = Double.ofInt n.toInt := by
  have hround := Double.ofInt_rounded (natAbs_toInt_le n)
  rcases toInt_readBack_cases n with h | ⟨h, hk⟩
  · rw [h, hround]
  · have hend := Double.ofInt_rounded (n := 9223372036854775807) (by decide)
    have hgreatest : Double.rounded 9223372036854775807 = 9223372036854775808 := by decide
    rw [h, ← hend, hgreatest, ← hk, hround]

theorem comesBack_readBack (n : Int64) :
    ComesBack n (Double.ofInt n.toInt) (Double.rounded n.toInt) (readBack n) where
  sent := rfl
  nearest := Double.nearest_ofInt (natAbs_toInt_le n)
  value := Double.toRat_ofInt (natAbs_toInt_le n)
  saturated := toInt_readBack n
  read _ _ := int?_of_counts
  exact := readBack_of_abs_le
  close := abs_readBack_sub_le n
  again := by rw [Value.int, Value.int, ofInt_readBack]

/-- Each integer comes back as one that is close to it and is sent alike, and in the same order. -/
theorem integer_comes_back :
    (∀ n : Int64, ∃ x k m, ComesBack n x k m) ∧
    ∀ (n n' : Int64) (entries entries' : List (Text × Value)) (key key' : Text) (m m' : Int64),
      Record.Counts entries key (.int n) → Record.Counts entries' key' (.int n') → n ≤ n' →
      (Record.ofList entries).int? key = .ok (some m) →
      (Record.ofList entries').int? key' = .ok (some m') → m ≤ m' := by
  refine ⟨fun n => ⟨_, _, _, comesBack_readBack n⟩, ?_⟩
  intro n n' entries entries' key key' m m' hn hn' hle hm hm'
  rw [int?_of_counts hn, Except.ok.injEq, Option.some.injEq] at hm
  rw [int?_of_counts hn', Except.ok.injEq, Option.some.injEq] at hm'
  rw [← hm, ← hm']
  exact readBack_le_readBack hle

end QueryConsole
