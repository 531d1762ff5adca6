import QueryConsole.Value.Nesting

set_option autoImplicit false

namespace QueryConsole

mutual
def Value.levels : Value → Nat
  | .list vs => Value.elementLevels vs + 1
  | .record es => Value.entryLevels es + 1
  | .unset => 0
  | .null => 0
  | .bool _ => 0
  | .number _ => 0
  | .string _ => 0

def Value.elementLevels : List Value → Nat
  | [] => 0
  | v :: vs => max (v.levels + 1) (Value.elementLevels vs)

/-- An entry is a level, and so is the value in it, if there is one. -/
def Value.entryLevels : List (Text × Value) → Nat
  | [] => 0
  | (_, .unset) :: es => max 1 (Value.entryLevels es)
  | (_, v) :: es => max (v.levels + 2) (Value.entryLevels es)
end

def Record.levels (r : Record) : Nat := Value.entryLevels r + 1

namespace Nesting

theorem descend_eq_none_iff (levels : Nat) {inside : Nat → Option Path} {depth : Nat}
    (h : ∀ left, inside left = none ↔ depth ≤ left) :
    descend levels inside = none ↔ depth + 1 ≤ levels := by
  cases levels with
  | zero => simp [descend]
  | succ left =>
    rw [descend, h]
    omega

end Nesting

open Nesting

mutual
theorem Value.tooDeep?_eq_none_iff :
    (v : Value) → (levels : Nat) → (v.tooDeep? levels = none ↔ v.levels ≤ levels)
  | .unset, _ | .null, _ | .bool _, _ | .number _, _ | .string _, _ => by
    simp [Value.tooDeep?, Value.levels]
  | .list vs, levels => by
    rw [Value.tooDeep?, Option.map_eq_none_iff, Value.levels]
    exact descend_eq_none_iff levels (Value.elementTooDeep?_eq_none_iff vs)
  | .record es, levels => by
    rw [Value.tooDeep?, Option.map_eq_none_iff, Value.levels]
    exact descend_eq_none_iff levels (Value.entryTooDeep?_eq_none_iff es)

theorem Value.elementTooDeep?_eq_none_iff :
    (vs : List Value) → (levels : Nat) →
      (Value.elementTooDeep? levels vs = none ↔ Value.elementLevels vs ≤ levels)
  | [], _ => by simp [Value.elementTooDeep?, Value.elementLevels]
  | v :: vs, levels => by
    have hv := descend_eq_none_iff levels (Value.tooDeep?_eq_none_iff v)
    have hvs := Value.elementTooDeep?_eq_none_iff vs levels
    rw [Value.elementTooDeep?, Value.elementLevels, Nat.max_le, ← hv, ← hvs]
    cases descend levels fun left => v.tooDeep? left with
    | none => simp
    | some path => simp

theorem Value.entryTooDeep?_eq_none_iff :
    (es : List (Text × Value)) → (levels : Nat) →
      (Value.entryTooDeep? levels es = none ↔ Value.entryLevels es ≤ levels)
  | [], _ => by simp [Value.entryTooDeep?, Value.entryLevels]
  | (_, v) :: es, levels => by
    have hes := Value.entryTooDeep?_eq_none_iff es levels
    have hunset : descend levels (fun _ => none) = none ↔ 0 + 1 ≤ levels :=
      descend_eq_none_iff levels fun left => by simp
    have hv := descend_eq_none_iff levels fun left =>
      descend_eq_none_iff left (Value.tooDeep?_eq_none_iff v)
    cases v with
    | unset =>
      rw [Value.entryTooDeep?, Value.entryLevels, Nat.max_le, ← hes, ← Nat.zero_add 1, ← hunset]
      cases descend levels fun _ => none with
      | none => simp
      | some path => simp
    | _ =>
      simp only [Value.entryTooDeep?, Value.entryLevels]
      rw [Nat.max_le, ← hes, ← hv]
      generalize (descend levels fun left => descend left _) = found
      cases found with
      | none => simp
      | some path => simp
end

theorem Record.tooDeep?_eq_none_iff (r : Record) : r.tooDeep? = none ↔ r.levels ≤ maxLevels :=
  descend_eq_none_iff maxLevels (Value.entryTooDeep?_eq_none_iff r)

end QueryConsole
