import QueryConsole.Double.Basic

/-!
The shortest decimal that reads back to a given double. The decimals with one exponent form a grid.
Grids are tried from the coarsest to the finest, and the first one with a point that rounds to the
double gives the fewest digits. Of the points of that grid the one nearest to the double is taken,
and the upper one of two that are equally near.
-/

set_option autoImplicit false

namespace QueryConsole.Double

/-- The number `digits` times ten to the power of `exponent`. -/
structure Decimal where
  digits : Nat
  exponent : Int
  deriving DecidableEq, Repr

/-- The number below has half the usual distance where the exponent changes. -/
def narrowBelow (x : Double) : Bool := x.fraction = 0 ∧ 1 < x.exponentField

/-- Four times the least magnitude that may round to `x`, in units. -/
def lowest (x : Double) : Nat :=
  4 * x.units - (if x.narrowBelow then 1 else 2) * Nat.pow 2 x.shift

def highest (x : Double) : Nat := 4 * x.units + 2 * Nat.pow 2 x.shift

def tensBelow (e : Int) : Nat := Nat.pow 10 (-e).toNat

def tensAbove (e : Int) : Nat := one * Nat.pow 10 e.toNat

/-- A decimal midway between two doubles rounds to the even one. -/
def readsBack (x : Double) (e : Int) (d : Nat) : Bool :=
  let point := 4 * (d * tensAbove e)
  if x.significand % 2 = 0 then
    x.lowest * tensBelow e ≤ point ∧ point ≤ x.highest * tensBelow e
  else
    x.lowest * tensBelow e < point ∧ point < x.highest * tensBelow e

def pointOn? (x : Double) (e : Int) : Option Nat :=
  let a := x.units * tensBelow e
  let b := tensAbove e
  let d := a / b
  let r := a % b
  match x.readsBack e d, x.readsBack e (d + 1) with
  | true, true => if 2 * r < b then some d else some (d + 1)
  | true, false => some d
  | false, true => some (d + 1)
  | false, false => none

/-- An exponent whose grid is too coarse to have a point other than zero near `x`. -/
def coarseExponent (x : Double) : Int :=
  let l : Int := Int.ofNat x.units.log2 - 1073
  if 0 ≤ l then l / 3 + 1 else -(3 * (-l / 10))

/-- Tries the exponents from `n - 1074` downwards. The last grid holds every double. -/
def search (x : Double) : Nat → Decimal
  | 0 => ⟨x.units * Nat.pow 5 1074, -1074⟩
  | n + 1 =>
    match x.pointOn? ((n : Int) + 1 - 1074) with
    | some d => ⟨d, (n : Int) + 1 - 1074⟩
    | none => search x n

def shortest (x : Double) : Decimal := x.search (x.coarseExponent + 1074).toNat

end QueryConsole.Double
