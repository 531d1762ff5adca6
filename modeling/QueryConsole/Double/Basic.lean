import QueryConsole.Numeral

/-!
Binary floating-point numbers of 64 bits, given by their bits. Every finite one is a whole multiple
of 2^-1074, so its value is kept as the number of these units, and rounding and comparing are done
on naturals. Conversion from an integer goes to the nearest number and, of two that are equally
near, to the one with an even significand.
-/

set_option autoImplicit false

namespace QueryConsole

structure Double where
  bits : UInt64
  deriving DecidableEq, Repr

namespace Double

def word (x : Double) : Nat := x.bits.toNat

def negative (x : Double) : Bool := Nat.pow 2 63 ≤ x.word

def exponentField (x : Double) : Nat := x.word / Nat.pow 2 52 % Nat.pow 2 11

def fraction (x : Double) : Nat := x.word % Nat.pow 2 52

def isFinite (x : Double) : Bool := x.exponentField ≠ 2047

def isNaN (x : Double) : Bool := x.exponentField = 2047 ∧ x.fraction ≠ 0

/-- The significand of a normal number has a leading one that is not stored. -/
def significand (x : Double) : Nat :=
  if x.exponentField = 0 then x.fraction else Nat.pow 2 52 + x.fraction

/-- The step from one number to the next is 2^shift units. -/
def shift (x : Double) : Nat := x.exponentField - 1

/-- The units in one. -/
def one : Nat := Nat.pow 2 1074

def units (x : Double) : Nat := x.significand * Nat.pow 2 x.shift

/-- The quotient as the nearest whole number, the even one of two that are equally near. -/
def roundEven (a b : Nat) : Nat :=
  let q := a / b
  let r := a % b
  if 2 * r < b then q
  else if b < 2 * r then q + 1
  else if q % 2 = 0 then q
  else q + 1

/-- The double nearest to the ratio of two naturals. Since the significand takes the place above the
exponent's when rounding carries, the two are simply added. -/
def ofRatio (negative : Bool) (num den : Nat) : Double :=
  let u := num * one
  let shift := (u / den).log2 - 52
  let magnitude := shift * Nat.pow 2 52 + roundEven u (den * Nat.pow 2 shift)
  ⟨UInt64.ofNat ((if negative then Nat.pow 2 63 else 0) + min magnitude (2047 * Nat.pow 2 52))⟩

def ofInt (n : Int) : Double := ofRatio (n < 0) n.natAbs 1

def toInt? (x : Double) : Option Int :=
  if x.isFinite ∧ x.units % one = 0 then
    some (if x.negative then -(x.units / one : Nat) else (x.units / one : Nat))
  else none

def exactLimit : Nat := Nat.pow 2 53

end Double

end QueryConsole
