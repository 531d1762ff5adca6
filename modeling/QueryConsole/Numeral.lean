import QueryConsole.Text

/-!
Decimal numerals of the bounded integer types: routing ids, ports and line widths. A numeral is read
from the left, and the first thing wrong with it is the fault that is reported.
-/

set_option autoImplicit false

namespace QueryConsole

structure Bounds where
  least : Int
  greatest : Int
  deriving DecidableEq, Repr

def Bounds.id : Bounds := ⟨-9223372036854775808, 9223372036854775807⟩
def Bounds.port : Bounds := ⟨0, 65535⟩
def Bounds.width : Bounds := ⟨0, 18446744073709551615⟩

def Bounds.clamp (b : Bounds) (n : Int) : Int := max b.least (min b.greatest n)

namespace Numeral

inductive Fault where
  | empty | invalidDigit | tooLarge | tooSmall
  deriving DecidableEq, Repr

def Fault.message : Fault → Text
  | .empty => "cannot parse integer from empty string".toList
  | .invalidDigit => "invalid digit found in string".toList
  | .tooLarge => "number too large to fit in target type".toList
  | .tooSmall => "number too small to fit in target type".toList

def ofNat (n : Nat) : Text := Nat.toDigits 10 n

def ofInt : Int → Text
  | .ofNat n => ofNat n
  | .negSucc n => '-' :: ofNat (n + 1)

def digit (c : Char) : Nat := c.toNat - '0'.toNat

/-- Reads digits on to what has been read. Numbers below zero grow downwards, so that the least
number of a type is in reach. A character that is no digit is reported before a number out of
bounds. -/
def readDigits (b : Bounds) (negative : Bool) (read : Int) : Text → Except Fault Int
  | [] => .ok read
  | c :: t =>
    if c.isDigit then
      let next := if negative then 10 * read - digit c else 10 * read + digit c
      if next > b.greatest then .error .tooLarge
      else if next < b.least then .error .tooSmall
      else readDigits b negative next t
    else .error .invalidDigit

def readSigned (b : Bounds) (negative : Bool) : Text → Except Fault Int
  | [] => .error .invalidDigit
  | c :: t => readDigits b negative 0 (c :: t)

/-- A minus sign belongs to the types with negative numbers; for the others it is no digit. -/
def read (b : Bounds) : Text → Except Fault Int
  | [] => .error .empty
  | c :: t =>
    if c = '+' then readSigned b false t
    else if c = '-' ∧ b.least < 0 then readSigned b true t
    else readDigits b false 0 (c :: t)

def readId (t : Text) : Except Fault Int64 := (read .id t).map Int64.ofInt
def readPort (t : Text) : Except Fault UInt16 := (read .port t).map fun n => UInt16.ofNat n.toNat
def readWidth (t : Text) : Except Fault UInt64 := (read .width t).map fun n => UInt64.ofNat n.toNat

end Numeral

end QueryConsole
