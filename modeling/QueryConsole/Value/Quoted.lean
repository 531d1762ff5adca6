import QueryConsole.Text

set_option autoImplicit false

namespace QueryConsole.Quoted

def quoteMark (s : Text) : Char := if '\'' ∈ s ∧ '"' ∉ s then '"' else '\''

def isControl (c : Char) : Bool := c.toNat < 32 ∨ c.toNat = 127

def hexPair (n : Nat) : Text := [(n / 16).digitChar, (n % 16).digitChar]

def escape (mark c : Char) : Text :=
  if c = '\\' then ['\\', '\\']
  else if c = '\n' then ['\\', 'n']
  else if c = '\r' then ['\\', 'r']
  else if c = '\t' then ['\\', 't']
  else if c = mark then ['\\', c]
  else if isControl c then '\\' :: 'x' :: hexPair c.toNat
  else [c]

def write (s : Text) : Text :=
  quoteMark s :: s.flatMap (escape (quoteMark s)) ++ [quoteMark s]

def hexValue? (c : Char) : Option Nat :=
  if c.isDigit then some (c.toNat - '0'.toNat)
  else if 'a' ≤ c ∧ c ≤ 'f' then some (c.toNat - 'a'.toNat + 10)
  else none

def readHexPair? (a b : Char) : Option Char := do
  let m ← hexValue? a
  let n ← hexValue? b
  some (Char.ofNat (16 * m + n))

def readEscape? (mark c : Char) : Option Char :=
  if c = '\\' then some '\\'
  else if c = 'n' then some '\n'
  else if c = 'r' then some '\r'
  else if c = 't' then some '\t'
  else if c = mark then some c
  else none

/-- Reads up to the closing quote; the result is the text and what follows the quote. -/
def readBody? (mark : Char) : Text → Option (Text × Text)
  | [] => none
  | c :: t =>
    if c = mark then some ([], t)
    else if c = '\\' then
      match t with
      | 'x' :: a :: b :: u => do
        let d ← readHexPair? a b
        let p ← readBody? mark u
        some (d :: p.1, p.2)
      | e :: u => do
        let d ← readEscape? mark e
        let p ← readBody? mark u
        some (d :: p.1, p.2)
      | [] => none
    else do
      let p ← readBody? mark t
      some (c :: p.1, p.2)

def read? : Text → Option (Text × Text)
  | [] => none
  | c :: t => if c = '\'' ∨ c = '"' then readBody? c t else none

end QueryConsole.Quoted
