import QueryConsole.Text

/-!
Text for a terminal, with the sequences in it that set colours or give other orders and are not
shown. A sequence begins with the escape character, and a new one may begin anywhere. Blanks show
even within the short sequences, which they end.
-/

set_option autoImplicit false

namespace QueryConsole.Terminal

def escapeChar : Char := '\x1b'

def bold : Nat := 1
def red : Nat := 31
def yellow : Nat := 33

def order (style : Nat) : Text := escapeChar :: '[' :: Nat.toDigits 10 style ++ ['m']

def styled (styles : List Nat) (t : Text) : Text := styles.flatMap order ++ t ++ order 0

inductive State where
  | ground
  | escape
  /-- An escape character and blanks or marks, which one more character completes. -/
  | intermediate
  | control
  | command
  /-- Data, which nothing but a new sequence or a cancellation ends. -/
  | data
  deriving DecidableEq, Repr

/-- The state behind a character of a sequence that is neither a control character nor beyond
ASCII. -/
def State.next (c : Char) : State → State
  | .ground => .ground
  | .escape =>
    if c = '[' then .control
    else if c = ']' then .command
    else if c ∈ "PX^_".toList then .data
    else if c.toNat < 0x30 then .intermediate
    else .ground
  | .intermediate => if c.toNat < 0x30 then .intermediate else .ground
  | .control => if c.toNat < 0x40 then .control else .ground
  | .command => .command
  | .data => .data

def isBlankControl (c : Char) : Bool := c = '\t' ∨ c = '\n' ∨ c = '\x0c' ∨ c = '\r'

def isControl (c : Char) : Bool := c.toNat < 0x20 ∨ c.toNat = 0x7f

def cancels (c : Char) : Bool := c = '\x18' ∨ c = '\x1a'

def State.step (s : State) (c : Char) : State × Bool :=
  if c = escapeChar then (.escape, false)
  else if cancels c then (.ground, false)
  else if 0x80 ≤ c.toNat then (.ground, true)
  else
    match s with
    | .ground => (.ground, isBlankControl c || ! isControl c)
    | .command => (if c = '\x07' then .ground else .command, false)
    | .data => (.data, false)
    | s =>
      if isBlankControl c then (.ground, true)
      else if isControl c then (s, false)
      else (s.next c, false)

def plainFrom : State → Text → Text
  | _, [] => []
  | s, c :: t =>
    if (s.step c).2 then c :: plainFrom (s.step c).1 t else plainFrom (s.step c).1 t

def plain (t : Text) : Text := plainFrom .ground t

end QueryConsole.Terminal
