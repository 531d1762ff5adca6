import QueryConsole.Address.Basic

/-!
Whether an address makes a valid URI. The part behind the scheme is an authority up to the first
slash, question mark or number sign. From there on it is a path, which a question mark ends and a
query follows; a number sign ends either of them, and what stands behind it is not looked at. An
authority has characters of the URI character set only, at most one bracketed host, and outside of
it at most one colon, the one before the port.
-/

set_option autoImplicit false

namespace QueryConsole.Uri

def endsAuthority (c : Char) : Bool := c = '/' ∨ c = '?' ∨ c = '#'

def isUriChar (c : Char) : Bool := c.isAlphanum ∨ c ∈ "-._~:/?#[]@!$&'()*+,;=".toList

def isVisible (c : Char) : Bool := 0x20 < c.toNat ∧ c.toNat ≠ 0x7f

/-- Most characters that ought to be escaped may be sent as they are. -/
def isPathChar (c : Char) : Bool := isVisible c ∧ c ∉ "<>`".toList

def isQueryChar (c : Char) : Bool := isVisible c ∧ c ∉ "<>\"".toList

def isQuery (t : Text) : Bool := (t.takeWhile (· ≠ '#')).all isQueryChar

def isPath : Text → Bool
  | [] => true
  | c :: t =>
    if c = '#' then true
    else if c = '?' then isQuery t
    else isPathChar c && isPath t

/-- As many colons as a bracketed host with a port can have. -/
def maxColons : Nat := 8

structure Seen where
  colons : Nat
  opened : Bool
  closed : Bool
  percent : Bool
  deriving DecidableEq, Repr

def Seen.nothing : Seen := ⟨0, false, false, false⟩

/-- Colons and escapes count only behind the user's name and outside the brackets. -/
def Seen.step? (s : Seen) (c : Char) : Option Seen :=
  if c = ':' then if s.colons < maxColons then some { s with colons := s.colons + 1 } else none
  else if c = '[' then if s.percent ∨ s.opened then none else some { s with opened := true }
  else if c = ']' then
    if s.opened ∧ ¬ s.closed then some ⟨0, true, true, false⟩ else none
  else if c = '@' then some { s with colons := 0, percent := false }
  else if c = '%' then some { s with percent := true }
  else if isUriChar c then some s
  else none

def Seen.complete (s : Seen) : Bool := s.opened = s.closed ∧ s.colons ≤ 1 ∧ ¬ s.percent

def isAuthority (t : Text) : Bool :=
  t ≠ [] && t.getLast? ≠ some '@' && (t.foldlM Seen.step? Seen.nothing).any Seen.complete

def isHierarchy (t : Text) : Bool :=
  isAuthority (t.takeWhile (! endsAuthority ·)) && isPath (t.dropWhile (! endsAuthority ·))

def maxLength : Nat := 65534

end QueryConsole.Uri

namespace QueryConsole

def Address.hasValidUri (a : Address) : Bool :=
  (utf8 a.uri).length ≤ Uri.maxLength && Uri.isHierarchy a.authority

end QueryConsole
