import QueryConsole.Value.Basic

/-!
The sizes of values in a message. A message is made of parts, each of which stands behind a byte for
its tag and behind its length. What says nothing is left out: an empty name, and a value of no kind
in an entry.
-/

set_option autoImplicit false

namespace QueryConsole

namespace Message

/-- A number is sent in groups of seven bits. -/
def varintSize (n : Nat) : Nat := n.log2 / 7 + 1

def partSize (length : Nat) : Nat := 1 + varintSize length + length

def nameSize (t : Text) : Nat := if t = [] then 0 else partSize (utf8 t).length

end Message

open Message

mutual
def Value.size : Value → Nat
  | .unset => 0
  | .null => 2
  | .bool _ => 2
  | .number _ => 9
  | .string s => partSize (utf8 s).length
  | .list vs => partSize (Value.elementSizes vs)
  | .record es => partSize (Value.entrySizes es)

def Value.elementSizes : List Value → Nat
  | [] => 0
  | v :: vs => partSize v.size + Value.elementSizes vs

def Value.entrySizes : List (Text × Value) → Nat
  | [] => 0
  | (k, .unset) :: es => partSize (nameSize k) + Value.entrySizes es
  | (k, v) :: es => partSize (nameSize k + partSize v.size) + Value.entrySizes es
end

def Record.size (r : Record) : Nat := partSize (Value.entrySizes r)

end QueryConsole
