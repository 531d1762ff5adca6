import QueryConsole.Value.Basic

/-!
How deep values may nest in a message. A message is made of parts within parts: a record has
entries, an entry has a value, and a value may be a list or a record in its turn. The reader of a
message goes down a limited number of levels and refuses a message that has parts below them. It
reports the way up from the first such part.
-/

set_option autoImplicit false

namespace QueryConsole

namespace Nesting

inductive Part where
  | content
  | element
  /-- An entry of a record, or the value in an entry, which is a level below. -/
  | entry
  deriving DecidableEq, Repr

def Part.title : Part → Text
  | .content => "Value.kind".toList
  | .element => "ListValue.values".toList
  | .entry => "Struct.fields".toList

abbrev Path := List Part

def descend (levels : Nat) (inside : Nat → Option Path) : Option Path :=
  match levels with
  | 0 => some []
  | left + 1 => inside left

def maxLevels : Nat := 100

def Path.report (field : Text) (path : Path) : Text :=
  "failed to decode Protobuf message: ".toList ++
    path.reverse.flatMap (fun part => part.title ++ ": ".toList) ++
    field ++ ": recursion limit reached".toList

end Nesting

open Nesting

mutual
def Value.tooDeep? (levels : Nat) : Value → Option Path
  | .list vs =>
    (descend levels fun left => Value.elementTooDeep? left vs).map (Part.content :: ·)
  | .record es =>
    (descend levels fun left => Value.entryTooDeep? left es).map (Part.content :: ·)
  | .unset => none
  | .null => none
  | .bool _ => none
  | .number _ => none
  | .string _ => none

def Value.elementTooDeep? (levels : Nat) : List Value → Option Path
  | [] => none
  | v :: vs =>
    match descend levels fun left => v.tooDeep? left with
    | some path => some (.element :: path)
    | none => Value.elementTooDeep? levels vs

/-- A value of no kind is left out of its entry. -/
def Value.entryTooDeep? (levels : Nat) : List (Text × Value) → Option Path
  | [] => none
  | (_, .unset) :: es =>
    match descend levels fun _ => none with
    | some path => some (.entry :: path)
    | none => Value.entryTooDeep? levels es
  | (_, v) :: es =>
    match descend levels fun left => descend left fun left => v.tooDeep? left with
    | some path => some (.entry :: path)
    | none => Value.entryTooDeep? levels es
end

/-- A record in a message takes up a level itself. -/
def Record.tooDeep? (r : Record) : Option Path :=
  descend maxLevels fun left => Value.entryTooDeep? left r

end QueryConsole
