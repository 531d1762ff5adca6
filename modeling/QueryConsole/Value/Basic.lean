import QueryConsole.Double.Basic

/-!
Dynamic values, of which the arguments and the answers of a service are made. A record holds its
entries in increasing order of their keys, each key once. Entries that arrive in another order or
with repeated keys are brought into this form, the last entry of a key being the one that counts.
-/

set_option autoImplicit false

namespace QueryConsole

/-- A value may be sent with its kind left out, which is not the same as null. -/
inductive Value where
  | unset : Value
  | null : Value
  | bool : Bool → Value
  | number : Double → Value
  | string : Text → Value
  | list : List Value → Value
  | record : List (Text × Value) → Value

abbrev Record := List (Text × Value)

namespace Record

def insert (k : Text) (v : Value) : Record → Record
  | [] => [(k, v)]
  | (l, w) :: r =>
    if k < l then (k, v) :: (l, w) :: r
    else if k = l then (k, v) :: r
    else (l, w) :: insert k v r

/-- Entries of which a later one replaces an earlier one. -/
def ofList (entries : List (Text × Value)) : Record :=
  entries.foldl (fun r e => insert e.1 e.2 r) []

def get? (r : Record) (k : Text) : Option Value := r.lookup k

def keys (r : Record) : List Text := r.map Prod.fst

end Record

mutual
def Value.canon : Value → Value
  | .unset => .unset
  | .null => .null
  | .bool b => .bool b
  | .number x => .number x
  | .string s => .string s
  | .list vs => .list (Value.canonList vs)
  | .record es => .record (Record.ofList (Value.canonEntries es))

def Value.canonList : List Value → List Value
  | [] => []
  | v :: vs => v.canon :: Value.canonList vs

def Value.canonEntries : List (Text × Value) → List (Text × Value)
  | [] => []
  | (k, v) :: es => (k, v.canon) :: Value.canonEntries es
end

def Record.canon (r : Record) : Record := Record.ofList (Value.canonEntries r)

end QueryConsole
