import QueryConsole.Numeral

set_option autoImplicit false

namespace QueryConsole

structure Invocation where
  kind : Text
  hintId : Int64
  sql : Text
  extraSqls : List Text
  deriving DecidableEq, Repr

inductive Mode where
  | describe : Text → Mode
  | single : Text → Int64 → Text → Mode
  | batch : Text → Int64 → Text → List Text → Mode
  deriving DecidableEq, Repr

inductive ArgsFault where
  | usage : ArgsFault
  | invalidId : Text → Numeral.Fault → ArgsFault
  deriving DecidableEq, Repr

def ArgsFault.message : ArgsFault → Text
  | .usage => "not enough arguments".toList
  | .invalidId value fault => "invalid id `".toList ++ value ++ "`: ".toList ++ fault.message

namespace Invocation

/-- An empty first statement asks for a description, whatever follows it. -/
def mode (i : Invocation) : Mode :=
  if i.sql = [] then .describe i.kind
  else if i.extraSqls = [] then .single i.kind i.hintId i.sql
  else .batch i.kind i.hintId i.sql i.extraSqls

def looksLikeId : Text → Bool
  | [] => false
  | c :: _ => c.isDigit ∨ c = '-'

def readId (value : Text) : Except ArgsFault Int64 :=
  (Numeral.readId value).mapError (.invalidId value)

def resolve : List Text → Except ArgsFault Invocation
  | [] => .error .usage
  | [kind] => .ok ⟨kind, 0, [], []⟩
  | first :: second :: rest =>
    if looksLikeId first then
      (readId first).map fun id => ⟨[], id, second, rest⟩
    else
      match rest with
      | [] => .error .usage
      | sql :: extra => (readId second).map fun id => ⟨first, id, sql, extra⟩

def usage (program : Text) : Text :=
  "usage: ".toList ++ program ++ " <kind> <id> <sql> ...\n".toList ++
  "usage: ".toList ++ program ++ " <id> <sql> ...\n".toList ++
  "usage: ".toList ++ program ++ " <kind>\n".toList

end Invocation

end QueryConsole
