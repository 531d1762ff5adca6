import QueryConsole.Double.Written
import QueryConsole.Value.Basic
import QueryConsole.Value.Quoted

set_option autoImplicit false

namespace QueryConsole

def Value.trueText : Text := "True".toList
def Value.falseText : Text := "False".toList
def Value.nullText : Text := "None".toList

def keyText (k : Text) : Text := Quoted.write k ++ [':', ' ']

mutual
def Value.line : Value → Text
  | .unset => Value.nullText
  | .null => Value.nullText
  | .bool b => if b then Value.trueText else Value.falseText
  | .number x => x.text
  | .string s => Quoted.write s
  | .list vs => '[' :: Value.lineList vs ++ [']']
  | .record es => '\x7b' :: Value.lineEntries es ++ ['\x7d']

def Value.lineList : List Value → Text
  | [] => []
  | [v] => v.line
  | v :: w :: vs => v.line ++ ',' :: ' ' :: Value.lineList (w :: vs)

def Value.lineEntries : List (Text × Value) → Text
  | [] => []
  | [(k, v)] => keyText k ++ v.line
  | (k, v) :: e :: es => keyText k ++ v.line ++ ',' :: ' ' :: Value.lineEntries (e :: es)
end

end QueryConsole
