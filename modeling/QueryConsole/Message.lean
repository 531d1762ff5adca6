import QueryConsole.Status.Basic
import QueryConsole.Value.Nesting
import QueryConsole.Value.Size

set_option autoImplicit false

namespace QueryConsole.Message

/-- The greatest size that can be given in front of a message. -/
def maxFrameSize : Nat := 4294967295

/-- The greatest size of a message that is read. -/
def maxSize : Nat := 4194304

def tooLarge (size : Nat) : Text :=
  "Error, decoded message length too large: found ".toList ++ Nat.toDigits 10 size ++
    " bytes, the limit is: ".toList ++ Nat.toDigits 10 maxSize ++ " bytes".toList

/-- Why a message with the record in the given field does not get through. The sender may not be
able to send it, and the reader looks at its size before what is in it. -/
def fault? (unsent : Status) (field : Text) (size : Nat) (r : Record) : Option Status :=
  if maxFrameSize < size then some unsent
  else if maxSize < size then some ⟨Status.outOfRange, tooLarge size⟩
  else r.tooDeep?.map fun path => ⟨Status.internal, path.report field⟩

end QueryConsole.Message
