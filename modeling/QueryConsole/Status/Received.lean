import QueryConsole.Status.Basic
import QueryConsole.Status.Utf8

/-!
A status as it arrives over a connection. Its message travels in a header, where a percent sign with
two hexadecimal digits behind it stands for a byte. The sender escapes what a header cannot hold but
leaves a percent sign as it is, so a message with such digits of its own arrives changed. Headers
that are too large do not arrive.
-/

set_option autoImplicit false

namespace QueryConsole

namespace Percent

def sign : UInt8 := 0x25

def hexDigit (n : Nat) : UInt8 := UInt8.ofNat (if n < 10 then 48 + n else 55 + n)

def hexValue? (b : UInt8) : Option Nat :=
  let n := b.toNat
  if 48 ≤ n ∧ n ≤ 57 then some (n - 48)
  else if 65 ≤ n ∧ n ≤ 70 then some (n - 55)
  else if 97 ≤ n ∧ n ≤ 102 then some (n - 87)
  else none

/-- The bytes that the sender escapes, among which the percent sign is not. -/
def isEscaped (b : UInt8) : Bool :=
  b.toNat < 0x20 ∨ 0x7f ≤ b.toNat ∨ b ∈ utf8 " \"#<>`?\x7b\x7d".toList

def encode (bytes : List UInt8) : List UInt8 :=
  bytes.flatMap fun b =>
    if isEscaped b then [sign, hexDigit (b.toNat / 16), hexDigit (b.toNat % 16)] else [b]

def byte? (a b : UInt8) : Option UInt8 := do
  let m ← hexValue? a
  let n ← hexValue? b
  some (UInt8.ofNat (16 * m + n))

/-- A percent sign without two digits behind it stands for itself. -/
def decode : List UInt8 → List UInt8
  | [] => []
  | [a] => [a]
  | [a, b] => [a, b]
  | a :: b :: c :: bs =>
    match if a = sign then byte? b c else none with
    | some d => d :: decode bs
    | none => a :: decode (b :: c :: bs)

end Percent

namespace Status

def headerSize (name : Text) (length : Nat) : Nat := name.length + length + 32

def sentMessage (s : Status) : List UInt8 := Percent.encode (utf8 s.message)

/-- The size of the headers in which a status is sent. The first three of them are in every answer,
and their values always have these lengths. -/
def headersSize (s : Status) : Nat :=
  headerSize ":status".toList 3 + headerSize "content-type".toList 16 +
    headerSize "date".toList 29 +
    headerSize "grpc-status".toList (Nat.toDigits 10 s.code.val).length +
    headerSize "grpc-message".toList s.sentMessage.length

def maxHeadersSize : Nat := 16384

def receivedMessage (s : Status) : Except Utf8.Fault Text :=
  Utf8.decode (Percent.decode s.sentMessage)

/-- A message that cannot be read takes the place of any code. A failure with the code of success is
noticed by the answer that it lacks. -/
def received (s : Status) : Status :=
  if maxHeadersSize ≤ s.headersSize then broken
  else
    match s.receivedMessage with
    | .error fault =>
      ⟨unknown, "Error deserializing status message header: ".toList ++ fault.message⟩
    | .ok message =>
      if s.code = success then ⟨internal, "Missing response message.".toList⟩
      else ⟨s.code, message⟩

end Status

end QueryConsole
