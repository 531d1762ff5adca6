import QueryConsole.Text

set_option autoImplicit false

namespace QueryConsole.Utf8

inductive Fault where
  /-- So many bytes from the index on begin no character. -/
  | invalid : Nat → Nat → Fault
  | incomplete : Nat → Fault
  deriving DecidableEq, Repr

def Fault.message : Fault → Text
  | .invalid length index =>
    "invalid utf-8 sequence of ".toList ++ Nat.toDigits 10 length ++ " bytes from index ".toList ++
      Nat.toDigits 10 index
  | .incomplete index =>
    "incomplete utf-8 byte sequence from index ".toList ++ Nat.toDigits 10 index

/-- A character of which more bytes are to come: its value and length so far, how many bytes are
still missing, and the range of the next one. -/
structure Pending where
  value : Nat
  length : Nat
  missing : Nat
  least : Nat
  greatest : Nat
  deriving DecidableEq, Repr

def lead? (b : Nat) : Option Pending :=
  if 0xC2 ≤ b ∧ b ≤ 0xDF then some ⟨b - 0xC0, 1, 1, 0x80, 0xBF⟩
  else if b = 0xE0 then some ⟨0, 1, 2, 0xA0, 0xBF⟩
  else if b = 0xED then some ⟨0xD, 1, 2, 0x80, 0x9F⟩
  else if 0xE1 ≤ b ∧ b ≤ 0xEF then some ⟨b - 0xE0, 1, 2, 0x80, 0xBF⟩
  else if b = 0xF0 then some ⟨0, 1, 3, 0x90, 0xBF⟩
  else if 0xF1 ≤ b ∧ b ≤ 0xF3 then some ⟨b - 0xF0, 1, 3, 0x80, 0xBF⟩
  else if b = 0xF4 then some ⟨4, 1, 3, 0x80, 0x8F⟩
  else none

def decodeFrom (index : Nat) : Option Pending → List UInt8 → Except Fault Text
  | none, [] => .ok []
  | some p, [] => .error (.incomplete (index - p.length))
  | none, b :: bs =>
    if b.toNat < 0x80 then (decodeFrom (index + 1) none bs).map (Char.ofNat b.toNat :: ·)
    else
      match lead? b.toNat with
      | none => .error (.invalid 1 index)
      | some p => decodeFrom (index + 1) (some p) bs
  | some p, b :: bs =>
    if p.least ≤ b.toNat ∧ b.toNat ≤ p.greatest then
      let value := 64 * p.value + (b.toNat - 0x80)
      if p.missing = 1 then (decodeFrom (index + 1) none bs).map (Char.ofNat value :: ·)
      else decodeFrom (index + 1) (some ⟨value, p.length + 1, p.missing - 1, 0x80, 0xBF⟩) bs
    else .error (.invalid p.length (index - p.length))

def decode (bytes : List UInt8) : Except Fault Text := decodeFrom 0 none bytes

end QueryConsole.Utf8
