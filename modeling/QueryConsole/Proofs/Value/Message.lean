import Mathlib.Data.Nat.Log
import QueryConsole.Value.Size

/-!
The messages in which values are sent. A part of a message begins with a byte for the number of its
field and for its form, which tells where it ends. A form of two is a varint for the length of what
follows, and then as many bytes.
-/

set_option autoImplicit false

namespace QueryConsole

/-- The bytes of a double, the lowest first. -/
def Double.bytes (x : Double) : List UInt8 :=
  (List.range 8).map fun k => UInt8.ofNat (x.word / Nat.pow 256 k)

namespace Message

/-- Every byte but the last has its highest bit set. The lowest bits of the number stand first. -/
def varint (n : Nat) : List UInt8 :=
  if n < 128 then [UInt8.ofNat n] else UInt8.ofNat (n % 128 + 128) :: varint (n / 128)

def tag (field form : Nat) : UInt8 := UInt8.ofNat (8 * field + form)

def part (field : Nat) (bytes : List UInt8) : List UInt8 :=
  tag field 2 :: varint bytes.length ++ bytes

def name (field : Nat) (t : Text) : List UInt8 := if t = [] then [] else part field (utf8 t)

end Message

open Message

mutual
def Value.message : Value → List UInt8
  | .unset => []
  | .null => [tag 1 0, 0]
  | .number x => tag 2 1 :: x.bytes
  | .string s => part 3 (utf8 s)
  | .bool b => [tag 4 0, if b then 1 else 0]
  | .record es => part 5 (Value.entryMessages es)
  | .list vs => part 6 (Value.elementMessages vs)

def Value.elementMessages : List Value → List UInt8
  | [] => []
  | v :: vs => part 1 v.message ++ Value.elementMessages vs

def Value.entryMessages : List (Text × Value) → List UInt8
  | [] => []
  | (k, .unset) :: es => part 1 (name 1 k) ++ Value.entryMessages es
  | (k, v) :: es => part 1 (name 1 k ++ part 2 v.message) ++ Value.entryMessages es
end

/-- A record as the field of a message. -/
def Record.message (field : Nat) (r : Record) : List UInt8 := part field (Value.entryMessages r)

theorem Double.length_bytes (x : Double) : x.bytes.length = 8 := by
  rw [Double.bytes, List.length_map, List.length_range]

namespace Message

theorem varintSize_of_lt {n : Nat} (h : n < 128) : varintSize n = 1 := by
  have hlog : n.log2 < 7 := by
    by_cases hzero : n = 0
    · subst hzero
      decide
    · exact (Nat.log2_lt hzero).mpr h
  rw [varintSize, Nat.div_eq_of_lt hlog]

theorem varintSize_of_ge {n : Nat} (h : 128 ≤ n) : varintSize n = varintSize (n / 128) + 1 := by
  have hlog : 7 ≤ n.log2 := (Nat.le_log2 (by omega)).mpr h
  have hrest : (n / 128).log2 = n.log2 - 7 := by
    rw [Nat.log2_eq_log_two, Nat.log2_eq_log_two]
    exact Nat.log_div_base_pow 2 n 7
  rw [varintSize, varintSize, hrest]
  omega

theorem length_varint (n : Nat) : (varint n).length = varintSize n := by
  induction n using varint.induct with
  | case1 n h => rw [varint, if_pos h, varintSize_of_lt h, List.length_singleton]
  | case2 n h ih =>
    rw [varint, if_neg h, varintSize_of_ge (Nat.not_lt.mp h), List.length_cons, ih]

theorem length_part (field : Nat) (bytes : List UInt8) :
    (part field bytes).length = partSize bytes.length := by
  rw [part, List.length_append, List.length_cons, length_varint, partSize]
  omega

theorem length_name (field : Nat) (t : Text) : (name field t).length = nameSize t := by
  rw [name, nameSize]
  split
  · rfl
  · exact length_part field (utf8 t)

end Message

mutual
theorem Value.length_message : (v : Value) → v.message.length = v.size
  | .unset | .null | .bool _ => rfl
  | .number x => by rw [Value.message, List.length_cons, x.length_bytes, Value.size]
  | .string s => by rw [Value.message, length_part, Value.size]
  | .record es => by rw [Value.message, length_part, Value.length_entryMessages es, Value.size]
  | .list vs => by rw [Value.message, length_part, Value.length_elementMessages vs, Value.size]

theorem Value.length_elementMessages :
    (vs : List Value) → (Value.elementMessages vs).length = Value.elementSizes vs
  | [] => rfl
  | v :: vs => by
    rw [Value.elementMessages, List.length_append, length_part, v.length_message,
      Value.length_elementMessages vs, Value.elementSizes]

theorem Value.length_entryMessages :
    (es : List (Text × Value)) → (Value.entryMessages es).length = Value.entrySizes es
  | [] => rfl
  | (k, v) :: es => by
    have hv := v.length_message
    have hes := Value.length_entryMessages es
    cases v with
    | unset =>
      rw [Value.entryMessages, List.length_append, length_part, length_name, hes, Value.entrySizes]
    | _ =>
      simp only [Value.entryMessages, Value.entrySizes]
      rw [List.length_append, length_part, List.length_append, length_name, length_part, hv, hes]
end

theorem Record.length_message (field : Nat) (r : Record) :
    (Record.message field r).length = r.size := by
  rw [Record.message, length_part, Value.length_entryMessages, Record.size]

end QueryConsole
