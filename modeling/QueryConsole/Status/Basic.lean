import QueryConsole.Text

set_option autoImplicit false

namespace QueryConsole

structure Status where
  code : Fin 17
  message : Text
  deriving DecidableEq, Repr

namespace Status

def success : Fin 17 := 0
def unknown : Fin 17 := 2
def resourceExhausted : Fin 17 := 8
def outOfRange : Fin 17 := 11
def unimplemented : Fin 17 := 12
def internal : Fin 17 := 13

def broken : Status := ⟨internal, "h2 protocol error: http2 error".toList⟩

def codeOf (n : Int) : Fin 17 :=
  if h : 0 ≤ n ∧ n < 17 then ⟨n.toNat, by omega⟩ else unknown

end Status

end QueryConsole
