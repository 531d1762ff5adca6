import QueryConsole.Proofs.Value.Message
import QueryConsole.Proofs.Value.Nesting
import QueryConsole.Proxy

set_option autoImplicit false

namespace QueryConsole

namespace Message

variable {unsent : Status} {field : Text} {size : Nat} {r : Record}

end Message

/-- What a service gives, as it is sent over a connection. -/
def Record.answer (r : Record) : List UInt8 := r.message 1

namespace Proxy

/-- The bytes of the place to connect to, which are in the headers of every request. -/
def place (p : Proxy) : List UInt8 :=
  utf8 (p.address.authority.takeWhile (! Uri.endsAuthority ·))

variable {p : Proxy} (call : Call)

end Proxy

end QueryConsole
