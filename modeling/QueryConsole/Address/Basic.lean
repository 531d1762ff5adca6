import QueryConsole.Numeral

/-!
Addresses of services: a service name, an at sign, and an endpoint made of an optional transport, a
host and a port, with colons between them. The service name ends at the first at sign and the port
begins after the last colon. A host that holds colons is written in brackets.
-/

set_option autoImplicit false

namespace QueryConsole

inductive Transport where
  | unstated | tcp
  deriving DecidableEq, Repr

namespace Transport

def text : Transport → Text
  | .unstated => []
  | .tcp => "tcp".toList

def read? (t : Text) : Option Transport :=
  if t = Transport.unstated.text then some .unstated
  else if t = Transport.tcp.text then some .tcp
  else none

end Transport

structure Address where
  service : Text
  transport : Transport
  host : Text
  port : UInt16
  deriving DecidableEq, Repr

inductive AddressFault where
  | missingSeparator : Text → AddressFault
  | emptyService : Text → AddressFault
  | invalidPort : Text → AddressFault
  | unsupportedTransport : Text → AddressFault
  | unterminatedHost : Text → AddressFault
  deriving DecidableEq, Repr

def AddressFault.message : AddressFault → Text
  | .missingSeparator s =>
    "service address `".toList ++ s ++
      "` has no `@` separating the service name from its endpoint".toList
  | .emptyService s => "service address `".toList ++ s ++ "` has an empty service name".toList
  | .invalidPort s => "service address `".toList ++ s ++ "` has no valid port".toList
  | .unsupportedTransport t =>
    "transport `".toList ++ t ++ "` is not supported; only `tcp` is".toList
  | .unterminatedHost s =>
    "service address `".toList ++ s ++ "` has an unterminated `[` in its host".toList

namespace Address

def opensBracket (host : Text) : Prop := host.head? = some '['

def closesBracket (host : Text) : Prop := host.getLast? = some ']'

instance (host : Text) : Decidable (opensBracket host) := inferInstanceAs (Decidable (_ = _))
instance (host : Text) : Decidable (closesBracket host) := inferInstanceAs (Decidable (_ = _))

/-- The transport and the host in front of the port's colon. A bracket at the very start opens a
host without a transport; otherwise the first colon ends the transport. An open bracket is reported
before a transport that is not supported. -/
def readHost (whole : Text) (t : Text) : Except AddressFault (Transport × Text) :=
  if opensBracket t then
    if closesBracket t then .ok (.unstated, t) else .error (.unterminatedHost whole)
  else
    match splitFirst ':' t with
    | none => .ok (.unstated, t)
    | some (transport, host) =>
      if opensBracket host ∧ ¬ closesBracket host then .error (.unterminatedHost whole)
      else
        match Transport.read? transport with
        | none => .error (.unsupportedTransport transport)
        | some transport => .ok (transport, host)

def read (s : Text) : Except AddressFault Address :=
  match splitFirst '@' s with
  | none => .error (.missingSeparator s)
  | some ([], _) => .error (.emptyService s)
  | some (service, endpoint) =>
    match splitLast ':' endpoint with
    | none => .error (.invalidPort s)
    | some (rest, port) =>
      match Numeral.readPort port with
      | .error _ => .error (.invalidPort s)
      | .ok port =>
        match readHost s rest with
        | .error fault => .error fault
        | .ok (transport, host) => .ok ⟨service, transport, host, port⟩

/-- The full form, with the transport's colon even where no transport is stated. -/
def text (a : Address) : Text :=
  a.service ++ '@' :: a.transport.text ++ ':' :: a.host ++ ':' :: Numeral.ofNat a.port.toNat

def standard : Address := ⟨"DbMan".toList, .unstated, [], 12321⟩

def localHost : Text := "localhost".toList

def authority (a : Address) : Text :=
  (if a.host = [] then localHost else a.host) ++ ':' :: Numeral.ofNat a.port.toNat

def scheme : Text := "http://".toList

def uri (a : Address) : Text := scheme ++ a.authority

end Address

end QueryConsole
