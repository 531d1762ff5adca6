import QueryConsole.Address.Uri
import QueryConsole.Message
import QueryConsole.Service
import QueryConsole.Status.Received

/-!
Proxies of services. A proxy is resolved from an address: the address has to make a valid URI, and
something has to listen there. Calls and answers go through it as messages, which are limited in
size and in depth.
-/

set_option autoImplicit false

namespace QueryConsole

abbrev Network := Address → Bool

def Network.isolated : Network := fun _ => false

inductive ConnectFault where
  | invalidUri | unreachable
  deriving DecidableEq, Repr

def ConnectFault.message : ConnectFault → Text
  | .invalidUri => "invalid URI".toList
  | .unreachable => "transport error".toList

structure Proxy where
  address : Address
  deriving DecidableEq, Repr

namespace Proxy

/-- A proxy over a connection that is already there needs the URI only. -/
def attach (a : Address) : Except ConnectFault Proxy :=
  if a.hasValidUri then .ok ⟨a⟩ else .error .invalidUri

def resolve (network : Network) (a : Address) : Except ConnectFault Proxy :=
  match attach a with
  | .error fault => .error fault
  | .ok proxy => if network a then .ok proxy else .error .unreachable

def resolveMessage (a : Address) (fault : ConnectFault) : Text :=
  "unable to resolve a proxy for `".toList ++ a.text ++ "`: ".toList ++ fault.message

section Messages

open Status (headerSize)

/-- The size of the headers of a request. All of them but the place to connect to always have values
of these lengths. -/
def headersSize (p : Proxy) : Nat :=
  headerSize ":method".toList 4 + headerSize ":scheme".toList 4 + headerSize ":path".toList 21 +
    headerSize ":authority".toList
      (utf8 (p.address.authority.takeWhile (! Uri.endsAuthority ·))).length +
    headerSize "te".toList 8 + headerSize "content-type".toList 16 +
    headerSize "user-agent".toList 12

def requestSize (p : Proxy) (call : Call) : Nat :=
  Message.nameSize p.address.service + Message.nameSize call.operation + call.args.size

/-- Headers that are too large are refused before the message is looked at. -/
def refusal? (p : Proxy) (call : Call) : Option Status :=
  if Status.maxHeadersSize ≤ p.headersSize then
    some ⟨Status.unknown,
      "grpc-status header missing, mapped from HTTP status code 431".toList⟩
  else Message.fault? Status.broken "Quest.args".toList (p.requestSize call) call.args

def answerFault? (r : Record) : Option Status :=
  let unsent : Status := ⟨Status.resourceExhausted,
    "Cannot return body with more than 4GB of data but got ".toList ++ Nat.toDigits 10 r.size ++
      " bytes".toList⟩
  Message.fault? unsent "Answer.args".toList r.size r

def arrival : Except Status Record → Except Status Record
  | .error s => .error s.received
  | .ok r =>
    match answerFault? r with
    | some s => .error s
    | none => .ok r

def channel (p : Proxy) : Channel := ⟨some p.address.service, p.refusal?, arrival⟩

end Messages

end Proxy

def Channel.over : Option Proxy → Channel
  | none => .direct
  | some p => p.channel

end QueryConsole
