import QueryConsole.Status.Basic
import QueryConsole.Value.Entry

/-!
Calls of a service and its replies. A plan is what a caller will do: it is either finished, or it
makes one call and goes on in a way that depends on what the call comes to. The calls go over a
channel, which may refuse a call and may change what is given for it. Running a plan takes the
replies of a script one after another.
-/

set_option autoImplicit false

namespace QueryConsole

inductive Reply where
  | answer : Record → Reply
  | silent : Reply
  | failure : Status → Reply

namespace Reply

def exhausted : Reply := .failure ⟨Status.unimplemented, "no scripted answer".toList⟩

/-- What the service gives. No record is as good as the empty one. -/
def sent : Reply → Except Status Record
  | .answer r => .ok r
  | .silent => .ok []
  | .failure s => .error s

end Reply

abbrev Script := List Reply

def Script.next (s : Script) : Reply := s.headD Reply.exhausted

/-- A call as the service receives it. A call through a proxy carries the name of the service. -/
structure Call where
  operation : Text
  args : Record
  service : Option Text

/-- What lies between a caller and the service. -/
structure Channel where
  service : Option Text
  refusal? : Call → Option Status
  arrival : Except Status Record → Except Status Record

structure Exchange where
  result : Except Status Record
  calls : List Call
  left : Script

namespace Channel

def direct : Channel := ⟨none, fun _ => none, id⟩

/-- A call that does not reach the service takes no reply from the script. -/
def exchange (channel : Channel) (call : Call) (script : Script) : Exchange :=
  match channel.refusal? call with
  | some s => ⟨.error s, [], script⟩
  | none => ⟨channel.arrival script.next.sent, [call], script.tail⟩

end Channel

inductive Failure where
  | remote : Status → Failure
  | malformed : Text → EntryFault → Failure
  deriving DecidableEq, Repr

def Failure.message : Failure → Text
  | .remote s => s.message
  | .malformed operation fault =>
    "malformed answer to `".toList ++ operation ++ "`: ".toList ++ fault.message

inductive Plan (α : Type) where
  | done : Except Failure α → Plan α
  | call : Text → Record → (Except Status Record → Plan α) → Plan α

structure Run (α : Type) where
  /-- The calls that were made, and the result of each of them. -/
  made : List Call
  results : List (Except Status Record)
  /-- Those of them that the service received. -/
  calls : List Call
  outcome : Except Failure α
  left : Script

namespace Plan

def invoke (operation : Text) (args : Record) : Plan Record :=
  .call operation args fun result => .done (result.mapError .remote)

def bind {α β : Type} : Plan α → (α → Plan β) → Plan β
  | .done (.error failure), _ => .done (.error failure)
  | .done (.ok a), next => next a
  | .call operation args go, next => .call operation args fun result => (go result).bind next

def map {α β : Type} (f : α → β) (p : Plan α) : Plan β := p.bind fun a => .done (.ok (f a))

def decoded {α : Type} (operation : Text) (result : Except EntryFault α) : Plan α :=
  .done (result.mapError (.malformed operation))

def run {α : Type} (channel : Channel) : Plan α → Script → Run α
  | .done outcome, script => ⟨[], [], [], outcome, script⟩
  | .call operation args go, script =>
    let call : Call := ⟨operation, args, channel.service⟩
    let first := channel.exchange call script
    let rest := run channel (go first.result) first.left
    ⟨call :: rest.made, first.result :: rest.results, first.calls ++ rest.calls, rest.outcome,
      rest.left⟩

end Plan

end QueryConsole
