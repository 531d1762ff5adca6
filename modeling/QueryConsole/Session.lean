import QueryConsole.Dispatch
import QueryConsole.Proxy

/-!
Sessions: steps that are taken one after another over one link to a service. Each step starts with
the replies that the steps before it left, and a step that fails does not end the session.
-/

set_option autoImplicit false

namespace QueryConsole

inductive Step where
  | arguments : List Text → Step
  | dispatch : Invocation → Step
  | kindInfo : Text → List Text → Step
  | invoke : Text → Record → Step

inductive StepResult where
  | outputs : List Output → StepResult
  | info : KindInfo → StepResult
  | answer : Record → StepResult

inductive StepFault where
  | args : ArgsFault → StepFault
  | failure : Failure → StepFault
  deriving DecidableEq, Repr

structure StepReport where
  calls : List Call
  outcome : Except StepFault StepResult

def Step.plan : Step → Except ArgsFault (Plan StepResult)
  | .arguments args => (Invocation.resolve args).map fun i => (Plan.dispatch i).map .outputs
  | .dispatch i => .ok ((Plan.dispatch i).map .outputs)
  | .kindInfo kind facets => .ok ((Plan.kindInfo kind facets).map .info)
  | .invoke operation args => .ok ((Plan.invoke operation args).map .answer)

def Step.run (channel : Channel) (step : Step) (script : Script) : StepReport × Script :=
  match step.plan with
  | .error fault => (⟨[], .error (.args fault)⟩, script)
  | .ok plan =>
    let r := plan.run channel script
    (⟨r.calls, r.outcome.mapError .failure⟩, r.left)

namespace Session

def run (channel : Channel) : List Step → Script → List StepReport
  | [], _ => []
  | step :: steps, script =>
    (step.run channel script).1 :: run channel steps (step.run channel script).2

/-- How the service is linked: called directly, or through a proxy for an address, which is either
attached to a service in memory or resolved over the network. -/
inductive Link where
  | direct : Link
  | memory : Text → Link
  | network : Text → Link
  deriving DecidableEq, Repr

inductive LinkFault where
  | address : AddressFault → LinkFault
  | attach : ConnectFault → LinkFault
  | resolve : Address → ConnectFault → LinkFault
  deriving DecidableEq, Repr

def Link.proxy (network : Network) : Link → Except LinkFault (Option Proxy)
  | .direct => .ok none
  | .memory text =>
    match Address.read text with
    | .error fault => .error (.address fault)
    | .ok a => ((Proxy.attach a).mapError .attach).map some
  | .network text =>
    match Address.read text with
    | .error fault => .error (.address fault)
    | .ok a => ((Proxy.resolve network a).mapError (.resolve a)).map some

structure Report where
  proxy : Option Proxy
  steps : List StepReport

def start (network : Network) (link : Link) (steps : List Step) (script : Script) :
    Except LinkFault Report :=
  (link.proxy network).map fun proxy => ⟨proxy, run (.over proxy) steps script⟩

end Session

end QueryConsole
