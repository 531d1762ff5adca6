import QueryConsole.Command.Options
import QueryConsole.Dispatch
import QueryConsole.Proxy

set_option autoImplicit false

namespace QueryConsole.Command

def programName : Text := "dbq".toList

def versionText : Text := "dbq 0.1.0\n".toList

/-- The texts that a run takes from elsewhere: the help, what is shown of options that are misused,
and what is shown of the status of a call. -/
structure Wording where
  help : Text
  misuse : OptionFault → Text
  status : Status → Text

structure Finished where
  status : Nat
  stdout : Text
  stderr : Text
  calls : List Call

namespace Finished

def success (stdout : Text) (calls : List Call) : Finished := ⟨0, stdout, [], calls⟩

def failure (status : Nat) (stderr : Text) (calls : List Call) : Finished :=
  ⟨status, [], stderr, calls⟩

end Finished

def ofStop (wording : Wording) : Stop → Finished
  | .help => .success wording.help []
  | .version => .success versionText []
  | .fault fault => .failure 2 (fault.report?.getD (wording.misuse fault)) []

def ofArgsFault (fault : ArgsFault) : Finished :=
  let line :=
    match fault with
    | .usage => []
    | .invalidId _ _ => fault.message ++ ['\n']
  .failure 1 (line ++ Invocation.usage programName) []

def malformedReport (operation : Text) (fault : EntryFault) : Text :=
  "Error: MalformedAnswer \x7b operation: \"".toList ++ operation ++ "\", reason: \"".toList ++
    fault.message ++ "\" \x7d\n".toList

def failureReport (wording : Wording) : Failure → Text
  | .remote s => "Error: Remote(".toList ++ wording.status s ++ ")\n".toList
  | .malformed operation fault => malformedReport operation fault

def query (wording : Wording) (proxy : Proxy) (width : UInt64) (i : Invocation)
    (script : Script) : Finished :=
  let r := (Plan.dispatch i).run proxy.channel script
  match r.outcome with
  | .error failure => .failure 1 (failureReport wording failure) r.calls
  | .ok outputs => .success (renderText width.toNat outputs) r.calls

def run (wording : Wording) (network : Network) (script : Script) (argv : List Text) : Finished :=
  match parse argv with
  | .error stop => ofStop wording stop
  | .ok options =>
    match Invocation.resolve options.args with
    | .error fault => ofArgsFault fault
    | .ok i =>
      match Proxy.resolve network options.endpoint with
      | .error _ => .failure 1 [] []
      | .ok proxy => query wording proxy options.width i script

end QueryConsole.Command
