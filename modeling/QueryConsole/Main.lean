import QueryConsole.Command.Run

/-!
The program. It has no transport of its own, so no service is within reach of it; what it can do is
to check its options and arguments and to report what is wrong with them.
-/

set_option autoImplicit false

namespace QueryConsole

/-- The usage takes the place of longer texts. -/
def Command.Wording.brief : Wording :=
  ⟨Invocation.usage programName, fun _ => Invocation.usage programName, Status.message⟩

end QueryConsole

open QueryConsole in
def main (argv : List String) : IO UInt32 := do
  let r := Command.run .brief Network.isolated [] (argv.map String.toList)
  IO.print (String.ofList r.stdout)
  IO.eprint (String.ofList r.stderr)
  return UInt32.ofNat r.status
