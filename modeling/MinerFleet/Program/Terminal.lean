/-
The command line at work.

* `converse` — an order is sent to a daemon, and its answer read;
* `runCommandLine` — the program from its arguments to its exit code.
-/
import MinerFleet.CommandLine.Report
import MinerFleet.Program.Connection

namespace MinerFleet.Program

open Api CommandLine Std.Async

/-- What comes of an order to the daemon at a base. -/
def converse (o : Order) (base : String) : Async Outcome := do
  match callOf? base o.route with
  | some (url, request) => return o.outcome (readAnswer o.route (← exchange url request))
  | none => return o.outcome (.error .unreachable)

/-- What the program comes to. -/
def outcomeOf (env : Option String) (arguments : List String) : Async Outcome := do
  match readArguments env arguments with
  | .order o base => converse o (base.getD defaultBase)
  | .display text => return { exit := 0, output := text }
  | .senseless =>
    return { Outcome.senseless with
      complaint := some "error: invalid arguments\n\nFor more information, try '--help'." }

/-- The program from its arguments to its exit code. -/
def runCommandLine (arguments : List String) : IO UInt32 := do
  let env ← IO.getEnv "AXE_SWARM_API_URL"
  let outcome ← (outcomeOf env arguments).block
  IO.print outcome.output
  if let some complaint := outcome.complaint then
    IO.eprintln complaint
  return outcome.exit.toUInt32

end MinerFleet.Program
