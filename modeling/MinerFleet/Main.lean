/-
The program. It has two names: under `axe-swarmd` it is the daemon of a fleet, and under any other
the command line by which a daemon is told what to do.
-/
import MinerFleet.Program.Service
import MinerFleet.Program.Terminal

open MinerFleet.Program

def main (arguments : List String) : IO UInt32 := do
  let path ← IO.appPath
  if path.fileName = some "axe-swarmd" then runDaemon else runCommandLine arguments
