/-
How a daemon comes up.

* `BootFailure` — why it does not, and `BootFailure.line`, what it says then;
* `boot` — the daemon over its state file, its settings taken from the environment.
-/
import MinerFleet.Daemon.Basic
import MinerFleet.Store.File

namespace MinerFleet

inductive BootFailure where
  | config (fault : Fault)
  /-- There is something at the path of the state file that cannot be read. -/
  | state (path : String)
deriving DecidableEq

/-- What a daemon says that does not come up. -/
def BootFailure.line : BootFailure → String
  | .config fault => "Error: " ++ fault.message
  | .state path => "Error: failed to open " ++ path

/-- What a daemon says that cannot listen. -/
def bindFailure (listen : Socket) : String :=
  "failed to bind " ++ listen.text

/-- The settings of a daemon, the store in its state file, and what to tell about it. -/
def openStore (env : String → Option String) (folder : Folder) :
    Except BootFailure (Config × FileStore × List LogEvent) := do
  let config ← (Config.ofVariables env).mapError BootFailure.config
  let (store, log) ← (FileStore.openIn folder config.statePath).mapError fun _ =>
    BootFailure.state config.statePath
  return (config, store, log)

/-- A daemon over its state file, with its engine started. -/
def boot (env : String → Option String) (folder : Folder) (network : Network) :
    Except BootFailure (Daemon FileStore) := do
  let (config, store, log) ← openStore env folder
  let d := Daemon.make config store network
  return { d with system := { d.system with log := d.system.log ++ log.reverse } }.start

end MinerFleet
