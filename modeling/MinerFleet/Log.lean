/-
What a fleet tells about its work.

* `LogEvent` — what is worth a line in the log;
* `LogEvent.line` — the line: a level, the part of the program, a message and its details.
-/
import MinerFleet.Fault
import MinerFleet.Probe.Action

namespace MinerFleet

inductive LogEvent where
  | unreadableValue (key : String) (error : DecodeError)
  | corruptFile (path : String)
  | newFile (path : String)
  | devicesNotSaved (fault : Fault)
  | sortNotSaved (fault : Fault)
  | intervalNotSaved (fault : Fault)
  | viewNotSaved (fault : Fault)
  | noFirstPass (fault : Fault)
  | scanning (seed : String) (candidates : Nat)
  | noAnswer (address : String) (failure : ProbeFailure)
  | scanned (found added : Nat)
  | scanFailed (fault : Fault)
  | refreshed (polled failed : Nat)
  | deviceAdded (address : String)
  | notAdded (fault : Fault)
  | deviceRemoved (address : String)
  | intervalChanged (interval : UInt32)
  | acted (address : String) (action : Action) (outcome : ActionOutcome)
  | stopping

namespace LogEvent

/-- A line of the log without its time. -/
def format (level part message : String) (details : List (String × String)) : String :=
  level ++ " axe_swarm::" ++ part ++ ": " ++ message
    ++ String.join (details.map fun d => " " ++ d.1 ++ "=" ++ d.2)

def line : LogEvent → String
  | .unreadableValue key error =>
    format "WARN" "store" "Ignoring unreadable stored value"
      [("key", Text.quote key), ("error", error.message)]
  | .corruptFile path =>
    format "WARN" "store" "State file is corrupt, starting empty" [("path", path)]
  | .newFile path => format "INFO" "store" "No state file yet" [("path", path)]
  | .devicesNotSaved fault =>
    format "WARN" "registry" "Failed to persist device list" [("error", fault.message)]
  | .sortNotSaved fault =>
    format "WARN" "registry" "Failed to persist sort order" [("error", fault.message)]
  | .intervalNotSaved fault =>
    format "ERROR" "scheduler" ("Failed to save refresh interval: " ++ fault.message) []
  | .viewNotSaved fault =>
    format "ERROR" "scheduler" ("Failed to save view mode: " ++ fault.message) []
  | .noFirstPass fault =>
    format "INFO" "scheduler" "No stored devices and discovery is unavailable"
      [("reason", fault.message)]
  | .scanning seed candidates =>
    format "INFO" "scanner" "Scanning network"
      [("seed", Text.quote seed), ("candidates", toString candidates)]
  | .noAnswer address failure =>
    format "WARN" "scanner" "Failed to get info"
      [("address", address), ("error", failure.message)]
  | .scanned found added =>
    format "INFO" "scheduler" "Network scan complete"
      [("found", toString found), ("added", toString added)]
  | .scanFailed fault =>
    format "ERROR" "scheduler" ("Network scan failed: " ++ fault.message) []
  | .refreshed polled failed =>
    format "INFO" "scheduler" "Refresh complete"
      [("polled", toString polled), ("failed", toString failed)]
  | .deviceAdded address => format "INFO" "scheduler" "Device added" [("address", address)]
  | .notAdded fault =>
    format "WARN" "scheduler" ("Failed to add device: " ++ fault.message) []
  | .deviceRemoved address => format "INFO" "scheduler" "Device removed" [("address", address)]
  | .intervalChanged interval =>
    format "INFO" "scheduler" "Refresh interval changed" [("interval", toString interval.toNat)]
  | .acted address action (.ok _) =>
    format "INFO" "action" "Action sent" [("address", address), ("action", action.name)]
  | .acted address action .timeout =>
    format "WARN" "action" "Action timed out" [("address", address), ("action", action.name)]
  | .acted address action (.failed error) =>
    format "WARN" "action" "Action failed"
      [("address", address), ("action", action.name), ("error", error)]
  | .stopping => format "INFO" "scheduler" "Swarm engine shutdown requested" []

end LogEvent

end MinerFleet
