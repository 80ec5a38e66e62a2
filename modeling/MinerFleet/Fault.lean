/-
What can go wrong in a fleet.

* `Fault` — the causes, and `Fault.message`.
-/
import MinerFleet.Probe.Failure
import MinerFleet.Text.Quoted

namespace MinerFleet

inductive Fault where
  /-- Neither an IPv4 address nor the name of a host. -/
  | invalidAddress (text : String)
  | duplicate (address : String)
  /-- Something answers there that looks like a miner with old firmware. -/
  | needsUpgrade (address : String)
  | noMiner (address : String) (cause : ProbeFailure)
  | unknownDevice (address : String)
  /-- The network to scan is not known, or too large. -/
  | scanTarget (detail : String)
  | config (detail : String)
  /-- The engine does not answer any more. -/
  | stopped
  /-- The state file cannot be read or written. -/
  | storage (detail : String)
deriving DecidableEq

instance decidableEqExcept {ε α : Type} [DecidableEq ε] [DecidableEq α] : DecidableEq (Except ε α)
  | .ok a, .ok b => decidable_of_iff (a = b) ⟨congrArg Except.ok, Except.ok.inj⟩
  | .error a, .error b => decidable_of_iff (a = b) ⟨congrArg Except.error, Except.error.inj⟩
  | .ok _, .error _ => isFalse nofun
  | .error _, .ok _ => isFalse nofun

def Fault.message : Fault → String
  | .invalidAddress text => "invalid address: " ++ Text.quote text
  | .duplicate address => "a device at " ++ address ++ " is already part of the swarm"
  | .needsUpgrade address =>
    "device at " ++ address ++ " must be upgraded to a newer firmware before it can be added"
  | .noMiner address cause => "no miner answered at " ++ address ++ ": " ++ cause.message
  | .unknownDevice address => "unknown device: " ++ address
  | .scanTarget detail => "unable to determine the network to scan: " ++ detail
  | .config detail => "invalid configuration: " ++ detail
  | .stopped => "engine is not running"
  | .storage detail => "state file I/O error: " ++ detail

end MinerFleet
