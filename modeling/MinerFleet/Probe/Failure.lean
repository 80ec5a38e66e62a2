/-
Why a request to a device failed.

* `ProbeFailure` — the causes, and `ProbeFailure.message`;
* `ProbeFailure.isProtected` — the device is there but keeps its interface to itself.
-/

namespace MinerFleet

inductive ProbeFailure where
  | timeout
  /-- Nothing took the connection. -/
  | unreachable (detail : String)
  /-- There was a connection, but no complete exchange over it. -/
  | brokenOff (detail : String)
  | status (code : Nat)
  | malformed (detail : String)
  /-- The device answered, but not as a miner. -/
  | notMiner
deriving DecidableEq

namespace ProbeFailure

def message : ProbeFailure → String
  | .timeout => "timed out"
  | .unreachable detail => "unreachable: " ++ detail
  | .brokenOff detail => "connection failed: " ++ detail
  | .status code => "HTTP status " ++ toString code
  | .malformed detail => "unexpected response: " ++ detail
  | .notMiner => "not a miner"

/-- The failure of a device that is there but lets nobody in. -/
def isProtected : ProbeFailure → Bool
  | .status 401 | .brokenOff _ => true
  | _ => false

end ProbeFailure

end MinerFleet
