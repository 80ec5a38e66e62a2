/-
How a daemon is set up.

* `Config` — the settings that are fixed when it starts;
* `Config.ofVariables` — the settings from the environment.

A variable that is empty, but for blanks, counts as unset.
-/
import MinerFleet.Address.HostName
import MinerFleet.Address.Socket
import MinerFleet.Address.Subnet
import MinerFleet.Text.Basic

namespace MinerFleet

structure Config where
  /-- A miner whose network is scanned for others. Without one, miners are only added by hand. -/
  seed : Option String := none
  /-- The netmask for a seed that reports none. -/
  netmask : String := "255.255.255.0"
  statePath : String := "axe-swarm.json"
  listen : Socket := ⟨.v4 (Ipv4.ofOctets 127 0 0 1), 7786⟩
  /-- How many miners are asked at the same time. -/
  concurrency : Nat := 128
  /-- How many failures in a row make a miner stale; zero means that none do. -/
  staleAfter : UInt32 := 3
deriving DecidableEq

namespace Config

instance : Inhabited Config := ⟨{}⟩

/-- Digits read from the left, until one is no digit or the bound is reached. -/
def digitsBelow (bound : Nat) : Nat → List Char → Except String Nat
  | n, [] => .ok n
  | n, c :: cs =>
    if !c.isDigit then .error "invalid digit found in string"
    else
      let next := n * 10 + (c.toNat - '0'.toNat)
      if next < bound then digitsBelow bound next cs
      else .error "number too large to fit in target type"

/-- A number below a bound: digits, behind a plus sign or not. -/
def number (bound : Nat) (s : String) : Except String Nat :=
  match s.toList with
  | [] => .error "cannot parse integer from empty string"
  | '+' :: c :: cs => digitsBelow bound 0 (c :: cs)
  | cs => digitsBelow bound 0 cs

/-- The fault of a variable that cannot be read. -/
def fault (name : String) (detail : String) : Fault :=
  .config (name ++ ": " ++ detail)

def readSeed (value : String) : Except Fault String :=
  if isPeer value then .ok value
  else .error (fault "AXE_SWARM_SEED" (Text.quote value ++ " is not an address"))

def readNetmask (value : String) : Except Fault String :=
  match hostCount value with
  | .ok count =>
    if count ≤ maxScanHosts then .ok value
    else
      .error (fault "AXE_SWARM_NETMASK" (value ++ " spans " ++ toString count
        ++ " hosts, more than " ++ toString maxScanHosts))
  | .error _ => .error (fault "AXE_SWARM_NETMASK" (Text.quote value ++ " is not a netmask"))

def readListen (value : String) : Except Fault Socket :=
  match Socket.ofText? value with
  | some socket => .ok socket
  | none => .error (fault "AXE_SWARM_LISTEN" "invalid socket address syntax")

def readConcurrency (value : String) : Except Fault Nat :=
  match number UInt64.size value with
  | .ok 0 => .error (.config "AXE_SWARM_CONCURRENCY must be at least 1")
  | .ok n => .ok n
  | .error detail => .error (fault "AXE_SWARM_CONCURRENCY" detail)

def readStaleAfter (value : String) : Except Fault UInt32 :=
  match number UInt32.size value with
  | .ok n => .ok (UInt32.ofNat n)
  | .error detail => .error (fault "AXE_SWARM_STALE_AFTER" detail)

/-- A variable that is set to something, without the blanks around it. -/
def valueOf? (env : String → Option String) (name : String) : Option String :=
  ((env name).map Text.trim).filter (· ≠ "")

/-- A setting from a variable, or its default. -/
def setting {α : Type} (value : Option String) (read : String → Except Fault α) (default : α) :
    Except Fault α :=
  match value with
  | some s => read s
  | none => .ok default

/-- Where the state file is. -/
def statePathOf (env : String → Option String) : String :=
  (valueOf? env "AXE_SWARM_STATE").getD (default : Config).statePath

/-- The settings from the environment; the first variable that cannot be read is reported. -/
def ofVariables (env : String → Option String) : Except Fault Config := do
  let base : Config := {}
  let seed ← setting (valueOf? env "AXE_SWARM_SEED") (fun s => (readSeed s).map some) none
  let netmask ← setting (valueOf? env "AXE_SWARM_NETMASK") readNetmask base.netmask
  let listen ← setting (valueOf? env "AXE_SWARM_LISTEN") readListen base.listen
  let concurrency ←
    setting (valueOf? env "AXE_SWARM_CONCURRENCY") readConcurrency base.concurrency
  let staleAfter ← setting (valueOf? env "AXE_SWARM_STALE_AFTER") readStaleAfter base.staleAfter
  return {
    seed, netmask, listen, concurrency, staleAfter
    statePath := statePathOf env }

end Config

end MinerFleet
