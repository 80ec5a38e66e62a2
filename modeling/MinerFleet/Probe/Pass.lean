/-
Passes: asking many miners.

* `Report` — what came of a pass: records, and failures;
* `Report.handled` — a report from what came of each probe; a handler may give a record for a
  target that failed, and is told how;
* `Report.ofOutcomes` — the same with a handler that does not look at the failure;
* `refreshReport` — a miner that fails keeps its record without readings;
* `scanTargets` — the addresses that a discovery asks, from what the seed says about its network.
-/
import MinerFleet.Address.HostName
import MinerFleet.Address.Subnet
import MinerFleet.Probe.Basic

namespace MinerFleet

/-- What came of asking many miners. -/
structure Report where
  devices : List Device := []
  failures : List (String × ProbeFailure) := []
deriving DecidableEq

namespace Report

/-- The records of those that answered, and of those that did not, the handler's. -/
def devicesOf (handler : Target → ProbeFailure → Option Device)
    (outcomes : List (Target × Except ProbeFailure Device)) : List Device :=
  outcomes.filterMap fun (target, outcome) =>
    match outcome with
    | .ok d => some d
    | .error failure => handler target failure

def failuresOf (outcomes : List (Target × Except ProbeFailure Device)) :
    List (String × ProbeFailure) :=
  outcomes.filterMap fun (target, outcome) =>
    match outcome with
    | .ok _ => none
    | .error failure => some (target.connectionAddress, failure)

/-- What came of a pass, from what came of each probe. -/
def handled (handler : Target → ProbeFailure → Option Device)
    (outcomes : List (Target × Except ProbeFailure Device)) : Report :=
  ⟨devicesOf handler outcomes, failuresOf outcomes⟩

def ofOutcomes (substitute : Target → Option Device)
    (outcomes : List (Target × Except ProbeFailure Device)) : Report :=
  handled (fun target _ => substitute target) outcomes

end Report

/-- The report of a discovery: who does not answer is no miner. -/
def discoveryReport (outcomes : List (Target × Except ProbeFailure Device)) : Report :=
  .ofOutcomes (fun _ => none) outcomes

/-- The report of a refresh: who does not answer keeps a record with one more failure. -/
def refreshReport (outcomes : List (Target × Except ProbeFailure Device)) : Report :=
  .ofOutcomes (fun target => target.prior.map Device.failed) outcomes

/-- An IPv4 address in a field of a miner's answer. -/
def addressField (answer : Except ProbeFailure Json) (name : String) : Option String :=
  match answer with
  | .ok v => ((v.get? name).bind Json.text?).filter isIpLiteral
  | .error _ => none

/-- The addresses in the network of a seed, from what it answers. Its own word counts; what it
does not say is taken from its address and from the netmask that was set. -/
def scanTargets (seed netmask : String) (answer : Except ProbeFailure Json) :
    Except Fault (List String) := do
  let netmask := (addressField answer "netmask").getD netmask
  let ip ← match addressField answer "currentIP" with
    | some ip => .ok ip
    | none =>
      if isIpLiteral seed then .ok seed
      else .error (.scanTarget (seed ++ " did not report its current IP"))
  match hosts ip netmask with
  | .error (.scanTarget detail) => .error (.scanTarget detail)
  | .error fault => .error (.scanTarget fault.message)
  | .ok addresses => .ok addresses

/-- The fault of a seed that cannot be asked, because it is no address. -/
def seedFault (seed : String) : Fault :=
  .scanTarget (Text.quote seed ++ " is not an address")

end MinerFleet
