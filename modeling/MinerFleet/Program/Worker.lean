/-
Work in the background, over the network.

* `ask`, `probe` — a miner is asked for one answer, and for all that makes its record;
* `probeAll` — many miners are asked, and only so many at a time;
* `perform` — a job from its beginning to its end;
* `order` — a miner is told to do something.

What is asked, and what is made of the answers, is said by `Probe`.
-/
import MinerFleet.Probe.Job
import MinerFleet.Program.Connection
import Std.Sync.Mutex

namespace MinerFleet.Program

open Http Std.Async

/-! ### One miner -/

/-- What comes of a call at an address. -/
def callMiner {α : Type} (read : Url → Exchange → Except ProbeFailure α) (c : MinerCall)
    (address : String) : Async (Except ProbeFailure α) := do
  match c.requestAt? address with
  | some (url, request) => return read url (← exchange url request)
  | none => return .error (.brokenOff "builder error")

/-- A value that a miner answers with. -/
def ask (c : MinerCall) (address : String) : Async (Except ProbeFailure Json) :=
  callMiner readValue c address

/-- Both answers of a miner; the second one is `null` when it is not asked for. -/
def askBoth (address : String) (fetchAsic : Bool) :
    Async (Except ProbeFailure Json × Except ProbeFailure Json) :=
  if fetchAsic then Async.concurrently (ask .info address) (ask .asic address)
  else do return (← ask .info address, .ok .null)

/-- The record of a miner. -/
def probe (fetchAsic : Bool) (target : Target) : Async (Except ProbeFailure Device) := do
  match ← within probeLimit (askBoth target.connectionAddress fetchAsic) with
  | some (info, asic) => return probeResult target info asic
  | none => return .error .timeout

/-- Tells a miner to do something. -/
def order (address : String) (action : Action) : Async ActionOutcome := do
  let answer ← within actionLimit (callMiner readMessage (.act action) address)
  return .ofReply (answer.getD (.error .timeout))

/-! ### Many miners -/

/-- Those who wait to be asked, and what came of the others, the latest first. -/
structure Queue where
  waiting : List Target
  settled : List (Target × Except ProbeFailure Device) := []

/-- Asks those who wait, one after the other, until nobody waits. -/
partial def workThrough (queue : Std.Mutex Queue) (fetchAsic : Bool) : Async Unit := do
  let next ← queue.atomically do
    let q ← get
    set { q with waiting := q.waiting.tail }
    return q.waiting.head?
  if let some target := next then
    let outcome ← probe fetchAsic target
    queue.atomically do
      modify fun q => { q with settled := (target, outcome) :: q.settled }
    workThrough queue fetchAsic

/-- What comes of asking many miners, in the order in which they are done with. -/
def probeAll (concurrency : Nat) (fetchAsic : Bool) (targets : List Target) :
    Async (List (Target × Except ProbeFailure Device)) := do
  let queue ← Std.Mutex.new { waiting := targets : Queue }
  let workers := List.replicate (min (max concurrency 1) targets.length) ()
  let tasks ← workers.mapM fun _ => async (workThrough queue fetchAsic)
  for task in tasks do
    await task
  queue.atomically do
    return (← get).settled.reverse

/-! ### Jobs -/

/-- The miners in the network of a seed. -/
def discover (tell : LogEvent → IO Unit) (seed netmask : String) (concurrency : Nat) :
    Async (Except Fault Report) := do
  if !isPeer seed then return .error (seedFault seed)
  let answer ← within probeLimit (ask .info seed)
  match scanTargets seed netmask (answer.getD (.error .timeout)) with
  | .error fault => return .error fault
  | .ok addresses =>
    tell (.scanning seed addresses.length)
    let targets := addresses.map fun address => ({ connectionAddress := address } : Target)
    return .ok (discoveryReport (← probeAll concurrency true targets))

/-- The known miners. -/
def refresh (tell : LogEvent → IO Unit) (known : List Device) (concurrency : Nat)
    (fetchAsic : Bool) : Async Report := do
  let report := refreshReport (← probeAll concurrency fetchAsic (known.map Target.ofDevice))
  for (address, failure) in report.failures do
    tell (.noAnswer address failure)
  return report

/-- A miner that is to be added. -/
def meet (input : String) : Async (Except Fault Device) := do
  let address := Text.trim input
  if !isPeer address then return .error (.invalidAddress input)
  match ← if isIpLiteral address then pure (.ok address) else lookUp address with
  | .error failure => return .error (.noMiner address failure)
  | .ok connectionAddress =>
    let target : Target := ⟨connectionAddress, some (Device.at_ address connectionAddress)⟩
    return Stage.peerResult address (← probe true target)

/-- A job from its beginning to its end. -/
def perform (tell : LogEvent → IO Unit) : Job → Async JobResult
  | .discovery seed netmask concurrency => do
    return .discovered (← discover tell seed netmask concurrency)
  | .refresh known concurrency fetchAsic => do
    return .refreshed (← refresh tell known concurrency fetchAsic)
  | .peer address ticket => do
    return .probed (← meet address) ticket

end MinerFleet.Program
