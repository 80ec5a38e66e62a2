/-
Work in the background.

* `Job` — a discovery, a refresh, or asking one miner before it is added;
* `JobResult` — what comes of it;
* `Stage` — how far a job is, and `Stage.step`, what happens to it at a moment;
* `Job.begins` — its first stage.

A discovery asks its seed about the network and then everyone in it. A name is resolved before
the miner is asked, and nobody limits how long that may take. A stage that ends gives way to the
next at the same moment.
-/
import MinerFleet.Log
import MinerFleet.Probe.Pass
import MinerFleet.Probe.Pool
import MinerFleet.Text.Basic

namespace MinerFleet

inductive Job where
  /-- Ask everyone in the network of a seed. -/
  | discovery (seed netmask : String) (concurrency : Nat)
  /-- Ask the known miners. -/
  | refresh (known : List Device) (concurrency : Nat) (fetchAsic : Bool)
  /-- Ask one miner, for the request with a ticket. -/
  | peer (address : String) (ticket : Nat)
deriving DecidableEq

inductive JobResult where
  | discovered (result : Except Fault Report)
  | refreshed (report : Report)
  | probed (result : Except Fault Device) (ticket : Nat)
deriving DecidableEq

/-- What a pool makes of targets. -/
abbrev ProbePool := Pool Target (Except ProbeFailure Device)

/-- How far a job is. -/
inductive Stage where
  /-- The seed was asked about its network. -/
  | asking (seed netmask : String) (concurrency : Nat) (ends : Nat)
      (answer : Except ProbeFailure Json)
  | discovering (pool : ProbePool)
  | refreshing (pool : ProbePool) (fetchAsic : Bool)
  /-- The address of a host is looked up; it may never be found. -/
  | resolving (host : String) (ticket : Nat) (ends : Option Nat)
      (result : Except ProbeFailure String)
  | probing (address : String) (ticket : Nat) (ends : Nat)
      (outcome : Except ProbeFailure Device)

/-- What a moment makes of a job: the next stage or the result, the requests that were made, and
what to tell. -/
structure Progress where
  next : Stage ⊕ JobResult
  calls : List Call := []
  log : List LogEvent := []

namespace Stage

/-- The next moment at which something happens to a job. -/
def nextEnd? : Stage → Option Nat
  | .asking _ _ _ ends _ => some ends
  | .discovering pool => pool.nextEnd?
  | .refreshing pool _ => pool.nextEnd?
  | .resolving _ _ ends _ => ends
  | .probing _ _ ends _ => some ends

section

variable (net : Network) (now : Nat)

/-- A discovery at a moment. -/
def stepDiscovery (pool : ProbePool) : Progress :=
  let (pool, taken) := pool.step now (net.probe true)
  { next :=
      if pool.isDone then .inr (.discovered (.ok (discoveryReport pool.settled)))
      else .inl (.discovering pool)
    calls := taken.flatMap (net.probeCalls now true) }

/-- A refresh at a moment. When it ends, it tells who did not answer. -/
def stepRefresh (pool : ProbePool) (fetchAsic : Bool) : Progress :=
  let (pool, taken) := pool.step now (net.probe fetchAsic)
  let calls := taken.flatMap (net.probeCalls now fetchAsic)
  if pool.isDone then
    let report := refreshReport pool.settled
    { next := .inr (.refreshed report)
      calls
      log := report.failures.map fun (address, failure) => .noAnswer address failure }
  else
    { next := .inl (.refreshing pool fetchAsic), calls }

/-- The seed has answered, or did not: the discovery begins, or there is nothing to scan. -/
def beginDiscovery (seed netmask : String) (concurrency : Nat)
    (answer : Except ProbeFailure Json) : Progress :=
  match scanTargets seed netmask answer with
  | .error fault => { next := .inr (.discovered (.error fault)) }
  | .ok addresses =>
    let targets := addresses.map fun address => ({ connectionAddress := address } : Target)
    let p := stepDiscovery net now (Pool.start concurrency targets)
    { p with log := .scanning seed addresses.length :: p.log }

/-- The record of a miner that is to be added, or why it cannot be. -/
def peerResult (address : String) (outcome : Except ProbeFailure Device) : Except Fault Device :=
  outcome.mapError fun failure =>
    if failure.isProtected then .needsUpgrade address else .noMiner address failure

/-- The miner has answered, or did not. -/
def stepProbe (address : String) (ticket ends : Nat) (outcome : Except ProbeFailure Device) :
    Progress :=
  if ends ≤ now then { next := .inr (.probed (peerResult address outcome) ticket) }
  else { next := .inl (.probing address ticket ends outcome) }

/-- Asks a miner that is dialed at an address. -/
def beginProbe (address connectionAddress : String) (ticket : Nat) : Progress :=
  let target : Target := ⟨connectionAddress, some (Device.at_ address connectionAddress)⟩
  let (time, outcome) := net.probe true target
  let p := stepProbe now address ticket (now + time) outcome
  { p with calls := net.probeCalls now true target }

/-- The address of a host has been found, or was not. -/
def stepResolve (host : String) (ticket : Nat) (ends : Option Nat)
    (result : Except ProbeFailure String) : Progress :=
  if ends.any (· ≤ now) then
    match result with
    | .ok connectionAddress => beginProbe net now host connectionAddress ticket
    | .error failure => { next := .inr (.probed (.error (.noMiner host failure)) ticket) }
  else
    { next := .inl (.resolving host ticket ends result) }

/-- What a moment makes of a job. -/
def step : Stage → Progress
  | .asking seed netmask concurrency ends answer =>
    if ends ≤ now then beginDiscovery net now seed netmask concurrency answer
    else { next := .inl (.asking seed netmask concurrency ends answer) }
  | .discovering pool => stepDiscovery net now pool
  | .refreshing pool fetchAsic => stepRefresh net now pool fetchAsic
  | .resolving host ticket ends result => stepResolve net now host ticket ends result
  | .probing address ticket ends outcome => stepProbe now address ticket ends outcome

end

end Stage

namespace Job

variable (net : Network) (now : Nat)

/-- Asks a seed about its network. -/
def beginAsking (seed netmask : String) (concurrency : Nat) : Progress :=
  if isPeer seed then
    let reply := net.info seed
    let (time, answer) := reply.within probeLimit
    let p := (Stage.asking seed netmask concurrency (now + time) answer).step net now
    { p with calls := ⟨.info, seed, now, now + reply.openFor probeLimit⟩ :: p.calls }
  else
    { next := .inr (.discovered (.error (seedFault seed))) }

/-- Looks up a host, or asks at once at an address. -/
def beginPeer (input : String) (ticket : Nat) : Progress :=
  let address := Text.trim input
  if !isPeer address then { next := .inr (.probed (.error (.invalidAddress input)) ticket) }
  else if isIpLiteral address then Stage.beginProbe net now address address ticket
  else
    let (ends, result) : Option Nat × Except ProbeFailure String :=
      match net.resolve address with
      | .after delay result => (some (now + delay), result)
      | .never => (none, .error .timeout)
    let p := Stage.stepResolve net now address ticket ends result
    { p with calls := ⟨.resolve, address, now, ends.getD now⟩ :: p.calls }

/-- What the first moment makes of a job. -/
def begins : Job → Progress
  | .discovery seed netmask concurrency => beginAsking net now seed netmask concurrency
  | .refresh known concurrency fetchAsic =>
    Stage.stepRefresh net now (Pool.start concurrency (known.map Target.ofDevice)) fetchAsic
  | .peer address ticket => beginPeer net now address ticket

/-- Works through the moments at which something happens, `fuel` of them at most. Gives the moment
of the result, the requests that were made, and the result if there is one. -/
def runFrom : Nat → Nat → Progress → Nat × List Call × Option JobResult
  | 0, now, p => (now, p.calls, none)
  | fuel + 1, now, p =>
    match p.next with
    | .inr result => (now, p.calls, some result)
    | .inl stage =>
      match stage.nextEnd? with
      | none => (now, p.calls, none)
      | some next =>
        let (ended, calls, result) := runFrom fuel next (stage.step net next)
        (ended, p.calls ++ calls, result)

/-- More moments than there are at which something happens to a job: its targets and the stages
before them. -/
def moments : Job → Nat
  | .refresh known _ _ => known.length + 1
  | .discovery _ _ _ | .peer _ _ => maxScanHosts + 3

/-- A job from its beginning to its end, if it has one. -/
def run (job : Job) : Nat × List Call × Option JobResult :=
  runFrom net job.moments 0 (job.begins net 0)

end Job

/-- Tells a miner to do something, and waits a moment for its answer. -/
def actionLimit : Nat := 800

/-- When a miner that was told to do something has answered, and the outcome. -/
def Network.dispatch (net : Network) (address : String) (action : Action) : Nat × ActionOutcome :=
  let (time, answer) := (net.act address action).within actionLimit
  (time, ActionOutcome.ofReply answer)

/-- The request that tells a miner to do something now. -/
def Network.actCall (net : Network) (now : Nat) (address : String) (action : Action) : Call :=
  ⟨.act, address, now, now + (net.act address action).openFor actionLimit⟩

end MinerFleet
