/-
Asking one miner.

* `Target` — an address to ask at, and what is known about the miner there;
* `readPayload` — a miner's answer as a record;
* `assemble` — the record of a miner from both its answers and what was known before;
* `Network.probe` — when a miner has been asked, and what came of it.

A miner is asked for information and, on a full probe, for its chips at the same time; both
together get `probeLimit`. Without information there is no record; without chips there is one if
it is known from elsewhere what chips they are.
-/
import MinerFleet.Device.Model
import MinerFleet.Device.Wire
import MinerFleet.Probe.Network

namespace MinerFleet

/-- How long both answers of a miner may take. -/
def probeLimit : Nat := 5000

/-- An address to ask at, and the record of the miner there, if it is known. -/
structure Target where
  connectionAddress : String
  prior : Option Device := none

/-- The target for a known miner. -/
def Target.ofDevice (d : Device) : Target :=
  ⟨d.connectionAddress, some d⟩

/-- The record in a miner's answer. -/
def readPayload : Json → Except ProbeFailure Device
  | .object fields =>
    (Device.decode (Document.ofJson (.object fields))).mapError fun e => .malformed e.message
  | _ => .error .notMiner

/-- The record in the answer about chips; an answer that says nothing is an empty record. -/
def readAsic (answer : Except ProbeFailure Json) : Device :=
  match answer with
  | .ok .null => {}
  | .ok payload => (readPayload payload).toOption.getD {}
  | .error _ => {}

/-- The record of a miner at an address: its answers laid over what was known, its difficulties
as numbers, its model and its name derived. What has no chips is no miner. -/
def assemble (address : String) (prior : Option Device) (info asic : Device) :
    Except ProbeFailure Device :=
  let d := (asic.combine info).overlay (prior.getD {})
  if d.asicModel.isNone then .error .notMiner
  else
    let d := { d with
      connectionAddress := address
      address := Device.orText d.address address }
    .ok { d.numerized.classified.named with failedPolls := 0 }

/-- The record of a miner from its two answers. -/
def probeResult (target : Target) (info asic : Except ProbeFailure Json) :
    Except ProbeFailure Device := do
  let info ← readPayload (← info)
  assemble target.connectionAddress target.prior info (readAsic asic)

namespace Network

variable (net : Network)

/-- Both answers of a miner; the second one is `null` when it is not asked for. -/
def exchange (address : String) (fetchAsic : Bool) :
    Reply (Except ProbeFailure Json × Except ProbeFailure Json) :=
  if fetchAsic then (net.info address).both (net.asic address)
  else (net.info address).both (.after 0 (.ok .null))

/-- How long it takes to ask a miner, and the record that comes of it. -/
def probe (fetchAsic : Bool) (target : Target) : Nat × Except ProbeFailure Device :=
  match (net.exchange target.connectionAddress fetchAsic).within probeLimit with
  | (time, .ok (info, asic)) => (time, probeResult target info asic)
  | (time, .error failure) => (time, .error failure)

/-- The requests of a probe that begins now. -/
def probeCalls (now : Nat) (fetchAsic : Bool) (target : Target) : List Call :=
  let address := target.connectionAddress
  let limit := (net.probe fetchAsic target).1
  ⟨.info, address, now, now + (net.info address).openFor limit⟩ ::
    if fetchAsic then [⟨.asic, address, now, now + (net.asic address).openFor limit⟩] else []

end Network

end MinerFleet
