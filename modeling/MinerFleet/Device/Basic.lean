/-
The record of a miner.

* `Device` — what is known about one miner of the fleet;
* `Device.overlay`, `Device.combine` — one record laid over another;
* `Device.sameIdentity`, `Device.isKnownAs` — which miner a record is about;
* `Device.zeroed`, `Device.failed` — the record after a request that failed;
* `Device.shortName` — what people call the miner.

A miner has two names: the address that it was added by, and the address that is dialed. Readings
that a miner gave no value for are absent. `overlay` falls back to the record below for what
identifies a miner; `combine` does so for its readings as well.
-/
import MinerFleet.Magnitude.Difficulty

namespace MinerFleet

structure Device where
  /-- The name that the miner was added by, or its IPv4 address. -/
  address : String := ""
  /-- The IPv4 address that is dialed. -/
  connectionAddress : String := ""
  displayName : Option String := none
  hostname : Option String := none
  /-- The address that the miner gives for itself. -/
  currentIp : Option String := none
  asicModel : Option String := none
  deviceModel : Option String := none
  asicCount : Option UInt32 := none
  swarmColor : Option String := none
  boardVersion : Option String := none
  /-- Hash rate in GH/s. -/
  hashRate : Option Float := none
  /-- The hash rate under the name that older firmware has for it; read but not written. -/
  legacyHashRate : Option Float := none
  /-- Power draw in watts. -/
  power : Option Float := none
  voltage : Option Float := none
  temp : Option Float := none
  bestDiff : Option Difficulty := none
  bestSessionDiff : Option Difficulty := none
  poolDifficulty : Option Float := none
  /-- The pool difficulty under the name that older firmware has for it; read but not written. -/
  stratumDiff : Option Float := none
  sharesAccepted : Option UInt64 := none
  uptimeSeconds : Option UInt64 := none
  /-- Clock in MHz. -/
  frequency : Option Float := none
  overheatMode : Option Bool := none
  powerFault : Option String := none
  usesFallbackPool : Option Bool := none
  blockFound : Option Bool := none
  version : Option String := none
  /-- How many refresh passes in a row failed to reach the miner. -/
  failedPolls : UInt32 := 0
  /-- What else the miner reported. -/
  extra : KeyMap Json := KeyMap.empty
deriving DecidableEq

namespace Device

instance : Inhabited Device := ⟨{}⟩

/-- A miner of which nothing but its addresses is known. -/
def at_ (address connectionAddress : String) : Device :=
  { address, connectionAddress }

/-! ### Layering -/

/-- A text, or another one where it is empty. -/
def orText (s fallback : String) : String :=
  if s = "" then fallback else s

/-- A fresh record over an older one of the same miner. What identifies the miner stays known;
readings, warnings and the number of failures are those of the fresh record alone. -/
def overlay (fresh base : Device) : Device :=
  { fresh with
    address := orText fresh.address base.address
    connectionAddress := orText fresh.connectionAddress base.connectionAddress
    displayName := fresh.displayName.or base.displayName
    hostname := fresh.hostname.or base.hostname
    currentIp := fresh.currentIp.or base.currentIp
    asicModel := fresh.asicModel.or base.asicModel
    deviceModel := fresh.deviceModel.or base.deviceModel
    asicCount := fresh.asicCount.or base.asicCount
    swarmColor := fresh.swarmColor.or base.swarmColor
    boardVersion := fresh.boardVersion.or base.boardVersion
    version := fresh.version.or base.version
    extra := base.extra.extend fresh.extra }

/-- A record over another one from the same moment: every field that the first lacks is taken
from the second, but for the number of failures. -/
def combine (fresh base : Device) : Device :=
  { fresh.overlay base with
    hashRate := fresh.hashRate.or base.hashRate
    legacyHashRate := fresh.legacyHashRate.or base.legacyHashRate
    power := fresh.power.or base.power
    voltage := fresh.voltage.or base.voltage
    temp := fresh.temp.or base.temp
    bestDiff := fresh.bestDiff.or base.bestDiff
    bestSessionDiff := fresh.bestSessionDiff.or base.bestSessionDiff
    poolDifficulty := fresh.poolDifficulty.or base.poolDifficulty
    stratumDiff := fresh.stratumDiff.or base.stratumDiff
    sharesAccepted := fresh.sharesAccepted.or base.sharesAccepted
    uptimeSeconds := fresh.uptimeSeconds.or base.uptimeSeconds
    frequency := fresh.frequency.or base.frequency
    overheatMode := fresh.overheatMode.or base.overheatMode
    powerFault := fresh.powerFault.or base.powerFault
    usesFallbackPool := fresh.usesFallbackPool.or base.usesFallbackPool
    blockFound := fresh.blockFound.or base.blockFound }

/-! ### Identity -/

/-- Two records that share an address or a dialed address. -/
def sameIdentity (a b : Device) : Bool :=
  a.address = b.address || a.connectionAddress = b.connectionAddress

/-- Whether a name is one of the two of this miner. -/
def isKnownAs (d : Device) (name : String) : Bool :=
  d.address = name || d.connectionAddress = name

/-- A text without `.local` at its end. -/
def stripLocal (s : String) : String :=
  let cs := s.toList
  let domain := ".local".toList
  if domain.isSuffixOf cs then String.ofList (cs.take (cs.length - domain.length)) else s

/-- The hostname without its domain, or the address where there is no hostname. -/
def shortName (d : Device) : String :=
  match d.hostname with
  | some name => if name = "" then d.address else stripLocal name
  | none => d.address

/-- The record with the short name as its display name. -/
def named (d : Device) : Device :=
  { d with displayName := some d.shortName }

/-! ### Failures -/

/-- The record without its readings, which are zero. -/
def zeroed (d : Device) : Device :=
  { d with
    hashRate := some 0
    sharesAccepted := some 0
    power := some 0
    voltage := some 0
    temp := some 0
    bestDiff := some (.number 0)
    uptimeSeconds := some 0
    poolDifficulty := some 0 }

/-- One more failure, as far as they are counted. -/
def countFailure (n : UInt32) : UInt32 :=
  if n = 0xffffffff then n else n + 1

/-- The record with one more failure. -/
def withFailure (d : Device) : Device :=
  { d with failedPolls := countFailure d.failedPolls }

/-- The record after a refresh that did not reach the miner. -/
def failed (d : Device) : Device :=
  d.zeroed.withFailure

/-- Enough failures in a row to distrust the record; a limit of zero means never. -/
def isStale (d : Device) (staleAfter : UInt32) : Bool :=
  0 < staleAfter && staleAfter ≤ d.failedPolls

/-! ### Difficulties -/

/-- The best difficulty as a number. -/
def bestDiffValue (d : Device) : Option Float :=
  d.bestDiff.bind Difficulty.value?

/-- The record with its difficulties as numbers, where they say one. -/
def numerized (d : Device) : Device :=
  { d with
    bestDiff := d.bestDiff.map Difficulty.numerized
    bestSessionDiff := d.bestSessionDiff.map Difficulty.numerized }

end Device

end MinerFleet
