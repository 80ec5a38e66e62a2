/-
Looking for miners.

* `Device.isMatch` — a text stands in one of the names or models of a miner, whatever its case;
* `filterDevices` — the miners of a fleet for which it does;
* `Snapshot.find?`, `Snapshot.filtered` — the same in what is published, and the miner that goes by
  a name.
-/
import MinerFleet.Fleet.Snapshot
import MinerFleet.Text.LowerCase

namespace MinerFleet

/-- Whether characters stand in a row somewhere among others. -/
def occursIn (needle : List Char) : List Char → Bool
  | [] => needle.isEmpty
  | c :: cs => needle.isPrefixOf (c :: cs) || occursIn needle cs

namespace Device

/-- The texts in which one looks for a miner. -/
def searchTexts (d : Device) : List String :=
  [some d.shortName, d.displayName, d.asicModel, d.deviceModel, some d.address].filterMap id

/-- Whether a text, but for blanks around it and for case, stands in one of the names or models;
a blank text stands everywhere. -/
def isMatch (d : Device) (text : String) : Bool :=
  let needle := (Text.lower (Text.trim text)).toList
  needle.isEmpty || d.searchTexts.any fun s => occursIn needle (Text.lower s).toList

end Device

/-- The miners in which a text is found. -/
def filterDevices (devices : List Device) (text : String) : List Device :=
  devices.filter (·.isMatch text)

namespace Snapshot

/-- The first miner that goes by a name. -/
def find? (s : Snapshot) (name : String) : Option Member :=
  s.members.find? (·.device.isKnownAs name)

/-- The snapshot with only those miners in which a text is found. -/
def filtered (s : Snapshot) (isMatch : Device → Bool) : Snapshot :=
  { s with members := s.members.filter fun m => isMatch m.device }

end Snapshot

end MinerFleet
