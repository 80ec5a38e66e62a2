/-
Sums over a fleet.

* `Totals` — hash rate and power of all miners, and the best difficulty of any;
* `totals` — the sums of a fleet; what a miner does not report counts as zero.
-/
import MinerFleet.Device.Basic

namespace MinerFleet

structure Totals where
  hashRate : Float := 0
  power : Float := 0
  bestDiff : Float := 0
deriving DecidableEq

namespace Totals

/-- The sums with one more miner. -/
def add (t : Totals) (d : Device) : Totals :=
  let best := d.bestDiffValue.getD 0
  { hashRate := t.hashRate + d.hashRate.getD 0
    power := t.power + d.power.getD 0
    bestDiff := if t.bestDiff < best then best else t.bestDiff }

def bestDiffText (t : Totals) : String :=
  Magnitude.format t.bestDiff

def wireFields (t : Totals) : List (String × Json) :=
  [("hashRate", .ofFloat t.hashRate), ("power", .ofFloat t.power),
   ("bestDiff", .ofFloat t.bestDiff)]

def toJson (t : Totals) : Json :=
  .record t.wireFields

def rules : List FieldRule :=
  [.needed "hashRate" Decoder.float, .needed "power" Decoder.float,
   .needed "bestDiff" Decoder.float]

def ofFields (fields : List (String × Document)) : Except DecodeError Totals := do
  return ⟨← readField fields "hashRate" Decoder.float, ← readField fields "power" Decoder.float,
          ← readField fields "bestDiff" Decoder.float⟩

def decode : Decoder Totals := fun doc => do
  ofFields (← (Shape.mk "struct Totals" rules).fields doc)

end Totals

/-- The sums of a fleet. -/
def totals (devices : List Device) : Totals :=
  devices.foldl Totals.add {}

/-- The sums of a fleet and the number of its miners. -/
structure FleetTotals where
  deviceCount : Nat := 0
  totals : Totals := {}
deriving DecidableEq

namespace FleetTotals

def toJson (t : FleetTotals) : Json :=
  .record (("deviceCount", .ofNat t.deviceCount) :: t.totals.wireFields)

def decode : Decoder FleetTotals := fun doc => do
  let shape : Shape := ⟨"struct TotalsState", .needed "deviceCount" Decoder.count :: Totals.rules⟩
  let fields ← shape.fields doc
  return ⟨← readField fields "deviceCount" Decoder.count, ← Totals.ofFields fields⟩

end FleetTotals

end MinerFleet
