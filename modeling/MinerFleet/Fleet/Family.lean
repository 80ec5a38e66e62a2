/-
Kinds of hardware in a fleet.

* `Family` — a model, its chip and their number, and the colour in which they are shown;
* `families` — those of a fleet, in the order in which they appear.
-/
import MinerFleet.Device.Basic

namespace MinerFleet

structure Family where
  deviceModel : Option String
  asicModel : Option String
  asicCount : Option UInt32
  swarmColor : Option String
deriving DecidableEq

namespace Family

def ofDevice (d : Device) : Family :=
  ⟨d.deviceModel, d.asicModel, d.asicCount, d.swarmColor⟩

/-- The same hardware; the colour does not count. -/
def sameHardware (a b : Family) : Bool :=
  a.deviceModel = b.deviceModel && a.asicModel = b.asicModel && a.asicCount = b.asicCount

def toJson (f : Family) : Json :=
  .record
    [("deviceModel", .ofOption .string f.deviceModel), ("ASICModel", .ofOption .string f.asicModel),
     ("asicCount", .ofOption (fun n => .ofNat n.toNat) f.asicCount),
     ("swarmColor", .ofOption .string f.swarmColor)]

def decode : Decoder Family := fun doc => do
  let shape : Shape :=
    ⟨"struct Family",
     [.optional "deviceModel" Decoder.text, .optional "ASICModel" Decoder.text,
      .optional "asicCount" Decoder.uint32, .optional "swarmColor" Decoder.text]⟩
  let fields ← shape.fields doc
  return ⟨← readOptional fields "deviceModel" Decoder.text,
          ← readOptional fields "ASICModel" Decoder.text,
          ← readOptional fields "asicCount" Decoder.uint32,
          ← readOptional fields "swarmColor" Decoder.text⟩

end Family

/-- The kinds of hardware in a fleet, in the order in which they appear. -/
def families (devices : List Device) : List Family :=
  devices.foldl
    (fun seen d =>
      let f := Family.ofDevice d
      if seen.any (·.sameHardware f) then seen else seen ++ [f])
    []

end MinerFleet
