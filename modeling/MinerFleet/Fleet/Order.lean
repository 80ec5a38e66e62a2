/-
The order in which a fleet is shown.

* `SortField`, `Direction`, `SortSpec` — by what it is ordered, and which way;
* `SortSpec.select` — choosing a field again turns the order around;
* `SortKey` — a field of a record, reduced to what decides its place;
* `SortSpec.compare`, `SortSpec.sort` — the order, and a fleet put into it.

Records that lack the field stand behind all others, whichever way the order goes.
-/
import MinerFleet.Address.HostName
import MinerFleet.Device.Basic
import MinerFleet.Fleet.Sorting

namespace MinerFleet

inductive SortField where
  | address | displayName | asicModel | deviceModel | asicCount | hashRate | power | voltage
  | temp | bestDiff | bestSessionDiff | poolDifficulty | sharesAccepted | uptimeSeconds
  | frequency | version
deriving DecidableEq

instance : Inhabited SortField := ⟨.address⟩

def SortField.names : Choice SortField :=
  [("address", .address), ("displayName", .displayName), ("asicModel", .asicModel),
   ("deviceModel", .deviceModel), ("asicCount", .asicCount), ("hashRate", .hashRate),
   ("power", .power), ("voltage", .voltage), ("temp", .temp), ("bestDiff", .bestDiff),
   ("bestSessionDiff", .bestSessionDiff), ("poolDifficulty", .poolDifficulty),
   ("sharesAccepted", .sharesAccepted), ("uptimeSeconds", .uptimeSeconds),
   ("frequency", .frequency), ("version", .version)]

def SortField.name (f : SortField) : String :=
  SortField.names.nameOf f

inductive Direction where
  | asc | desc
deriving DecidableEq

instance : Inhabited Direction := ⟨.asc⟩

def Direction.names : Choice Direction :=
  [("asc", .asc), ("desc", .desc)]

def Direction.name (d : Direction) : String :=
  Direction.names.nameOf d

def Direction.reversed : Direction → Direction
  | .asc => .desc
  | .desc => .asc

/-- The field that decides the order of a fleet, and its direction. -/
structure SortSpec where
  field : SortField := .address
  direction : Direction := .asc
deriving DecidableEq

instance : Inhabited SortSpec := ⟨{}⟩

/-- What decides the place of a record. -/
inductive SortKey where
  | address (s : String)
  | number (x : Float)
  | text (s : String)
  | missing

/-- The place of a float among all floats: by value, minus zero before zero, and what is no number
at the ends. -/
def floatRank (x : Float) : Int :=
  let bits := x.toBits.toNat
  if bits < Nat.pow 2 63 then bits else -((bits - Nat.pow 2 63 : Nat) : Int) - 1

namespace SortKey

def ofNumber (x : Option Float) : SortKey :=
  x.elim .missing .number

def ofText (s : Option String) : SortKey :=
  s.elim .missing .text

/-- The order of keys of one kind. -/
def compare : SortKey → SortKey → Ordering
  | .address a, .address b => compareAddresses a b
  | .number x, .number y => Ord.compare (floatRank x) (floatRank y)
  | .text a, .text b => Text.naturalCompare a b
  | _, _ => .eq

/-- The key that the field of a record gives. -/
def ofDevice (d : Device) : SortField → SortKey
  | .address => .address d.address
  | .displayName => .text d.shortName
  | .asicModel => ofText d.asicModel
  | .deviceModel => ofText d.deviceModel
  | .asicCount => ofNumber (d.asicCount.map fun n => Float.ofNat n.toNat)
  | .hashRate => ofNumber d.hashRate
  | .power => ofNumber d.power
  | .voltage => ofNumber d.voltage
  | .temp => ofNumber d.temp
  | .bestDiff => ofNumber d.bestDiffValue
  | .bestSessionDiff => ofNumber (d.bestSessionDiff.bind Difficulty.value?)
  | .poolDifficulty => ofNumber d.poolDifficulty
  | .sharesAccepted => ofNumber (d.sharesAccepted.map fun n => Float.ofNat n.toNat)
  | .uptimeSeconds => ofNumber (d.uptimeSeconds.map fun n => Float.ofNat n.toNat)
  | .frequency => ofNumber d.frequency
  | .version => ofText d.version

end SortKey

namespace SortSpec

/-- The order after a field was chosen: the field that decides already turns around. -/
def select (spec : SortSpec) (field : SortField) : SortSpec :=
  if spec.field = field then ⟨field, spec.direction.reversed⟩ else ⟨field, .asc⟩

/-- The order of two records. -/
def compare (spec : SortSpec) (a b : Device) : Ordering :=
  match SortKey.ofDevice a spec.field, SortKey.ofDevice b spec.field with
  | .missing, .missing => .eq
  | .missing, _ => .gt
  | _, .missing => .lt
  | x, y =>
    match spec.direction with
    | .asc => x.compare y
    | .desc => (x.compare y).swap

/-- Whether the first record may stand before the second. -/
def mayPrecede (spec : SortSpec) (a b : Device) : Bool :=
  spec.compare a b != .gt

/-- A fleet in order; records that may stand either way keep their places. -/
def sort (spec : SortSpec) (devices : List Device) : List Device :=
  stableSort spec.mayPrecede devices

theorem perm_sort (spec : SortSpec) (devices : List Device) : (spec.sort devices).Perm devices :=
  perm_stableSort spec.mayPrecede devices

def toJson (spec : SortSpec) : Json :=
  .record [("field", .string spec.field.name), ("direction", .string spec.direction.name)]

def shape : Shape :=
  ⟨"struct SortSpec",
   [.needed "field" SortField.names.decode, .needed "direction" Direction.names.decode]⟩

def decode : Decoder SortSpec := fun doc => do
  let fields ← shape.fields doc
  return ⟨← readField fields "field" SortField.names.decode,
          ← readField fields "direction" Direction.names.decode⟩

end SortSpec

end MinerFleet
