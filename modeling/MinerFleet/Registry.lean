/-
The miners of a fleet.

* `Registry` — the miners in their order, with their sums, and the store that keeps them;
* `Registry.open_` — the registry that a store holds;
* `Registry.merge`, `Registry.insert`, `Registry.remove`, `Registry.applyRefresh` — changes to
  the miners; `Registry.setSort`, `Registry.sortBy` — changes to their order.

Every change puts the miners into order, sums them up and writes them to the store. A write that
fails is told, and changes nothing else.
-/
import MinerFleet.Store.Basic
import MinerFleet.Fleet.Order
import MinerFleet.Fleet.Totals
import MinerFleet.Device.Wire

namespace MinerFleet

structure Registry (σ : Type) where
  store : σ
  devices : List Device := []
  sort : SortSpec := {}
  totals : Totals := {}

namespace Registry

variable {σ : Type}

/-- The miners in order, and summed up. -/
def resort (r : Registry σ) : Registry σ :=
  let devices := r.sort.sort r.devices
  { r with devices, totals := MinerFleet.totals devices }

def isEmpty (r : Registry σ) : Bool :=
  r.devices.isEmpty

/-- The first miner that goes by a name. -/
def find? (r : Registry σ) (name : String) : Option Device :=
  r.devices.find? (·.isKnownAs name)

/-- Whether a miner is dialed at an address. -/
def dials (r : Registry σ) (connectionAddress : String) : Bool :=
  r.devices.any fun d => d.connectionAddress = connectionAddress

/-- A list of miners as it is stored. -/
def devicesJson (devices : List Device) : Json :=
  .array (devices.map Device.toJson)

variable [Store σ]

/-- Writes a value, and tells if that failed. -/
def save (r : Registry σ) (key : String) (v : Json) (telling : Fault → LogEvent) :
    Registry σ × List LogEvent :=
  let (store, fault) := Store.put r.store key v
  ({ r with store }, fault.toList.map telling)

/-- Puts the miners into order, sums them up and writes them down. -/
def commit (r : Registry σ) : Registry σ × List LogEvent :=
  r.resort.save Store.devicesKey (devicesJson r.resort.devices) .devicesNotSaved

/-- The registry that a store holds, whether it held any miners, and what to tell about it. -/
def open_ (store : σ) : Registry σ × Bool × List LogEvent :=
  let (devices, log) := Store.load store Store.devicesKey (Decoder.list Device.decode)
  let (sort, log') := Store.load store Store.sortKey SortSpec.decode
  let r : Registry σ := { store, devices := devices.getD [], sort := sort.getD {} }
  (r.resort, devices.isSome, log ++ log')

/-! ### Changes -/

/-- The miners with those others that share no address with any before them. -/
def mergeInto (devices : List Device) : List Device → List Device
  | [] => devices
  | d :: ds =>
    if devices.any (·.sameIdentity d) then mergeInto devices ds
    else mergeInto (devices ++ [d]) ds

/-- Adds the miners that are not there yet, and counts them. -/
def merge (r : Registry σ) (found : List Device) : Registry σ × Nat × List LogEvent :=
  let devices := mergeInto r.devices found
  let added := devices.length - r.devices.length
  if added = 0 then (r, 0, [])
  else
    let (r, log) := { r with devices }.commit
    (r, added, log)

/-- Adds one miner, unless one is dialed at its address. -/
def insert (r : Registry σ) (d : Device) : Except Fault (Registry σ × List LogEvent) :=
  if r.dials d.connectionAddress then .error (.duplicate d.connectionAddress)
  else .ok { r with devices := r.devices ++ [d] }.commit

/-- Takes out the first miner that goes by a name. -/
def remove (r : Registry σ) (name : String) : Option (Device × Registry σ × List LogEvent) :=
  (r.find? name).map fun d =>
    (d, { r with devices := r.devices.eraseP (·.isKnownAs name) }.commit)

/-- The record of a refresh for an address; of several the last. -/
def resultFor (refreshed : List Device) (connectionAddress : String) : Option Device :=
  refreshed.reverse.find? fun d => d.connectionAddress = connectionAddress

/-- The miners with the records of a refresh in place of those that are dialed at the same
address. A record takes one place only, and `taken` are the addresses of those that have. -/
def replaceFrom (refreshed : List Device) (taken : List String) : List Device → List Device
  | [] => []
  | d :: ds =>
    let address := d.connectionAddress
    if taken.contains address then d :: replaceFrom refreshed taken ds
    else
      match resultFor refreshed address with
      | some fresh => fresh :: replaceFrom refreshed (address :: taken) ds
      | none => d :: replaceFrom refreshed taken ds

/-- Puts the records of a refresh in place. Records of miners that are gone are dropped, and
miners without a record stay as they are. -/
def applyRefresh (r : Registry σ) (refreshed : List Device) : Registry σ × List LogEvent :=
  { r with devices := replaceFrom refreshed [] r.devices }.commit

/-- Changes the order. -/
def setSort (r : Registry σ) (spec : SortSpec) : Registry σ × List LogEvent :=
  let (r, log) := { r with sort := spec }.save Store.sortKey spec.toJson .sortNotSaved
  let (r, log') := r.commit
  (r, log ++ log')

/-- Orders the miners by a field, or turns their order around if it is by this field. -/
def sortBy (r : Registry σ) (field : SortField) : Registry σ × List LogEvent :=
  r.setSort (r.sort.select field)

end Registry

end MinerFleet
