/-
What a fleet looks like from outside.

* `Member` — a miner with what is wrong with it;
* `PassSummary` — how the last pass over the fleet ended;
* `Snapshot` — the whole fleet at one moment, as it is published and sent;
* `Settings` — changes to how the fleet is kept and shown.
-/
import MinerFleet.Device.Wire
import MinerFleet.Fleet.Notice
import MinerFleet.Fleet.Order
import MinerFleet.Fleet.Totals

namespace MinerFleet

inductive ViewMode where
  | grid | list
deriving DecidableEq

instance : Inhabited ViewMode := ⟨.grid⟩

def ViewMode.names : Choice ViewMode :=
  [("grid", .grid), ("list", .list)]

def ViewMode.name (v : ViewMode) : String :=
  ViewMode.names.nameOf v

/-! ### Members -/

/-- A miner with what is wrong with it. -/
structure Member where
  device : Device
  notice : Option Notice
  severity : Option Severity
  stale : Bool
deriving DecidableEq

namespace Member

def ofDevice (staleAfter : UInt32) (d : Device) : Member :=
  let n := d.notice staleAfter
  { device := d, notice := n, severity := n.map Notice.severity, stale := d.isStale staleAfter }

def toJson (m : Member) : Json :=
  .record
    [("device", m.device.toJson), ("notification", .ofOption Notice.toJson m.notice),
     ("severity", .ofOption (fun s => .string s.name) m.severity), ("stale", .bool m.stale)]

def decode : Decoder Member := fun doc => do
  let shape : Shape :=
    ⟨"struct DeviceState",
     [.needed "device" Device.decode, .optional "notification" Notice.decode,
      .optional "severity" Severity.names.decode, .needed "stale" Decoder.bool]⟩
  let fields ← shape.fields doc
  return ⟨← readField fields "device" Device.decode,
          ← readOptional fields "notification" Notice.decode,
          ← readOptional fields "severity" Severity.names.decode,
          ← readField fields "stale" Decoder.bool⟩

end Member

/-! ### Passes -/

inductive PassSummary where
  /-- How many miners answered, and how many of them are new. -/
  | discovery (found added : Nat)
  /-- The network to scan is not known. -/
  | discoveryFailed (error : String)
  /-- How many miners were asked, and a line for each that did not answer. -/
  | refresh (polled : Nat) (warnings : List String)
deriving DecidableEq

namespace PassSummary

def toJson : PassSummary → Json
  | .discovery found added =>
    .record [("kind", .string "discovery"), ("found", .ofNat found), ("added", .ofNat added)]
  | .discoveryFailed error =>
    .record [("kind", .string "discoveryFailed"), ("error", .string error)]
  | .refresh polled warnings =>
    .record
      [("kind", .string "refresh"), ("polled", .ofNat polled),
       ("warnings", .array (warnings.map .string))]

def kinds : Tagged PassSummary where
  title := "PassSummary"
  tag := "kind"
  kinds :=
    [("discovery",
      ⟨"struct variant PassSummary::Discovery",
       [.needed "found" Decoder.count, .needed "added" Decoder.count],
       fun fields => do
        return .discovery (← readField fields "found" Decoder.count)
          (← readField fields "added" Decoder.count)⟩),
     ("discoveryFailed",
      ⟨"struct variant PassSummary::DiscoveryFailed", [.needed "error" Decoder.text],
       fun fields => do return .discoveryFailed (← readField fields "error" Decoder.text)⟩),
     ("refresh",
      ⟨"struct variant PassSummary::Refresh",
       [.needed "polled" Decoder.count, .needed "warnings" (Decoder.list Decoder.text)],
       fun fields => do
        return .refresh (← readField fields "polled" Decoder.count)
          (← readField fields "warnings" (Decoder.list Decoder.text))⟩)]

def decode : Decoder PassSummary :=
  kinds.decode

end PassSummary

/-! ### Snapshots -/

structure Snapshot where
  /-- The miners in the order of `sort`. -/
  members : List Member := []
  totals : FleetTotals := {}
  sort : SortSpec := {}
  /-- Seconds between two refreshes. -/
  refreshInterval : UInt32 := 0
  /-- Seconds until the next refresh. -/
  countdown : UInt32 := 0
  scanning : Bool := false
  refreshing : Bool := false
  view : ViewMode := .grid
  lastPass : Option PassSummary := none
deriving DecidableEq

namespace Snapshot

instance : Inhabited Snapshot := ⟨{}⟩

def toJson (s : Snapshot) : Json :=
  .record
    [("devices", .array (s.members.map Member.toJson)), ("totals", s.totals.toJson),
     ("sort", s.sort.toJson), ("refreshInterval", .ofNat s.refreshInterval.toNat),
     ("countdown", .ofNat s.countdown.toNat), ("scanning", .bool s.scanning),
     ("refreshing", .bool s.refreshing), ("view", .string s.view.name),
     ("lastPass", .ofOption PassSummary.toJson s.lastPass)]

def shape : Shape :=
  ⟨"struct SwarmState",
   [.needed "devices" (Decoder.list Member.decode), .needed "totals" FleetTotals.decode,
    .needed "sort" SortSpec.decode, .needed "refreshInterval" Decoder.uint32,
    .needed "countdown" Decoder.uint32, .needed "scanning" Decoder.bool,
    .needed "refreshing" Decoder.bool, .needed "view" ViewMode.names.decode,
    .optional "lastPass" PassSummary.decode]⟩

def decode : Decoder Snapshot := fun doc => do
  let fields ← shape.fields doc
  return {
    members := ← readField fields "devices" (Decoder.list Member.decode)
    totals := ← readField fields "totals" FleetTotals.decode
    sort := ← readField fields "sort" SortSpec.decode
    refreshInterval := ← readField fields "refreshInterval" Decoder.uint32
    countdown := ← readField fields "countdown" Decoder.uint32
    scanning := ← readField fields "scanning" Decoder.bool
    refreshing := ← readField fields "refreshing" Decoder.bool
    view := ← readField fields "view" ViewMode.names.decode
    lastPass := ← readOptional fields "lastPass" PassSummary.decode }

end Snapshot

/-! ### Settings -/

/-- Changes to a fleet; what is absent stays as it is. -/
structure Settings where
  refreshInterval : Option UInt32 := none
  /-- A field to order the fleet by; the one that orders it already turns the order around. -/
  sort : Option SortField := none
  view : Option ViewMode := none
deriving DecidableEq

namespace Settings

def toJson (s : Settings) : Json :=
  .record
    [("refreshInterval", .ofOption (fun n => .ofNat n.toNat) s.refreshInterval),
     ("sort", .ofOption (fun f => .string f.name) s.sort),
     ("view", .ofOption (fun v => .string v.name) s.view)]

def shape : Shape :=
  ⟨"struct SettingsPatch",
   [.optional "refreshInterval" Decoder.uint32, .optional "sort" SortField.names.decode,
    .optional "view" ViewMode.names.decode]⟩

def decode : Decoder Settings := fun doc => do
  let fields ← shape.fields doc
  return ⟨← readOptional fields "refreshInterval" Decoder.uint32,
          ← readOptional fields "sort" SortField.names.decode,
          ← readOptional fields "view" ViewMode.names.decode⟩

end Settings

end MinerFleet
