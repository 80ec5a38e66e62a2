/-
What is wrong with a miner.

* `Notice` — a condition worth telling, with `Notice.severity` and `Notice.text`;
* `Device.notice` — the most severe condition of a record, if there is any.
-/
import MinerFleet.Device.Basic

namespace MinerFleet

inductive Severity where
  | error | warning | info | success
deriving DecidableEq

def Severity.names : Choice Severity :=
  [("error", .error), ("warning", .warning), ("info", .info), ("success", .success)]

def Severity.name (s : Severity) : String :=
  Severity.names.nameOf s

inductive Notice where
  | overheat
  | powerFault (fault : String)
  | lowFrequency (frequency : Float)
  | fallbackPool
  | blockFound
  | stale (failedPolls : UInt32)
deriving DecidableEq

/-- Clocks below this many MHz, but above zero, are those of a safe mode. -/
def frequencyFloor : Float := 400

namespace Notice

def severity : Notice → Severity
  | .overheat | .powerFault _ => .error
  | .lowFrequency _ | .fallbackPool | .stale _ => .warning
  | .blockFound => .success

def text : Notice → String
  | .overheat => "Overheat mode active"
  | .powerFault fault => "Power fault: " ++ fault
  | .lowFrequency frequency => "Frequency low (" ++ Decimal.fixedText frequency 0 ++ " MHz)"
  | .fallbackPool => "Using fallback pool"
  | .blockFound => "Block found"
  | .stale failedPolls =>
    "Not responding (" ++ toString failedPolls.toNat ++ " failed polls)"

def toJson : Notice → Json
  | .overheat => .record [("kind", .string "overheat")]
  | .powerFault fault => .record [("kind", .string "powerFault"), ("fault", .string fault)]
  | .lowFrequency frequency =>
    .record [("kind", .string "lowFrequency"), ("frequency", .ofFloat frequency)]
  | .fallbackPool => .record [("kind", .string "fallbackPool")]
  | .blockFound => .record [("kind", .string "blockFound")]
  | .stale failedPolls =>
    .record [("kind", .string "stale"), ("failed_polls", .ofNat failedPolls.toNat)]

/-- A condition without details. -/
def bare (n : Notice) : RecordKind Notice :=
  ⟨"", [], fun _ => .ok n⟩

def kinds : Tagged Notice where
  title := "Notification"
  tag := "kind"
  kinds :=
    [("overheat", bare .overheat),
     ("powerFault",
      ⟨"struct variant Notification::PowerFault", [.needed "fault" Decoder.text],
       fun fields => do return .powerFault (← readField fields "fault" Decoder.text)⟩),
     ("lowFrequency",
      ⟨"struct variant Notification::LowFrequency", [.needed "frequency" Decoder.float],
       fun fields => do return .lowFrequency (← readField fields "frequency" Decoder.float)⟩),
     ("fallbackPool", bare .fallbackPool),
     ("blockFound", bare .blockFound),
     ("stale",
      ⟨"struct variant Notification::Stale", [.needed "failed_polls" Decoder.uint32],
       fun fields => do return .stale (← readField fields "failed_polls" Decoder.uint32)⟩)]

def decode : Decoder Notice :=
  kinds.decode

end Notice

/-- The first condition that holds of: overheated, a power fault, a low clock, a fallback pool, a
block found, no answer for too long. -/
def Device.notice (d : Device) (staleAfter : UInt32) : Option Notice :=
  let fault := d.powerFault.getD ""
  let frequency := d.frequency.getD 0
  if d.overheatMode = some true then some .overheat
  else if fault ≠ "" then some (.powerFault fault)
  else if frequency > 0 ∧ frequency < frequencyFloor then some (.lowFrequency frequency)
  else if d.usesFallbackPool = some true then some .fallbackPool
  else if d.blockFound = some true then some .blockFound
  else if d.isStale staleAfter then some (.stale d.failedPolls)
  else none

end MinerFleet
