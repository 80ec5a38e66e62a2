/-
Records of miners in JSON.

* `Device.toJson` — a record as it is sent and stored;
* `Device.decode` — a record from a miner's report, from the state file or from the daemon.

Firmware writes flags as booleans, numbers or texts, and some texts as numbers: `flag` and
`looseText` take them all. Keys that are not known are kept in `extra`, and written back.
-/
import MinerFleet.Device.Basic

namespace MinerFleet.Device

open Decoder

/-- The fields that are always written, in the order of the record. -/
def wireFields (d : Device) : List (String × Json) :=
  [("address", .string d.address),
   ("connectionAddress", .string d.connectionAddress),
   ("displayName", .ofOption .string d.displayName),
   ("hostname", .ofOption .string d.hostname),
   ("currentIP", .ofOption .string d.currentIp),
   ("ASICModel", .ofOption .string d.asicModel),
   ("deviceModel", .ofOption .string d.deviceModel),
   ("asicCount", .ofOption (fun n => .ofNat n.toNat) d.asicCount),
   ("swarmColor", .ofOption .string d.swarmColor),
   ("boardVersion", .ofOption .string d.boardVersion),
   ("hashRate", .ofOption .ofFloat d.hashRate),
   ("power", .ofOption .ofFloat d.power),
   ("voltage", .ofOption .ofFloat d.voltage),
   ("temp", .ofOption .ofFloat d.temp),
   ("bestDiff", .ofOption Difficulty.toJson d.bestDiff),
   ("bestSessionDiff", .ofOption Difficulty.toJson d.bestSessionDiff),
   ("poolDifficulty", .ofOption .ofFloat d.poolDifficulty),
   ("sharesAccepted", .ofOption (fun n => .ofNat n.toNat) d.sharesAccepted),
   ("uptimeSeconds", .ofOption (fun n => .ofNat n.toNat) d.uptimeSeconds),
   ("frequency", .ofOption .ofFloat d.frequency),
   ("overheat_mode", .ofOption .bool d.overheatMode),
   ("power_fault", .ofOption .string d.powerFault),
   ("isUsingFallbackStratum", .ofOption .bool d.usesFallbackPool),
   ("blockFound", .ofOption .bool d.blockFound),
   ("version", .ofOption .string d.version)]

/-- The number of failures, which is written only when there are any. -/
def failureFields (d : Device) : List (String × Json) :=
  if d.failedPolls = 0 then [] else [("failedPolls", .ofNat d.failedPolls.toNat)]

/-- The record as JSON, with what else the miner reported among its fields. -/
def toJson (d : Device) : Json :=
  .ofMap ((KeyMap.ofList (d.wireFields ++ d.failureFields)).extend d.extra)

/-! ### Reading -/

/-- A flag: a boolean, a number that is zero or not, or a text; empty, `0` and `false` are no. -/
def flag : Decoder (Option Bool) := fun doc => do
  match ← value doc with
  | .null => return none
  | .bool b => return some b
  | .number n => return some (n.toFloat != 0)
  | .string s => return some !(s = "" || s = "0" || s = "false")
  | other => throw (.notFlag other)

/-- A text, also one that is written as a number or a boolean. -/
def looseText : Decoder (Option String) := fun doc => do
  match ← value doc with
  | .null => return none
  | .string s => return some s
  | .number n => return some n.text
  | .bool b => return some (if b then "true" else "false")
  | other => throw (.notText other)

/-- A field that may be left out but not `null`. -/
def plain {α : Type} (name : String) (d : Decoder α) : FieldRule :=
  ⟨name, [], false, d.check⟩

/-- A field that may be left out, under one of two names. -/
def twoNamed {α : Type} (name other : String) (d : Decoder α) : FieldRule :=
  ⟨name, [other], false, d.check⟩

def rules : List FieldRule :=
  [plain "address" text,
   plain "connectionAddress" text,
   .optional "displayName" text,
   .optional "hostname" text,
   .optional "currentIP" text,
   twoNamed "ASICModel" "asicModel" (option text),
   .optional "deviceModel" text,
   .optional "asicCount" uint32,
   .optional "swarmColor" text,
   .optional "boardVersion" text,
   .optional "hashRate" float,
   .optional "hashrate" float,
   .optional "power" float,
   .optional "voltage" float,
   .optional "temp" float,
   .optional "bestDiff" Difficulty.decode,
   .optional "bestSessionDiff" Difficulty.decode,
   .optional "poolDifficulty" float,
   .optional "stratumDiff" float,
   .optional "sharesAccepted" uint64,
   .optional "uptimeSeconds" uint64,
   .optional "frequency" float,
   twoNamed "overheat_mode" "overheatMode" flag,
   twoNamed "power_fault" "powerFault" looseText,
   plain "isUsingFallbackStratum" flag,
   plain "blockFound" flag,
   plain "version" looseText,
   plain "failedPolls" uint32]

/-- A field that may be left out, with the value that it has then. -/
def readDefault {α : Type} (fields : List (String × Document)) (name : String) (d : Decoder α)
    (default : α) : Except DecodeError α :=
  match lookup name fields with
  | some doc => d doc
  | none => .ok default

/-- What is not known, as it stands. -/
def unknownFields (fields : List (String × Document)) : List (String × Json) :=
  fields.filterMap fun (key, doc) =>
    if (FieldRule.find? rules key).isSome then none else doc.value?.map fun v => (key, v)

/-- The record with the given fields, which were judged before. -/
def ofFields (known : List (String × Document)) (extra : KeyMap Json) :
    Except DecodeError Device := do
  return {
    address := ← readDefault known "address" text ""
    connectionAddress := ← readDefault known "connectionAddress" text ""
    displayName := ← readOptional known "displayName" text
    hostname := ← readOptional known "hostname" text
    currentIp := ← readOptional known "currentIP" text
    asicModel := ← readOptional known "ASICModel" text
    deviceModel := ← readOptional known "deviceModel" text
    asicCount := ← readOptional known "asicCount" uint32
    swarmColor := ← readOptional known "swarmColor" text
    boardVersion := ← readOptional known "boardVersion" text
    hashRate := ← readOptional known "hashRate" float
    legacyHashRate := ← readOptional known "hashrate" float
    power := ← readOptional known "power" float
    voltage := ← readOptional known "voltage" float
    temp := ← readOptional known "temp" float
    bestDiff := ← readOptional known "bestDiff" Difficulty.decode
    bestSessionDiff := ← readOptional known "bestSessionDiff" Difficulty.decode
    poolDifficulty := ← readOptional known "poolDifficulty" float
    stratumDiff := ← readOptional known "stratumDiff" float
    sharesAccepted := ← readOptional known "sharesAccepted" uint64
    uptimeSeconds := ← readOptional known "uptimeSeconds" uint64
    frequency := ← readOptional known "frequency" float
    overheatMode := ← readDefault known "overheat_mode" flag none
    powerFault := ← readDefault known "power_fault" looseText none
    usesFallbackPool := ← readDefault known "isUsingFallbackStratum" flag none
    blockFound := ← readDefault known "blockFound" flag none
    version := ← readDefault known "version" looseText none
    failedPolls := ← readDefault known "failedPolls" uint32 0
    extra }

/-- A record from an object; every field may be missing. -/
def decode : Decoder Device
  | .object fields damage => do
    let known ← judgeFields rules (fun _ doc => value.check doc) [] fields
    if damage.isSome then throw .damaged
    ofFields known (KeyMap.ofList (unknownFields fields))
  | doc => .error (mismatch "struct Device" doc)

end MinerFleet.Device
