/-
What a record of a miner is read from, and what is read from its own JSON.

* `Device.Reads` — each field of a record is what was read for it from the fields that are known;
  a record is read exactly where each of its fields is (`Device.decode_eq_ok`);
* `Device.Sealed` — what else the miner reported is normal, and under keys that are not known;
* `Device.written` — the record that is read from the JSON of a record.

`Device.decode_toJson` says what is read from the JSON of a sealed record: all but the two fields
that are never written, and the readings that are not finite. Every record that has been read is
sealed (`Device.sealed_of_decode`).
-/
import MinerFleet.Device.Wire
import MinerFleet.Proofs.Json.Records

namespace MinerFleet

/-- A difficulty, unless it is a number that is not finite. -/
def Difficulty.finite? : Difficulty → Option Difficulty
  | .number x => if x.isFinite then some (.number x) else none
  | .text s => some (.text s)

namespace Device

open Decoder

/-- Each field of a record is what was read for it. -/
structure Reads (known : List (String × Document)) (extra : KeyMap Json) (d : Device) : Prop where
  address : readDefault known "address" text "" = .ok d.address
  connectionAddress : readDefault known "connectionAddress" text "" = .ok d.connectionAddress
  displayName : readOptional known "displayName" text = .ok d.displayName
  hostname : readOptional known "hostname" text = .ok d.hostname
  currentIp : readOptional known "currentIP" text = .ok d.currentIp
  asicModel : readOptional known "ASICModel" text = .ok d.asicModel
  deviceModel : readOptional known "deviceModel" text = .ok d.deviceModel
  asicCount : readOptional known "asicCount" uint32 = .ok d.asicCount
  swarmColor : readOptional known "swarmColor" text = .ok d.swarmColor
  boardVersion : readOptional known "boardVersion" text = .ok d.boardVersion
  hashRate : readOptional known "hashRate" float = .ok d.hashRate
  legacyHashRate : readOptional known "hashrate" float = .ok d.legacyHashRate
  power : readOptional known "power" float = .ok d.power
  voltage : readOptional known "voltage" float = .ok d.voltage
  temp : readOptional known "temp" float = .ok d.temp
  bestDiff : readOptional known "bestDiff" Difficulty.decode = .ok d.bestDiff
  bestSessionDiff : readOptional known "bestSessionDiff" Difficulty.decode = .ok d.bestSessionDiff
  poolDifficulty : readOptional known "poolDifficulty" float = .ok d.poolDifficulty
  stratumDiff : readOptional known "stratumDiff" float = .ok d.stratumDiff
  sharesAccepted : readOptional known "sharesAccepted" uint64 = .ok d.sharesAccepted
  uptimeSeconds : readOptional known "uptimeSeconds" uint64 = .ok d.uptimeSeconds
  frequency : readOptional known "frequency" float = .ok d.frequency
  overheatMode : readDefault known "overheat_mode" flag none = .ok d.overheatMode
  powerFault : readDefault known "power_fault" looseText none = .ok d.powerFault
  usesFallbackPool : readDefault known "isUsingFallbackStratum" flag none = .ok d.usesFallbackPool
  blockFound : readDefault known "blockFound" flag none = .ok d.blockFound
  version : readDefault known "version" looseText none = .ok d.version
  failedPolls : readDefault known "failedPolls" uint32 0 = .ok d.failedPolls
  extra : d.extra = extra

/-- A record is read exactly where each of its fields is. -/
theorem ofFields_eq_ok {known : List (String × Document)} {extra : KeyMap Json} {d : Device} :
    ofFields known extra = .ok d ↔ Reads known extra d := by
  simp only [ofFields, bind_eq_ok, pure_eq_ok]
  constructor
  · rintro ⟨a₁, h₁, a₂, h₂, a₃, h₃, a₄, h₄, a₅, h₅, a₆, h₆, a₇, h₇, a₈, h₈, a₉, h₉, a₁₀, h₁₀,
      a₁₁, h₁₁, a₁₂, h₁₂, a₁₃, h₁₃, a₁₄, h₁₄, a₁₅, h₁₅, a₁₆, h₁₆, a₁₇, h₁₇, a₁₈, h₁₈, a₁₉, h₁₉,
      a₂₀, h₂₀, a₂₁, h₂₁, a₂₂, h₂₂, a₂₃, h₂₃, a₂₄, h₂₄, a₂₅, h₂₅, a₂₆, h₂₆, a₂₇, h₂₇, a₂₈, h₂₈,
      rfl⟩
    exact ⟨h₁, h₂, h₃, h₄, h₅, h₆, h₇, h₈, h₉, h₁₀, h₁₁, h₁₂, h₁₃, h₁₄, h₁₅, h₁₆, h₁₇, h₁₈, h₁₉,
      h₂₀, h₂₁, h₂₂, h₂₃, h₂₄, h₂₅, h₂₆, h₂₇, h₂₈, rfl⟩
  · intro h
    refine ⟨_, h.address, _, h.connectionAddress, _, h.displayName, _, h.hostname, _, h.currentIp,
      _, h.asicModel, _, h.deviceModel, _, h.asicCount, _, h.swarmColor, _, h.boardVersion,
      _, h.hashRate, _, h.legacyHashRate, _, h.power, _, h.voltage, _, h.temp, _, h.bestDiff,
      _, h.bestSessionDiff, _, h.poolDifficulty, _, h.stratumDiff, _, h.sharesAccepted,
      _, h.uptimeSeconds, _, h.frequency, _, h.overheatMode, _, h.powerFault,
      _, h.usesFallbackPool, _, h.blockFound, _, h.version, _, h.failedPolls, ?_⟩
    rw [← h.extra]

/-- What is read from an object without damage: its known fields, and all others as they stand. -/
theorem decode_eq_ok {fields : List (String × Document)} {d : Device} :
    decode (.object fields none) = .ok d ↔
      ∃ known, judgeFields rules (fun _ doc => value.check doc) [] fields = .ok known ∧
        Reads known (KeyMap.ofList (unknownFields fields)) d := by
  simp only [decode, bind_eq_ok, ← ofFields_eq_ok, Option.isSome_none, Bool.false_eq_true, if_false]

/-- A field that was read passes the check of its rule. -/
theorem check_of_readDefault {α : Type} {known : List (String × Document)} {name : String}
    {d : Decoder α} {default a : α} (h : readDefault known name d default = .ok a) :
    ∀ doc, lookup name known = some doc → d.check doc = .ok () := by
  intro doc hl
  rw [readDefault, hl] at h
  exact Decoder.check_eq_ok.mpr ⟨a, h⟩

theorem Reads.check {known : List (String × Document)} {extra : KeyMap Json} {d : Device}
    (h : Reads known extra d) :
    ∀ rule ∈ rules, ∀ doc, lookup rule.name known = some doc → rule.check doc = .ok () := by
  simp only [rules, List.forall_mem_cons]
  exact ⟨check_of_readDefault h.address, check_of_readDefault h.connectionAddress,
    check_of_readOptional h.displayName, check_of_readOptional h.hostname,
    check_of_readOptional h.currentIp, check_of_readOptional h.asicModel,
    check_of_readOptional h.deviceModel, check_of_readOptional h.asicCount,
    check_of_readOptional h.swarmColor, check_of_readOptional h.boardVersion,
    check_of_readOptional h.hashRate, check_of_readOptional h.legacyHashRate,
    check_of_readOptional h.power, check_of_readOptional h.voltage, check_of_readOptional h.temp,
    check_of_readOptional h.bestDiff, check_of_readOptional h.bestSessionDiff,
    check_of_readOptional h.poolDifficulty, check_of_readOptional h.stratumDiff,
    check_of_readOptional h.sharesAccepted, check_of_readOptional h.uptimeSeconds,
    check_of_readOptional h.frequency, check_of_readDefault h.overheatMode,
    check_of_readDefault h.powerFault, check_of_readDefault h.usesFallbackPool,
    check_of_readDefault h.blockFound, check_of_readDefault h.version,
    check_of_readDefault h.failedPolls, List.forall_mem_nil _⟩

/-! ### Keys that are not known -/

/-- What else the miner reported is normal, and stands under keys that are not known. -/
def Sealed (d : Device) : Prop :=
  ∀ key v, d.extra.get? key = some v → FieldRule.find? rules key = none ∧ v.Normal

theorem mem_unknownFields {fields : List (String × Document)} {key : String} {v : Json} :
    (key, v) ∈ unknownFields fields ↔
      FieldRule.find? rules key = none ∧ ∃ doc, (key, doc) ∈ fields ∧ doc.value? = some v := by
  rw [unknownFields, List.mem_filterMap]
  constructor
  · rintro ⟨⟨k, doc⟩, hm, he⟩
    dsimp only at he
    split at he
    · cases he
    · rename_i hr
      obtain ⟨w, hw, he⟩ := Option.map_eq_some_iff.mp he
      obtain ⟨rfl, rfl⟩ := Prod.mk.inj he
      exact ⟨Option.not_isSome_iff_eq_none.mp hr, doc, hm, hw⟩
  · rintro ⟨hr, doc, hm, hv⟩
    refine ⟨(key, doc), hm, ?_⟩
    dsimp only
    rw [hr, hv]
    rfl

/-- Every record that has been read is sealed. -/
theorem sealed_of_decode {doc : Document} {d : Device} (h : decode doc = .ok d) : d.Sealed := by
  have hsealed : ∀ fields, ∀ key v, (KeyMap.ofList (unknownFields fields)).get? key = some v →
      FieldRule.find? rules key = none ∧ v.Normal := by
    intro fields key v hv
    rw [← KeyMap.mem_entries] at hv
    obtain ⟨hr, doc, -, hdoc⟩ := mem_unknownFields.mp (KeyMap.mem_of_mem_ofList hv)
    exact ⟨hr, Json.normal_of_value? hdoc⟩
  cases doc with
  | object fields damage =>
    cases damage with
    | none =>
      obtain ⟨known, -, hr⟩ := decode_eq_ok.mp h
      rw [Sealed, hr.extra]
      exact hsealed fields
    | some damage =>
      rw [decode, bind_eq_ok] at h
      obtain ⟨known, -, h⟩ := h
      cases h
  | _ => cases h

/-! ### Reading what was written -/

/-- The record that is read from the JSON of a record. -/
def written (d : Device) : Device :=
  { d with
    hashRate := d.hashRate.filter Float.isFinite
    legacyHashRate := none
    power := d.power.filter Float.isFinite
    voltage := d.voltage.filter Float.isFinite
    temp := d.temp.filter Float.isFinite
    bestDiff := d.bestDiff.bind Difficulty.finite?
    bestSessionDiff := d.bestSessionDiff.bind Difficulty.finite?
    poolDifficulty := d.poolDifficulty.filter Float.isFinite
    stratumDiff := none
    frequency := d.frequency.filter Float.isFinite }

theorem option_difficulty {room : Nat} (x : Option Difficulty) :
    option Difficulty.decode (Json.clip room (.ofOption Difficulty.toJson x)) =
      .ok (x.bind Difficulty.finite?) := by
  cases x with
  | none => rfl
  | some x =>
    cases x with
    | text s => rfl
    | number x =>
      rw [Json.ofOption, Difficulty.toJson, Json.ofFloat, Option.bind_some, Difficulty.finite?]
      by_cases hx : x.isFinite = true
      · rw [if_pos hx, if_pos hx]
        rfl
      · rw [if_neg hx, if_neg hx]
        rfl

theorem flag_ofOption {room : Nat} (b : Option Bool) :
    flag (Json.clip room (.ofOption .bool b)) = .ok b := by
  cases b <;> rfl

theorem looseText_ofOption {room : Nat} (s : Option String) :
    looseText (Json.clip room (.ofOption .string s)) = .ok s := by
  cases s <;> rfl

/-- The fields that are written whatever else the miner reported. -/
def ownFields (d : Device) : List (String × Json) :=
  d.wireFields ++ d.failureFields

/-- The names under which a record can be written. -/
def ownNames : List String :=
  (default : Device).wireFields.map Prod.fst ++ ["failedPolls"]

theorem find?_ownNames : ∀ key ∈ ownNames, ∃ rule, FieldRule.find? rules key = some rule ∧
    rule.name = key := by
  have hall : ∀ key ∈ ownNames, (FieldRule.find? rules key).map (·.name) = some key := by decide
  exact fun key hkey => Option.map_eq_some_iff.mp (hall key hkey)

theorem map_fst_ownFields_sublist (d : Device) : (d.ownFields.map Prod.fst).Sublist ownNames := by
  rw [ownFields, List.map_append]
  refine List.Sublist.append (List.Sublist.refl _) ?_
  rw [failureFields]
  split
  · exact List.nil_sublist _
  · exact List.Sublist.refl _

theorem nodup_ownFields (d : Device) : (d.ownFields.map Prod.fst).Nodup :=
  d.map_fst_ownFields_sublist.nodup (by decide)

theorem find?_of_lookup_ownFields {d : Device} {key : String} {v : Json}
    (h : lookup key d.ownFields = some v) :
    ∃ rule, FieldRule.find? rules key = some rule ∧ rule.name = key :=
  find?_ownNames key (d.map_fst_ownFields_sublist.subset
    (List.mem_map.mpr ⟨_, mem_of_lookup h, rfl⟩))

/-- The fields of a record as they are read from its JSON. -/
def readFields (room : Nat) (d : Device) : List (String × Document) :=
  Json.clipFields room ((KeyMap.ofList d.ownFields).extend d.extra).entries

theorem clip_toJson (room : Nat) (d : Device) :
    Json.clip (room + 1) d.toJson = .object (readFields room d) none := rfl

section

variable {d : Device} (h : d.Sealed) {room : Nat}
include h

/-- What stands under a key is the record's own where the key is known. -/
theorem mem_readFields {key : String} {doc : Document} :
    (key, doc) ∈ readFields room d ↔
      ∃ v, (lookup key d.ownFields = some v ∨ d.extra.get? key = some v) ∧
        doc = Json.clip room v := by
  rw [readFields, mem_clipFields]
  simp only [KeyMap.mem_entries, KeyMap.get?_extend, KeyMap.get?_ofList_of_nodup d.nodup_ownFields]
  refine exists_congr fun v => and_congr_left fun _ => ?_
  rw [Option.or_eq_some_iff]
  constructor
  · rintro (hv | ⟨-, hv⟩)
    · exact .inr hv
    · exact .inl hv
  · rintro (hv | hv)
    · -- What else was reported would win, but stands under no known key.
      refine .inr ⟨?_, hv⟩
      obtain ⟨rule, hr, -⟩ := find?_of_lookup_ownFields hv
      cases he : d.extra.get? key with
      | none => rfl
      | some w =>
        rw [(h key w he).1] at hr
        cases hr
    · exact .inl hv

theorem plainly_readFields : Plainly rules (readFields room d) := by
  rintro ⟨key, doc⟩ hf rule hr
  obtain ⟨v, hv | hv, -⟩ := (mem_readFields h).mp hf
  · obtain ⟨rule', hr', hn⟩ := find?_of_lookup_ownFields hv
    rw [Option.some.inj (hr.symm.trans hr')]
    exact hn
  · rw [(h key v hv).1] at hr
    cases hr

omit h in
theorem nodup_readFields : ((readFields room d).map Prod.fst).Nodup := by
  rw [readFields, map_fst_clipFields]
  exact KeyMap.nodup_keys _

/-- A known field is read from what was written for it. -/
theorem lookup_known {name : String} (hname : (FieldRule.find? rules name).isSome) :
    lookup name (knownFields rules (readFields room d)) =
      (lookup name d.ownFields).map (Json.clip room) := by
  rw [lookup_knownFields_of_plainly (plainly_readFields h) hname]
  refine Option.ext fun doc => ⟨fun hl => ?_, fun hl => ?_⟩
  · obtain ⟨v, hv | hv, rfl⟩ := (mem_readFields h).mp (mem_of_lookup hl)
    · rw [hv]
      rfl
    · rw [(h name v hv).1] at hname
      cases hname
  · obtain ⟨v, hv, rfl⟩ := Option.map_eq_some_iff.mp hl
    exact lookup_of_mem nodup_readFields ((mem_readFields h).mpr ⟨v, .inl hv, rfl⟩)

theorem readDefault_known {α : Type} {name : String}
    (hname : (FieldRule.find? rules name).isSome) {v : Json}
    (hv : lookup name d.ownFields = some v) (dec : Decoder α) (default : α) :
    readDefault (knownFields rules (readFields room d)) name dec default =
      dec (Json.clip room v) := by
  rw [readDefault, lookup_known h hname, hv]
  rfl

theorem readOptional_known {α : Type} {name : String}
    (hname : (FieldRule.find? rules name).isSome) {v : Json}
    (hv : lookup name d.ownFields = some v) (dec : Decoder α) :
    readOptional (knownFields rules (readFields room d)) name dec =
      option dec (Json.clip room v) := by
  rw [readOptional, lookup_known h hname, hv]
  rfl

theorem readOptional_unwritten {α : Type} {name : String}
    (hname : (FieldRule.find? rules name).isSome) (hv : lookup name d.ownFields = none)
    (dec : Decoder α) :
    readOptional (knownFields rules (readFields room d)) name dec = .ok none := by
  rw [readOptional, lookup_known h hname, hv]
  rfl

theorem reads_written :
    Reads (knownFields rules (readFields room d)) d.extra d.written := by
  -- The count of failures is written only where it is not zero, which is its default.
  have hfailed : readDefault (knownFields rules (readFields room d)) "failedPolls" uint32 0 =
      .ok d.failedPolls := by
    by_cases hf : d.failedPolls = 0
    · have hv : lookup "failedPolls" d.ownFields = none := by
        show lookup "failedPolls" d.failureFields = none
        rw [failureFields, if_pos hf]
        rfl
      rw [readDefault, lookup_known h (by decide), hv, hf]
      rfl
    · have hv : lookup "failedPolls" d.ownFields = some (.ofNat d.failedPolls.toNat) := by
        show lookup "failedPolls" d.failureFields = _
        rw [failureFields, if_neg hf]
        rfl
      rw [readDefault_known h (by decide) hv, uint32_ofNat]
  have hunwritten : ∀ name, name ∉ ownNames → lookup name d.ownFields = none := by
    refine fun name hname => lookup_eq_none.mpr fun e he heq => hname ?_
    exact d.map_fst_ownFields_sublist.subset (List.mem_map.mpr ⟨e, he, heq⟩)
  exact {
    address := (readDefault_known h (by decide) rfl _ _).trans rfl
    connectionAddress := (readDefault_known h (by decide) rfl _ _).trans rfl
    displayName := (readOptional_known h (by decide) rfl _).trans (option_text _)
    hostname := (readOptional_known h (by decide) rfl _).trans (option_text _)
    currentIp := (readOptional_known h (by decide) rfl _).trans (option_text _)
    asicModel := (readOptional_known h (by decide) rfl _).trans (option_text _)
    deviceModel := (readOptional_known h (by decide) rfl _).trans (option_text _)
    asicCount := (readOptional_known h (by decide) rfl _).trans (option_uint32 _)
    swarmColor := (readOptional_known h (by decide) rfl _).trans (option_text _)
    boardVersion := (readOptional_known h (by decide) rfl _).trans (option_text _)
    hashRate := (readOptional_known h (by decide) rfl _).trans (option_float _)
    legacyHashRate := readOptional_unwritten h (by decide) (hunwritten _ (by decide)) _
    power := (readOptional_known h (by decide) rfl _).trans (option_float _)
    voltage := (readOptional_known h (by decide) rfl _).trans (option_float _)
    temp := (readOptional_known h (by decide) rfl _).trans (option_float _)
    bestDiff := (readOptional_known h (by decide) rfl _).trans (option_difficulty _)
    bestSessionDiff := (readOptional_known h (by decide) rfl _).trans (option_difficulty _)
    poolDifficulty := (readOptional_known h (by decide) rfl _).trans (option_float _)
    stratumDiff := readOptional_unwritten h (by decide) (hunwritten _ (by decide)) _
    sharesAccepted := (readOptional_known h (by decide) rfl _).trans (option_uint64 _)
    uptimeSeconds := (readOptional_known h (by decide) rfl _).trans (option_uint64 _)
    frequency := (readOptional_known h (by decide) rfl _).trans (option_float _)
    overheatMode := (readDefault_known h (by decide) rfl _ _).trans (flag_ofOption _)
    powerFault := (readDefault_known h (by decide) rfl _ _).trans (looseText_ofOption _)
    usesFallbackPool := (readDefault_known h (by decide) rfl _ _).trans (flag_ofOption _)
    blockFound := (readDefault_known h (by decide) rfl _ _).trans (flag_ofOption _)
    version := (readDefault_known h (by decide) rfl _ _).trans (looseText_ofOption _)
    failedPolls := hfailed
    extra := rfl }

/-- The fields of a record are let through where nothing that the miner reported is nested too
deep. -/
theorem judgeFields_readFields {known : List (String × Document)} :
    judgeFields rules (fun _ doc => value.check doc) [] (readFields room d) = .ok known ↔
      known = knownFields rules (readFields room d) ∧
        ∀ key v, d.extra.get? key = some v → v.depth ≤ room := by
  constructor
  · intro hj
    obtain ⟨rfl, hj, -⟩ := judgeFields_eq_ok.mp hj
    -- A value that is nested too deep has no tree, and so is not let through.
    refine ⟨rfl, fun key v hv => Nat.not_lt.mp fun hlt => ?_⟩
    have hf := hj (key, Json.clip room v) ((mem_readFields h).mpr ⟨v, .inr hv, rfl⟩)
    obtain ⟨a, ha⟩ : ∃ a, value (Json.clip room v) = .ok a := by
      rw [Judged, (h key v hv).1] at hf
      exact Decoder.check_eq_ok.mp hf
    rw [value_eq_ok, Json.value?_clip hlt] at ha
    cases ha
  · rintro ⟨rfl, hdepth⟩
    refine judgeFields_of_plainly (plainly_readFields h) ?_ nodup_readFields
    rintro ⟨key, doc⟩ hf
    rw [Judged]
    cases hr : FieldRule.find? rules key with
    | some rule =>
      have hreads : Reads (knownFields rules (readFields room d)) d.extra d.written :=
        reads_written h
      refine hreads.check rule (FieldRule.mem_of_find? hr) doc ?_
      have hn : rule.name = key := plainly_readFields h _ hf rule hr
      have hsome : (FieldRule.find? rules key).isSome := by
        rw [hr]
        rfl
      rw [hn, lookup_knownFields_of_plainly (plainly_readFields h) hsome]
      exact lookup_of_mem nodup_readFields hf
    | none =>
      obtain ⟨v, hv | hv, rfl⟩ := (mem_readFields h).mp hf
      · obtain ⟨rule, hr', -⟩ := find?_of_lookup_ownFields hv
        rw [hr] at hr'
        cases hr'
      · have hvalue := value?_clip_of_normal (h key v hv).2 (hdepth key v hv)
        exact Decoder.check_eq_ok.mpr ⟨v, value_eq_ok.mpr hvalue⟩

/-- What else the miner reported is found again. -/
theorem ofList_unknownFields (hdepth : ∀ key v, d.extra.get? key = some v → v.depth ≤ room) :
    KeyMap.ofList (unknownFields (readFields room d)) = d.extra := by
  refine KeyMap.ofList_eq fun key v => ?_
  simp only [mem_unknownFields, mem_readFields h]
  constructor
  · rintro ⟨hr, _, ⟨w, hw | hw, rfl⟩, hv⟩
    · obtain ⟨rule, hr', -⟩ := find?_of_lookup_ownFields hw
      rw [hr] at hr'
      cases hr'
    · rw [value?_clip_of_normal (h key w hw).2 (hdepth key w hw)] at hv
      rw [hw, hv]
  · intro hv
    exact ⟨(h key v hv).1, _, ⟨v, .inr hv, rfl⟩,
      value?_clip_of_normal (h key v hv).2 (hdepth key v hv)⟩

/-- The JSON of a sealed record is read where nothing that the miner reported is nested too deep,
and then it is read as the record but for what is never written. -/
theorem decode_toJson {d' : Device} :
    decode (Json.clip (room + 1) d.toJson) = .ok d' ↔
      d' = d.written ∧ ∀ key v, d.extra.get? key = some v → v.depth ≤ room := by
  rw [clip_toJson, decode_eq_ok]
  simp only [judgeFields_readFields h]
  constructor
  · rintro ⟨known, ⟨rfl, hdepth⟩, hr⟩
    rw [ofList_unknownFields h hdepth] at hr
    have he := ofFields_eq_ok.mpr hr
    rw [ofFields_eq_ok.mpr (reads_written h)] at he
    exact ⟨(Except.ok.inj he).symm, hdepth⟩
  · rintro ⟨rfl, hdepth⟩
    refine ⟨_, ⟨rfl, hdepth⟩, ?_⟩
    rw [ofList_unknownFields h hdepth]
    exact reads_written h

omit room in
/-- Nothing is nested too deep for a tree that is there already. -/
theorem decode_ofJson_toJson : decode (.ofJson d.toJson) = .ok d.written := by
  -- In a reader that takes brackets deep enough, the tree is that of the record.
  let room := max d.toJson.depth (Json.fieldsDepth d.extra.entries)
  have hroom : d.toJson.depth ≤ room + 1 := Nat.le_succ_of_le (Nat.le_max_left _ _)
  rw [← Json.clip_eq_ofJson hroom, decode_toJson h]
  refine ⟨rfl, fun key v hv => ?_⟩
  exact Nat.le_trans (Json.fieldsDepth_le.mp (Nat.le_refl _) _ (KeyMap.mem_entries.mpr hv))
    (Nat.le_max_right _ _)

end

end Device

end MinerFleet
