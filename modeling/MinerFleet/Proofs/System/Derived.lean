/-
Records that come of what miners said, and their JSON.

* `Device.Derived` — the records that are read, and those that are made of them, with what is said
  under the keys that are not known;
* `Device.Stable` — a record is read as it was written, and written as it was read.

What is said under a key that is not known goes through all that is done to a record: it stands in
`extra`, which only the layers over a record change (`Derived.extra`). A record that has just been
read has finite readings, if the numbers that it was read from are (`finite_of_decode`), as those of
a text are. All that is written of a record is then read back, in whichever way it was derived
(`wire_form_is_stable`).
-/
import MinerFleet.Proofs.Json.Finite
import MinerFleet.Proofs.Probe.Layers
import MinerFleet.Proofs.System.Published

namespace MinerFleet

theorem Document.mem_ofFields {fields : List (String × Json)} {key : String} {doc : Document} :
    (key, doc) ∈ Document.ofFields fields ↔ ∃ v, (key, v) ∈ fields ∧ doc = .ofJson v := by
  induction fields with
  | nil => simp [Document.ofFields]
  | cons f fields ih =>
    obtain ⟨k, w⟩ := f
    simp only [Document.ofFields, List.mem_cons, ih, Prod.mk.injEq, or_and_right, exists_or]
    refine or_congr ⟨?_, ?_⟩ Iff.rfl
    · rintro ⟨rfl, rfl⟩
      exact ⟨w, ⟨rfl, rfl⟩, rfl⟩
    · rintro ⟨v, ⟨rfl, rfl⟩, rfl⟩
      exact ⟨rfl, rfl⟩

namespace Device

open Decoder

/-! ### Reading -/

/-- Records are read from objects only. -/
theorem exists_object_of_decode {v : Json} {d : Device} (h : decode (.ofJson v) = .ok d) :
    ∃ fields, v = .object fields := by
  cases v with
  | object fields => exact ⟨fields, rfl⟩
  | _ => cases h

/-- What is said under a key that is not known is kept as it was said. -/
theorem extra_of_decode {v : Json} (hv : v.Normal) {d : Device} (h : decode (.ofJson v) = .ok d)
    {key : String} (hkey : FieldRule.find? rules key = none) : d.extra.get? key = v.get? key := by
  obtain ⟨fields, rfl⟩ := exists_object_of_decode h
  obtain ⟨m, rfl, hm⟩ := hv.object
  obtain ⟨known, -, hr⟩ := decode_eq_ok.mp h
  have hunknown (w : Json) : (key, w) ∈ unknownFields (Document.ofFields m.entries) ↔
      m.get? key = some w := by
    simp only [mem_unknownFields, hkey, true_and, Document.mem_ofFields, ← KeyMap.mem_entries]
    constructor
    · rintro ⟨doc, ⟨u, hu, rfl⟩, hw⟩
      have hnormal : (Document.ofJson u).value? = some u := hm _ hu
      rw [hnormal] at hw
      rwa [← Option.some.inj hw]
    · intro hw
      exact ⟨_, ⟨w, hw, rfl⟩, hm _ hw⟩
  rw [hr.extra]
  show _ = m.get? key
  cases hget : (KeyMap.ofList (unknownFields (Document.ofFields m.entries))).get? key with
  | some w =>
    rw [← KeyMap.mem_entries] at hget
    exact ((hunknown w).mp (KeyMap.mem_of_mem_ofList hget)).symm
  | none =>
    cases hw : m.get? key with
    | none => rfl
    | some w =>
      rw [KeyMap.get?_ofList] at hget
      exact absurd rfl (lookup_eq_none.mp hget _ (List.mem_reverse.mpr ((hunknown w).mpr hw)))

section

variable {known : List (String × Document)} {name : String}
  (hn : ∀ n, lookup name known = some (.number n) → n.toFloat.isFinite = true)
include hn

theorem finite_of_readOptional {x : Option Float} (h : readOptional known name float = .ok x) :
    ∀ y, x = some y → y.isFinite = true := by
  rintro y rfl
  rw [readOptional] at h
  cases hl : lookup name known with
  | none =>
    rw [hl] at h
    cases h
  | some doc =>
    rw [hl] at h
    cases doc with
    | number n =>
      obtain rfl : n.toFloat = y := Option.some.inj (Except.ok.inj h)
      exact hn n hl
    | _ => cases h

theorem finite_of_readDifficulty {x : Option Difficulty}
    (h : readOptional known name Difficulty.decode = .ok x) :
    ∀ y, x.bind Difficulty.number? = some y → y.isFinite = true := by
  intro y hy
  rw [readOptional] at h
  cases hl : lookup name known with
  | none =>
    rw [hl] at h
    obtain rfl := Except.ok.inj h
    cases hy
  | some doc =>
    rw [hl] at h
    cases doc with
    | number n =>
      obtain rfl : some (Difficulty.number n.toFloat) = x := Except.ok.inj h
      obtain rfl : n.toFloat = y := Option.some.inj hy
      exact hn n hl
    | null =>
      obtain rfl : none = x := Except.ok.inj h
      cases hy
    | string s =>
      obtain rfl : some (Difficulty.text s) = x := Except.ok.inj h
      cases hy
    | _ => cases h

end

/-- A record has finite readings if it is read from finite numbers. -/
theorem finite_of_decode {v : Json} (hv : v.Finite) {d : Device} (h : decode (.ofJson v) = .ok d) :
    ∀ x ∈ d.floats, x.isFinite = true := by
  obtain ⟨fields, rfl⟩ := exists_object_of_decode h
  obtain ⟨known, hknown, hr⟩ := decode_eq_ok.mp h
  obtain ⟨rfl, -⟩ := judgeFields_eq_ok.mp hknown
  -- A number that a field is read from stands in the object.
  have hn (name : String) (n : Number)
      (hl : lookup name (knownFields rules (Document.ofFields fields)) = some (.number n)) :
      n.toFloat.isFinite = true := by
    obtain ⟨⟨key, doc⟩, hm, he⟩ := List.mem_filterMap.mp (mem_of_lookup hl)
    obtain ⟨rule, -, he⟩ := Option.map_eq_some_iff.mp he
    obtain ⟨-, rfl⟩ := Prod.mk.inj he
    obtain ⟨u, hu, hdoc⟩ := Document.mem_ofFields.mp hm
    obtain rfl : u = .number n := by
      cases u <;> simp_all [Document.ofJson]
    exact hv n (Json.mem_fieldsNumbers.mpr ⟨_, hu, List.mem_singleton_self n⟩)
  simp only [floats, List.forall_mem_filterMap, List.forall_mem_cons, id_eq, List.not_mem_nil,
    false_implies, implies_true, and_true]
  exact ⟨finite_of_readOptional (hn _) hr.hashRate, finite_of_readOptional (hn _) hr.power,
    finite_of_readOptional (hn _) hr.voltage, finite_of_readOptional (hn _) hr.temp,
    finite_of_readOptional (hn _) hr.poolDifficulty, finite_of_readOptional (hn _) hr.frequency,
    finite_of_readDifficulty (hn _) hr.bestDiff, finite_of_readDifficulty (hn _) hr.bestSessionDiff⟩

/-! ### Deriving -/

/-- The records that come of what miners said: those that are read, and those that are made of
them. `said` is what was said under the keys that are not known. -/
inductive Derived : Device → (String → Option Json) → Prop
  | blank : Derived {} fun _ => none
  | read {v : Json} {d : Device} (hv : v.Normal) (h : decode (.ofJson v) = .ok d) :
    Derived d v.get?
  | combine {fresh base : Device} {said said' : String → Option Json} (h : Derived fresh said)
      (h' : Derived base said') : Derived (fresh.combine base) fun key => (said key).or (said' key)
  | overlay {fresh base : Device} {said said' : String → Option Json} (h : Derived fresh said)
      (h' : Derived base said') : Derived (fresh.overlay base) fun key => (said key).or (said' key)
  | numerized {d : Device} {said : String → Option Json} (h : Derived d said) :
    Derived d.numerized said
  | classified {d : Device} {said : String → Option Json} (h : Derived d said) :
    Derived d.classified said
  | zeroed {d : Device} {said : String → Option Json} (h : Derived d said) : Derived d.zeroed said
  | withFailure {d : Device} {said : String → Option Json} (h : Derived d said) :
    Derived d.withFailure said
  | named {d : Device} {said : String → Option Json} (h : Derived d said) : Derived d.named said
  /-- The addresses are those that were asked for, and the failures are counted anew. -/
  | addressed {d : Device} {said : String → Option Json} (h : Derived d said)
      (address connectionAddress : String) (failedPolls : UInt32) :
    Derived { d with address, connectionAddress, failedPolls } said

variable {d : Device} {said : String → Option Json}

theorem Derived.sealed (h : Derived d said) : d.Sealed := by
  induction h with
  | blank => exact sealed_of_extra_empty rfl
  | read _ h => exact sealed_of_decode h
  | combine _ _ ih ih' => exact ih.combine ih'
  | overlay _ _ ih ih' => exact ih.overlay ih'
  | numerized _ ih => exact ih.of_extra rfl
  | classified _ ih => exact ih.of_extra (classified_extra _)
  | zeroed _ ih => exact ih.of_extra rfl
  | withFailure _ ih => exact ih.of_extra rfl
  | named _ ih => exact ih.of_extra rfl
  | addressed _ _ _ _ ih => exact ih.of_extra rfl

/-- However a record was derived, it has what was said under the keys that are not known: that of
the record on top, where several were laid over each other. -/
theorem Derived.extra (h : Derived d said) {key : String}
    (hkey : FieldRule.find? rules key = none) : d.extra.get? key = said key := by
  induction h with
  | blank => rfl
  | read hv h => exact extra_of_decode hv h hkey
  | @combine fresh base _ _ _ _ ih ih' =>
    show (base.extra.extend fresh.extra).get? key = _
    rw [KeyMap.get?_extend, ih, ih']
  | @overlay fresh base _ _ _ _ ih ih' =>
    show (base.extra.extend fresh.extra).get? key = _
    rw [KeyMap.get?_extend, ih, ih']
  | numerized _ ih => exact ih
  | classified _ ih => rwa [classified_extra]
  | zeroed _ ih => exact ih
  | withFailure _ ih => exact ih
  | named _ ih => exact ih
  | addressed _ _ _ _ ih => exact ih

/-- What a probe puts together is derived from both answers and from what was known. -/
theorem Derived.assembled {address : String} {prior : Option Device} {info asic : Device}
    {saidBefore saidInfo saidAsic : String → Option Json}
    (hp : Derived (prior.getD {}) saidBefore) (hi : Derived info saidInfo)
    (ha : Derived asic saidAsic) (h : assemble address prior info asic = .ok d) :
    Derived d fun key => ((saidAsic key).or (saidInfo key)).or (saidBefore key) := by
  rw [assemble_eq] at h
  split at h
  · cases h
  · obtain rfl := Except.ok.inj h
    have hlayers := (ha.combine hi).overlay hp
    exact (((hlayers.addressed _ _ _).numerized.classified.named).addressed _ _ 0)

/-! ### Writing and reading -/

/-- A record is read as it was written, but for the two fields that are never written, and then it
is written in the same way again. What was said under keys that are not known stands where it was
said. -/
structure Stable (d : Device) (said : String → Option Json) : Prop where
  reread : decode (.ofJson d.toJson) = .ok d.withoutLegacy
  rewritten : d.withoutLegacy.toJson = d.toJson
  kept : ∀ key, FieldRule.find? rules key = none → d.toJson.get? key = said key
  /-- So it is with its text, where the numbers are read back, and nothing that was said is nested
  so deep that no text of it is read. -/
  text : (∀ n ∈ d.toJson.numbers, n.ReadBack) →
    (∀ key v, FieldRule.find? rules key = none → said key = some v → v.depth < Json.maxDepth) →
    Decoder.ofText decode d.toJson.compact = .ok d.withoutLegacy

/-- Under a key that is not known, a record is written as what was said there. -/
theorem get?_toJson (d : Device) {key : String} (hkey : FieldRule.find? rules key = none) :
    d.toJson.get? key = d.extra.get? key := by
  show ((KeyMap.ofList d.ownFields).extend d.extra).get? key = _
  rw [KeyMap.get?_extend, KeyMap.get?_ofList_of_nodup d.nodup_ownFields]
  cases hown : lookup key d.ownFields with
  | none => exact Option.or_none
  | some v =>
    obtain ⟨rule, hr, -⟩ := find?_of_lookup_ownFields hown
    rw [hkey] at hr
    cases hr

theorem Derived.stable (h : Derived d said) (hf : ∀ x ∈ d.floats, x.isFinite = true) :
    d.Stable said := by
  have hwritten := written_eq_withoutLegacy.mpr hf
  refine ⟨?_, rfl, fun key hkey => ?_, fun hn hdepth => ?_⟩
  · rw [decode_ofJson_toJson h.sealed, hwritten]
  · rw [get?_toJson d hkey, h.extra hkey]
  · have hmax : Json.maxDepth = (Json.maxDepth - 1) + 1 := rfl
    rw [Decoder.ofText_compact hn, hmax, decode_toJson h.sealed]
    refine ⟨hwritten.symm, fun key v hv => ?_⟩
    have hkey := (h.sealed key v hv).1
    have := hdepth key v hkey ((h.extra hkey).symm.trans hv)
    omega

/-- Whatever a record is read from, it is read as it was written and written as it was read, and so
is every record that is derived from such records, as long as its readings are finite. What a record
is read from is normal and has finite numbers, as it is the value of some text. -/
theorem wire_form_is_stable :
    (∀ (v : Json) (d : Device), v.Normal → v.Finite → decode (.ofJson v) = .ok d →
      d.Stable v.get?) ∧
    (∀ (s : String) (v : Json), Json.ofText? s = some v → v.Normal ∧ v.Finite) ∧
    ∀ (d : Device) (said : String → Option Json), Derived d said →
      (∀ x ∈ d.floats, x.isFinite = true) → d.Stable said := by
  refine ⟨fun v d hv hf h => ?_, fun s v h => ?_, fun d said => Derived.stable⟩
  · exact (Derived.read hv h).stable (finite_of_decode hf h)
  · exact ⟨(Json.ofText?_eq_some h).1, Json.finite_of_ofText? h⟩

/-- What a miner said that names its fields as older firmware does. -/
def oldAnswer : Json :=
  .object [("asicModel", .string "BM1366"), ("bestDiff", .string "4.29G"), ("fanrpm", .ofNat 4200),
    ("hashrate", .ofNat 480), ("overheatMode", .ofNat 0)]

/-- The record that is read from it. -/
def oldRecord : Device where
  asicModel := some "BM1366"
  bestDiff := some (.text "4.29G")
  legacyHashRate := some 480
  overheatMode := some false
  extra := KeyMap.ofList [("fanrpm", .ofNat 4200)]

/-- The record is read again without the hash rate under its old name, and with it where this is
filled in under its present name. What the miner said of its fan is kept. -/
theorem old_answer_is_stable :
    decode (.ofJson oldRecord.toJson) = .ok { oldRecord with legacyHashRate := none } ∧
    decode (.ofJson oldRecord.numerized.classified.toJson) =
      .ok { oldRecord.numerized.classified with legacyHashRate := none } ∧
    oldRecord.numerized.classified.toJson.get? "fanrpm" = some (.ofNat 4200) := by
  obtain ⟨hread, -, hderived⟩ := wire_form_is_stable
  have hnormal : oldAnswer.Normal := by
    rw [Json.Normal]
    decide +kernel
  have hfinite : oldAnswer.Finite := by
    rw [Json.Finite]
    decide +kernel
  have hdecode : decode (.ofJson oldAnswer) = .ok oldRecord := by rfl
  have hold := hread oldAnswer oldRecord hnormal hfinite hdecode
  have hnew := hderived _ _ (Derived.read hnormal hdecode).numerized.classified (by decide +kernel)
  exact ⟨hold.reread, hnew.reread, hnew.kept "fanrpm" (by decide)⟩

end Device

end MinerFleet
