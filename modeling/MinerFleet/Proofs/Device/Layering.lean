/-
Records laid over each other.

* `Device.Item` — what a record can say something about: a field, or a key in `extra`;
* `Device.said?` — what a record says about it, if it says anything;
* `Device.ext_said` — a record is what it says, and its number of failures;
* `layers_agree` — the laws of laying records over each other.

A field can be absent in three ways: as `none`, as an empty address and as a key that is missing.
To `said?` they are one, so that both operations act on what is said, item by item: `combine` takes
each item from the first record that says it (`said?_combine`), and `overlay` does so for those that
last (`said?_overlay`). The laws are those of `Option.or`.
-/
import MinerFleet.Proofs.Probe.Identity
import MinerFleet.Proofs.Probe.Unchanged

namespace MinerFleet

namespace Device

/-! ### Items -/

/-- What a record can say something about, apart from how often its miner failed to answer. -/
inductive Item where
  | address
  | connectionAddress
  | displayName
  | hostname
  | currentIp
  | asicModel
  | deviceModel
  | asicCount
  | swarmColor
  | boardVersion
  | hashRate
  | legacyHashRate
  | power
  | voltage
  | temp
  | bestDiff
  | bestSessionDiff
  | poolDifficulty
  | stratumDiff
  | sharesAccepted
  | uptimeSeconds
  | frequency
  | overheatMode
  | powerFault
  | usesFallbackPool
  | blockFound
  | version
  | extra (key : String)

namespace Item

/-- What is said about an item. -/
def Content : Item → Type
  | asicCount => UInt32
  | sharesAccepted | uptimeSeconds => UInt64
  | hashRate | legacyHashRate | power | voltage | temp | poolDifficulty | stratumDiff
  | frequency => Float
  | bestDiff | bestSessionDiff => Difficulty
  | overheatMode | usesFallbackPool | blockFound => Bool
  | extra _ => Json
  | _ => String

/-- An item that stays true of a miner when it is asked again. All others are readings, warnings
and records of the moment. -/
def lasts : Item → Bool
  | address | connectionAddress | displayName | hostname | currentIp | asicModel | deviceModel
  | asicCount | swarmColor | boardVersion | version | extra _ => true
  | _ => false

end Item

/-- An empty text says nothing. -/
def text? (s : String) : Option String :=
  if s = "" then none else some s

/-- What a record says about an item. -/
def said? (d : Device) : (i : Item) → Option i.Content
  | .address => text? d.address
  | .connectionAddress => text? d.connectionAddress
  | .displayName => d.displayName
  | .hostname => d.hostname
  | .currentIp => d.currentIp
  | .asicModel => d.asicModel
  | .deviceModel => d.deviceModel
  | .asicCount => d.asicCount
  | .swarmColor => d.swarmColor
  | .boardVersion => d.boardVersion
  | .hashRate => d.hashRate
  | .legacyHashRate => d.legacyHashRate
  | .power => d.power
  | .voltage => d.voltage
  | .temp => d.temp
  | .bestDiff => d.bestDiff
  | .bestSessionDiff => d.bestSessionDiff
  | .poolDifficulty => d.poolDifficulty
  | .stratumDiff => d.stratumDiff
  | .sharesAccepted => d.sharesAccepted
  | .uptimeSeconds => d.uptimeSeconds
  | .frequency => d.frequency
  | .overheatMode => d.overheatMode
  | .powerFault => d.powerFault
  | .usesFallbackPool => d.usesFallbackPool
  | .blockFound => d.blockFound
  | .version => d.version
  | .extra key => d.extra.get? key

theorem text?_injective : Function.Injective text? := by
  intro s t h
  simp only [text?] at h
  split_ifs at h with hs ht ht
  · exact hs.trans ht.symm
  · exact Option.some.inj h

theorem text?_orText (s t : String) : text? (orText s t) = (text? s).or (text? t) := by
  simp only [text?, orText]
  split_ifs <;> rfl

/-- No field is left out of the items but for the number of failures. -/
theorem ext_said {a b : Device} (h : ∀ i, a.said? i = b.said? i)
    (hfailed : a.failedPolls = b.failedPolls) : a = b := by
  have haddress := text?_injective (h .address)
  have hdialed := text?_injective (h .connectionAddress)
  have hextra : a.extra = b.extra := KeyMap.ext fun key => h (.extra key)
  obtain ⟨⟩ := a
  obtain ⟨⟩ := b
  -- The fields that are not optional are the same by what is known already.
  congr 1
  exacts [h .displayName, h .hostname, h .currentIp, h .asicModel, h .deviceModel, h .asicCount,
    h .swarmColor, h .boardVersion, h .hashRate, h .legacyHashRate, h .power, h .voltage, h .temp,
    h .bestDiff, h .bestSessionDiff, h .poolDifficulty, h .stratumDiff, h .sharesAccepted,
    h .uptimeSeconds, h .frequency, h .overheatMode, h .powerFault, h .usesFallbackPool,
    h .blockFound, h .version]

/-! ### Layers -/

/-- The default record says nothing. -/
theorem said?_default (i : Item) : ({} : Device).said? i = none := by
  cases i <;> rfl

/-- Each item is taken from the first of the two records that says it. -/
theorem said?_combine (a b : Device) (i : Item) :
    (a.combine b).said? i = (a.said? i).or (b.said? i) := by
  cases i with
  | address => exact text?_orText _ _
  | connectionAddress => exact text?_orText _ _
  | extra key => exact KeyMap.get?_extend _ _ key
  | _ => rfl

/-- What lasts is taken from the first of the two records that says it, and all else from the
first. -/
theorem said?_overlay (a b : Device) (i : Item) :
    (a.overlay b).said? i = if i.lasts then (a.said? i).or (b.said? i) else a.said? i := by
  cases i with
  | address => exact text?_orText _ _
  | connectionAddress => exact text?_orText _ _
  | extra key => exact KeyMap.get?_extend _ _ key
  | _ => rfl

/-- Records can be laid over each other in any grouping, a record over itself is the record, and so
is a record over nothing. -/
structure Layering (lay : Device → Device → Device) : Prop where
  assoc a b c : lay (lay a b) c = lay a (lay b c)
  idem a : lay a a = a
  default_right a : lay a {} = a

theorem layering_combine : Layering combine where
  assoc a b c := ext_said (fun i => by simp only [said?_combine, Option.or_assoc]) rfl
  idem a := ext_said (fun i => by rw [said?_combine, Option.or_self]) rfl
  default_right a := ext_said (fun i => by rw [said?_combine, said?_default, Option.or_none]) rfl

theorem layering_overlay : Layering overlay where
  assoc a b c := ext_said (fun i => by
    simp only [said?_overlay]
    split
    · exact Option.or_assoc
    · rfl) rfl
  idem a := ext_said (fun i => by rw [said?_overlay, Option.or_self, ite_self]) rfl
  default_right a := ext_said (fun i => by
    rw [said?_overlay, said?_default, Option.or_none, ite_self]) rfl

/-- It makes no difference whether an older record is laid under one of two answers or under both
of them. -/
theorem combine_overlay (a b c : Device) : (a.combine b).overlay c = a.combine (b.overlay c) := by
  refine ext_said (fun i => ?_) rfl
  simp only [said?_overlay, said?_combine]
  split
  · exact Option.or_assoc
  · rfl

/-- How records are laid over each other.

* Two records are the same if they say the same and count the same failures.
* One record combined with another says what it says, and otherwise what the other one says, item by
  item. It counts the failures of the first.
* Both ways of laying records over each other can be grouped in any way. Neither a record below that
  is the same nor one that says nothing changes anything.
* An older record can be laid under the second of two combined records or under both. -/
theorem layers_agree (a b c : Device) :
    (a = b ↔ (∀ i, a.said? i = b.said? i) ∧ a.failedPolls = b.failedPolls) ∧
    (∀ i, (a.combine b).said? i = (a.said? i).or (b.said? i)) ∧
    (a.combine b).failedPolls = a.failedPolls ∧
    Layering combine ∧ Layering overlay ∧
    (a.combine b).overlay c = a.combine (b.overlay c) := by
  refine ⟨⟨fun h => h ▸ ⟨fun _ => rfl, rfl⟩, fun h => ext_said h.1 h.2⟩, said?_combine a b, rfl,
    layering_combine, layering_overlay, combine_overlay a b c⟩

end Device

end MinerFleet
