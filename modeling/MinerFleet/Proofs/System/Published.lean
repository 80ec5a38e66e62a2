/-
What clients read of the state that is published.

* `Device.floats` — the readings of a record that are written as numbers;
* `Device.withoutLegacy` — a record without the two fields that are never written;
* `keptByProbes_sealed` — every record is sealed, in every run.

`published_is_read` says, for every state that a run leads to, when a client can read it and what
it reads. It reads the state that was published, without the fields that are never written, where
no reading and no sum is infinite: a reading that is not finite is lost, and a sum that is not
finite keeps the client from reading anything (`unreadable_after_one_miner`).
-/
import MinerFleet.Proofs.Fleet.Wire
import MinerFleet.Proofs.Json.Layout
import MinerFleet.Proofs.System.Naming

namespace MinerFleet

/-! ### Sealed records -/

namespace Device

theorem Sealed.of_extra {d d' : Device} (h : d.Sealed) (he : d'.extra = d.extra) : d'.Sealed := by
  intro key v hv
  rw [he] at hv
  exact h key v hv

theorem sealed_of_extra_empty {d : Device} (h : d.extra = KeyMap.empty) : d.Sealed := by
  intro key v hv
  rw [h] at hv
  cases hv

/-- A sealed record over a sealed one is sealed. -/
theorem Sealed.overlay {fresh base : Device} (hf : fresh.Sealed) (hb : base.Sealed) :
    (fresh.overlay base).Sealed := by
  intro key v hv
  have hv : (base.extra.extend fresh.extra).get? key = some v := hv
  rw [KeyMap.get?_extend] at hv
  rcases Option.or_eq_some_iff.mp hv with hv | ⟨-, hv⟩
  · exact hf key v hv
  · exact hb key v hv

theorem Sealed.combine {fresh base : Device} (hf : fresh.Sealed) (hb : base.Sealed) :
    (fresh.combine base).Sealed :=
  (hf.overlay hb).of_extra rfl

@[simp] theorem classified_extra (d : Device) : d.classified.extra = d.extra := by
  rw [classified]
  split <;> rfl

end Device

open Device

theorem sealed_of_readPayload {payload : Json} {d : Device} (h : readPayload payload = .ok d) :
    d.Sealed := by
  cases payload with
  | object fields =>
    rw [readPayload] at h
    cases hd : Device.decode (.ofJson (.object fields)) with
    | ok d' =>
      rw [hd] at h
      obtain rfl : d' = d := Except.ok.inj h
      exact sealed_of_decode hd
    | error e =>
      rw [hd] at h
      cases h
  | null => cases h
  | bool b => cases h
  | number n => cases h
  | string s => cases h
  | array items => cases h

theorem sealed_readAsic (answer : Except ProbeFailure Json) : (readAsic answer).Sealed := by
  rcases readAsic_cases answer with he | ⟨payload, d, -, hd, he⟩
  · rw [he]
    exact sealed_of_extra_empty rfl
  · rw [he]
    exact sealed_of_readPayload hd

theorem sealed_of_assemble {address : String} {prior : Option Device} {info asic d : Device}
    (hp : (prior.getD {}).Sealed) (hi : info.Sealed) (ha : asic.Sealed)
    (h : assemble address prior info asic = .ok d) : d.Sealed := by
  have hd : ((asic.combine info).overlay (prior.getD {})).Sealed := (ha.combine hi).overlay hp
  rw [assemble] at h
  split at h
  · cases h
  · obtain rfl := Except.ok.inj h
    refine hd.of_extra ?_
    show (Device.classified _).extra = _
    rw [classified_extra]
    rfl

variable {W : Network → Prop}

/-- A miner that was asked gives a sealed record, if that was sealed which was known before. -/
theorem Answered.sealed {fetchAsic : Bool} {target : Target} {d : Device}
    (h : Answered W fetchAsic target (.ok d)) (hp : ∀ k, target.prior = some k → k.Sealed) :
    d.Sealed := by
  obtain ⟨net, -, hprobe⟩ := h
  -- The record is put together of two that were read, over the one that was known.
  obtain ⟨info, asic, -, -, hresult⟩ := answers_of_probe hprobe
  rw [probeResult, bind_eq_ok] at hresult
  obtain ⟨payload, -, hresult⟩ := hresult
  rw [bind_eq_ok] at hresult
  obtain ⟨record, hr, ha⟩ := hresult
  refine sealed_of_assemble ?_ (sealed_of_readPayload hr) (sealed_readAsic asic) ha
  cases hprior : target.prior with
  | none => exact sealed_of_extra_empty rfl
  | some k => exact hp k hprior

theorem keptByProbes_sealed : KeptByProbes W Device.Sealed where
  blank _ _ := sealed_of_extra_empty rfl
  failed _ h := h.of_extra rfl
  answered _ _ _ hp h := h.sealed hp

theorem sealed_of_stored {σ : Type} [Store σ] {store : σ} :
    ∀ d ∈ System.stored store, d.Sealed := by
  intro d hd
  rw [System.stored, Store.load] at hd
  split at hd
  · exact absurd hd List.not_mem_nil
  · split at hd
    · rename_i devices hdevices
      obtain ⟨doc, hdoc⟩ := Decoder.mem_of_list hdevices hd
      exact sealed_of_decode hdoc
    · exact absurd hd List.not_mem_nil

/-! ### Readings -/

/-- The number that a difficulty is written as, unless it is written as a text. -/
def Difficulty.number? : Difficulty → Option Float
  | .number x => some x
  | .text _ => none

namespace Device

/-- The readings of a record that are written as numbers. -/
def floats (d : Device) : List Float :=
  [d.hashRate, d.power, d.voltage, d.temp, d.poolDifficulty, d.frequency,
   d.bestDiff.bind Difficulty.number?, d.bestSessionDiff.bind Difficulty.number?].filterMap id

/-- The record without the two fields that are never written. -/
def withoutLegacy (d : Device) : Device :=
  { d with legacyHashRate := none, stratumDiff := none }

theorem filter_isFinite_eq {x : Option Float} :
    x.filter Float.isFinite = x ↔ ∀ y, x = some y → y.isFinite = true := by
  cases x with
  | none => exact iff_of_true rfl nofun
  | some x =>
    rw [Option.filter_eq_some_iff]
    exact ⟨fun h y hy => Option.some.inj hy ▸ h.2, fun h => ⟨rfl, h x rfl⟩⟩

theorem bind_finite?_eq {x : Option Difficulty} :
    x.bind Difficulty.finite? = x ↔
      ∀ y, x.bind Difficulty.number? = some y → y.isFinite = true := by
  cases x with
  | none => exact iff_of_true rfl nofun
  | some x =>
    cases x with
    | text s => exact iff_of_true rfl nofun
    | number x =>
      rw [Option.bind_some, Difficulty.finite?, Option.bind_some, Difficulty.number?]
      constructor
      · intro h y hy
        rw [← Option.some.inj hy]
        refine Decidable.byContradiction fun hx => ?_
        rw [if_neg hx] at h
        cases h
      · exact fun h => if_pos (h x rfl)

/-- A record is read as it was, but for what is never written, where all its readings are
finite. -/
theorem written_eq_withoutLegacy {d : Device} :
    d.written = d.withoutLegacy ↔ ∀ x ∈ d.floats, x.isFinite = true := by
  simp only [floats, List.forall_mem_filterMap, List.forall_mem_cons, id_eq, List.not_mem_nil,
    false_implies, implies_true, and_true, written, withoutLegacy, Device.mk.injEq, true_and,
    filter_isFinite_eq, bind_finite?_eq]
  constructor
  · rintro ⟨hrate, hpower, hvoltage, htemp, hbest, hsession, hpool, hfrequency⟩
    exact ⟨hrate, hpower, hvoltage, htemp, hpool, hfrequency, hbest, hsession⟩
  · rintro ⟨hrate, hpower, hvoltage, htemp, hpool, hfrequency, hbest, hsession⟩
    exact ⟨hrate, hpower, hvoltage, htemp, hbest, hsession, hpool, hfrequency⟩

end Device

/-- The snapshot without the fields of its records that are never written. -/
def Snapshot.withoutLegacy (s : Snapshot) : Snapshot :=
  { s with members := s.members.map fun m => { m with device := m.device.withoutLegacy } }

theorem Snapshot.written_eq_withoutLegacy {s : Snapshot} :
    s.written = s.withoutLegacy ↔
      ∀ m ∈ s.members, ∀ x ∈ m.device.floats, x.isFinite = true := by
  simp only [written, withoutLegacy, Snapshot.mk.injEq, and_true, List.map_inj_left, Member.written,
    Member.mk.injEq, Device.written_eq_withoutLegacy]

namespace System

variable {σ : Type} [Store σ]

/-! ### The published state -/

omit [Store σ] in
theorem mem_published {cs : List Command} {s : System σ} (h : Tracked cs s) {m : Member} :
    m ∈ s.published.members ↔
      ∃ d ∈ s.devices, m = Member.ofDevice s.engine.config.staleAfter d := by
  rw [h.published, Engine.snapshot, List.mem_map]
  simp only [eq_comm (a := m)]
  rfl

/-- In every run, what is published shows sealed records, and no condition of a clock that is not
finite. -/
theorem Run.sealed_published {config : Config} {store : σ} {ts : List Turn} {s : System σ}
    (h : Run W (started config store) ts s) :
    ∀ m ∈ s.published.members, m.device.Sealed ∧ ∀ n, m.notice = some n → n.Finite := by
  intro m hm
  obtain ⟨d, hd, rfl⟩ := (mem_published h.tracked).mp hm
  exact ⟨(h.allRecords keptByProbes_sealed sealed_of_stored).devices d hd,
    fun n hn => Device.finite_of_notice hn⟩

/-- Nothing that a miner reported is nested deeper than so many levels. -/
def Shallow (s : System σ) (levels : Nat) : Prop :=
  ∀ d ∈ s.devices, ∀ key v, d.extra.get? key = some v → v.depth ≤ levels

omit [Store σ] in
theorem exists_shallow (s : System σ) (n : Nat) : ∃ levels, n ≤ levels ∧ s.Shallow levels := by
  refine ⟨max n (Json.fieldsDepth (s.devices.flatMap (·.extra.entries))), Nat.le_max_left _ _, ?_⟩
  intro d hd key v hv
  have hm : (key, v) ∈ s.devices.flatMap (·.extra.entries) :=
    List.mem_flatMap.mpr ⟨d, hd, KeyMap.mem_entries.mpr hv⟩
  have hle := Json.fieldsDepth_le.mp (Nat.le_refl _) _ hm
  exact Nat.le_trans hle (Nat.le_max_right _ _)

/-- The tree of what is published, where it may be nested so deep. -/
theorem Run.decode_clip {config : Config} {store : σ} {ts : List Turn} {s : System σ}
    (h : Run W (started config store) ts s) {room : Nat} {t : Snapshot} :
    Snapshot.decode (Json.clip (room + 4) s.published.toJson) = .ok t ↔
      t = s.published.written ∧ s.published.Readable ∧ s.Shallow room := by
  rw [Snapshot.decode_toJson h.sealed_published]
  refine and_congr_right fun _ => and_congr_right fun _ => ?_
  constructor
  · intro hm d hd
    exact hm _ ((mem_published h.tracked).mpr ⟨d, hd, rfl⟩)
  · intro hd m hm
    obtain ⟨d, hmem, rfl⟩ := (mem_published h.tracked).mp hm
    exact hd d hmem

/-- What a client reads of the state that is published, whatever the miners answered before.

* The JSON of the state is read exactly where all sums are finite, and no number of things needs
  more than 64 bits.
* So is its text, where all its numbers are read back, unless something that a miner reported is
  nested so deep that the reader does not take the text.
* What is read is the state that was published, without the fields that are never written, exactly
  where no reading is infinite or no number. -/
theorem published_is_read {config : Config} {store : σ} {s : System σ}
    (h : Reachable W config store s) :
    (∀ t, Snapshot.decode (.ofJson s.published.toJson) = .ok t ↔
      t = s.published.written ∧ s.published.Readable) ∧
    ((∀ n ∈ s.published.toJson.numbers, n.ReadBack) →
      ∀ t, Decoder.ofText Snapshot.decode s.published.toJson.compact = .ok t ↔
        t = s.published.written ∧ s.published.Readable ∧ s.Shallow (Json.maxDepth - 4)) ∧
    (s.published.written = s.published.withoutLegacy ↔
      ∀ d ∈ s.devices, ∀ x ∈ d.floats, x.isFinite = true) := by
  obtain ⟨ts, h⟩ := h
  refine ⟨fun t => ?_, fun hn t => ?_, ?_⟩
  · -- In a reader that takes brackets deep enough, the tree is that of the value.
    obtain ⟨levels, hle, hshallow⟩ := s.exists_shallow s.published.toJson.depth
    rw [← Json.clip_eq_ofJson (Nat.le_add_right_of_le hle : _ ≤ levels + 4), h.decode_clip]
    exact and_congr_right fun _ => and_iff_left hshallow
  · rw [Decoder.ofText_compact hn]
    exact h.decode_clip
  · rw [Snapshot.written_eq_withoutLegacy]
    constructor
    · intro hm d hd
      exact hm _ ((mem_published h.tracked).mpr ⟨d, hd, rfl⟩)
    · intro hd m hm
      obtain ⟨d, hmem, rfl⟩ := (mem_published h.tracked).mp hm
      exact hd d hmem

/-- A network where every miner reports the same best difficulty. -/
def reporting (bestDiff : String) : Network :=
  { lan with info := fun _ => .after 0 (.ok (.object
      [("ASICModel", .string "BM1370"), ("bestDiff", .string bestDiff)])) }

/-- What becomes of a miner of such a network that is asked. -/
def reported (bestDiff : Float) : Device :=
  { found "10.1.1.50" "10.1.1.50" with bestDiff := some (.number bestDiff) }

/-- One miner has been added, to an empty fleet. -/
def afterReport (bestDiff : Float) : System MemoryStore :=
  (idle.turn (.command (.add "10.1.1.50"))).turn
    (.finish 0 (.probed (.ok (reported bestDiff)) 0))

theorem reachable_afterReport {text : String} {bestDiff : Float}
    (hrun : ((Job.peer "10.1.1.50" 0).run (reporting text)).2.2 =
      some (.probed (.ok (reported bestDiff)) 0)) :
    Reachable (· = reporting text) default (KeyMap.empty : MemoryStore) (afterReport bestDiff) := by
  have hadd : Run (· = reporting text) idle ([] ++ [.command (.add "10.1.1.50")])
      (idle.turn (.command (.add "10.1.1.50"))) := .turn .refl trivial
  exact ⟨_, .turn hadd
    (possible_finish (reporting text) (.peer "10.1.1.50" 0) (by decide +kernel) hrun rfl)⟩

/-- A miner with a best difficulty of 1500. -/
theorem read_after_one_miner :
    let s := afterReport 1500
    Reachable (· = reporting "1.5k") default (KeyMap.empty : MemoryStore) s ∧
      Decoder.ofText Snapshot.decode s.published.toJson.compact =
        .ok s.published.withoutLegacy := by
  intro s
  have h : Reachable (· = reporting "1.5k") default (KeyMap.empty : MemoryStore) s :=
    reachable_afterReport (by decide +kernel)
  have hdevices : s.devices = [reported 1500] := by decide +kernel
  have hback : ∀ n ∈ s.published.toJson.numbers, n.ReadBack := by
    have hnumbers : ∀ n ∈ s.published.toJson.numbers,
        n = .int 30 ∨ n = .int 1 ∨ n = .float 1500 ∨ n = .float 0 := by decide +kernel
    intro n hn
    rcases hnumbers n hn with rfl | rfl | rfl | rfl <;> rfl
  have hshallow : s.Shallow (Json.maxDepth - 4) := by
    intro d hd key v hv
    rw [hdevices, List.mem_singleton] at hd
    rw [hd] at hv
    cases hv
  have hpass : s.published.lastPass = none := by decide +kernel
  have hreadable : s.published.Readable := by
    refine ⟨⟨?_, ?_, ?_⟩, ?_, fun p hp => ?_⟩
    · decide +kernel
    · decide +kernel
    · decide +kernel
    · decide +kernel
    · rw [hpass] at hp
      cases hp
  have hfinite : ∀ d ∈ s.devices, ∀ x ∈ d.floats, x.isFinite = true := by
    rw [hdevices]
    decide +kernel
  -- No reading is infinite, so that nothing is lost where the state is read.
  obtain ⟨-, hread, hwritten⟩ := published_is_read h
  rw [← hwritten.mpr hfinite]
  exact ⟨h, (hread hback _).mpr ⟨rfl, hreadable, hshallow⟩⟩

/-- A best difficulty that is more than the largest float keeps clients from reading the state. -/
theorem unreadable_after_one_miner :
    let s := afterReport (1 / 0)
    Reachable (· = reporting "1e300E") default (KeyMap.empty : MemoryStore) s ∧
      s.devices = [reported (1 / 0)] ∧
      ∀ t, Decoder.ofText Snapshot.decode s.published.toJson.compact ≠ .ok t := by
  intro s
  have h : Reachable (· = reporting "1e300E") default (KeyMap.empty : MemoryStore) s :=
    reachable_afterReport (by decide +kernel)
  refine ⟨h, by decide +kernel, fun t ht => ?_⟩
  have hback : ∀ n ∈ s.published.toJson.numbers, n.ReadBack := by
    have hnumbers : ∀ n ∈ s.published.toJson.numbers, n = .int 30 ∨ n = .int 1 ∨ n = .float 0 := by
      decide +kernel
    intro n hn
    rcases hnumbers n hn with rfl | rfl | rfl <;> rfl
  -- The best difficulty of the fleet is infinite, as that of its miner is.
  have hbest : s.published.totals.totals.bestDiff.isFinite = false := by decide +kernel
  rw [Decoder.ofText_compact hback] at ht
  obtain ⟨ts, h⟩ := h
  have hroom : Json.maxDepth = (Json.maxDepth - 4) + 4 := rfl
  rw [hroom] at ht
  obtain ⟨-, hreadable, -⟩ := h.decode_clip.mp ht
  rw [hreadable.totals.bestDiff] at hbest
  cases hbest

end System

end MinerFleet
