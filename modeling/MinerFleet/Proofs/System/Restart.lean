/-
What is published again after a restart.

* `Run.saved` — in every run over a store in memory, an engine made anew of it has the same order,
  interval and view, and finds the miners again;
* `SortSpec.sorted_withoutLegacy`, `totals_withoutLegacy` — the fields of records that are never
  written decide neither the order of a fleet nor its sums.

`published_again_after_restart` says that a system made anew publishes what was published last:
only the time to the next refresh begins anew, and nothing is known of a pass.
-/
import MinerFleet.Proofs.Engine.Storage
import MinerFleet.Proofs.System.Published

namespace MinerFleet

/-! ### Fields that are never written -/

theorem SortKey.ofDevice_withoutLegacy (d : Device) (field : SortField) :
    ofDevice d.withoutLegacy field = ofDevice d field := by
  cases field <;> rfl

theorem SortSpec.compare_withoutLegacy (spec : SortSpec) (a b : Device) :
    spec.compare a.withoutLegacy b.withoutLegacy = spec.compare a b := by
  rw [compare, SortKey.ofDevice_withoutLegacy, SortKey.ofDevice_withoutLegacy, compare]

theorem SortSpec.sorted_withoutLegacy {spec : SortSpec} {ds : List Device} (h : spec.Sorted ds) :
    spec.Sorted (ds.map Device.withoutLegacy) := by
  refine List.Pairwise.map _ (fun a b hab => ?_) h
  rw [compare_withoutLegacy]
  exact hab

theorem totals_withoutLegacy (ds : List Device) :
    totals (ds.map Device.withoutLegacy) = totals ds := by
  rw [totals, List.foldl_map]
  rfl

/-- What is wrong with a miner does not depend on the fields that are never written. -/
theorem Engine.snapshot_withoutLegacy {σ : Type} (e : Engine σ) :
    e.snapshot.withoutLegacy =
      { e.snapshot with
        members := (e.registry.devices.map Device.withoutLegacy).map
          (Member.ofDevice e.config.staleAfter) } := by
  rw [Snapshot.withoutLegacy, snapshot, List.map_map, List.map_map]
  rfl

theorem Engine.remade_consistent {σ : Type} [Store σ] (e : Engine σ) :
    e.remade.registry.Consistent :=
  Registry.open_consistent e.registry.store

namespace System

variable {W : Network → Prop}

/-! ### Runs -/

/-- In every run, nothing gets lost. -/
theorem Run.saved {config : Config} {store : MemoryStore} {ts : List Turn} {s : System MemoryStore}
    (h : Run W (started config store) ts s) : s.engine.Saved ∧ s.engine.config = config := by
  have hstep (e : Engine MemoryStore) (event : Event) (he : e.Saved ∧ e.config = config) :
      (e.step event).1.Saved ∧ (e.step event).1.config = config :=
    ⟨he.1.step event, (e.step_writes event).config.trans he.2⟩
  exact h.engine_keeps (P := fun e => e.Saved ∧ e.config = config)
    ⟨Engine.saved_make config store, rfl⟩ hstep

/-- The list that is written is read again, without readings that are not finite. -/
theorem Run.decode_devicesJson {config : Config} {store : MemoryStore} {ts : List Turn}
    {s : System MemoryStore} (h : Run W (started config store) ts s) :
    Decoder.list Device.decode (.ofJson (Registry.devicesJson s.devices)) =
      .ok (s.devices.map Device.written) := by
  obtain ⟨levels, hle, hshallow⟩ := s.exists_shallow (Registry.devicesJson s.devices).depth
  have hsealed := (h.allRecords keptByProbes_sealed sealed_of_stored).devices
  rw [← Json.clip_eq_ofJson (Nat.le_add_right_of_le hle : _ ≤ levels + 2), Registry.devicesJson,
    Decoder.list_eq_ok, List.forall₂_map_left_iff, List.forall₂_map_right_iff, List.forall₂_same]
  exact fun d hd => (Device.decode_toJson (hsealed d hd)).mpr ⟨rfl, hshallow d hd⟩

/-- The miners of an engine made anew, but for the fields that are never written. -/
theorem Run.remade_devices {config : Config} {store : MemoryStore} {ts : List Turn}
    {s : System MemoryStore} (h : Run W (started config store) ts s)
    (hf : ∀ d ∈ s.devices, ∀ x ∈ d.floats, x.isFinite = true) :
    s.engine.remade.registry.devices.map Device.withoutLegacy =
      s.devices.map Device.withoutLegacy := by
  have hsaved := h.saved.1
  rcases hsaved.devices with hd | hget
  · rw [hd]
    rfl
  · -- They are read as they were written, and they were in order then.
    have hwritten : s.devices.map Device.written = s.devices.map Device.withoutLegacy :=
      List.map_congr_left fun d hd => Device.written_eq_withoutLegacy.mpr (hf d hd)
    have hsorted : s.engine.registry.sort.Sorted (s.devices.map Device.withoutLegacy) :=
      SortSpec.sorted_withoutLegacy hsaved.consistent.sorted
    rw [Engine.remade_devices, Store.load_of_get? hget h.decode_devicesJson, hsaved.sort,
      Option.getD_some, hwritten, SortSpec.sort_of_sorted hsorted, List.map_map]
    rfl

/-- A system that is made anew of the same settings and the same store publishes what was published
last, where all readings are finite: the same miners in the same order, but for the fields that
are never written, with their failures and with what is wrong with them; the same sums, order,
interval and view. The time to the next refresh is that of a full interval, no pass is under way,
and none has ended. -/
theorem published_again_after_restart {config : Config} {store : MemoryStore}
    {s : System MemoryStore} (h : Reachable W config store s)
    (hf : ∀ d ∈ s.devices, ∀ x ∈ d.floats, x.isFinite = true) :
    (System.make config s.engine.registry.store).published.withoutLegacy =
      { s.published.withoutLegacy with
        countdown := s.published.refreshInterval
        scanning := false
        refreshing := false
        lastPass := none } := by
  obtain ⟨ts, h⟩ := h
  obtain ⟨hsaved, hconfig⟩ := h.saved
  have hdevices := h.remade_devices hf
  have hmade : (System.make config s.engine.registry.store).published =
      s.engine.remade.snapshot := by
    rw [Engine.remade, hconfig]
    rfl
  have hlength : s.engine.remade.registry.devices.length = s.devices.length := by
    have hl := congrArg List.length hdevices
    rwa [List.length_map, List.length_map] at hl
  -- The sums are those of the miners, which are the same in all that is summed up.
  have htotals : s.engine.remade.registry.totals = s.engine.registry.totals := by
    rw [s.engine.remade_consistent.totals, hsaved.consistent.totals, ← totals_withoutLegacy,
      hdevices]
    exact totals_withoutLegacy _
  have hremaining : s.engine.remade.countdown.remaining = s.engine.countdown.interval :=
    (Engine.remaining_make _ _).trans hsaved.interval
  have hsettings : s.engine.remade.config = s.engine.config := rfl
  rw [hmade, h.tracked.published, Engine.snapshot_withoutLegacy, Engine.snapshot_withoutLegacy,
    hdevices, hsettings]
  simp only [Engine.snapshot, htotals, hsaved.sort, hsaved.interval, hsaved.view, hremaining]
  rw [hlength]
  rfl

/-- A network where one miner does not answer. -/
def oneSilent : Network :=
  { lan with info := fun address => if address = "10.1.1.60" then .never else lan.info address }

/-- A refresh has missed one of two miners, the fleet has been given another order, interval and
view, and a second has passed. -/
def afterSettings : List Turn :=
  [.finish 0 (.refreshed
      ⟨[found "10.1.1.50" "10.1.1.50", (Device.at_ "10.1.1.60" "10.1.1.60").failed],
        [("10.1.1.60", .timeout)]⟩),
    .command (.settings ⟨some 60, some .address, some .list⟩), .tick]

/-- Two miners are published again in the order that was chosen, and with the failure of the one
that was missed. -/
theorem published_again_after_two_miners :
    let s := afterSettings.foldl turn (started default twoMiners)
    let again := (System.make default s.engine.registry.store).published.withoutLegacy
    Reachable (· = oneSilent) default twoMiners s ∧
      s.published.countdown = 59 ∧ s.published.lastPass.isSome = true ∧
      again.countdown = 60 ∧ again.lastPass = none ∧
      again.members.map (fun m => (m.device.address, m.device.failedPolls)) =
        [("10.1.1.60", 1), ("10.1.1.50", 0)] ∧
      again.sort = ⟨.address, .desc⟩ ∧ again.refreshInterval = 60 ∧ again.view = .list := by
  intro s again
  have h : Reachable (· = oneSilent) default twoMiners s :=
    ⟨_, run_of_comesOn oneSilent (started default twoMiners) afterSettings (by decide +kernel) rfl⟩
  have hfinite : ∀ d ∈ s.devices, ∀ x ∈ d.floats, x.isFinite = true := by decide +kernel
  have hagain : again = _ := published_again_after_restart h hfinite
  refine ⟨h, by decide +kernel, by decide +kernel, ?_⟩
  rw [hagain]
  decide +kernel

end System

end MinerFleet
