/-
What an engine keeps in its store.

* `Engine.Writes` — what an event can do to that part of an engine which is kept: to the miners and
  their order, to the interval between two refreshes, and to the view;
* `Engine.remade` — the engine that is made anew of the same settings and the same store;
* `Engine.Saved` — the engine made anew has the same order, interval and view, and either its
  miners too or the store has the miners as they are written.

`step_writes` says of every event what it writes, and `Saved.step` that over a store in memory
nothing gets lost.
-/
import MinerFleet.Proofs.Engine.Countdown
import MinerFleet.Proofs.Fleet.Wire
import MinerFleet.Proofs.Registry.Changes

namespace MinerFleet

/-! ### Looking up -/

namespace Store

variable {σ α : Type} [Store σ]

theorem load_congr {s t : σ} {key : String} (h : get? s key = get? t key) (d : Decoder α) :
    load s key d = load t key d := by
  rw [load, load, h]

theorem load_of_get? {s : σ} {key : String} {v : Json} {d : Decoder α} {a : α}
    (h : get? s key = some v) (hd : d (.ofJson v) = .ok a) : (load s key d).1 = some a := by
  rw [load, h]
  simp only [hd]

end Store

theorem SortSpec.decode_ofJson (spec : SortSpec) : decode (.ofJson spec.toJson) = .ok spec := by
  rw [← Json.clip_eq_ofJson (Nat.le_succ spec.toJson.depth)]
  exact decode_toJson spec

/-! ### The store of a registry -/

namespace Registry

variable {σ : Type} [Store σ]

/-- A change writes the miners and their order, and nothing else. -/
theorem get?_perform_of_ne [LawfulStore σ] (r : Registry σ) (c : Change) {key : String}
    (hd : key ≠ Store.devicesKey) (hs : key ≠ Store.sortKey) :
    Store.get? (r.perform c).1.store key = Store.get? r.store key := by
  rw [perform_eq]
  cases (plan r.devices r.sort c).1 with
  | nothing => rfl
  | miners devices => exact get?_commit_of_ne _ hd
  | order spec => exact (get?_commit_of_ne _ hd).trans (get?_save_of_ne _ _ .sortNotSaved hs)

/-- A write to a store in memory does not fail. -/
theorem perform_log (r : Registry MemoryStore) (c : Change) : (r.perform c).2.2 = [] := by
  rw [perform_eq]
  cases (plan r.devices r.sort c).1 <;> rfl

end Registry

/-! ### Events -/

namespace Engine

variable {σ : Type} [Store σ]

/-- What an event can do to that part of an engine which is kept. -/
inductive Writes : Engine σ → Engine σ → Prop
  | nothing {e e' : Engine σ} (hc : e'.config = e.config) (hr : e'.registry = e.registry)
      (hi : e'.countdown.interval = e.countdown.interval) (hv : e'.view = e.view) : Writes e e'
  | change (e : Engine σ) (c : Change) :
      Writes e { e with registry := (e.registry.perform c).1 }
  | interval (e : Engine σ) {n : UInt32} (hn : n ≠ 0) : Writes e (e.setInterval n).1
  | view (e : Engine σ) (view : ViewMode) : Writes e (e.setView view).1
  | trans {e e' e'' : Engine σ} (h : Writes e e') (h' : Writes e' e'') : Writes e e''

theorem Writes.config {e e' : Engine σ} (h : Writes e e') : e'.config = e.config := by
  induction h with
  | nothing hc _ _ _ => exact hc
  | change _ _ => rfl
  | interval _ _ => rfl
  | view _ _ => rfl
  | trans _ _ ih ih' => exact ih'.trans ih

/-- Miners that are in order and summed up stay so. -/
theorem Writes.consistent {e e' : Engine σ} (h : Writes e e') (hc : e.registry.Consistent) :
    e'.registry.Consistent := by
  induction h with
  | nothing _ hr _ _ =>
    rw [hr]
    exact hc
  | change e c => exact Registry.perform_consistent hc c
  | interval _ _ => exact ⟨hc.sorted, hc.totals⟩
  | view _ _ => exact ⟨hc.sorted, hc.totals⟩
  | trans _ _ ih ih' => exact ih' (ih hc)

theorem startScan_writes (e : Engine σ) : Writes e e.startScan.1 := by
  rcases startScan_cases e with ⟨-, fault, h⟩ | ⟨-, -, h⟩ | ⟨seed, -, -, h⟩ <;> rw [h] <;>
    exact .nothing rfl rfl rfl rfl

theorem startRefresh_writes (e : Engine σ) (fetchAsic : Bool) :
    Writes e (e.startRefresh fetchAsic).1 := by
  rcases startRefresh_cases e fetchAsic with ⟨-, h⟩ | ⟨-, -, h⟩ <;> rw [h] <;>
    exact .nothing rfl rfl rfl rfl

theorem start_writes (e : Engine σ) : Writes e e.start.1 := by
  rw [start]
  by_cases h : e.hadData
  · rw [if_pos h]
    exact startRefresh_writes e true
  · rw [if_neg h]
    have hw := startScan_writes e
    rcases startScan_cases e with ⟨-, fault, h⟩ | ⟨-, -, h⟩ | ⟨seed, -, -, h⟩ <;>
      rw [h] at hw ⊢ <;> exact hw

theorem tick_writes (e : Engine σ) : Writes e e.tick.1 := by
  have hcount : Writes e { e with
      countdown := (e.countdown.tick e.busy !e.registry.isEmpty).1 } :=
    .nothing rfl rfl (Countdown.interval_tick _ _ _) rfl
  rw [tick]
  by_cases h : (e.countdown.tick e.busy !e.registry.isEmpty).2
  · simp only [h, if_true]
    exact hcount.trans (startRefresh_writes _ false)
  · simp only [h]
    exact hcount

theorem setAll_writes {e e' : Engine σ} {changes : Settings} {log : List LogEvent}
    (h : e.setAll changes = .ok (e', log)) : Writes e e' := by
  -- Three changes in a row, each of which may be missing.
  have hrefl : ∀ e : Engine σ, Writes e e := fun e => .nothing rfl rfl rfl rfl
  have hinterval : changes.refreshInterval ≠ some 0 →
      Writes e (e.change setInterval changes.refreshInterval).1 := by
    intro hz
    cases hn : changes.refreshInterval with
    | none => exact hrefl e
    | some n => exact .interval e fun h0 => hz (hn.trans (congrArg some h0))
  have hsort : ∀ e : Engine σ, Writes e (e.change sortBy changes.sort).1 := by
    intro e
    cases changes.sort with
    | none => exact hrefl e
    | some field => exact .change e (.sortBy field)
  have hview : ∀ e : Engine σ, Writes e (e.change setView changes.view).1 := by
    intro e
    cases changes.view with
    | none => exact hrefl e
    | some view => exact .view e view
  rw [setAll] at h
  by_cases hz : changes.refreshInterval = some 0
  · rw [if_pos hz] at h
    cases h
  · rw [if_neg hz] at h
    cases h
    exact ((hinterval hz).trans (hsort _)).trans (hview _)

theorem command_writes (e : Engine σ) (ticket : Nat) (c : Command) :
    Writes e (e.command ticket c).1 := by
  cases c with
  | scan => exact startScan_writes e
  | refresh => exact startRefresh_writes e true
  | add address =>
    rcases add_cases e ticket address with ⟨fault, h⟩ | ⟨-, h⟩ <;> rw [command, h] <;>
      exact .nothing rfl rfl rfl rfl
  | remove address =>
    have hchange := Writes.change e (.remove (Text.trim address))
    rw [Registry.perform] at hchange
    rw [command, remove]
    cases hr : e.registry.remove (Text.trim address) with
    | none => exact .nothing rfl rfl rfl rfl
    | some taken =>
      rw [hr] at hchange
      exact hchange
  | settings changes =>
    rw [command, settings]
    cases hs : e.setAll changes with
    | error fault => exact .nothing rfl rfl rfl rfl
    | ok result => exact setAll_writes hs

theorem finish_writes (e : Engine σ) (result : JobResult) : Writes e (e.finish result).1 := by
  cases result with
  | discovered result =>
    cases result with
    | error fault => exact .nothing rfl rfl rfl rfl
    | ok report =>
      exact (Writes.change e (.merge report.devices)).trans (.nothing rfl rfl rfl rfl)
  | refreshed report =>
    exact (Writes.change e (.refresh report.devices)).trans (.nothing rfl rfl rfl rfl)
  | probed result ticket =>
    cases result with
    | error fault => exact .nothing rfl rfl rfl rfl
    | ok d =>
      have hchange := Writes.change e (.insert d)
      rw [Registry.perform] at hchange
      rw [finish, probed]
      cases hi : e.registry.insert d with
      | error fault => exact .nothing rfl rfl rfl rfl
      | ok inserted =>
        rw [hi] at hchange
        exact hchange.trans (.nothing rfl rfl rfl rfl)

/-- What an event writes. -/
theorem step_writes (e : Engine σ) (event : Event) : Writes e (e.step event).1 := by
  rw [step_fst]
  cases event with
  | start => exact start_writes e
  | tick => exact tick_writes e
  | command ticket c => exact command_writes e ticket c
  | finished result => exact finish_writes e result

/-! ### Engines made anew -/

/-- The engine that is made anew of the same settings and the same store. -/
def remade (e : Engine σ) : Engine σ :=
  (make e.config e.registry.store).1

/-- An engine made anew has the same order, interval and view; and it has the same miners, unless
the store has been given the miners as they are. -/
structure Saved (e : Engine σ) : Prop where
  consistent : e.registry.Consistent
  sort : e.remade.registry.sort = e.registry.sort
  interval : e.remade.countdown.interval = e.countdown.interval
  view : e.remade.view = e.view
  devices : e.remade.registry.devices = e.registry.devices ∨
    Store.get? e.registry.store Store.devicesKey =
      some (Registry.devicesJson e.registry.devices)

theorem saved_make (config : Config) (store : σ) : Saved (make config store).1 where
  consistent := Registry.open_consistent store
  sort := rfl
  interval := rfl
  view := rfl
  -- A list that was only read may be stored in another order, but whoever reads it sorts it again.
  devices := .inl rfl

/-! ### What an engine made anew has of each value -/

theorem remade_devices (e : Engine σ) :
    e.remade.registry.devices = e.remade.registry.sort.sort
      ((Store.load e.registry.store Store.devicesKey (Decoder.list Device.decode)).1.getD []) :=
  rfl

section

variable {e e' : Engine σ}

theorem remade_sort_congr
    (h : Store.get? e'.registry.store Store.sortKey = Store.get? e.registry.store Store.sortKey) :
    e'.remade.registry.sort = e.remade.registry.sort :=
  congrArg (fun loaded => loaded.1.getD {}) (Store.load_congr h SortSpec.decode)

theorem remade_interval_congr
    (h : Store.get? e'.registry.store Store.intervalKey =
      Store.get? e.registry.store Store.intervalKey) :
    e'.remade.countdown.interval = e.remade.countdown.interval :=
  congrArg (fun loaded => (loaded.1.elim Countdown.default Countdown.start).interval)
    (Store.load_congr h Decoder.uint32)

theorem remade_view_congr
    (h : Store.get? e'.registry.store Store.viewKey = Store.get? e.registry.store Store.viewKey) :
    e'.remade.view = e.remade.view :=
  congrArg (fun loaded => loaded.1.getD .grid) (Store.load_congr h ViewMode.names.decode)

/-- The miners depend on the order besides. -/
theorem remade_devices_congr
    (h : Store.get? e'.registry.store Store.devicesKey =
      Store.get? e.registry.store Store.devicesKey)
    (hs : e'.remade.registry.sort = e.remade.registry.sort) :
    e'.remade.registry.devices = e.remade.registry.devices := by
  rw [remade_devices, remade_devices, hs, Store.load_congr h]

theorem remade_sort_eq {spec : SortSpec}
    (h : Store.get? e.registry.store Store.sortKey = some spec.toJson) :
    e.remade.registry.sort = spec :=
  congrArg (·.getD {}) (Store.load_of_get? h spec.decode_ofJson)

theorem remade_interval_eq {n : UInt32} (hn : n ≠ 0)
    (h : Store.get? e.registry.store Store.intervalKey = some (.ofNat n.toNat)) :
    e.remade.countdown.interval = n := by
  have hread : Decoder.uint32 (.ofJson (.ofNat n.toNat)) = .ok n :=
    @Decoder.uint32_ofNat 0 n
  have hload := Store.load_of_get? h hread
  exact (congrArg (fun loaded => (loaded.elim Countdown.default Countdown.start).interval)
    hload).trans (Countdown.interval_start hn)

theorem remade_view_eq {view : ViewMode}
    (h : Store.get? e.registry.store Store.viewKey = some (.string view.name)) :
    e.remade.view = view :=
  congrArg (·.getD .grid) (Store.load_of_get? h (@ViewMode.decode_name 0 view))

end

/-! ### Nothing gets lost -/

section

variable {e e' : Engine MemoryStore}

theorem Saved.nothing (h : e.Saved) (hc : e'.config = e.config) (hr : e'.registry = e.registry)
    (hi : e'.countdown.interval = e.countdown.interval) (hv : e'.view = e.view) : e'.Saved := by
  have hremade : e'.remade = e.remade := by rw [remade, remade, hc, hr]
  constructor
  · rw [hr]
    exact h.consistent
  · rw [hremade, hr]
    exact h.sort
  · rw [hremade, hi]
    exact h.interval
  · rw [hremade, hv]
    exact h.view
  · rw [hremade, hr]
    exact h.devices

/-- A value under another key than those of the miners and their order leaves both as they are. -/
theorem Saved.save (h : e.Saved) {key : String} {v : Json} {telling : Fault → LogEvent}
    (hr : e'.registry = (e.registry.save key v telling).1)
    (hd : Store.devicesKey ≠ key) (hs : Store.sortKey ≠ key)
    (hi : e'.remade.countdown.interval = e'.countdown.interval)
    (hv : e'.remade.view = e'.view) : e'.Saved := by
  have hother : ∀ key', key' ≠ key →
      Store.get? e'.registry.store key' = Store.get? e.registry.store key' := by
    intro key' hne
    rw [hr]
    exact Registry.get?_save_of_ne e.registry v telling hne
  have hdevices : e'.registry.devices = e.registry.devices := congrArg (·.devices) hr
  have hsort : e'.registry.sort = e.registry.sort := congrArg (·.sort) hr
  have hremade := remade_sort_congr (hother _ hs)
  constructor
  · rw [hr]
    exact ⟨h.consistent.sorted, h.consistent.totals⟩
  · rw [hremade, hsort]
    exact h.sort
  · exact hi
  · exact hv
  · rw [remade_devices_congr (hother _ hd) hremade, hother _ hd, hdevices]
    exact h.devices

theorem Saved.setInterval (h : e.Saved) {n : UInt32} (hn : n ≠ 0) :
    (e.setInterval n).1.Saved := by
  have hr : (e.setInterval n).1.registry =
      (e.registry.save Store.intervalKey (.ofNat n.toNat) .intervalNotSaved).1 := rfl
  refine h.save hr (by decide) (by decide) ?_ ?_
  · rw [remade_interval_eq hn (Registry.get?_save .intervalNotSaved rfl)]
    exact (Countdown.interval_start hn).symm
  · rw [remade_view_congr (Registry.get?_save_of_ne _ _ .intervalNotSaved (by decide))]
    exact h.view

theorem Saved.setView (h : e.Saved) (view : ViewMode) : (e.setView view).1.Saved := by
  have hr : (e.setView view).1.registry =
      (e.registry.save Store.viewKey (.string view.name) .viewNotSaved).1 := rfl
  refine h.save hr (by decide) (by decide) ?_ ?_
  · rw [remade_interval_congr (Registry.get?_save_of_ne _ _ .viewNotSaved (by decide))]
    exact h.interval
  · exact remade_view_eq (Registry.get?_save .viewNotSaved rfl)

/-- Miners that a change leaves alone are found as before, and all others have been written. -/
theorem Saved.change (h : e.Saved) (c : Change) :
    Saved { e with registry := (e.registry.perform c).1 } := by
  have hlog := e.registry.perform_log c
  constructor
  · exact Registry.perform_consistent h.consistent c
  · cases hc : c.isOrder with
    | true =>
      refine remade_sort_eq (Registry.sort_perform_of_isOrder hc fun fault => ?_)
      rw [hlog]
      exact List.not_mem_nil
    | false =>
      obtain ⟨hget, hsort⟩ := Registry.sort_perform_of_not_isOrder e.registry hc
      exact (remade_sort_congr hget).trans (h.sort.trans hsort.symm)
  · exact (remade_interval_congr
      (e.registry.get?_perform_of_ne c (by decide) (by decide))).trans h.interval
  · exact (remade_view_congr
      (e.registry.get?_perform_of_ne c (by decide) (by decide))).trans h.view
  · rw [Registry.perform_eq] at *
    by_cases hp : (Registry.plan e.registry.devices e.registry.sort c).1 = .nothing
    · rw [hp]
      exact h.devices
    · exact .inr (Registry.get?_carryOut hp hlog)

theorem Saved.writes (h : e.Saved) (hw : Writes e e') : e'.Saved := by
  induction hw with
  | nothing hc hr hi hv => exact h.nothing hc hr hi hv
  | change e c => exact h.change c
  | interval e hn => exact h.setInterval hn
  | view e view => exact h.setView view
  | trans _ _ ih ih' => exact ih' (ih h)

/-- Nothing gets lost, whatever happens. -/
theorem Saved.step (h : e.Saved) (event : Event) : (e.step event).1.Saved :=
  h.writes (step_writes e event)

end

end Engine

end MinerFleet
