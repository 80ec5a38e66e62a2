/-
What an event makes of an engine and of what it has under way.

* `launches`, `answers` — the jobs that effects launch, and the replies that they send;
* `Engine.underWay` — the two flags and the number of jobs under way;
* `Launched` — what an event can launch: nothing, a discovery or a refresh where no pass is under
  way, or the question to a miner that a request wants to add;
* `FleetStep` — what an event can do to the miners, together with its replies.

`step_launched`, `step_finished` and `step_fleet` say so of every event; what an engine does on an
event is opened nowhere else.
-/
import MinerFleet.Engine.Basic
import MinerFleet.Proofs.Registry.Devices

namespace MinerFleet

/-! ### Effects -/

def Effect.job? : Effect → Option Job
  | .launch job => some job
  | _ => none

def Effect.answer? : Effect → Option (Nat × Except Fault Answer)
  | .reply ticket answer => some (ticket, answer)
  | _ => none

/-- The jobs that effects launch. -/
def launches (effects : List Effect) : List Job :=
  effects.filterMap Effect.job?

/-- The replies that effects send, with their tickets. -/
def answers (effects : List Effect) : List (Nat × Except Fault Answer) :=
  effects.filterMap Effect.answer?

@[simp] theorem launches_append (fx gx : List Effect) :
    launches (fx ++ gx) = launches fx ++ launches gx :=
  List.filterMap_append

@[simp] theorem answers_append (fx gx : List Effect) :
    answers (fx ++ gx) = answers fx ++ answers gx :=
  List.filterMap_append

@[simp] theorem launches_publish (s : Snapshot) : launches [.publish s] = [] := rfl

@[simp] theorem answers_publish (s : Snapshot) : answers [.publish s] = [] := rfl

@[simp] theorem launches_telling (log : List LogEvent) : launches (Engine.telling log) = [] := by
  rw [launches, Engine.telling, List.filterMap_map, List.filterMap_eq_nil_iff]
  exact fun _ _ => rfl

@[simp] theorem answers_telling (log : List LogEvent) : answers (Engine.telling log) = [] := by
  rw [answers, Engine.telling, List.filterMap_map, List.filterMap_eq_nil_iff]
  exact fun _ _ => rfl

/-! ### Jobs and their results -/

namespace Job

def isDiscovery : Job → Bool
  | .discovery .. => true
  | _ => false

def isRefresh : Job → Bool
  | .refresh .. => true
  | _ => false

/-- A pass over many miners. -/
def isPass (job : Job) : Bool :=
  job.isDiscovery || job.isRefresh

theorem isPass_of_isDiscovery {job : Job} (h : job.isDiscovery = true) : job.isPass = true :=
  Bool.or_eq_true_iff.mpr (.inl h)

theorem isPass_of_isRefresh {job : Job} (h : job.isRefresh = true) : job.isPass = true :=
  Bool.or_eq_true_iff.mpr (.inr h)

end Job

namespace JobResult

def isDiscovery : JobResult → Bool
  | .discovered _ => true
  | _ => false

def isRefresh : JobResult → Bool
  | .refreshed _ => true
  | _ => false

/-- The result of a pass. -/
def isPass (result : JobResult) : Bool :=
  result.isDiscovery || result.isRefresh

end JobResult

namespace Engine

variable {σ : Type}

@[simp] theorem launches_replying (e : Engine σ) (ticket : Nat) (answer : Except Fault Answer) :
    launches (e.replying ticket answer) = [] := rfl

@[simp] theorem answers_replying (e : Engine σ) (ticket : Nat) (answer : Except Fault Answer) :
    answers (e.replying ticket answer) = [(ticket, answer)] := rfl

/-- Whether a discovery is under way, whether a refresh is, and how many jobs are. -/
def underWay (e : Engine σ) : Bool × Bool × Nat :=
  (e.scanning, e.refreshing, e.inFlight)

theorem underWay_eq {e : Engine σ} {scanning refreshing : Bool} {inFlight : Nat}
    (h : e.underWay = (scanning, refreshing, inFlight)) :
    e.scanning = scanning ∧ e.refreshing = refreshing ∧ e.inFlight = inFlight :=
  ⟨congrArg (·.1) h, congrArg (·.2.1) h, congrArg (·.2.2) h⟩

/-! ### Passes -/

/-- A discovery is refused without a seed or while a pass is under way, and then the engine stays
as it is; otherwise it is launched. -/
theorem startScan_cases (e : Engine σ) :
    (e.config.seed = none ∧ ∃ fault, e.startScan = (e, [], .error fault)) ∨
    (e.config.seed.isSome ∧ e.busy = true ∧ e.startScan = (e, [], .ok false)) ∨
    (∃ seed, e.config.seed = some seed ∧ e.busy = false ∧
      e.startScan = ({ e with scanning := true, inFlight := e.inFlight + 1 },
        [.launch (.discovery seed e.config.netmask e.config.concurrency)], .ok true)) := by
  rw [startScan]
  cases hs : e.config.seed with
  | none => exact .inl ⟨rfl, _, rfl⟩
  | some seed =>
    cases hb : e.busy with
    | true => exact .inr (.inl ⟨rfl, rfl, rfl⟩)
    | false => exact .inr (.inr ⟨seed, rfl, rfl, rfl⟩)

/-- A refresh is refused while a pass is under way or without miners, and then the engine stays as
it is; otherwise it is launched over all the miners. -/
theorem startRefresh_cases (e : Engine σ) (fetchAsic : Bool) :
    ((e.busy = true ∨ e.registry.devices = []) ∧ e.startRefresh fetchAsic = (e, [], false)) ∨
    (e.busy = false ∧ e.registry.devices ≠ [] ∧
      e.startRefresh fetchAsic =
        ({ e with
            refreshing := true, countdown := e.countdown.reset, inFlight := e.inFlight + 1 },
          [.launch (.refresh e.registry.devices e.config.concurrency fetchAsic)], true)) := by
  rw [startRefresh]
  by_cases h : e.busy || e.registry.isEmpty
  · rw [if_pos h]
    rw [Bool.or_eq_true, Registry.isEmpty_iff] at h
    exact .inl ⟨h, rfl⟩
  · rw [if_neg h]
    rw [Bool.or_eq_true, Registry.isEmpty_iff, not_or] at h
    exact .inr ⟨eq_false_of_ne_true h.1, h.2, rfl⟩

/-- What an event launches, other than the end of a job. -/
inductive Launched (e : Engine σ) : Event → List Job → Engine σ → Prop
  | nothing {event : Event} {e' : Engine σ} (h : e'.underWay = e.underWay) :
      Launched e event [] e'
  | discovery {event : Event} {e' : Engine σ} {seed : String} (hs : e.config.seed = some seed)
      (hb : e.busy = false) (h : e'.underWay = (true, e.refreshing, e.inFlight + 1)) :
      Launched e event [.discovery seed e.config.netmask e.config.concurrency] e'
  | refresh {event : Event} {e' : Engine σ} (fetchAsic : Bool) (hb : e.busy = false)
      (h : e'.underWay = (e.scanning, true, e.inFlight + 1)) :
      Launched e event [.refresh e.registry.devices e.config.concurrency fetchAsic] e'
  | peer {ticket : Nat} {name : String} {e' : Engine σ}
      (hf : e.registry.find? (Text.trim name) = none)
      (h : e'.underWay = (e.scanning, e.refreshing, e.inFlight + 1)) :
      Launched e (.command ticket (.add name)) [.peer (Text.trim name) ticket] e'

theorem startScan_launched (e : Engine σ) (event : Event) :
    Launched e event (launches e.startScan.2.1) e.startScan.1 := by
  rcases startScan_cases e with ⟨-, fault, h⟩ | ⟨-, -, h⟩ | ⟨seed, hs, hb, h⟩
  · rw [h]
    exact .nothing rfl
  · rw [h]
    exact .nothing rfl
  · rw [h]
    exact .discovery hs hb rfl

theorem startRefresh_launched (e : Engine σ) (fetchAsic : Bool) (event : Event) :
    Launched e event (launches (e.startRefresh fetchAsic).2.1) (e.startRefresh fetchAsic).1 := by
  rcases startRefresh_cases e fetchAsic with ⟨-, h⟩ | ⟨hb, -, h⟩
  · rw [h]
    exact .nothing rfl
  · rw [h]
    exact .refresh fetchAsic hb rfl

theorem answers_startScan (e : Engine σ) : answers e.startScan.2.1 = [] := by
  rcases startScan_cases e with ⟨-, fault, h⟩ | ⟨-, -, h⟩ | ⟨seed, -, -, h⟩ <;> rw [h] <;> rfl

theorem answers_startRefresh (e : Engine σ) (fetchAsic : Bool) :
    answers (e.startRefresh fetchAsic).2.1 = [] := by
  rcases startRefresh_cases e fetchAsic with ⟨-, h⟩ | ⟨-, -, h⟩ <;> rw [h] <;> rfl

/-- Starting a discovery leaves the fleet alone. -/
theorem startScan_registry (e : Engine σ) : e.startScan.1.registry = e.registry := by
  rcases startScan_cases e with ⟨-, fault, h⟩ | ⟨-, -, h⟩ | ⟨seed, -, -, h⟩ <;> rw [h]

/-- Starting a refresh leaves the fleet alone. -/
theorem startRefresh_registry (e : Engine σ) (fetchAsic : Bool) :
    (e.startRefresh fetchAsic).1.registry = e.registry := by
  rcases startRefresh_cases e fetchAsic with ⟨-, h⟩ | ⟨-, -, h⟩ <;> rw [h]

/-- What an engine launches does not depend on how long it is to the next refresh. -/
theorem Launched.of_countdown {e e' : Engine σ} {c : Countdown} {event : Event} {jobs : List Job}
    (h : Launched { e with countdown := c } event jobs e') : Launched e event jobs e' := by
  cases h with
  | nothing h => exact .nothing h
  | discovery hs hb h => exact .discovery hs hb h
  | refresh fetchAsic hb h => exact .refresh fetchAsic hb h
  | peer hf h => exact .peer hf h

/-- The first pass is a refresh or a discovery. -/
theorem start_cases (e : Engine σ) :
    Launched e .start (launches e.start.2) e.start.1 ∧ answers e.start.2 = [] ∧
      e.start.1.registry = e.registry := by
  rw [start]
  by_cases h : e.hadData
  · rw [if_pos h]
    exact ⟨startRefresh_launched e true _, answers_startRefresh e true,
      startRefresh_registry e true⟩
  · rw [if_neg h]
    rcases startScan_cases e with ⟨-, fault, h⟩ | ⟨-, -, h⟩ | ⟨seed, hs, hb, h⟩
    · rw [h]
      exact ⟨.nothing rfl, rfl, rfl⟩
    · rw [h]
      exact ⟨.nothing rfl, rfl, rfl⟩
    · rw [h]
      exact ⟨.discovery hs hb rfl, rfl, rfl⟩

/-- A second that passes can launch a refresh. -/
theorem tick_cases (e : Engine σ) :
    Launched e .tick (launches e.tick.2) e.tick.1 ∧ answers e.tick.2 = [] ∧
      e.tick.1.registry = e.registry := by
  rw [tick]
  by_cases h : (e.countdown.tick e.busy !e.registry.isEmpty).2
  · simp only [h, if_true]
    exact ⟨(startRefresh_launched _ false _).of_countdown, answers_startRefresh _ false,
      startRefresh_registry _ false⟩
  · simp only [h]
    exact ⟨.nothing rfl, rfl, rfl⟩

/-! ### Commands -/

/-- A request to add a miner is refused at once, or the miner is asked, where none goes by its
name. -/
theorem add_cases (e : Engine σ) (ticket : Nat) (name : String) :
    (∃ fault, e.add ticket name = (e, [.reply ticket (.error fault)])) ∨
    (e.registry.find? (Text.trim name) = none ∧
      e.add ticket name =
        ({ e with inFlight := e.inFlight + 1 }, [.launch (.peer (Text.trim name) ticket)])) := by
  rw [add]
  by_cases hp : isPeer (Text.trim name)
  · by_cases hf : (e.registry.find? (Text.trim name)).isSome
    · exact .inl ⟨.duplicate (Text.trim name), by simp [hp, hf]⟩
    · exact .inr ⟨by simpa using hf, by simp [hp, hf, launch]⟩
  · exact .inl ⟨.invalidAddress (Text.trim name), by simp [hp]⟩

/-- A change of the settings leaves what is under way alone and loses no miner. -/
structure Tuned (e e' : Engine σ) : Prop where
  underWay : e'.underWay = e.underWay
  devices : e'.registry.devices.Perm e.registry.devices

theorem Tuned.refl (e : Engine σ) : Tuned e e :=
  ⟨rfl, List.Perm.refl _⟩

theorem Tuned.trans {e e' e'' : Engine σ} (h : Tuned e e') (h' : Tuned e' e'') : Tuned e e'' :=
  ⟨h'.underWay.trans h.underWay, h'.devices.trans h.devices⟩

theorem change_tuned {α : Type} {e : Engine σ} {f : Engine σ → α → Engine σ × List LogEvent}
    (h : ∀ a, Tuned e (f e a).1) (o : Option α) : Tuned e (e.change f o).1 := by
  cases o with
  | none => exact .refl e
  | some a => exact h a

variable [Store σ]

/-- A miner is taken out and given back, or nothing goes by the name and the engine stays as it
is. -/
theorem remove_cases (e : Engine σ) (ticket : Nat) (name : String) :
    launches (e.remove ticket name).2 = [] ∧
    (e.remove ticket name).1.underWay = e.underWay ∧
    ((∃ fault, answers (e.remove ticket name).2 = [(ticket, .error fault)] ∧
      (e.remove ticket name).1 = e) ∨
     (∃ d ∈ e.registry.devices,
      answers (e.remove ticket name).2 = [(ticket, .ok (.device d))] ∧
      d.isKnownAs (Text.trim name) = true ∧
      e.registry.devices.Perm (d :: (e.remove ticket name).1.registry.devices))) := by
  rw [remove]
  cases h : e.registry.remove (Text.trim name) with
  | none => exact ⟨rfl, rfl, .inl ⟨_, rfl, rfl⟩⟩
  | some taken =>
    obtain ⟨d, registry, log⟩ := taken
    obtain ⟨hd, hk, hp⟩ := Registry.perm_remove h
    exact ⟨by simp, rfl, .inr ⟨d, hd, by simp, hk, hp⟩⟩

theorem setInterval_tuned (e : Engine σ) (interval : UInt32) : Tuned e (e.setInterval interval).1 :=
  ⟨rfl, List.Perm.refl _⟩

theorem sortBy_tuned (e : Engine σ) (field : SortField) : Tuned e (e.sortBy field).1 :=
  ⟨rfl, Registry.perm_sortBy e.registry field⟩

theorem setView_tuned (e : Engine σ) (view : ViewMode) : Tuned e (e.setView view).1 :=
  ⟨rfl, List.Perm.refl _⟩

theorem setAll_tuned {e e' : Engine σ} {changes : Settings} {log : List LogEvent}
    (h : e.setAll changes = .ok (e', log)) : Tuned e e' := by
  rw [setAll] at h
  by_cases hz : changes.refreshInterval = some 0
  · rw [if_pos hz] at h
    cases h
  · rw [if_neg hz] at h
    cases h
    exact ((change_tuned (setInterval_tuned _) _).trans (change_tuned (sortBy_tuned _) _)).trans
      (change_tuned (setView_tuned _) _)

/-- New settings are answered, and no reply gives a miner. -/
theorem settings_cases (e : Engine σ) (ticket : Nat) (changes : Settings) :
    launches (e.settings ticket changes).2 = [] ∧
    Tuned e (e.settings ticket changes).1 ∧
    ∃ answer, answers (e.settings ticket changes).2 = [(ticket, answer)] ∧
      ∀ d, answer ≠ .ok (.device d) := by
  rw [settings]
  cases h : e.setAll changes with
  | error fault => exact ⟨rfl, .refl e, _, rfl, fun _ => by simp⟩
  | ok result =>
    obtain ⟨e', log⟩ := result
    exact ⟨by simp, setAll_tuned h, .ok .done, by simp, fun _ => by simp⟩

/-! ### Finished work -/

/-- A miner that was asked is added, or it cannot be and the fleet stays as it is. -/
theorem probed_cases (e : Engine σ) (ticket : Nat) (result : Except Fault Device) :
    launches (e.probed ticket result).2 = [] ∧
    (e.probed ticket result).1.underWay = e.underWay ∧
    ((∃ fault, answers (e.probed ticket result).2 = [(ticket, .error fault)] ∧
      (e.probed ticket result).1 = e) ∨
     (∃ d, result = .ok d ∧
      answers (e.probed ticket result).2 = [(ticket, .ok (.device d))] ∧
      d.connectionAddress ∉ dialed e.registry.devices ∧
      (e.probed ticket result).1.registry.devices.Perm (d :: e.registry.devices))) := by
  cases result with
  | error fault => exact ⟨rfl, rfl, .inl ⟨fault, rfl, rfl⟩⟩
  | ok d =>
    rw [probed]
    rcases e.registry.insert_cases d with ⟨-, h⟩ | ⟨hd, registry, log, h, hp⟩
    · rw [h]
      exact ⟨rfl, rfl, .inl ⟨_, rfl, rfl⟩⟩
    · rw [h]
      exact ⟨by simp, rfl, .inr ⟨d, rfl, by simp, hd, hp⟩⟩

/-- A discovery that has ended sets its flag back; of the fleet it changes what `merge` does. -/
theorem discovered_cases (e : Engine σ) (result : Except Fault Report) :
    launches (e.discovered result).2 = [] ∧ answers (e.discovered result).2 = [] ∧
    (e.discovered result).1.underWay = (false, e.refreshing, e.inFlight) ∧
    ((∃ fault, result = .error fault ∧ (e.discovered result).1.registry = e.registry) ∨
     (∃ report, result = .ok report ∧
      (e.discovered result).1.registry = (e.registry.merge report.devices).1 ∧
      (e.discovered result).1.lastPass =
        some (.discovery report.devices.length (e.registry.merge report.devices).2.1))) := by
  cases result with
  | error fault => exact ⟨by simp [discovered], by simp [discovered], rfl, .inl ⟨fault, rfl, rfl⟩⟩
  | ok report =>
    exact ⟨by simp [discovered], by simp [discovered], rfl, .inr ⟨report, rfl, rfl, rfl⟩⟩

/-- A refresh that has ended sets its flag back and puts its results in place. -/
theorem refreshed_cases (e : Engine σ) (report : Report) :
    launches (e.refreshed report).2 = [] ∧ answers (e.refreshed report).2 = [] ∧
    (e.refreshed report).1.underWay = (e.scanning, false, e.inFlight) ∧
    (e.refreshed report).1.registry = (e.registry.applyRefresh report.devices).1 :=
  ⟨by simp [refreshed], by simp [refreshed], rfl, rfl⟩

/-! ### Events -/

theorem step_fst (e : Engine σ) (event : Event) : (e.step event).1 = (e.handle event).1 := rfl

theorem launches_step (e : Engine σ) (event : Event) :
    launches (e.step event).2 = launches (e.handle event).2 := by
  rw [step, launches_append, launches_publish, List.append_nil]

theorem answers_step (e : Engine σ) (event : Event) :
    answers (e.step event).2 = answers (e.handle event).2 := by
  rw [step, answers_append, answers_publish, List.append_nil]

/-- What an event launches that is not the end of a job. -/
theorem step_launched (e : Engine σ) {event : Event} (h : ∀ result, event ≠ .finished result) :
    Launched e event (launches (e.step event).2) (e.step event).1 := by
  rw [launches_step, step_fst]
  cases event with
  | start => exact (start_cases e).1
  | tick => exact (tick_cases e).1
  | finished result => exact absurd rfl (h result)
  | command ticket c =>
    cases c with
    | scan =>
      have hl := startScan_launched e (.command ticket .scan)
      simpa [handle, command] using hl
    | refresh =>
      have hl := startRefresh_launched e true (.command ticket .refresh)
      simpa [handle, command] using hl
    | add name =>
      rw [handle, command]
      rcases add_cases e ticket name with ⟨fault, ha⟩ | ⟨hf, ha⟩
      · rw [ha]
        exact .nothing rfl
      · rw [ha]
        exact .peer hf rfl
    | remove name =>
      obtain ⟨hl, hu, -⟩ := remove_cases e ticket name
      rw [handle, command, hl]
      exact .nothing hu
    | settings changes =>
      obtain ⟨hl, ht, -⟩ := settings_cases e ticket changes
      rw [handle, command, hl]
      exact .nothing ht.underWay

/-- The end of a job launches nothing. There is one job less, and the flag of a pass that has
ended is set back. -/
theorem step_finished (e : Engine σ) (result : JobResult) :
    launches (e.step (.finished result)).2 = [] ∧
    (e.step (.finished result)).1.underWay =
      (e.scanning && !result.isDiscovery, e.refreshing && !result.isRefresh, e.inFlight - 1) := by
  rw [launches_step, step_fst, handle]
  cases result with
  | discovered result =>
    obtain ⟨hl, -, hu, -⟩ := discovered_cases { e with inFlight := e.inFlight - 1 } result
    rw [finish]
    exact ⟨hl, by simpa [JobResult.isDiscovery, JobResult.isRefresh] using hu⟩
  | refreshed report =>
    obtain ⟨hl, -, hu, -⟩ := refreshed_cases { e with inFlight := e.inFlight - 1 } report
    rw [finish]
    exact ⟨hl, by simpa [JobResult.isDiscovery, JobResult.isRefresh] using hu⟩
  | probed result ticket =>
    obtain ⟨hl, hu, -⟩ := probed_cases { e with inFlight := e.inFlight - 1 } ticket result
    rw [finish]
    exact ⟨hl, by simpa [JobResult.isDiscovery, JobResult.isRefresh, underWay] using hu⟩

/-- The end of a job launches nothing, so that whatever is launched is launched by another event. -/
theorem launched_of_mem {e : Engine σ} {event : Event} {job : Job}
    (h : job ∈ launches (e.step event).2) :
    Launched e event (launches (e.step event).2) (e.step event).1 := by
  refine step_launched e fun result he => ?_
  rw [he, (step_finished e result).1] at h
  exact absurd h List.not_mem_nil

/-- An event launches one job at most. -/
theorem length_launches_le (e : Engine σ) (event : Event) :
    (launches (e.step event).2).length ≤ 1 := by
  cases hl : launches (e.step event).2 with
  | nil => exact Nat.zero_le 1
  | cons job jobs =>
    have hjob : job ∈ launches (e.step event).2 := by
      rw [hl]
      exact List.mem_cons_self
    have hlaunched := launched_of_mem hjob
    rw [hl] at hlaunched
    cases hlaunched <;> exact Nat.le_refl 1

/-- A miner is asked only for a request to add it, by the name without blanks, and only where none
goes by this name. -/
theorem eq_add_of_peer_mem_launches {e : Engine σ} {event : Event} {name : String} {ticket : Nat}
    (h : .peer name ticket ∈ launches (e.step event).2) :
    ∃ name', event = .command ticket (.add name') ∧ Text.trim name' = name ∧
      e.registry.find? name = none := by
  have hl := launched_of_mem h
  generalize launches (e.step event).2 = jobs at h hl
  generalize (e.step event).1 = e' at hl
  cases hl with
  | peer hf hu =>
    obtain ⟨rfl, rfl⟩ := Job.peer.inj (List.mem_singleton.mp h)
    exact ⟨_, rfl, rfl, hf⟩
  | nothing hu => exact absurd h List.not_mem_nil
  | discovery hs hb hu => cases List.mem_singleton.mp h
  | refresh fetchAsic hb hu => cases List.mem_singleton.mp h

/-- A refresh is launched over the miners of the fleet. -/
theorem eq_devices_of_refresh_mem_launches {e : Engine σ} {event : Event} {known : List Device}
    {n : Nat} {fetchAsic : Bool} (h : .refresh known n fetchAsic ∈ launches (e.step event).2) :
    known = e.registry.devices := by
  have hl := launched_of_mem h
  generalize launches (e.step event).2 = jobs at h hl
  generalize (e.step event).1 = e' at hl
  cases hl with
  | refresh fetchAsic hb hu => exact (Job.refresh.inj (List.mem_singleton.mp h)).1
  | nothing hu => exact absurd h List.not_mem_nil
  | discovery hs hb hu => cases List.mem_singleton.mp h
  | peer hf hu => cases List.mem_singleton.mp h

end Engine

/-- The ticket of the request that an event can answer. -/
def Event.ticket? : Event → Option Nat
  | .command ticket _ => some ticket
  | .finished (.probed _ ticket) => some ticket
  | _ => none

/-- What an event does to the miners of a fleet, and the replies that it sends. -/
inductive FleetStep (before : List Device) :
    Event → List (Nat × Except Fault Answer) → List Device → Prop
  /-- The fleet stays as it is, up to its order. -/
  | kept {event : Event} {replies : List (Nat × Except Fault Answer)} {after : List Device}
      (hp : after.Perm before)
      (hd : ∀ report, event ≠ .finished (.discovered (.ok report)))
      (hr : ∀ report, event ≠ .finished (.refreshed report))
      (ha : replies = [] ∨ ∃ ticket answer, event.ticket? = some ticket ∧
        replies = [(ticket, answer)] ∧ ∀ d, answer ≠ .ok (.device d)) :
      FleetStep before event replies after
  /-- A miner is taken out, and given back. -/
  | removed {ticket : Nat} {name : String} {after : List Device} {d : Device}
      (hd : d ∈ before) (hk : d.isKnownAs (Text.trim name) = true)
      (hp : before.Perm (d :: after)) :
      FleetStep before (.command ticket (.remove name)) [(ticket, .ok (.device d))] after
  /-- A miner is added that is dialed where none was. -/
  | added {ticket : Nat} {after : List Device} {d : Device}
      (hd : d.connectionAddress ∉ dialed before) (hp : after.Perm (d :: before)) :
      FleetStep before (.finished (.probed (.ok d) ticket)) [(ticket, .ok (.device d))] after
  /-- A discovery adds its newcomers. -/
  | discovered {report : Report} {after : List Device}
      (hp : after.Perm (before ++ Registry.newcomers before report.devices)) :
      FleetStep before (.finished (.discovered (.ok report))) [] after
  /-- A refresh puts its results in place. -/
  | refreshed {report : Report} {after : List Device}
      (hp : after.Perm (Registry.replaceFrom report.devices [] before)) :
      FleetStep before (.finished (.refreshed report)) [] after

/-- Where the fleet stays as it is, no reply gives a miner. -/
theorem not_given {event : Event} {replies : List (Nat × Except Fault Answer)} {ticket : Nat}
    {d : Device} (ha : replies = [] ∨ ∃ ticket answer, event.ticket? = some ticket ∧
      replies = [(ticket, answer)] ∧ ∀ d, answer ≠ .ok (.device d)) :
    (ticket, .ok (.device d)) ∉ replies := by
  intro hm
  rcases ha with rfl | ⟨ticket', answer, -, rfl, hd⟩
  · exact absurd hm List.not_mem_nil
  · obtain ⟨-, he⟩ := Prod.mk.inj (List.mem_singleton.mp hm)
    exact hd d he.symm

/-- An event answers its own request, or nothing. -/
theorem FleetStep.replies_cases {before after : List Device} {event : Event}
    {replies : List (Nat × Except Fault Answer)} (h : FleetStep before event replies after) :
    replies = [] ∨ ∃ ticket answer, event.ticket? = some ticket ∧ replies = [(ticket, answer)] := by
  cases h with
  | kept hp hd hr ha =>
    rcases ha with ha | ⟨ticket, answer, ht, ha, -⟩
    · exact .inl ha
    · exact .inr ⟨ticket, answer, ht, ha⟩
  | removed hd hk hp => exact .inr ⟨_, _, rfl, rfl⟩
  | added hd hp => exact .inr ⟨_, _, rfl, rfl⟩
  | discovered hp => exact .inl rfl
  | refreshed hp => exact .inl rfl

namespace Engine

variable {σ : Type} [Store σ]

/-- What an event does to the miners. -/
theorem step_fleet (e : Engine σ) (event : Event) :
    FleetStep e.registry.devices event (answers (e.step event).2)
      (e.step event).1.registry.devices := by
  rw [answers_step, step_fst]
  -- A miner is taken out on request, and else the fleet changes where a job ends.
  cases event with
  | start =>
    obtain ⟨-, ha, hr⟩ := start_cases e
    rw [handle, ha, hr]
    exact .kept (List.Perm.refl _) (by simp) (by simp) (.inl rfl)
  | tick =>
    obtain ⟨-, ha, hr⟩ := tick_cases e
    rw [handle, ha, hr]
    exact .kept (List.Perm.refl _) (by simp) (by simp) (.inl rfl)
  | command ticket c =>
    cases c with
    | scan =>
      refine .kept ?_ (by simp) (by simp) (.inr ⟨ticket, e.startScan.2.2.map .started, rfl, ?_, ?_⟩)
      · rw [handle, command, startScan_registry]
      · simp [handle, command, answers_startScan]
      · intro d
        cases e.startScan.2.2 <;> simp [Except.map]
    | refresh =>
      refine .kept ?_ (by simp) (by simp)
        (.inr ⟨ticket, .ok (.started (e.startRefresh true).2.2), rfl, ?_, by simp⟩)
      · rw [handle, command, startRefresh_registry]
      · simp [handle, command, answers_startRefresh]
    | add name =>
      rw [handle, command]
      rcases add_cases e ticket name with ⟨fault, ha⟩ | ⟨-, ha⟩
      · rw [ha]
        exact .kept (List.Perm.refl _) (by simp) (by simp) (.inr ⟨ticket, _, rfl, rfl, by simp⟩)
      · rw [ha]
        exact .kept (List.Perm.refl _) (by simp) (by simp) (.inl rfl)
    | remove name =>
      rw [handle, command]
      rcases (remove_cases e ticket name).2.2 with ⟨fault, ha, he⟩ | ⟨d, hd, ha, hk, hp⟩
      · rw [ha, he]
        exact .kept (List.Perm.refl _) (by simp) (by simp) (.inr ⟨ticket, _, rfl, rfl, by simp⟩)
      · rw [ha]
        exact .removed hd hk hp
    | settings changes =>
      obtain ⟨-, ht, answer, ha, hd⟩ := settings_cases e ticket changes
      rw [handle, command, ha]
      exact .kept ht.devices (by simp) (by simp) (.inr ⟨ticket, answer, rfl, rfl, hd⟩)
  | finished result =>
    rw [handle]
    cases result with
    | discovered result =>
      obtain ⟨-, ha, -, hc⟩ := discovered_cases { e with inFlight := e.inFlight - 1 } result
      rw [finish, ha]
      rcases hc with ⟨fault, rfl, hr⟩ | ⟨report, rfl, hr, -⟩
      · rw [hr]
        exact .kept (List.Perm.refl _) (by simp) (by simp) (.inl rfl)
      · rw [hr]
        exact .discovered (Registry.perm_merge e.registry report.devices).1
    | refreshed report =>
      obtain ⟨-, ha, -, hr⟩ := refreshed_cases { e with inFlight := e.inFlight - 1 } report
      rw [finish, ha, hr]
      exact .refreshed (Registry.perm_applyRefresh e.registry report.devices)
    | probed result ticket =>
      obtain ⟨-, -, hc⟩ := probed_cases { e with inFlight := e.inFlight - 1 } ticket result
      rcases hc with ⟨fault, ha, he⟩ | ⟨d, rfl, ha, hd, hp⟩
      · rw [finish, ha, he]
        exact .kept (List.Perm.refl _) (by simp) (by simp) (.inr ⟨ticket, _, rfl, rfl, by simp⟩)
      · rw [finish, ha]
        exact .added hd hp

end Engine

end MinerFleet
