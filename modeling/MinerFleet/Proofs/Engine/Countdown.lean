/-
What an event does to the time to the next refresh.

* `Engine.beginsRefresh`, `Event.endsRefresh`, `Event.setsInterval` — the events with which an
  interval begins anew (`Engine.restarts`);
* `Engine.counts` — a second that counts: no pass is under way, and there are miners to refresh.

`step_countdown` says of every event that the interval begins anew with it, or a second less
remains, or nothing happens to the countdown; a second begins a refresh exactly if it counts and is
the last one (`beginsRefresh_tick`).
-/
import MinerFleet.Proofs.Engine.Effects

namespace MinerFleet

/-! ### Countdowns -/

namespace Countdown

theorem interval_start {n : UInt32} (h : n ≠ 0) : (start n).interval = n := by
  rw [start, dif_neg h]

theorem remaining_start (n : UInt32) : (start n).remaining = (start n).interval := by
  rw [start]
  split <;> rfl

@[simp] theorem interval_lower (c : Countdown) : c.lower.interval = c.interval := by
  rw [lower]
  split <;> rfl

theorem remaining_lower (c : Countdown) : c.lower.remaining.toNat = c.remaining.toNat - 1 := by
  rw [lower]
  by_cases h : c.remaining = 0
  · rw [dif_pos h, h]
    rfl
  · rw [dif_neg h]
    have hpos : 1 ≤ c.remaining := UInt32.le_iff_toNat_le.mpr
      (Nat.pos_of_ne_zero fun he => h (UInt32.toNat_inj.mp he))
    exact UInt32.toNat_sub_of_le _ _ hpos

/-- A second less or not, the interval that begins anew is the same. -/
@[simp] theorem reset_lower (c : Countdown) : c.lower.reset = c.reset := by
  rw [lower]
  split <;> rfl

@[simp] theorem interval_tick (c : Countdown) (busy hasDevices : Bool) :
    (c.tick busy hasDevices).1.interval = c.interval := by
  rw [tick]
  split
  · rfl
  · exact c.interval_lower

/-- There is no countdown of no seconds. -/
theorem one_le_interval (c : Countdown) : 1 ≤ c.interval.toNat :=
  UInt32.lt_iff_toNat_lt.mp c.interval_pos

end Countdown

/-! ### Events -/

namespace Event

/-- A refresh has ended. -/
def endsRefresh : Event → Bool
  | .finished (.refreshed _) => true
  | _ => false

/-- Settings with an interval that can be one. -/
def setsInterval : Event → Bool
  | .command _ (.settings changes) => changes.refreshInterval.any (· ≠ 0)
  | _ => false

def isTick : Event → Bool
  | .tick => true
  | _ => false

/-- Events that have nothing to do with the countdown, in whatever state the engine is: all about
discoveries, and about miners that are added or taken out; and changes of the order and the
view. -/
def isAside : Event → Bool
  | .command _ .scan | .command _ (.add _) | .command _ (.remove _) => true
  | .command _ (.settings changes) => changes.refreshInterval.isNone
  | .finished (.discovered _) | .finished (.probed _ _) => true
  | .start | .tick | .command _ .refresh | .finished (.refreshed _) => false

theorem of_isAside {event : Event} (h : event.isAside = true) :
    event.endsRefresh = false ∧ event.setsInterval = false ∧ event.isTick = false := by
  cases event with
  | start => cases h
  | tick => cases h
  | command ticket c =>
    cases c with
    | settings changes =>
      have hnone : changes.refreshInterval = none := Option.isNone_iff_eq_none.mp h
      exact ⟨rfl, by rw [setsInterval, hnone]; rfl, rfl⟩
    | _ => exact ⟨rfl, rfl, rfl⟩
  | finished result =>
    cases result with
    | refreshed report => cases h
    | _ => exact ⟨rfl, rfl, rfl⟩

end Event

namespace Engine

variable {σ : Type} [Store σ]

/-- An event launches a refresh. -/
def beginsRefresh (e : Engine σ) (event : Event) : Bool :=
  (launches (e.step event).2).any Job.isRefresh

/-- The interval begins anew: a refresh begins or has ended, or the interval is another one. -/
def restarts (e : Engine σ) (event : Event) : Bool :=
  e.beginsRefresh event || event.endsRefresh || event.setsInterval

/-- A second that counts. -/
def counts (e : Engine σ) (event : Event) : Bool :=
  event.isTick && !e.busy && !e.registry.isEmpty

/-- What an event does to the countdown of an engine: `c` is the countdown after it. -/
inductive CountdownStep (e : Engine σ) (event : Event) (c : Countdown) : Prop
  | restarted (h : e.restarts event = true) (hc : c.remaining = c.interval)
      (hi : event.setsInterval = false → c.interval = e.countdown.interval)
  | counted (h : e.restarts event = false) (hs : e.counts event = true)
      (hr : 1 < e.countdown.remaining.toNat) (hc : c = e.countdown.lower)
  | held (h : e.restarts event = false) (hs : e.counts event = false) (hc : c = e.countdown)

theorem beginsRefresh_eq (e : Engine σ) (event : Event) :
    e.beginsRefresh event = (launches (e.handle event).2).any Job.isRefresh := by
  rw [beginsRefresh, launches_step]

theorem restarts_eq_false {e : Engine σ} {event : Event} (hb : e.beginsRefresh event = false)
    (he : event.endsRefresh = false) (hs : event.setsInterval = false) :
    e.restarts event = false := by
  rw [restarts, hb, he, hs]
  rfl

theorem restarts_of_beginsRefresh {e : Engine σ} {event : Event}
    (h : e.beginsRefresh event = true) : e.restarts event = true := by
  rw [restarts, h]
  rfl

/-! ### Passes -/

/-- An event that is not a second and starts a refresh, if it can be started. -/
theorem CountdownStep.of_startRefresh {e : Engine σ} {event : Event} {fetchAsic : Bool}
    (hb : e.beginsRefresh event = (launches (e.startRefresh fetchAsic).2.1).any Job.isRefresh)
    (he : event.endsRefresh = false) (hs : event.setsInterval = false)
    (ht : event.isTick = false) :
    CountdownStep e event (e.startRefresh fetchAsic).1.countdown := by
  rcases startRefresh_cases e fetchAsic with ⟨-, h⟩ | ⟨-, -, h⟩
  · rw [h] at hb ⊢
    exact .held (restarts_eq_false hb he hs) (by rw [counts, ht]; rfl) rfl
  · rw [h] at hb ⊢
    exact .restarted (restarts_of_beginsRefresh hb) rfl fun _ => rfl

theorem start_countdown (e : Engine σ) : CountdownStep e .start e.start.1.countdown := by
  have hb := e.beginsRefresh_eq .start
  rw [handle, start] at hb
  rw [start]
  by_cases h : e.hadData
  · rw [if_pos h] at hb ⊢
    exact .of_startRefresh hb rfl rfl rfl
  · rw [if_neg h] at hb ⊢
    rcases startScan_cases e with ⟨-, fault, hs⟩ | ⟨-, -, hs⟩ | ⟨seed, -, -, hs⟩ <;>
      rw [hs] at hb ⊢ <;> exact .held (restarts_eq_false hb rfl rfl) rfl rfl

/-! ### Seconds -/

omit [Store σ] in
theorem counts_tick {e : Engine σ} :
    e.counts .tick = true ↔ e.busy = false ∧ e.registry.isEmpty = false := by
  simp [counts, Event.isTick]

omit [Store σ] in
/-- A second that does not count changes nothing. -/
theorem tick_of_not_counts {e : Engine σ} (h : e.counts .tick = false) : e.tick = (e, []) := by
  have hidle : (e.busy || !(!e.registry.isEmpty)) = true := by
    rw [counts] at h
    cases hb : e.busy <;> cases hd : e.registry.isEmpty <;> simp_all [Event.isTick]
  have htick : e.countdown.tick e.busy (!e.registry.isEmpty) = (e.countdown, false) := by
    rw [Countdown.tick, if_pos hidle]
  simp only [tick, htick]
  rfl

theorem not_beginsRefresh_of_not_counts {e : Engine σ} (h : e.counts .tick = false) :
    e.beginsRefresh .tick = false := by
  rw [beginsRefresh_eq, handle, tick_of_not_counts h]
  rfl

/-- A second that counts is taken off, and the last one begins a refresh. -/
theorem tick_of_counts {e : Engine σ} (h : e.counts .tick = true) :
    e.countdown.remaining.toNat ≤ 1 ∧ e.beginsRefresh .tick = true ∧
      e.tick.1.countdown = e.countdown.reset ∨
    1 < e.countdown.remaining.toNat ∧ e.beginsRefresh .tick = false ∧
      e.tick.1.countdown = e.countdown.lower := by
  obtain ⟨hb, hd⟩ := counts_tick.mp h
  have htick : e.countdown.tick e.busy (!e.registry.isEmpty) =
      (e.countdown.lower, e.countdown.lower.remaining == 0) := by
    rw [hb, hd]
    rfl
  have hbegins := e.beginsRefresh_eq .tick
  have hlower := e.countdown.remaining_lower
  simp only [handle, tick, htick] at hbegins ⊢
  by_cases hz : e.countdown.lower.remaining = 0
  · left
    rw [hz] at hlower
    simp only [hz, beq_self_eq_true, if_true] at hbegins ⊢
    rcases startRefresh_cases { e with countdown := e.countdown.lower } false with
      ⟨hn, -⟩ | ⟨-, -, hs⟩
    · -- Nothing is under way, and there are miners.
      rcases hn with hn | hn
      · exact absurd (hb.symm.trans hn) Bool.false_ne_true
      · exact absurd (hd.symm.trans (Registry.isEmpty_iff.mpr hn)) Bool.false_ne_true
    · rw [hs] at hbegins ⊢
      exact ⟨Nat.sub_eq_zero_iff_le.mp hlower.symm, hbegins, e.countdown.reset_lower⟩
  · right
    have hne : (e.countdown.lower.remaining == 0) = false := by simpa using hz
    simp only [hne, Bool.false_eq_true, if_false] at hbegins ⊢
    have hpos : e.countdown.lower.remaining.toNat ≠ 0 := fun h0 => hz (UInt32.toNat_inj.mp h0)
    exact ⟨by omega, hbegins, trivial⟩

/-- A second begins a refresh exactly if it counts and no other is left. -/
theorem beginsRefresh_tick {e : Engine σ} :
    e.beginsRefresh .tick = true ↔ e.counts .tick = true ∧ e.countdown.remaining.toNat ≤ 1 := by
  cases h : e.counts .tick with
  | false => simp [not_beginsRefresh_of_not_counts h]
  | true =>
    rcases tick_of_counts h with ⟨hle, hb, -⟩ | ⟨hlt, hb, -⟩
    · simp [hb, hle]
    · simp [hb, Nat.not_le.mpr hlt]

theorem tick_countdown (e : Engine σ) : CountdownStep e .tick e.tick.1.countdown := by
  cases h : e.counts .tick with
  | false =>
    rw [tick_of_not_counts h]
    exact .held (restarts_eq_false (not_beginsRefresh_of_not_counts h) rfl rfl) h rfl
  | true =>
    rcases tick_of_counts h with ⟨-, hb, hc⟩ | ⟨hr, hb, hc⟩
    · rw [hc]
      exact .restarted (restarts_of_beginsRefresh hb) rfl fun _ => rfl
    · exact .counted (restarts_eq_false hb rfl rfl) h hr hc

/-! ### Commands and finished work -/

theorem beginsRefresh_settings (e : Engine σ) (ticket : Nat) (changes : Settings) :
    e.beginsRefresh (.command ticket (.settings changes)) = false := by
  rw [beginsRefresh_eq, handle, command, (settings_cases e ticket changes).1]
  rfl

/-- No refresh is launched but where one is asked for, or when its time has come. -/
theorem beginsRefresh_of_isAside (e : Engine σ) {event : Event} (h : event.isAside = true) :
    e.beginsRefresh event = false := by
  cases event with
  | start => cases h
  | tick => cases h
  | command ticket c =>
    cases c with
    | refresh => cases h
    | settings changes => exact e.beginsRefresh_settings ticket changes
    | scan =>
      rw [beginsRefresh_eq, handle, command]
      rcases startScan_cases e with ⟨-, fault, hs⟩ | ⟨-, -, hs⟩ | ⟨seed, -, -, hs⟩ <;>
        rw [hs] <;> rfl
    | add address =>
      rw [beginsRefresh_eq, handle, command]
      rcases add_cases e ticket address with ⟨fault, ha⟩ | ⟨-, ha⟩ <;> rw [ha] <;> rfl
    | remove address =>
      rw [beginsRefresh_eq, handle, command, (remove_cases e ticket address).1]
      rfl
  | finished result =>
    rw [beginsRefresh, (step_finished e result).1]
    rfl

theorem not_restarts_of_isAside (e : Engine σ) {event : Event} (h : event.isAside = true) :
    e.restarts event = false ∧ e.counts event = false := by
  obtain ⟨he, hs, ht⟩ := Event.of_isAside h
  refine ⟨restarts_eq_false (e.beginsRefresh_of_isAside h) he hs, ?_⟩
  rw [counts, ht]
  rfl

theorem CountdownStep.of_isAside {e : Engine σ} {event : Event} {c : Countdown}
    (h : event.isAside = true) (hc : c = e.countdown) : CountdownStep e event c :=
  .held (e.not_restarts_of_isAside h).1 (e.not_restarts_of_isAside h).2 hc

theorem refreshInterval_ne_zero {e e' : Engine σ} {changes : Settings} {log : List LogEvent}
    (h : e.setAll changes = .ok (e', log)) : changes.refreshInterval ≠ some 0 := by
  intro hz
  rw [setAll, if_pos hz] at h
  cases h

/-- New settings begin the interval anew exactly if they have one. -/
theorem setAll_countdown {e e' : Engine σ} {changes : Settings} {log : List LogEvent}
    (h : e.setAll changes = .ok (e', log)) :
    e'.countdown = changes.refreshInterval.elim e.countdown .start := by
  rw [setAll, if_neg (refreshInterval_ne_zero h)] at h
  cases h
  cases changes.view <;> cases changes.sort <;> cases changes.refreshInterval <;> rfl

theorem settings_countdown (e : Engine σ) (ticket : Nat) (changes : Settings) :
    CountdownStep e (.command ticket (.settings changes))
      (e.settings ticket changes).1.countdown := by
  rw [settings]
  cases hs : e.setAll changes with
  | error fault =>
    -- Settings are refused for an interval of no seconds, which sets none.
    rw [setAll] at hs
    by_cases hz : changes.refreshInterval = some 0
    · have hset : (Event.command ticket (.settings changes)).setsInterval = false := by
        rw [Event.setsInterval, hz]
        rfl
      exact .held (restarts_eq_false (e.beginsRefresh_settings ticket changes) rfl hset) rfl rfl
    · rw [if_neg hz] at hs
      cases hs
  | ok result =>
    have hc := setAll_countdown hs
    cases hi : changes.refreshInterval with
    | none =>
      rw [hi] at hc
      exact .of_isAside (by rw [Event.isAside, hi]; rfl) hc
    | some n =>
      have hn : n ≠ 0 := fun h0 => refreshInterval_ne_zero hs (hi.trans (congrArg some h0))
      have hset : (Event.command ticket (.settings changes)).setsInterval = true := by
        rw [Event.setsInterval, hi]
        simpa using hn
      rw [hi] at hc
      refine .restarted ?_ ?_ fun h => absurd (hset.symm.trans h) (by decide)
      · rw [restarts, hset, Bool.or_true]
      · rw [hc]
        exact Countdown.remaining_start n

theorem command_countdown (e : Engine σ) (ticket : Nat) (c : Command) :
    CountdownStep e (.command ticket c) (e.command ticket c).1.countdown := by
  cases c with
  | scan =>
    refine .of_isAside rfl ?_
    rw [command]
    rcases startScan_cases e with ⟨-, fault, h⟩ | ⟨-, -, h⟩ | ⟨seed, -, -, h⟩ <;> rw [h]
  | refresh =>
    have hb : e.beginsRefresh (.command ticket .refresh) =
        (launches (e.startRefresh true).2.1).any Job.isRefresh := by
      rw [beginsRefresh_eq]
      simp [handle, command]
    exact .of_startRefresh hb rfl rfl rfl
  | add address =>
    refine .of_isAside rfl ?_
    rw [command]
    rcases add_cases e ticket address with ⟨fault, h⟩ | ⟨-, h⟩ <;> rw [h]
  | remove address =>
    refine .of_isAside rfl ?_
    rw [command, remove]
    cases e.registry.remove (Text.trim address) <;> rfl
  | settings changes => exact settings_countdown e ticket changes

theorem finish_countdown (e : Engine σ) (result : JobResult) :
    CountdownStep e (.finished result) (e.finish result).1.countdown := by
  cases result with
  | discovered result =>
    refine .of_isAside rfl ?_
    cases result <;> rfl
  | refreshed report =>
    refine .restarted ?_ rfl fun _ => rfl
    rw [restarts, Event.endsRefresh, Bool.or_true, Bool.true_or]
  | probed result ticket =>
    refine .of_isAside rfl ?_
    cases result with
    | error fault => rfl
    | ok d =>
      rw [finish, probed]
      cases { e with inFlight := e.inFlight - 1 }.registry.insert d <;> rfl

/-- What an event does to the countdown. -/
theorem step_countdown (e : Engine σ) (event : Event) :
    CountdownStep e event (e.step event).1.countdown := by
  rw [step_fst]
  cases event with
  | start => exact start_countdown e
  | tick => exact tick_countdown e
  | command ticket c => exact command_countdown e ticket c
  | finished result => exact finish_countdown e result

/-- A countdown that has not come to its end does not do so by any event. -/
theorem CountdownStep.remaining_pos {e : Engine σ} {event : Event} {c : Countdown}
    (h : CountdownStep e event c) (he : 1 ≤ e.countdown.remaining.toNat) :
    1 ≤ c.remaining.toNat := by
  cases h with
  | restarted _ hc _ =>
    rw [hc]
    exact c.one_le_interval
  | counted _ _ hr hc =>
    rw [hc, Countdown.remaining_lower]
    omega
  | held _ _ hc =>
    rw [hc]
    exact he

/-- An engine that is made waits for a full interval. -/
theorem remaining_make (config : Config) (store : σ) :
    (make config store).1.countdown.remaining = (make config store).1.countdown.interval := by
  have hfull : ∀ stored : Option UInt32,
      (stored.elim Countdown.default Countdown.start).remaining =
        (stored.elim Countdown.default Countdown.start).interval := by
    intro stored
    cases stored with
    | none => exact Countdown.remaining_start 30
    | some n => exact Countdown.remaining_start n
  exact hfull _

end Engine

end MinerFleet
