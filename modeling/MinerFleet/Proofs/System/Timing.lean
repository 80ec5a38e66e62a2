/-
The countdown comes to its end exactly on time.

* `System.restarts` — turns with which an interval begins anew: a refresh begins or has ended, or
  the interval is set;
* `System.counts` — seconds that count: no pass is under way, and there are miners;
* `System.elapsed` — how many seconds have counted since the interval began anew.

In every run the seconds that have counted and those that remain make up the interval
(`Run.elapsed_add_remaining`), and a second that counts begins a refresh exactly if it is the last
one that remains. `refreshes_on_time` is drawn from both.
-/
import Mathlib.Data.List.DropRight
import MinerFleet.Proofs.System.Overlap
import MinerFleet.Proofs.System.Readers

namespace MinerFleet.System

variable {σ : Type} [Store σ] {W : Network → Prop} {config : Config} {store : σ}

/-! ### Turns -/

/-- A turn launches a refresh. -/
def beginsRefresh (s : System σ) (t : Turn) : Bool :=
  (s.event? t).any s.engine.beginsRefresh

/-- The interval begins anew with a turn. -/
def restarts (s : System σ) (t : Turn) : Bool :=
  (s.event? t).any s.engine.restarts

omit [Store σ] in
/-- A turn is a second that counts. -/
def counts (s : System σ) (t : Turn) : Bool :=
  (s.event? t).any s.engine.counts

/-- What a turn does to the countdown. -/
theorem turn_countdown (s : System σ) (t : Turn) :
    (s.restarts t = true ∧
      (s.turn t).engine.countdown.remaining = (s.turn t).engine.countdown.interval) ∨
    (s.restarts t = false ∧ s.counts t = true ∧ 1 < s.engine.countdown.remaining.toNat ∧
      (s.turn t).engine.countdown = s.engine.countdown.lower) ∨
    (s.restarts t = false ∧ s.counts t = false ∧
      (s.turn t).engine.countdown = s.engine.countdown) := by
  rcases turn_cases s t with ⟨event, he, hs⟩ | ⟨he, hs⟩
  · rw [restarts, counts, he, hs, happen_engine, before_engine, Option.any_some, Option.any_some]
    cases Engine.step_countdown s.engine event with
    | restarted h hc _ => exact .inl ⟨h, hc⟩
    | counted h hcounts hr hc => exact .inr (.inl ⟨h, hcounts, hr, hc⟩)
    | held h hcounts hc => exact .inr (.inr ⟨h, hcounts, hc⟩)
  · rw [restarts, counts, he, hs.engine]
    exact .inr (.inr ⟨rfl, rfl, rfl⟩)

/-- A second begins a refresh exactly if it counts and no other is left. -/
theorem beginsRefresh_tick {s : System σ} :
    s.beginsRefresh .tick = true ↔
      s.counts .tick = true ∧ s.engine.countdown.remaining.toNat ≤ 1 := by
  rw [beginsRefresh, counts, event?]
  cases s.running with
  | false => simp
  | true => exact Engine.beginsRefresh_tick

/-- A turn that is no second that counts, and neither begins the interval anew by what it is. -/
theorem not_restarts_of_aside {s : System σ} {t : Turn}
    (h : (s.event? t).all Event.isAside = true ∨ t = .tick ∧ s.counts .tick = false) :
    s.restarts t = false ∧ s.counts t = false := by
  rcases h with h | ⟨rfl, h⟩
  · rw [restarts, counts]
    cases he : s.event? t with
    | none => exact ⟨rfl, rfl⟩
    | some event =>
      rw [he] at h
      exact s.engine.not_restarts_of_isAside h
  · refine ⟨?_, h⟩
    rw [counts] at h
    rw [restarts]
    cases he : s.event? .tick with
    | none => rfl
    | some event =>
      rw [he] at h
      cases (event?_eq_some.mp he).2
      exact Engine.restarts_eq_false (Engine.not_beginsRefresh_of_not_counts h) rfl rfl

/-! ### Runs -/

/-- How many seconds have counted since the interval began anew, of the turns that come to a
system. -/
def elapsed (s : System σ) (ts : List Turn) : Nat :=
  ((s.moments ts).rtakeWhile fun m => !m.1.restarts m.2).countP fun m => m.1.counts m.2

/-- One more turn counts, or it does not, or the count begins anew. -/
theorem Run.elapsed_turn {s s' : System σ} {ts : List Turn} (h : Run W s ts s') (t : Turn) :
    s.elapsed (ts ++ [t]) =
      if s'.restarts t then 0 else s.elapsed ts + (s'.counts t).toNat := by
  rw [elapsed, h.moments_turn t]
  cases hr : s'.restarts t with
  | true =>
    rw [List.rtakeWhile_concat_neg _ _ _ (by simp [hr])]
    rfl
  | false =>
    rw [List.rtakeWhile_concat_pos _ _ _ (by simp [hr]), List.countP_append, ← elapsed]
    cases hc : s'.counts t <;> simp [hc]

/-- The engine starts with a full interval. -/
theorem remaining_started (config : Config) (store : σ) :
    (started config store).engine.countdown.remaining =
      (started config store).engine.countdown.interval := by
  rw [started, System.start, happen_engine]
  cases Engine.step_countdown (System.make config store).engine .start with
  | restarted _ hc _ => exact hc
  | counted _ hs _ _ => cases hs
  | held _ _ hc =>
    rw [hc]
    exact Engine.remaining_make config store

/-- The seconds that have counted and those that remain make up the interval. -/
theorem Run.elapsed_add_remaining {ts : List Turn} {s : System σ}
    (h : Run W (started config store) ts s) :
    (started config store).elapsed ts + s.engine.countdown.remaining.toNat =
      s.engine.countdown.interval.toNat := by
  induction h with
  | refl =>
    rw [remaining_started]
    exact Nat.zero_add _
  | @turn ts s t h _ ih =>
    rw [h.elapsed_turn t]
    rcases s.turn_countdown t with ⟨hr, hc⟩ | ⟨hr, hcounts, hlt, hc⟩ | ⟨hr, hcounts, hc⟩
    · rw [hr, if_pos rfl, hc, Nat.zero_add]
    · rw [hr, hcounts, hc, Countdown.remaining_lower, Countdown.interval_lower, ← ih]
      simp only [Bool.false_eq_true, if_false, Bool.toNat_true]
      omega
    · rw [hr, hcounts, hc, ← ih]
      rfl

/-- A second at least remains in every run, in whatever is published. -/
theorem PublishedIn.countdown_pos {p : Snapshot} (h : PublishedIn W config store p) :
    1 ≤ p.countdown ∧ p.countdown ≤ p.refreshInterval := by
  obtain ⟨e, he, rfl⟩ := h.of_keeps (P := fun e => 1 ≤ e.countdown.remaining.toNat)
    (by rw [Engine.remaining_make]; exact Countdown.one_le_interval _)
    fun e event => (e.step_countdown event).remaining_pos
  exact ⟨UInt32.le_iff_toNat_le.mpr he, e.countdown.remaining_le⟩

/-- The countdown comes to its end exactly on time, whatever the interval is, and however seconds,
requests and the ends of jobs follow each other.

* All that is published shows a countdown of at least one second and at most the interval.
* A second begins a refresh exactly if it counts, and as many seconds have counted with it as the
  interval has, since the engine started, a refresh began or ended, or the interval was set.
* The countdown is full after each of these; every other second that counts is one less, and
  nothing else changes it. -/
theorem refreshes_on_time (W : Network → Prop) (config : Config) (store : σ) :
    (∀ p, PublishedIn W config store p → 1 ≤ p.countdown ∧ p.countdown ≤ p.refreshInterval) ∧
    ∀ ts s, Run W (started config store) ts s →
      (s.beginsRefresh .tick = true ↔ s.counts .tick = true ∧
        (started config store).elapsed ts + 1 = s.published.refreshInterval.toNat) ∧
      ∀ t,
        (s.restarts t = true →
          (s.turn t).published.countdown = (s.turn t).published.refreshInterval) ∧
        (s.restarts t = false →
          (s.turn t).published.countdown.toNat + (s.counts t).toNat = s.published.countdown.toNat ∧
          (s.turn t).published.refreshInterval = s.published.refreshInterval) ∧
        ((s.event? t).all Event.isAside = true ∨ t = .tick ∧ s.counts .tick = false →
          s.restarts t = false ∧ s.counts t = false) := by
  refine ⟨fun p hp => hp.countdown_pos, fun ts s h => ⟨?_, fun t => ⟨fun hr => ?_, fun hr => ?_,
    not_restarts_of_aside⟩⟩⟩
  · have hsum := h.elapsed_add_remaining
    have hpos := (UInt32.le_iff_toNat_le.mp h.publishedIn.countdown_pos.1)
    rw [h.tracked.published] at hpos ⊢
    have hpos : 1 ≤ s.engine.countdown.remaining.toNat := hpos
    rw [beginsRefresh_tick]
    refine and_congr_right fun _ => ?_
    show _ ↔ _ = s.engine.countdown.interval.toNat
    omega
  · rw [h.tracked.published_turn t]
    rcases s.turn_countdown t with ⟨-, hc⟩ | ⟨hr', -⟩ | ⟨hr', -⟩
    · exact hc
    · exact absurd (hr.symm.trans hr') (by decide)
    · exact absurd (hr.symm.trans hr') (by decide)
  · rw [h.tracked.published_turn t, h.tracked.published]
    rcases s.turn_countdown t with ⟨hr', -⟩ | ⟨-, hcounts, hlt, hc⟩ | ⟨-, hcounts, hc⟩
    · exact absurd (hr'.symm.trans hr) (by decide)
    · rw [hcounts]
      refine ⟨?_, congrArg Countdown.interval hc |>.trans (Countdown.interval_lower _)⟩
      have hlower := s.engine.countdown.remaining_lower
      rw [← hc] at hlower
      show (s.turn t).engine.countdown.remaining.toNat + 1 = s.engine.countdown.remaining.toNat
      omega
    · rw [hcounts]
      exact ⟨congrArg (·.remaining.toNat) hc, congrArg Countdown.interval hc⟩

/-- With an interval of two seconds, the second second after a refresh has ended begins another. -/
theorem refreshes_after_two_seconds :
    let set := Turn.command (.settings { refreshInterval := some 2 })
    let ended := Turn.finish 0 (.refreshed twoFound)
    let s := (((started default twoMiners).turn set).turn ended).turn .tick
    Run (· = lan) (started default twoMiners) [set, ended, .tick] s ∧
      s.published.countdown = 1 ∧ s.beginsRefresh .tick = true := by
  intro set ended s
  have hset : Run (· = lan) (started default twoMiners) ([] ++ [set]) _ := .turn .refl trivial
  have hended : Run (· = lan) (started default twoMiners) ([set] ++ [ended]) _ :=
    .turn hset (refreshed_of_requested (by decide +kernel))
  have h : Run (· = lan) (started default twoMiners) ([set, ended] ++ [.tick]) s :=
    .turn hended trivial
  obtain ⟨hbegins, -⟩ := (refreshes_on_time _ default twoMiners).2 _ s h
  exact ⟨h, by decide +kernel, hbegins.mpr ⟨by decide +kernel, by decide +kernel⟩⟩

end MinerFleet.System
