/-
What a failure leaves behind.

* `Event.ended` — how many jobs an event ends;
* `Engine.Refused` — why an event is answered with a fault, and which fault this is.

An event is answered with a fault only for one of these reasons, and then nothing but the number of
jobs under way is another one after it. A discovery that fails has nobody to answer; of an engine
it changes the flag and the summary of the last pass besides.
-/
import MinerFleet.Proofs.Engine.Effects

namespace MinerFleet

/-- How many jobs an event ends. -/
def Event.ended : Event → Nat
  | .finished _ => 1
  | _ => 0

namespace Engine

variable {σ : Type}

/-- Why an event is answered with a fault.

A probe that fails has its own fault: nothing has the name, nobody answers, or what answers lets
nobody in or is no miner. -/
inductive Refused (e : Engine σ) : Event → Fault → Prop
  | noSeed {ticket : Nat} (h : e.config.seed = none) :
      Refused e (.command ticket .scan) (.config "no seed address is configured for discovery")
  | malformed {ticket : Nat} {address : String} (h : isPeer (Text.trim address) = false) :
      Refused e (.command ticket (.add address)) (.invalidAddress (Text.trim address))
  | known {ticket : Nat} {address : String} (hp : isPeer (Text.trim address) = true)
      (h : (e.registry.find? (Text.trim address)).isSome = true) :
      Refused e (.command ticket (.add address)) (.duplicate (Text.trim address))
  | unknown {ticket : Nat} {address : String} (h : e.registry.find? (Text.trim address) = none) :
      Refused e (.command ticket (.remove address)) (.unknownDevice address)
  | noInterval {ticket : Nat} {changes : Settings} (h : changes.refreshInterval = some 0) :
      Refused e (.command ticket (.settings changes))
        (.config "refresh interval must be at least 1 second")
  | notProbed {ticket : Nat} {fault : Fault} :
      Refused e (.finished (.probed (.error fault) ticket)) fault
  | addedMeanwhile {ticket : Nat} {d : Device}
      (h : d.connectionAddress ∈ dialed e.registry.devices) :
      Refused e (.finished (.probed (.ok d) ticket)) (.duplicate d.connectionAddress)

variable [Store σ]

/-- Where there is a reason to refuse, the request is refused, and the engine stays as it is. -/
theorem step_of_refused {e : Engine σ} {event : Event} {fault : Fault}
    (h : Refused e event fault) :
    (∀ ticket, event.ticket? = some ticket →
      answers (e.step event).2 = [(ticket, .error fault)]) ∧
    (e.step event).1 = { e with inFlight := e.inFlight - event.ended } ∧
    launches (e.step event).2 = [] := by
  rw [answers_step, launches_step, step_fst]
  cases h with
  | noSeed h =>
    rw [handle, command, startScan, h]
    exact ⟨fun _ ht => Option.some.inj ht ▸ rfl, rfl, rfl⟩
  | malformed h =>
    simp only [handle, command, add, h, Bool.not_false, if_true]
    exact ⟨fun _ ht => Option.some.inj ht ▸ rfl, rfl, rfl⟩
  | known hp h =>
    simp only [handle, command, add, hp, Bool.not_true, Bool.false_eq_true, if_false, h, if_true]
    exact ⟨fun _ ht => Option.some.inj ht ▸ rfl, rfl, rfl⟩
  | unknown h =>
    rw [handle, command, remove, Registry.remove, h]
    exact ⟨fun _ ht => Option.some.inj ht ▸ rfl, rfl, rfl⟩
  | noInterval h =>
    rw [handle, command, settings, setAll, if_pos h]
    exact ⟨fun _ ht => Option.some.inj ht ▸ rfl, rfl, rfl⟩
  | notProbed => exact ⟨fun _ ht => Option.some.inj ht ▸ rfl, rfl, rfl⟩
  | addedMeanwhile h =>
    simp only [handle, finish, probed, Registry.insert, Registry.dials_iff.mpr h, if_true]
    exact ⟨fun _ ht => Option.some.inj ht ▸ rfl, rfl, rfl⟩

/-- A fault has one of the reasons. -/
theorem refused_of_answer {e : Engine σ} {event : Event} {ticket : Nat} {fault : Fault}
    (h : (ticket, .error fault) ∈ answers (e.step event).2) :
    event.ticket? = some ticket ∧ Refused e event fault := by
  rw [answers_step] at h
  cases event with
  | start => exact absurd ((start_cases e).2.1 ▸ h) List.not_mem_nil
  | tick => exact absurd ((tick_cases e).2.1 ▸ h) List.not_mem_nil
  | command ticket' c =>
    cases c with
    | scan =>
      simp only [handle, command, answers_append, answers_startScan, answers_replying,
        List.nil_append, List.mem_singleton] at h
      obtain ⟨rfl, h⟩ := Prod.mk.inj h
      rw [startScan] at h
      cases hs : e.config.seed with
      | none =>
        rw [hs] at h
        cases h
        exact ⟨rfl, .noSeed hs⟩
      | some seed =>
        -- With a seed there is no fault: an engine that is busy says that nothing has begun.
        rw [hs] at h
        by_cases hb : e.busy
        · simp only [hb, if_true] at h
          cases h
        · simp only [hb] at h
          cases h
    | refresh =>
      simp only [handle, command, answers_append, answers_startRefresh, answers_replying,
        List.nil_append, List.mem_singleton] at h
      cases (Prod.mk.inj h).2
    | add address =>
      rw [handle, command, add] at h
      by_cases hp : isPeer (Text.trim address)
      · by_cases hf : (e.registry.find? (Text.trim address)).isSome
        · simp only [hp, Bool.not_true, Bool.false_eq_true, if_false, hf, if_true] at h
          cases List.mem_singleton.mp h
          exact ⟨rfl, .known hp hf⟩
        · simp only [hp, Bool.not_true, Bool.false_eq_true, if_false, hf] at h
          exact absurd h List.not_mem_nil
      · simp only [hp, Bool.not_false, if_true] at h
        cases List.mem_singleton.mp h
        exact ⟨rfl, .malformed (eq_false_of_ne_true hp)⟩
    | remove address =>
      rw [handle, command, remove] at h
      cases hr : e.registry.remove (Text.trim address) with
      | none =>
        rw [hr] at h
        cases List.mem_singleton.mp h
        exact ⟨rfl, .unknown (Option.map_eq_none_iff.mp hr)⟩
      | some taken =>
        simp only [hr, answers_append, answers_telling, answers_replying, List.nil_append,
          List.mem_singleton] at h
        cases (Prod.mk.inj h).2
    | settings changes =>
      -- The interval is looked at before any of the changes is made.
      rw [handle, command, settings] at h
      by_cases hz : changes.refreshInterval = some 0
      · simp only [setAll, if_pos hz] at h
        cases List.mem_singleton.mp h
        exact ⟨rfl, .noInterval hz⟩
      · simp only [setAll, if_neg hz, answers_append, answers_telling, answers_replying,
          List.nil_append, List.mem_singleton] at h
        cases (Prod.mk.inj h).2
  | finished result =>
    -- A pass has nobody to answer, whatever comes of it.
    cases result with
    | discovered result =>
      exact absurd ((discovered_cases { e with inFlight := e.inFlight - 1 } result).2.1 ▸ h)
        List.not_mem_nil
    | refreshed report =>
      exact absurd ((refreshed_cases { e with inFlight := e.inFlight - 1 } report).2.1 ▸ h)
        List.not_mem_nil
    | probed result ticket' =>
      cases result with
      | error fault' =>
        cases List.mem_singleton.mp h
        exact ⟨rfl, .notProbed⟩
      | ok d =>
        rcases e.registry.insert_cases d with ⟨hd, hi⟩ | ⟨-, registry, log, hi, -⟩
        · simp only [handle, finish, probed, hi, answers_append, answers_telling,
            answers_replying, List.nil_append, List.mem_singleton] at h
          cases h
          exact ⟨rfl, .addedMeanwhile hd⟩
        · simp only [handle, finish, probed, hi, answers_append, answers_telling,
            answers_replying, List.nil_append, List.mem_singleton] at h
          cases (Prod.mk.inj h).2

/-- A failure leaves an engine as it is, in whatever state it is and with all that it has stored:
it is there that a request is answered with a fault, for one of the reasons given, or that a
discovery fails. -/
theorem failures_leave_the_state_intact (e : Engine σ) (event : Event) :
    (∀ ticket fault, (ticket, .error fault) ∈ answers (e.step event).2 ↔
      event.ticket? = some ticket ∧ Refused e event fault) ∧
    (∀ fault, Refused e event fault →
      (e.step event).1 = { e with inFlight := e.inFlight - event.ended } ∧
      launches (e.step event).2 = []) ∧
    (∀ fault, event = .finished (.discovered (.error fault)) →
      (e.step event).1 =
        { e with
          inFlight := e.inFlight - 1
          scanning := false
          lastPass := some (.discoveryFailed fault.message) } ∧
      launches (e.step event).2 = []) := by
  refine ⟨fun ticket fault => ⟨refused_of_answer, ?_⟩, ?_, ?_⟩
  · rintro ⟨ht, h⟩
    rw [(step_of_refused h).1 ticket ht]
    exact List.mem_singleton.mpr rfl
  · exact fun fault h => (step_of_refused h).2
  · rintro fault rfl
    exact ⟨rfl, rfl⟩

/-- New settings with an interval of no seconds, over two miners: neither the order nor the view
that come with it are taken. -/
theorem refused_settings_of_two :
    let e := (Engine.make default twoMiners).1
    let changes : Settings :=
      { refreshInterval := some 0, sort := some .address, view := some .list }
    Refused e (.command 7 (.settings changes))
        (.config "refresh interval must be at least 1 second") ∧
      (e.step (.command 7 (.settings changes))).1 = e := by
  intro e changes
  have h : Refused e (.command 7 (.settings changes)) _ := .noInterval rfl
  exact ⟨h, ((failures_leave_the_state_intact e _).2.1 _ h).1⟩

end Engine

end MinerFleet
