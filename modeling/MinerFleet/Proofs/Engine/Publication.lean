/-
What an event publishes, and what it says to whoever asked.

* `publications` — the snapshots that effects publish;
* `Engine.Announces` — what has changed is published before it is replied; without that a reply goes
  out only where nothing has changed;
* `Command.Shown` — what an answer says is so in the snapshot that is published with it.

`handle_announces` and `step_shown` say so of every event, in whatever state the engine is: whatever
an event publishes is what the engine looks like after it (`eq_snapshot_of_mem_publications`).
-/
import MinerFleet.Proofs.Engine.Countdown
import MinerFleet.Proofs.Engine.Refusal

namespace MinerFleet

/-! ### Publications -/

def Effect.snapshot? : Effect → Option Snapshot
  | .publish p => some p
  | _ => none

/-- The snapshots that effects publish. -/
def publications (effects : List Effect) : List Snapshot :=
  effects.filterMap Effect.snapshot?

@[simp] theorem publications_append (fx gx : List Effect) :
    publications (fx ++ gx) = publications fx ++ publications gx :=
  List.filterMap_append

@[simp] theorem publications_telling (log : List LogEvent) :
    publications (Engine.telling log) = [] := by
  rw [publications, Engine.telling, List.filterMap_map, List.filterMap_eq_nil_iff]
  exact fun _ _ => rfl

namespace Engine

variable {σ : Type}

theorem publications_startScan (e : Engine σ) : publications e.startScan.2.1 = [] := by
  rcases startScan_cases e with ⟨-, fault, h⟩ | ⟨-, -, h⟩ | ⟨seed, -, -, h⟩ <;> rw [h] <;> rfl

theorem publications_startRefresh (e : Engine σ) (fetchAsic : Bool) :
    publications (e.startRefresh fetchAsic).2.1 = [] := by
  rcases startRefresh_cases e fetchAsic with ⟨-, h⟩ | ⟨-, -, h⟩ <;> rw [h] <;> rfl

/-- The effects of an event that makes `e'` of an engine `e`. A reply comes last, right after what
has changed has been published; or nothing has changed. -/
inductive Announces (e e' : Engine σ) : List Effect → Prop
  | silent {effects : List Effect} (ha : answers effects = []) (hp : publications effects = []) :
      Announces e e' effects
  | replied {effects : List Effect} {ticket : Nat} {answer : Except Fault Answer}
      (ha : answers effects = []) (hp : publications effects = []) :
      Announces e e' (effects ++ e'.replying ticket answer)
  | refused {ticket : Nat} {fault : Fault} (h : e' = e) :
      Announces e e' [.reply ticket (.error fault)]

theorem Announces.of_replying {e e' : Engine σ} {ticket : Nat} {answer : Except Fault Answer} :
    Announces e e' (e'.replying ticket answer) :=
  have ha : answers [] = [] := rfl
  .replied ha rfl

theorem start_announces (e : Engine σ) : Announces e e.start.1 e.start.2 := by
  refine .silent (start_cases e).2.1 ?_
  rw [start]
  by_cases h : e.hadData
  · rw [if_pos h]
    exact publications_startRefresh e true
  · rw [if_neg h]
    have hp := publications_startScan e
    rcases startScan_cases e with ⟨-, fault, h⟩ | ⟨-, -, h⟩ | ⟨seed, -, -, h⟩ <;>
      rw [h] at hp ⊢ <;> exact hp

theorem tick_announces (e : Engine σ) : Announces e e.tick.1 e.tick.2 := by
  refine .silent (tick_cases e).2.1 ?_
  rw [tick]
  by_cases h : (e.countdown.tick e.busy !e.registry.isEmpty).2
  · simp only [h, if_true]
    exact publications_startRefresh _ false
  · simp only [h]
    rfl

variable [Store σ]

theorem command_announces (e : Engine σ) (ticket : Nat) (c : Command) :
    Announces e (e.command ticket c).1 (e.command ticket c).2 := by
  cases c with
  | scan => exact .replied (answers_startScan e) (publications_startScan e)
  | refresh => exact .replied (answers_startRefresh e true) (publications_startRefresh e true)
  | add address =>
    -- A request that is refused at once is answered with nothing published.
    rw [command]
    rcases add_cases e ticket address with ⟨fault, h⟩ | ⟨-, h⟩
    · rw [h]
      exact .refused rfl
    · rw [h]
      exact .silent rfl rfl
  | remove address =>
    rw [command, remove]
    cases e.registry.remove (Text.trim address) with
    | none => exact .of_replying
    | some taken => exact .replied (answers_telling _) (publications_telling _)
  | settings changes =>
    rw [command, settings]
    cases e.setAll changes with
    | error fault => exact .of_replying
    | ok result => exact .replied (answers_telling _) (publications_telling _)

theorem finish_announces (e : Engine σ) (result : JobResult) :
    Announces e (e.finish result).1 (e.finish result).2 := by
  cases result with
  | discovered result =>
    cases result with
    | error fault => exact .silent (answers_telling _) (publications_telling _)
    | ok report => exact .silent (answers_telling _) (publications_telling _)
  | refreshed report => exact .silent (answers_telling _) (publications_telling _)
  | probed result ticket =>
    cases result with
    | error fault => exact .replied (answers_telling _) (publications_telling _)
    | ok d =>
      rw [finish, probed]
      cases { e with inFlight := e.inFlight - 1 }.registry.insert d with
      | error fault => exact .replied (answers_telling _) (publications_telling _)
      | ok inserted => exact .replied (answers_telling _) (publications_telling _)

/-- What an event publishes and replies before the loop publishes once more. -/
theorem handle_announces (e : Engine σ) (event : Event) :
    Announces e (e.handle event).1 (e.handle event).2 := by
  cases event with
  | start => exact start_announces e
  | tick => exact tick_announces e
  | command ticket c => exact command_announces e ticket c
  | finished result => exact finish_announces e result

/-- All that an event publishes is what the engine looks like after it. -/
theorem eq_snapshot_of_mem_publications {e : Engine σ} {event : Event} {p : Snapshot}
    (h : p ∈ publications (e.step event).2) : p = (e.step event).1.snapshot := by
  rw [step_fst]
  rw [step, publications_append] at h
  rcases List.mem_append.mp h with h | h
  · have ha := handle_announces e event
    generalize (e.handle event).2 = effects at h ha
    cases ha with
    | silent _ hp =>
      rw [hp] at h
      exact absurd h List.not_mem_nil
    | replied _ hp =>
      rw [publications_append, hp] at h
      exact List.mem_singleton.mp h
    | refused _ => exact absurd h List.not_mem_nil
  · exact List.mem_singleton.mp h

theorem snapshot_mem_publications (e : Engine σ) (event : Event) :
    (e.step event).1.snapshot ∈ publications (e.step event).2 := by
  rw [step, publications_append]
  exact List.mem_append_right _ (List.mem_singleton_self _)

end Engine

/-! ### Answers -/

/-- What an answer to a request says is so in the snapshot that is published with it, given the one
that was published before.

* A fault has changed nothing.
* A pass that was started is under way; where none was started, nothing has changed.
* A miner that was added is there, and one that was taken out is not; all others are as before.
* New settings are in force, those that were left out are as before, and so are the miners. -/
def Command.Shown (staleAfter : UInt32) (before after : Snapshot) :
    Command → Except Fault Answer → Prop
  | _, .error _ => after = before
  | .scan, .ok (.started yes) => after = if yes then { before with scanning := true } else before
  | .refresh, .ok (.started yes) =>
    after =
      if yes then { before with refreshing := true, countdown := before.refreshInterval }
      else before
  | .add _, .ok (.device d) =>
    after.members.Perm (Member.ofDevice staleAfter d :: before.members) ∧
      after = { before with members := after.members, totals := after.totals }
  | .remove name, .ok (.device d) =>
    d.isKnownAs (Text.trim name) = true ∧
      before.members.Perm (Member.ofDevice staleAfter d :: after.members) ∧
      after = { before with members := after.members, totals := after.totals }
  | .settings changes, .ok .done =>
    after.members.Perm before.members ∧
      after =
        { before with
          members := after.members
          totals := after.totals
          sort := (changes.sort.map before.sort.select).getD before.sort
          refreshInterval := changes.refreshInterval.getD before.refreshInterval
          countdown := changes.refreshInterval.getD before.countdown
          view := changes.view.getD before.view }
  | _, _ => False

/-- A request that is refused shows nothing. -/
theorem Command.shown_error {staleAfter : UInt32} {before after : Snapshot} (c : Command)
    (fault : Fault) (h : after = before) : c.Shown staleAfter before after (.error fault) := by
  cases c <;> exact h

/-- An event answers a command: it is that command, or the end of the question to a miner that the
command wants to add. -/
def Event.Answers (c : Command) : Event → Prop
  | .command _ c' => c' = c
  | .finished (.probed _ _) => ∃ name, c = .add name
  | _ => False

namespace Registry

variable {σ : Type} [Store σ] {r r' : Registry σ} {log : List LogEvent}

theorem sort_remove {name : String} {d : Device} (h : r.remove name = some (d, r', log)) :
    r'.sort = r.sort := by
  rw [remove, Option.map_eq_some_iff] at h
  obtain ⟨c, -, he⟩ := h
  cases he
  rfl

theorem insert_eq_ok {d : Device} (h : r.insert d = .ok (r', log)) :
    r'.devices.Perm (d :: r.devices) ∧ r'.sort = r.sort := by
  rcases r.insert_cases d with ⟨-, he⟩ | ⟨-, r'', log', he, hp⟩
  · rw [he] at h
    cases h
  · rw [he] at h
    cases h
    refine ⟨hp, ?_⟩
    rw [insert] at he
    by_cases hd : r.dials d.connectionAddress
    · rw [if_pos hd] at he
      cases he
    · rw [if_neg hd] at he
      cases he
      rfl

end Registry

namespace Engine

variable {σ : Type}

/-- Of what an engine publishes, the miners and their sums depend on its registry, and the order
in which they are. -/
theorem snapshot_withRegistry (e : Engine σ) {registry : Registry σ}
    (hs : registry.sort = e.registry.sort) :
    { e with registry }.snapshot =
      { e.snapshot with
        members := { e with registry }.snapshot.members
        totals := { e with registry }.snapshot.totals } := by
  rw [snapshot, snapshot, hs]

theorem scan_shown (e : Engine σ) {yes : Bool} (h : e.startScan.2.2 = .ok yes) :
    Command.scan.Shown e.config.staleAfter e.snapshot e.startScan.1.snapshot
      (.ok (.started yes)) := by
  rcases startScan_cases e with ⟨-, fault, hs⟩ | ⟨-, -, hs⟩ | ⟨seed, -, -, hs⟩
  · rw [hs] at h
    cases h
  · rw [hs] at h ⊢
    cases h
    rfl
  · rw [hs] at h ⊢
    cases h
    rfl

theorem refresh_shown (e : Engine σ) :
    Command.refresh.Shown e.config.staleAfter e.snapshot (e.startRefresh true).1.snapshot
      (.ok (.started (e.startRefresh true).2.2)) := by
  rcases startRefresh_cases e true with ⟨-, h⟩ | ⟨-, -, h⟩
  · rw [h]
    rfl
  · rw [h]
    rfl

variable [Store σ]

theorem remove_shown (e : Engine σ) {ticket ticket' : Nat} {name : String} {answer : Answer}
    (h : (ticket', .ok answer) ∈ answers (e.remove ticket name).2) :
    (Command.remove name).Shown e.config.staleAfter e.snapshot (e.remove ticket name).1.snapshot
      (.ok answer) := by
  rw [remove] at h ⊢
  cases hr : e.registry.remove (Text.trim name) with
  | none =>
    rw [hr] at h
    cases List.mem_singleton.mp h
  | some taken =>
    obtain ⟨d, registry, log⟩ := taken
    simp only [hr, answers_append, answers_telling, answers_replying, List.nil_append,
      List.mem_singleton, Prod.mk.injEq, Except.ok.injEq] at h ⊢
    obtain ⟨-, rfl⟩ := h
    obtain ⟨-, hk, hp⟩ := Registry.perm_remove hr
    exact ⟨hk, hp.map _, e.snapshot_withRegistry (Registry.sort_remove hr)⟩

/-- A miner that was asked, where its request was one to add it. -/
theorem probed_shown (e : Engine σ) {ticket ticket' : Nat} {result : Except Fault Device}
    {name : String} {answer : Answer}
    (h : (ticket', .ok answer) ∈ answers (e.probed ticket result).2) :
    (Command.add name).Shown e.config.staleAfter e.snapshot (e.probed ticket result).1.snapshot
      (.ok answer) := by
  cases result with
  | error fault => cases List.mem_singleton.mp h
  | ok d =>
    rw [probed] at h ⊢
    cases hi : e.registry.insert d with
    | error fault =>
      rw [hi] at h
      cases List.mem_singleton.mp h
    | ok inserted =>
      obtain ⟨registry, log⟩ := inserted
      simp only [hi, answers_append, answers_telling, answers_replying, List.nil_append,
        List.mem_singleton, Prod.mk.injEq, Except.ok.injEq] at h ⊢
      obtain ⟨-, rfl⟩ := h
      obtain ⟨hp, hs⟩ := Registry.insert_eq_ok hi
      exact ⟨hp.map _, e.snapshot_withRegistry hs⟩

/-- The settings that are named are new, and the others are the old ones. -/
theorem setAll_others {e e' : Engine σ} {changes : Settings} {log : List LogEvent}
    (h : e.setAll changes = .ok (e', log)) :
    e'.config = e.config ∧ e'.lastPass = e.lastPass ∧
      e'.registry.sort = (changes.sort.map e.registry.sort.select).getD e.registry.sort ∧
      e'.view = changes.view.getD e.view := by
  rw [setAll, if_neg (refreshInterval_ne_zero h)] at h
  cases h
  cases changes.view <;> cases changes.sort <;> cases changes.refreshInterval <;>
    exact ⟨rfl, rfl, rfl, rfl⟩

theorem setAll_shown {e e' : Engine σ} {changes : Settings} {log : List LogEvent}
    (h : e.setAll changes = .ok (e', log)) :
    (Command.settings changes).Shown e.config.staleAfter e.snapshot e'.snapshot (.ok .done) := by
  obtain ⟨hconfig, hlast, hsort, hview⟩ := setAll_others h
  obtain ⟨hscanning, hrefreshing, -⟩ := underWay_eq (setAll_tuned h).underWay
  have hcountdown := setAll_countdown h
  constructor
  · rw [snapshot, hconfig]
    exact (setAll_tuned h).devices.map _
  · cases hi : changes.refreshInterval with
    | none =>
      rw [hi] at hcountdown
      simp only [snapshot, hsort, hview, hlast, hscanning, hrefreshing, hcountdown, Option.elim,
        Option.getD_none]
    | some n =>
      have hn : n ≠ 0 := fun h0 => refreshInterval_ne_zero h (hi.trans (congrArg some h0))
      rw [hi] at hcountdown
      simp only [snapshot, hsort, hview, hlast, hscanning, hrefreshing, hcountdown, Option.elim,
        Option.getD_some, Countdown.remaining_start, Countdown.interval_start hn]

theorem settings_shown (e : Engine σ) {ticket ticket' : Nat} {changes : Settings}
    {answer : Answer} (h : (ticket', .ok answer) ∈ answers (e.settings ticket changes).2) :
    (Command.settings changes).Shown e.config.staleAfter e.snapshot
      (e.settings ticket changes).1.snapshot (.ok answer) := by
  rw [settings] at h ⊢
  cases hs : e.setAll changes with
  | error fault =>
    rw [hs] at h
    cases List.mem_singleton.mp h
  | ok result =>
    obtain ⟨e', log⟩ := result
    simp only [hs, answers_append, answers_telling, answers_replying, List.nil_append,
      List.mem_singleton, Prod.mk.injEq, Except.ok.injEq] at h ⊢
    obtain ⟨-, rfl⟩ := h
    exact setAll_shown hs

/-- An event answers the request whose ticket it has. -/
theorem ticket?_of_mem_answers {e : Engine σ} {event : Event} {ticket : Nat}
    {answer : Except Fault Answer} (h : (ticket, answer) ∈ answers (e.step event).2) :
    event.ticket? = some ticket := by
  rcases (step_fleet e event).replies_cases with ha | ⟨ticket', answer', ht, ha⟩
  · rw [ha] at h
    exact absurd h List.not_mem_nil
  · rw [ha] at h
    cases List.mem_singleton.mp h
    exact ht

/-- What an event answers is so in what it publishes. -/
theorem step_shown (e : Engine σ) {event : Event} {c : Command} {ticket : Nat}
    {answer : Except Fault Answer} (hc : event.Answers c)
    (h : (ticket, answer) ∈ answers (e.step event).2) :
    c.Shown e.config.staleAfter e.snapshot (e.step event).1.snapshot answer := by
  cases answer with
  | error fault =>
    -- Whoever refuses stays as he is.
    refine c.shown_error fault ?_
    rw [(step_of_refused (refused_of_answer h).2).2.1]
    rfl
  | ok answer =>
    rw [answers_step] at h
    rw [step_fst]
    cases event with
    | start => exact hc.elim
    | tick => exact hc.elim
    | command ticket' c' =>
      obtain rfl : c' = c := hc
      cases c' with
      | scan =>
        simp only [handle, command, answers_append, answers_startScan, answers_replying,
          List.nil_append, List.mem_singleton, Prod.mk.injEq] at h
        cases hs : e.startScan.2.2 with
        | error fault =>
          rw [hs] at h
          cases h.2
        | ok yes =>
          rw [hs] at h
          cases h.2
          exact scan_shown e hs
      | refresh =>
        simp only [handle, command, answers_append, answers_startRefresh, answers_replying,
          List.nil_append, List.mem_singleton, Prod.mk.injEq] at h
        cases h.2
        exact refresh_shown e
      | add address =>
        rw [handle, command] at h
        rcases add_cases e ticket' address with ⟨fault, ha⟩ | ⟨-, ha⟩
        · rw [ha] at h
          cases List.mem_singleton.mp h
        · rw [ha] at h
          exact absurd h List.not_mem_nil
      | remove address => exact remove_shown e h
      | settings changes => exact settings_shown e h
    | finished result =>
      cases result with
      | discovered result => exact hc.elim
      | refreshed report => exact hc.elim
      | probed result ticket' =>
        obtain ⟨name, rfl⟩ := hc
        exact probed_shown { e with inFlight := e.inFlight - 1 } h

end Engine

end MinerFleet
