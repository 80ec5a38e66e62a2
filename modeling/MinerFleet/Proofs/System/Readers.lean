/-
Whoever asks for something, and reads what is published when the answer comes, finds it there.

* `PublishedIn` — all that is published in any run, from the state before the engine starts on;
* `Snapshot.Accurate` — the sums of a snapshot, its order and what it says of each miner are those
  of the very records that it shows;
* `PublishedIn.of_keeps` — what every event keeps of an engine is so of all that is published.

`readers_see_their_own_writes` puts these together with what `step_shown` says of one event. A reply
that is sent without publishing anything is one where nothing has changed, so that what was
published before is still right (`happen_replies_published`).
-/
import MinerFleet.Proofs.Engine.Publication
import MinerFleet.Proofs.Engine.Storage
import MinerFleet.Proofs.System.Run

namespace MinerFleet

/-! ### Snapshots -/

/-- What a snapshot shows besides its records is drawn from them. -/
structure Snapshot.Accurate (staleAfter : UInt32) (p : Snapshot) : Prop where
  deviceCount : p.totals.deviceCount = p.members.length
  totals : p.totals.totals = MinerFleet.totals (p.members.map (·.device))
  sorted : p.sort.Sorted (p.members.map (·.device))
  notice : ∀ m ∈ p.members, m.notice = m.device.notice staleAfter
  severity : ∀ m ∈ p.members, m.severity = (m.device.notice staleAfter).map Notice.severity
  stale : ∀ m ∈ p.members, m.stale = m.device.isStale staleAfter

theorem Engine.snapshot_accurate {σ : Type} {e : Engine σ} (h : e.registry.Consistent) :
    e.snapshot.Accurate e.config.staleAfter := by
  have hdevices : e.snapshot.members.map (·.device) = e.registry.devices := by
    rw [snapshot, List.map_map]
    exact List.map_id _
  have hmember : ∀ m ∈ e.snapshot.members, m = Member.ofDevice e.config.staleAfter m.device := by
    intro m hm
    obtain ⟨d, -, rfl⟩ := List.mem_map.mp hm
    rfl
  constructor
  · exact (List.length_map _).symm
  · rw [hdevices]
    exact h.totals
  · rw [hdevices]
    exact h.sorted
  · exact fun m hm => congrArg Member.notice (hmember m hm)
  · exact fun m hm => congrArg Member.severity (hmember m hm)
  · exact fun m hm => congrArg Member.stale (hmember m hm)

namespace System

variable {σ : Type} [Store σ] {W : Network → Prop} {config : Config} {store : σ}

/-! ### What is published -/

/-- All that is published in the runs of a system: before the engine starts, by the start, and by
the turns after it. -/
inductive PublishedIn (W : Network → Prop) (config : Config) (store : σ) : Snapshot → Prop
  | made : PublishedIn W config store (System.make config store).published
  | started {p : Snapshot}
      (hp : p ∈ publications ((System.make config store).engine.step .start).2) :
      PublishedIn W config store p
  | turn {ts : List Turn} {s : System σ} {t : Turn} {event : Event} {p : Snapshot}
      (h : Run W (started config store) ts s) (ht : s.Possible W t)
      (he : s.event? t = some event) (hp : p ∈ publications (s.engine.step event).2) :
      PublishedIn W config store p

/-- What is published after a run has been published in it. -/
theorem Run.publishedIn {ts : List Turn} {s : System σ} (h : Run W (started config store) ts s) :
    PublishedIn W config store s.published := by
  induction h with
  | refl =>
    rw [started, System.start, happen_published, happen_engine]
    exact .started (Engine.snapshot_mem_publications _ _)
  | @turn ts s t h ht ih =>
    rcases turn_cases s t with ⟨event, he, hs⟩ | ⟨-, hs⟩
    · rw [hs, happen_published, happen_engine, before_engine]
      exact .turn h ht he (Engine.snapshot_mem_publications _ _)
    · rw [hs.published]
      exact ih

/-- All that is published is what some engine looks like, of which that is so which the start and
every event keep. -/
theorem PublishedIn.of_keeps {P : Engine σ → Prop} (hmake : P (Engine.make config store).1)
    (hstep : ∀ e event, P e → P (e.step event).1) {p : Snapshot}
    (h : PublishedIn W config store p) : ∃ e, P e ∧ p = e.snapshot := by
  cases h with
  | made => exact ⟨_, hmake, rfl⟩
  | started hp => exact ⟨_, hstep _ .start hmake, Engine.eq_snapshot_of_mem_publications hp⟩
  | turn h _ _ hp =>
    exact ⟨_, hstep _ _ (h.engine_keeps hmake hstep), Engine.eq_snapshot_of_mem_publications hp⟩

/-- The settings stay, and the miners are in order and summed up. -/
theorem step_consistent (e : Engine σ) (event : Event)
    (h : e.config = config ∧ e.registry.Consistent) :
    (e.step event).1.config = config ∧ (e.step event).1.registry.Consistent :=
  ⟨(e.step_writes event).config.trans h.1, (e.step_writes event).consistent h.2⟩

theorem Run.consistent {ts : List Turn} {s : System σ} (h : Run W (started config store) ts s) :
    s.engine.config = config ∧ s.engine.registry.Consistent :=
  h.engine_keeps (P := fun e => e.config = config ∧ e.registry.Consistent)
    ⟨rfl, Registry.open_consistent store⟩ step_consistent

theorem PublishedIn.consistent {p : Snapshot} (h : PublishedIn W config store p) :
    ∃ e : Engine σ, (e.config = config ∧ e.registry.Consistent) ∧ p = e.snapshot :=
  h.of_keeps ⟨rfl, Registry.open_consistent store⟩ step_consistent

/-! ### Replies -/

omit [Store σ] in
theorem before_published (s : System σ) (t : Turn) : (s.before t).published = s.published := by
  cases t <;> rfl

omit [Store σ] in
/-- Effects that answer nothing send no reply. -/
theorem foldl_apply_silent {effects : List Effect} (h : answers effects = []) (s : System σ) :
    (effects.foldl apply s).replies = s.replies := by
  obtain ⟨new, hnew, hsaid⟩ := foldl_apply_replies effects s
  rw [h] at hsaid
  rw [hnew, List.map_eq_nil_iff.mp hsaid, List.nil_append]

/-- Whoever is answered by an event finds published what the fleet looks like after it. -/
theorem happen_replies_published {s : System σ} (hp : s.published = s.engine.snapshot)
    {event : Event} {new : List Sent} (hnew : (s.happen event).replies = new ++ s.replies) :
    ∀ r ∈ new, r.published = (s.happen event).engine.snapshot := by
  rw [happen_engine, Engine.step_fst]
  rw [happen_eq, Engine.step, List.foldl_append] at hnew
  have ha := Engine.handle_announces s.engine event
  generalize (s.engine.handle event).1 = e' at ha hnew ⊢
  generalize (s.engine.handle event).2 = effects at ha hnew
  -- The last of all effects publishes, and sends no reply.
  change (effects.foldl apply { s with engine := e' }).replies = new ++ s.replies at hnew
  cases ha with
  | silent ha _ =>
    rw [foldl_apply_silent ha] at hnew
    rw [List.self_eq_append_left.mp hnew]
    exact List.forall_mem_nil _
  | @replied fx ticket answer ha _ =>
    rw [List.foldl_append] at hnew
    have hrest := foldl_apply_silent ha { s with engine := e' }
    generalize fx.foldl apply { s with engine := e' } = s' at hnew hrest
    have hreply : ⟨ticket, answer, e'.snapshot⟩ :: s'.replies = new ++ s.replies := hnew
    rw [hrest] at hreply
    obtain rfl : [⟨ticket, answer, e'.snapshot⟩] = new := List.append_cancel_right hreply
    exact List.forall_mem_singleton.mpr rfl
  | @refused ticket fault he =>
    -- Nothing is published, and nothing has changed.
    have hreply : ⟨ticket, .error fault, s.published⟩ :: s.replies = new ++ s.replies := hnew
    obtain rfl : [⟨ticket, .error fault, s.published⟩] = new := List.append_cancel_right hreply
    rw [he]
    exact List.forall_mem_singleton.mpr hp

/-- What an engine that has ended answers: that it has. -/
theorem replies_of_not_running {s : System σ} (hr : s.running = false) (t : Turn) :
    ∃ new, (s.turn t).replies = new ++ s.replies ∧
      ∀ r ∈ new, s.ticket? t = some r.ticket ∧ r.answer = .error .stopped ∧
        r.published = s.published := by
  cases t with
  | tick => exact ⟨[], by simp [turn, tick, hr], List.forall_mem_nil _⟩
  | stop => exact ⟨[], by simp [turn, stop, hr], List.forall_mem_nil _⟩
  | command c =>
    refine ⟨[⟨s.tickets, .error .stopped, s.published⟩], ?_,
      List.forall_mem_singleton.mpr ⟨rfl, rfl, rfl⟩⟩
    simp [turn, command, hr, apply]
  | finish id result =>
    cases result with
    | discovered result => exact ⟨[], by simp [turn, finish, hr], List.forall_mem_nil _⟩
    | refreshed report => exact ⟨[], by simp [turn, finish, hr], List.forall_mem_nil _⟩
    | probed result ticket =>
      refine ⟨[⟨ticket, .error .stopped, s.published⟩], ?_,
        List.forall_mem_singleton.mpr ⟨rfl, rfl, rfl⟩⟩
      simp [turn, finish, hr, apply]

omit [Store σ] in
/-- The turn of an event that answers the command which has its ticket. -/
theorem Tracked.answers_of_ticket? {cs : List Command} {s : System σ} (h : Tracked cs s) {t : Turn}
    (ht : s.Possible W t) {event : Event} (he : s.event? t = some event) {ticket : Nat}
    (hk : s.ticket? t = some ticket) :
    ∃ c, (cs ++ asked [t])[ticket]? = some c ∧ event.Answers c := by
  have hevent := (event?_eq_some.mp he).2
  rcases h.command_of_ticket? ht hk with ⟨c, rfl, hc⟩ | ⟨⟨id, result, rfl⟩, name, hc⟩
  · cases hevent
    exact ⟨c, hc, rfl⟩
  · cases hevent
    cases result with
    | probed result ticket' => exact ⟨_, hc, name, rfl⟩
    | discovered result => cases hk
    | refreshed report => cases hk

/-- Every reply that a turn sends finds published what the fleet looks like after the turn, and
that shows what it says. -/
theorem Tracked.replies_shown {cs : List Command} {s : System σ} (h : Tracked cs s) {t : Turn}
    (ht : s.Possible W t) :
    ∃ new, (s.turn t).replies = new ++ s.replies ∧
      ∀ r ∈ new, r.published = (s.turn t).engine.snapshot ∧
        ∃ c, (cs ++ asked [t])[r.ticket]? = some c ∧
          c.Shown s.engine.config.staleAfter s.published r.published r.answer := by
  rcases turn_cases s t with ⟨event, he, hs⟩ | ⟨he, hrests⟩
  · have hbefore : (s.before t).published = (s.before t).engine.snapshot := by
      rw [before_published, before_engine]
      exact h.published
    obtain ⟨new, hnew, hsaid⟩ := happen_replies (s.before t) event
    have hpublished := happen_replies_published hbefore hnew
    rw [before_replies] at hnew
    rw [before_engine] at hsaid
    refine ⟨new, hs ▸ hnew, fun r hr => ⟨hs ▸ hpublished r hr, ?_⟩⟩
    have hsent : (r.ticket, r.answer) ∈ answers (s.engine.step event).2 := by
      rw [← List.mem_reverse, ← hsaid]
      exact List.mem_map_of_mem hr
    have hk : s.ticket? t = some r.ticket := by
      rw [← ticket?_of_event? he]
      exact Engine.ticket?_of_mem_answers hsent
    obtain ⟨c, hc, hanswers⟩ := h.answers_of_ticket? ht he hk
    refine ⟨c, hc, ?_⟩
    rw [hpublished r hr, happen_engine, before_engine, h.published]
    exact Engine.step_shown s.engine hanswers hsent
  · cases hr : s.running with
    | true =>
      -- Only the end of the engine is no event, and nobody is answered then.
      have hstop : t.event? s.tickets = none := by rwa [event?, if_pos hr] at he
      cases t with
      | stop => exact ⟨[], by simp [System.turn, System.stop, hr], List.forall_mem_nil _⟩
      | tick => cases hstop
      | command c => cases hstop
      | finish id result => cases hstop
    | false =>
      obtain ⟨new, hnew, hall⟩ := replies_of_not_running hr t
      refine ⟨new, hnew, fun r hm => ?_⟩
      obtain ⟨hk, hanswer, hpublished⟩ := hall r hm
      refine ⟨by rw [hpublished, hrests.engine, h.published], ?_⟩
      rw [hanswer, hpublished]
      rcases h.command_of_ticket? ht hk with ⟨c, -, hc⟩ | ⟨-, name, hc⟩
      · exact ⟨c, hc, c.shown_error _ rfl⟩
      · exact ⟨_, hc, Command.shown_error _ _ rfl⟩

/-- Whoever reads his own request's answer can rely on what is published. In every run:

* every answer, whether it is given at once, after a miner has been asked, or after the engine has
  ended, finds published what the fleet looks like right after the turn that has sent it, and that
  shows what the request has done;
* after every turn, what the fleet looks like is published;
* all that is published, also in between, shows what is wrong with the very records that it shows,
  and their number and sums. -/
theorem readers_see_their_own_writes {config : Config} {store : σ} {ts : List Turn} {s : System σ}
    (h : Run W (started config store) ts s) :
    (∀ t, s.Possible W t → ∃ new, (s.turn t).replies = new ++ s.replies ∧
      ∀ r ∈ new, r.published = (s.turn t).engine.snapshot ∧
        ∃ c, (asked (ts ++ [t]))[r.ticket]? = some c ∧
          c.Shown config.staleAfter s.published r.published r.answer) ∧
    (s.published = s.engine.snapshot ∧ PublishedIn W config store s.published) ∧
    ∀ p, PublishedIn W config store p → p.Accurate config.staleAfter := by
  refine ⟨fun t ht => ?_, ⟨h.tracked.published, h.publishedIn⟩, fun p hp => ?_⟩
  · rw [asked_append, ← h.consistent.1]
    exact h.tracked.replies_shown ht
  · obtain ⟨e, ⟨rfl, hc⟩, rfl⟩ := hp.consistent
    exact Engine.snapshot_accurate hc

/-- One of two miners is taken out while both are being refreshed. -/
theorem shown_without_one_of_two :
    let s := started default twoMiners
    let t := Turn.command (.remove "10.1.1.50")
    Run (fun _ => True) s [] s ∧
      ∃ r, (s.turn t).replies = [r] ∧ r.published = (s.turn t).engine.snapshot ∧
        (Command.remove "10.1.1.50").Shown 3 s.published r.published r.answer ∧
        r.published.totals.deviceCount = 1 := by
  intro s t
  have h : Run (fun _ => True) s [] s := .refl
  obtain ⟨new, hnew, hall⟩ := (readers_see_their_own_writes h).1 t trivial
  have hlen : (s.turn t).replies.length = 1 := by decide +kernel
  have hnone : s.replies = [] := (started_cases default twoMiners).1
  rw [hnone, List.append_nil] at hnew
  obtain ⟨r, hr⟩ := List.length_eq_one_iff.mp (hnew ▸ hlen)
  obtain ⟨hpublished, c, hc, hshown⟩ := hall r (hr ▸ List.mem_singleton_self r)
  have hticket : ∀ r' ∈ (s.turn t).replies, r'.ticket = 0 := by decide +kernel
  rw [hticket r (by rw [hnew, hr]; exact List.mem_singleton_self r)] at hc
  cases hc
  refine ⟨h, r, hnew.trans hr, hpublished, hshown, ?_⟩
  rw [hpublished]
  decide +kernel

end System

end MinerFleet
