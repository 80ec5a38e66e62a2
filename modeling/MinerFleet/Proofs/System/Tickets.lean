/-
The tickets of requests.

* `askedFor` — the tickets of the requests for which miners are being asked;
* `System.Accounted` — every ticket that was given out is answered, or a miner is being asked for
  it, and in all this is so once;
* `Command.Suits` — what can be said to a command;
* `System.AddedFor` — a miner has been added for a request that has a ticket.

`Run.accounted` and `Run.suited` say so of every run. A miner is added for a request by the turn in
which the question to this miner ends and it comes into the fleet, and by no other
(`Tracked.addedFor_turn`).
-/
import Mathlib.Data.List.Nodup
import MinerFleet.Proofs.System.Dialed
import MinerFleet.Proofs.System.Passes

namespace MinerFleet

/-! ### Events -/

/-- The ticket of the request for which a job asks a miner. -/
def Job.ticket? : Job → Option Nat
  | .peer _ ticket => some ticket
  | _ => none

theorem Job.eq_peer_of_ticket? {job : Job} {ticket : Nat} (h : job.ticket? = some ticket) :
    ∃ name, job = .peer name ticket := by
  cases job with
  | peer name t =>
    cases h
    exact ⟨name, rfl⟩
  | discovery => cases h
  | refresh => cases h

/-- What can be said to a command: a refusal, or what it asks for. -/
def Command.Suits (c : Command) : Except Fault Answer → Prop
  | .error _ => True
  | .ok (.started _) => c = .scan ∨ c = .refresh
  | .ok (.device _) => (∃ name, c = .add name) ∨ ∃ name, c = .remove name
  | .ok .done => ∃ changes, c = .settings changes

theorem Command.suits_add {name : String} {answer : Except Fault Answer}
    (h : (Command.add name).Suits answer) :
    (∃ fault, answer = .error fault) ∨ ∃ d, answer = .ok (.device d) := by
  cases answer with
  | error fault => exact .inl ⟨fault, rfl⟩
  | ok answer =>
    cases answer with
    | device d => exact .inr ⟨d, rfl⟩
    | started yes => rcases h with h | h <;> cases h
    | done =>
      obtain ⟨changes, h⟩ := h
      cases h

namespace Engine

variable {σ : Type}

/-- Only a request to add a miner makes the engine ask one. -/
theorem Launched.asks_nobody {e e' : Engine σ} {event : Event} {jobs : List Job}
    (h : Launched e event jobs e') (hne : ∀ ticket name, event ≠ .command ticket (.add name)) :
    jobs.filterMap Job.ticket? = [] := by
  cases h with
  | nothing _ => rfl
  | discovery _ _ _ => rfl
  | refresh _ _ _ => rfl
  | peer _ _ => exact absurd rfl (hne _ _)

variable [Store σ]

/-- An event with a ticket answers it or makes the engine ask a miner for it, and not both; an
event without one does neither. -/
theorem step_tickets (e : Engine σ) (event : Event) :
    (answers (e.step event).2).map (·.1) ++ (launches (e.step event).2).filterMap Job.ticket? =
      event.ticket?.toList := by
  rw [answers_step, launches_step]
  cases event with
  | start =>
    obtain ⟨hl, ha, -⟩ := start_cases e
    rw [handle, ha, hl.asks_nobody (by simp)]
    rfl
  | tick =>
    obtain ⟨hl, ha, -⟩ := tick_cases e
    rw [handle, ha, hl.asks_nobody (by simp)]
    rfl
  | command ticket c =>
    rw [handle]
    cases c with
    | scan =>
      have hl := (startScan_launched e .tick).asks_nobody (by simp)
      simp [command, answers_startScan, hl, Event.ticket?]
    | refresh =>
      have hl := (startRefresh_launched e true .tick).asks_nobody (by simp)
      simp [command, answers_startRefresh, hl, Event.ticket?]
    | add name =>
      rw [command]
      rcases add_cases e ticket name with ⟨fault, ha⟩ | ⟨-, ha⟩
      · rw [ha]
        rfl
      · rw [ha]
        rfl
    | remove name =>
      rw [command]
      obtain ⟨hl, -, ha⟩ := remove_cases e ticket name
      rcases ha with ⟨fault, ha, -⟩ | ⟨d, -, ha, -⟩
      · rw [hl, ha]
        rfl
      · rw [hl, ha]
        rfl
    | settings changes =>
      rw [command]
      obtain ⟨hl, -, answer, ha, -⟩ := settings_cases e ticket changes
      rw [hl, ha]
      rfl
  | finished result =>
    rw [handle]
    cases result with
    | discovered result =>
      obtain ⟨hl, ha, -⟩ := discovered_cases { e with inFlight := e.inFlight - 1 } result
      rw [finish, hl, ha]
      rfl
    | refreshed report =>
      obtain ⟨hl, ha, -⟩ := refreshed_cases { e with inFlight := e.inFlight - 1 } report
      rw [finish, hl, ha]
      rfl
    | probed result ticket =>
      rw [finish]
      obtain ⟨hl, -, ha⟩ := probed_cases { e with inFlight := e.inFlight - 1 } ticket result
      rcases ha with ⟨fault, ha, -⟩ | ⟨d, -, ha, -⟩
      · rw [hl, ha]
        rfl
      · rw [hl, ha]
        rfl

/-- What an event says suits its command; where the question to a miner has ended, it suits any
request to add one. -/
theorem step_suits (e : Engine σ) {event : Event} {ticket : Nat} {answer : Except Fault Answer}
    (h : (ticket, answer) ∈ answers (e.step event).2) :
    (∃ c, event = .command ticket c ∧ c.Suits answer) ∨
    ((∃ result, event = .finished (.probed result ticket)) ∧
      ∀ name, (Command.add name).Suits answer) := by
  rw [answers_step] at h
  cases event with
  | start =>
    rw [handle, (start_cases e).2.1] at h
    exact absurd h List.not_mem_nil
  | tick =>
    rw [handle, (tick_cases e).2.1] at h
    exact absurd h List.not_mem_nil
  | command ticket' c =>
    rw [handle] at h
    left
    cases c with
    | scan =>
      simp only [command, answers_append, answers_startScan, answers_replying, List.nil_append,
        List.mem_singleton, Prod.mk.injEq] at h
      obtain ⟨rfl, rfl⟩ := h
      refine ⟨_, rfl, ?_⟩
      cases e.startScan.2.2 with
      | error fault => trivial
      | ok yes => exact .inl rfl
    | refresh =>
      simp only [command, answers_append, answers_startRefresh, answers_replying, List.nil_append,
        List.mem_singleton, Prod.mk.injEq] at h
      obtain ⟨rfl, rfl⟩ := h
      exact ⟨_, rfl, .inr rfl⟩
    | add name =>
      rw [command] at h
      rcases add_cases e ticket' name with ⟨fault, ha⟩ | ⟨-, ha⟩
      · rw [ha] at h
        obtain ⟨rfl, rfl⟩ := Prod.mk.inj (List.mem_singleton.mp h)
        exact ⟨_, rfl, trivial⟩
      · rw [ha] at h
        exact absurd h List.not_mem_nil
    | remove name =>
      rw [command] at h
      rcases (remove_cases e ticket' name).2.2 with ⟨fault, ha, -⟩ | ⟨d, -, ha, -⟩
      · rw [ha] at h
        obtain ⟨rfl, rfl⟩ := Prod.mk.inj (List.mem_singleton.mp h)
        exact ⟨_, rfl, trivial⟩
      · rw [ha] at h
        obtain ⟨rfl, rfl⟩ := Prod.mk.inj (List.mem_singleton.mp h)
        exact ⟨_, rfl, .inr ⟨name, rfl⟩⟩
    | settings changes =>
      rw [command, settings] at h
      cases hs : e.setAll changes with
      | error fault =>
        simp only [hs, answers_replying, List.mem_singleton, Prod.mk.injEq] at h
        obtain ⟨rfl, rfl⟩ := h
        exact ⟨_, rfl, trivial⟩
      | ok result =>
        simp only [hs, answers_append, answers_telling, answers_replying, List.nil_append,
          List.mem_singleton, Prod.mk.injEq] at h
        obtain ⟨rfl, rfl⟩ := h
        exact ⟨_, rfl, changes, rfl⟩
  | finished result =>
    rw [handle] at h
    right
    cases result with
    | discovered result =>
      rw [finish, (discovered_cases { e with inFlight := e.inFlight - 1 } result).2.1] at h
      exact absurd h List.not_mem_nil
    | refreshed report =>
      rw [finish, (refreshed_cases { e with inFlight := e.inFlight - 1 } report).2.1] at h
      exact absurd h List.not_mem_nil
    | probed result ticket' =>
      rw [finish] at h
      rcases (probed_cases { e with inFlight := e.inFlight - 1 } ticket' result).2.2 with
        ⟨fault, ha, -⟩ | ⟨d, -, ha, -⟩
      · rw [ha] at h
        obtain ⟨rfl, rfl⟩ := Prod.mk.inj (List.mem_singleton.mp h)
        exact ⟨⟨_, rfl⟩, fun _ => trivial⟩
      · rw [ha] at h
        obtain ⟨rfl, rfl⟩ := Prod.mk.inj (List.mem_singleton.mp h)
        exact ⟨⟨_, rfl⟩, fun name => .inl ⟨name, rfl⟩⟩

end Engine

namespace System

variable {σ : Type} [Store σ] {W : Network → Prop}

/-! ### Tickets -/

/-- The tickets of the requests for which miners are being asked. -/
def askedFor (jobs : List Ongoing) : List Nat :=
  jobs.filterMap fun o => o.job.ticket?

theorem askedFor_append (jobs jobs' : List Ongoing) :
    askedFor (jobs ++ jobs') = askedFor jobs ++ askedFor jobs' :=
  List.filterMap_append

theorem askedFor_numbered (n : Nat) (jobs : List Job) :
    askedFor (numbered n jobs) = jobs.filterMap Job.ticket? := by
  have h := List.filterMap_map (f := Ongoing.job) (g := Job.ticket?) (l := numbered n jobs)
  rw [map_job_numbered] at h
  exact h.symm

/-- Every ticket that was given out is answered once, or a miner is being asked for it once. -/
def Accounted (s : System σ) : Prop :=
  (s.replies.map (·.ticket) ++ askedFor s.jobs).Perm (List.range s.tickets)

/-- A turn answers its ticket, or has a miner asked for it. -/
theorem turn_tickets (s : System σ) (t : Turn) :
    ∃ new jobs, (s.turn t).replies = new ++ s.replies ∧
      (s.turn t).jobs = (s.before t).jobs ++ numbered s.launched jobs ∧
      (new.map (·.ticket) ++ jobs.filterMap Job.ticket?).Perm (s.ticket? t).toList := by
  rcases turn_cases s t with ⟨event, he, hs⟩ | ⟨he, hrests⟩
  · obtain ⟨new, hnew, hsaid⟩ := happen_replies (s.before t) event
    rw [before_replies] at hnew
    rw [before_engine] at hsaid
    refine ⟨new, launches (s.engine.step event).2, by rw [hs, hnew], ?_, ?_⟩
    · rw [hs, happen_jobs, before_engine, before_launched]
    · have hmap : new.map (·.ticket) = (new.map Sent.said).map (·.1) := by
        rw [List.map_map]
        rfl
      rw [hmap, hsaid, List.map_reverse, ← ticket?_of_event? he,
        ← Engine.step_tickets s.engine event]
      exact (List.reverse_perm _).append_right _
  · -- An engine that has ended answers at once, and asks nobody.
    have hnobody : (s.turn t).jobs = (s.before t).jobs ++ numbered s.launched [] := by
      rw [hrests.jobs, numbered, List.append_nil]
    cases hr : s.running with
    | true =>
      have ht : t.event? s.tickets = none := by rwa [event?, if_pos hr] at he
      cases t with
      | stop => exact ⟨[], [], by simp [turn, stop, hr], hnobody, .refl _⟩
      | tick => cases ht
      | command c => cases ht
      | finish id result => cases ht
    | false =>
      cases t with
      | tick => exact ⟨[], [], by simp [turn, tick, hr], hnobody, .refl _⟩
      | stop => exact ⟨[], [], by simp [turn, stop, hr], hnobody, .refl _⟩
      | command c =>
        refine ⟨[⟨s.tickets, .error .stopped, s.published⟩], [], ?_, hnobody, .refl _⟩
        simp [turn, command, hr, apply]
      | finish id result =>
        cases result with
        | discovered result => exact ⟨[], [], by simp [turn, finish, hr], hnobody, .refl _⟩
        | refreshed report => exact ⟨[], [], by simp [turn, finish, hr], hnobody, .refl _⟩
        | probed result ticket =>
          refine ⟨[⟨ticket, .error .stopped, s.published⟩], [], ?_, hnobody, .refl _⟩
          simp [turn, finish, hr, apply]

/-- When the question to a miner ends, its request is answered, whether or not the engine has
ended. -/
theorem answered_of_finish (s : System σ) (id : Nat) (result : Except Fault Device)
    (ticket : Nat) :
    ∃ r ∈ (s.finish id (.probed result ticket)).replies, r.ticket = ticket := by
  obtain ⟨new, jobs, hnew, hjobs, hp⟩ := turn_tickets s (.finish id (.probed result ticket))
  have hnobody : jobs = [] := by
    have hends := (finish_jobs s id (.probed result ticket)).1
    have hlen := congrArg List.length (hends.symm.trans hjobs)
    rw [List.length_append, length_numbered] at hlen
    exact List.length_eq_zero_iff.mp (Nat.left_eq_add.mp hlen)
  rw [hnobody, List.filterMap_nil, List.append_nil] at hp
  have hmem : ticket ∈ new.map (·.ticket) := hp.mem_iff.mpr (List.mem_singleton_self ticket)
  obtain ⟨r, hr, ht⟩ := List.mem_map.mp hmem
  refine ⟨r, ?_, ht⟩
  change r ∈ (s.turn (.finish id (.probed result ticket))).replies
  rw [hnew]
  exact List.mem_append_left _ hr

omit [Store σ] in
/-- The job that ends is the only one that is taken off, and it was for the same ticket. -/
theorem perm_askedFor_before {s : System σ} (hn : (s.jobs.map (·.id)).Nodup) {id : Nat}
    {result : JobResult} (ht : s.Possible W (.finish id result)) :
    (askedFor s.jobs).Perm
      ((s.ticket? (.finish id result)).toList ++
        askedFor (s.before (.finish id result)).jobs) := by
  obtain ⟨job, hj, hy⟩ := ht
  have hp := (perm_filter_id hn hj).filterMap fun o => o.job.ticket?
  have hticket : job.ticket? = s.ticket? (.finish id result) := by
    have hfits := hy.fits
    cases result with
    | probed result ticket =>
      obtain ⟨name, rfl⟩ := hfits
      rfl
    | discovered result =>
      obtain ⟨seed, netmask, n, rfl⟩ := hfits.eq_discovery
      rfl
    | refreshed report =>
      obtain ⟨known, n, fetchAsic, rfl⟩ := hfits.eq_refresh
      rfl
  rw [← hticket]
  refine hp.trans ?_
  cases job <;> exact .refl _

theorem Accounted.turn {cs : List Command} {s : System σ} (h : Accounted s) (hs : Tracked cs s)
    {t : Turn} (ht : s.Possible W t) : Accounted (s.turn t) := by
  obtain ⟨new, jobs, hnew, hjobs, hp⟩ := turn_tickets s t
  rw [Accounted, hnew, hjobs, hs.tickets_turn t, List.map_append, askedFor_append,
    askedFor_numbered]
  -- What the turn adds is its ticket, in front of all others.
  have hall : (new.map (·.ticket) ++ s.replies.map (·.ticket) ++
      (askedFor (s.before t).jobs ++ jobs.filterMap Job.ticket?)).Perm
      ((s.ticket? t).toList ++ (s.replies.map (·.ticket) ++ askedFor (s.before t).jobs)) := by
    refine .trans ?_ (hp.append_right _)
    rw [List.append_assoc, List.append_assoc]
    refine List.Perm.append_left _ ?_
    rw [← List.append_assoc]
    exact List.perm_append_comm
  refine hall.trans ?_
  rw [List.length_append, ← hs.tickets]
  cases t with
  | tick => exact h
  | stop => exact h
  | command c =>
    -- The ticket is the next number.
    have hlast := List.perm_append_comm.trans (h.append_right [s.tickets])
    rw [← List.range_succ] at hlast
    exact hlast
  | finish id result =>
    -- The ticket moves from the jobs to the replies.
    refine .trans ?_ h
    refine .trans ?_ ((perm_askedFor_before hs.nodup ht).append_left _).symm
    rw [← List.append_assoc, ← List.append_assoc]
    exact List.perm_append_comm.append_right _

theorem accounted_started (config : Config) (store : σ) : Accounted (started config store) := by
  have hs := tracked_started config store
  have hnone : askedFor (started config store).jobs = [] := by
    have hl := Engine.launches_step (System.make config store).engine .start
    rw [jobs_started, askedFor_numbered, hl]
    exact (Engine.start_cases _).1.asks_nobody (by simp)
  rw [Accounted, (started_cases config store).1, hnone, hs.tickets]
  exact .refl _

/-- In every run, every request that came has one answer, or is one for which a miner is being
asked. -/
theorem Run.accounted {config : Config} {store : σ} {s : System σ} {ts : List Turn}
    (h : Run W (started config store) ts s) : Accounted s := by
  induction h with
  | refl => exact accounted_started config store
  | turn h ht ih => exact ih.turn h.tracked ht

omit [Store σ] in
/-- No request has two answers. -/
theorem Accounted.eq_of_ticket {s : System σ} (h : Accounted s) {r r' : Sent}
    (hr : r ∈ s.replies) (hr' : r' ∈ s.replies) (he : r.ticket = r'.ticket) : r = r' := by
  have hn : (s.replies.map (·.ticket)).Nodup :=
    (List.nodup_append.mp (h.nodup_iff.mpr List.nodup_range)).1
  exact List.inj_on_of_nodup_map hn hr hr' he

/-! ### Answers -/

/-- Every answer suits the command that it is given to. -/
def Suited (cs : List Command) (s : System σ) : Prop :=
  ∀ r ∈ s.replies, ∃ c, cs[r.ticket]? = some c ∧ c.Suits r.answer

theorem Suited.turn {cs : List Command} {s : System σ} (h : Suited cs s) (hs : Tracked cs s)
    {t : Turn} (ht : s.Possible W t) : Suited (cs ++ asked [t]) (s.turn t) := by
  have hold : ∀ r ∈ s.replies, ∃ c, (cs ++ asked [t])[r.ticket]? = some c ∧ c.Suits r.answer := by
    intro r hr
    rw [List.getElem?_append_left (hs.replies r hr)]
    exact h r hr
  intro r hr
  rcases turn_cases s t with ⟨event, he, hturn⟩ | ⟨-, hrests⟩
  · obtain ⟨new, hnew, hsaid⟩ := happen_replies (s.before t) event
    rw [hturn, hnew, before_replies] at hr
    rw [before_engine] at hsaid
    rcases List.mem_append.mp hr with hr | hr
    · have hmem : (r.ticket, r.answer) ∈ answers (s.engine.step event).2 := by
        rw [← List.mem_reverse, ← hsaid]
        exact List.mem_map_of_mem hr
      rcases Engine.step_suits s.engine hmem with ⟨c, rfl, hc⟩ | ⟨⟨result, rfl⟩, hc⟩
      · obtain ⟨rfl, hticket⟩ := command_of_event? he
        refine ⟨c, ?_, hc⟩
        rw [hticket, hs.tickets, List.getElem?_append_right (Nat.le_refl _), Nat.sub_self]
        rfl
      · obtain ⟨id, rfl⟩ := finish_of_event? he
        rcases hs.command_of_ticket? ht rfl with ⟨c, hcmd, -⟩ | ⟨-, name, hname⟩
        · cases hcmd
        · exact ⟨_, hname, hc name⟩
    · exact hold r hr
  · rcases hrests.replies with hsame | ⟨ticket, p, hk, hnew⟩
    · rw [hsame] at hr
      exact hold r hr
    · rw [hnew] at hr
      rcases List.mem_cons.mp hr with rfl | hr
      · rcases hs.command_of_ticket? ht hk with ⟨c, -, hc⟩ | ⟨-, name, hname⟩
        · exact ⟨c, hc, trivial⟩
        · exact ⟨_, hname, trivial⟩
      · exact hold r hr

/-- In every run, every answer is one to its command. -/
theorem Run.suited {config : Config} {store : σ} {s : System σ} {ts : List Turn}
    (h : Run W (started config store) ts s) : Suited (asked ts) s := by
  induction h with
  | refl =>
    intro r hr
    rw [(started_cases config store).1] at hr
    exact absurd hr List.not_mem_nil
  | turn h ht ih =>
    rw [asked_append]
    exact ih.turn h.tracked ht

/-! ### Miners that are added -/

/-- A miner has been added for the request that has a ticket. The reply says so, whether or not
somebody still waits for it. -/
def AddedFor (cs : List Command) (s : System σ) (ticket : Nat) (d : Device) : Prop :=
  ∃ r ∈ s.replies, r.ticket = ticket ∧ r.Added cs d

/-- A miner is added for a request by the turn that ends the question to this miner and takes it
into the fleet. -/
theorem Tracked.addedFor_turn {cs : List Command} {s : System σ} (h : Tracked cs s) {t : Turn}
    (ht : s.Possible W t) (ticket : Nat) (d : Device) :
    AddedFor (cs ++ asked [t]) (s.turn t) ticket d ↔
      AddedFor cs s ticket d ∨
        ((∃ id, t = .finish id (.probed (.ok d) ticket)) ∧
          (s.turn t).devices.Perm (d :: s.devices)) := by
  obtain ⟨new, hnew, hf⟩ := h.fleetTurn ht
  constructor
  · rintro ⟨r, hr, rfl, hadd⟩
    rw [hnew] at hr
    rcases List.mem_append.mp hr with hr | hr
    · -- Of all that a turn can do to the fleet, only an addition has a reply that says so.
      right
      cases hf with
      | kept _ hn => exact absurd hadd.2 (hn r hr d)
      | removed hrem _ =>
        obtain rfl := List.mem_singleton.mp hr
        exact absurd hadd hrem.not_added
      | added hadd' _ hp =>
        obtain rfl := List.mem_singleton.mp hr
        obtain rfl := hadd.eq_of_added hadd'
        exact ⟨⟨_, rfl⟩, hp⟩
      | discovered _ => exact absurd hr List.not_mem_nil
      | refreshed _ => exact absurd hr List.not_mem_nil
    · exact .inl ⟨r, hr, rfl, (Sent.added_append (h.replies r hr) _ d).mp hadd⟩
  · rintro (⟨r, hr, rfl, hadd⟩ | ⟨⟨id, rfl⟩, hp⟩)
    · refine ⟨r, ?_, rfl, (Sent.added_append (h.replies r hr) _ d).mpr hadd⟩
      rw [hnew]
      exact List.mem_append_right new hr
    · generalize hafter : (s.turn (.finish id (.probed (.ok d) ticket))).devices = after at hf hp
      cases hf with
      | kept hp' _ =>
        have hlen := (hp'.symm.trans hp).length_eq
        rw [List.length_cons] at hlen
        omega
      | added hadd _ _ =>
        refine ⟨_, ?_, rfl, hadd⟩
        rw [hnew]
        exact List.mem_append_left _ (List.mem_singleton_self _)

end System

end MinerFleet
