/-
The turns of a system.

* `Turn` — what can happen to a system that has been started: a second passes, a command comes, a
  job ends, the engine ends;
* `System.Possible` — a job can end only if it is under way, and only with a result that can come
  of it;
* `numbered` — the numbers that launched jobs get;
* `System.Rests` — what is left of a turn when the engine has ended.

`turn_cases` takes a turn apart: it is an event of the engine (`happen_jobs`, `happen_replies` and
so on say what its effects do to the system), or the engine has ended. `turn_jobs` and `turn_fleet`
say what a turn does to the jobs, to the miners and to those who wait for a reply.
-/
import MinerFleet.Engine.System
import MinerFleet.Proofs.Probe.Outcome

namespace MinerFleet

/-- What can happen to a system that has been started. -/
inductive Turn where
  | tick
  | command (c : Command)
  /-- The job with a number ends. -/
  | finish (id : Nat) (result : JobResult)
  | stop

def Turn.command? : Turn → Option Command
  | .command c => some c
  | _ => none

/-- The event that a turn is for an engine, where a command gets the ticket. -/
def Turn.event? (ticket : Nat) : Turn → Option Event
  | .tick => some .tick
  | .command c => some (.command ticket c)
  | .finish _ result => some (.finished result)
  | .stop => none

/-- The commands of some turns, in their order. -/
def asked (ts : List Turn) : List Command :=
  ts.filterMap Turn.command?

theorem asked_append (ts us : List Turn) : asked (ts ++ us) = asked ts ++ asked us :=
  List.filterMap_append

/-- A reply without what was published when it was sent. -/
def Sent.said (r : Sent) : Nat × Except Fault Answer :=
  (r.ticket, r.answer)

namespace System

variable {σ : Type}

/-- A turn can come. A job that ends is under way, and its result is one that can come of it. -/
def Possible (W : Network → Prop) (s : System σ) : Turn → Prop
  | .finish id result => ∃ job, ⟨id, job⟩ ∈ s.jobs ∧ job.Yields W result
  | _ => True

/-- A job that is under way can end with what comes of it on a network. -/
theorem possible_finish {W : Network → Prop} {s : System σ} {id : Nat} {result : JobResult}
    (net : Network) (job : Job) (hj : ⟨id, job⟩ ∈ s.jobs) (hrun : (job.run net).2.2 = some result)
    (hn : W net) : s.Possible W (.finish id result) :=
  ⟨job, hj, Job.yields_of_run hn hrun⟩

/-- The miners of the fleet. -/
def devices (s : System σ) : List Device :=
  s.engine.registry.devices

/-! ### Effects -/

/-- Jobs with numbers from `n` on. -/
def numbered (n : Nat) : List Job → List Ongoing
  | [] => []
  | job :: jobs => ⟨n, job⟩ :: numbered (n + 1) jobs

theorem mem_numbered {n : Nat} {jobs : List Job} {o : Ongoing} (h : o ∈ numbered n jobs) :
    n ≤ o.id ∧ o.id < n + jobs.length ∧ o.job ∈ jobs := by
  induction jobs generalizing n with
  | nil => exact absurd h List.not_mem_nil
  | cons job jobs ih =>
    rw [numbered] at h
    rw [List.length_cons]
    rcases List.mem_cons.mp h with rfl | h
    · exact ⟨Nat.le_refl n, by simp only; omega, List.mem_cons_self⟩
    · obtain ⟨h1, h2, h3⟩ := ih h
      exact ⟨by omega, by omega, List.mem_cons_of_mem job h3⟩

theorem length_numbered (n : Nat) (jobs : List Job) : (numbered n jobs).length = jobs.length := by
  induction jobs generalizing n with
  | nil => rfl
  | cons job jobs ih => rw [numbered, List.length_cons, List.length_cons, ih]

theorem map_job_numbered (n : Nat) (jobs : List Job) : (numbered n jobs).map (·.job) = jobs := by
  induction jobs generalizing n with
  | nil => rfl
  | cons job jobs ih => rw [numbered, List.map_cons, ih]

/-- What no effect changes, all effects together leave alone. -/
theorem foldl_apply_keeps {α : Type} {f : System σ → α}
    (h : ∀ (s : System σ) (effect : Effect), f (s.apply effect) = f s) (effects : List Effect)
    (s : System σ) : f (effects.foldl apply s) = f s := by
  induction effects generalizing s with
  | nil => rfl
  | cons effect effects ih => rw [List.foldl_cons, ih, h]

theorem apply_engine (s : System σ) (effect : Effect) : (s.apply effect).engine = s.engine := by
  cases effect <;> rfl

theorem apply_tickets (s : System σ) (effect : Effect) :
    (s.apply effect).tickets = s.tickets := by
  cases effect <;> rfl

theorem foldl_apply_jobs (effects : List Effect) (s : System σ) :
    (effects.foldl apply s).jobs = s.jobs ++ numbered s.launched (launches effects) ∧
      (effects.foldl apply s).launched = s.launched + (launches effects).length := by
  induction effects generalizing s with
  | nil => exact ⟨(List.append_nil _).symm, rfl⟩
  | cons f effects ih =>
    rw [List.foldl_cons, (ih _).1, (ih _).2]
    cases f with
    | launch job =>
      have hl : launches (.launch job :: effects) = job :: launches effects := rfl
      rw [hl, numbered, List.length_cons]
      exact ⟨by simp [apply], by simp only [apply]; omega⟩
    | publish snapshot => exact ⟨rfl, rfl⟩
    | reply ticket answer => exact ⟨rfl, rfl⟩
    | tell e => exact ⟨rfl, rfl⟩

theorem foldl_apply_replies (effects : List Effect) (s : System σ) :
    ∃ new, (effects.foldl apply s).replies = new ++ s.replies ∧
      new.map Sent.said = (answers effects).reverse := by
  induction effects generalizing s with
  | nil => exact ⟨[], rfl, rfl⟩
  | cons f effects ih =>
    obtain ⟨new, hnew, hsaid⟩ := ih (s.apply f)
    rw [List.foldl_cons, hnew]
    cases f with
    | reply ticket answer =>
      have ha : answers (.reply ticket answer :: effects) = (ticket, answer) :: answers effects :=
        rfl
      refine ⟨new ++ [⟨ticket, answer, s.published⟩], by simp [apply], ?_⟩
      rw [List.map_append, hsaid, ha, List.reverse_cons]
      rfl
    | launch job => exact ⟨new, rfl, hsaid⟩
    | publish snapshot => exact ⟨new, rfl, hsaid⟩
    | tell e => exact ⟨new, rfl, hsaid⟩

variable [Store σ]

/-! ### Events -/

theorem happen_eq (s : System σ) (event : Event) :
    s.happen event =
      (s.engine.step event).2.foldl apply { s with engine := (s.engine.step event).1 } := rfl

theorem happen_engine (s : System σ) (event : Event) :
    (s.happen event).engine = (s.engine.step event).1 := by
  rw [happen_eq, foldl_apply_keeps apply_engine]

theorem happen_tickets (s : System σ) (event : Event) : (s.happen event).tickets = s.tickets := by
  rw [happen_eq, foldl_apply_keeps apply_tickets]

theorem happen_jobs (s : System σ) (event : Event) :
    (s.happen event).jobs = s.jobs ++ numbered s.launched (launches (s.engine.step event).2) := by
  rw [happen_eq, (foldl_apply_jobs _ _).1]

theorem happen_launched (s : System σ) (event : Event) :
    (s.happen event).launched = s.launched + (launches (s.engine.step event).2).length := by
  rw [happen_eq, (foldl_apply_jobs _ _).2]

theorem happen_replies (s : System σ) (event : Event) :
    ∃ new, (s.happen event).replies = new ++ s.replies ∧
      new.map Sent.said = (answers (s.engine.step event).2).reverse := by
  rw [happen_eq]
  exact foldl_apply_replies _ _

/-- What is published last is what the fleet looks like. -/
theorem happen_published (s : System σ) (event : Event) :
    (s.happen event).published = (s.happen event).engine.snapshot := by
  rw [happen_engine, happen_eq, Engine.step, List.foldl_append]
  rfl

/-! ### Turns -/

/-- A turn of a system. -/
def turn (s : System σ) : Turn → System σ
  | .tick => s.tick
  | .command c => s.command c
  | .finish id result => s.finish id result
  | .stop => s.stop

omit [Store σ]

/-- The event that a turn is for the engine, if the engine has not ended. -/
def event? (s : System σ) (t : Turn) : Option Event :=
  if s.running then t.event? s.tickets else none

theorem event?_eq_some {s : System σ} {t : Turn} {event : Event} :
    s.event? t = some event ↔ s.running = true ∧ t.event? s.tickets = some event := by
  rw [event?]
  cases s.running with
  | true => exact ⟨fun h => ⟨rfl, h⟩, fun h => h.2⟩
  | false => exact ⟨fun h => (nomatch h), fun h => (nomatch h.1)⟩

/-- The ticket that a turn may answer. -/
def ticket? (s : System σ) : Turn → Option Nat
  | .command _ => some s.tickets
  | .finish _ (.probed _ ticket) => some ticket
  | _ => none

/-- The system to which the event of a turn happens: a command has its ticket, and a job that has
ended is no more under way. -/
def before (s : System σ) : Turn → System σ
  | .command _ => { s with tickets := s.tickets + 1 }
  | .finish id _ => { s with jobs := s.jobs.filter fun o => o.id ≠ id }
  | _ => s

/-- What is left of a turn when the engine has ended. -/
structure Rests (s : System σ) (t : Turn) (s' : System σ) : Prop where
  engine : s'.engine = s.engine
  published : s'.published = s.published
  jobs : s'.jobs = (s.before t).jobs
  launched : s'.launched = s.launched
  tickets : s'.tickets = (s.before t).tickets
  running : s'.running = false
  replies : s'.replies = s.replies ∨ ∃ ticket p, s.ticket? t = some ticket ∧
    s'.replies = ⟨ticket, .error .stopped, p⟩ :: s.replies

theorem before_engine (s : System σ) (t : Turn) : (s.before t).engine = s.engine := by
  cases t <;> rfl

theorem before_launched (s : System σ) (t : Turn) : (s.before t).launched = s.launched := by
  cases t <;> rfl

theorem before_replies (s : System σ) (t : Turn) : (s.before t).replies = s.replies := by
  cases t <;> rfl

theorem before_jobs_sublist (s : System σ) (t : Turn) : (s.before t).jobs.Sublist s.jobs := by
  cases t with
  | finish id result => exact List.filter_sublist
  | tick => exact List.Sublist.refl _
  | command c => exact List.Sublist.refl _
  | stop => exact List.Sublist.refl _

variable [Store σ]

/-- A turn is an event of the engine, or the engine has ended. -/
theorem turn_cases (s : System σ) (t : Turn) :
    (∃ event, s.event? t = some event ∧ s.turn t = (s.before t).happen event) ∨
    (s.event? t = none ∧ s.Rests t (s.turn t)) := by
  cases hr : s.running with
  | true =>
    have he : ∀ t', s.event? t' = t'.event? s.tickets := fun t' => if_pos hr
    cases t with
    | tick => exact .inl ⟨_, he _, by simp [turn, tick, before, hr]⟩
    | command c => exact .inl ⟨_, he _, by simp [turn, command, before, hr]⟩
    | finish id result => exact .inl ⟨_, he _, by simp [turn, finish, before, hr]⟩
    | stop =>
      refine .inr ⟨he _, ?_⟩
      rw [turn, stop, if_pos hr]
      exact ⟨rfl, rfl, rfl, rfl, rfl, rfl, .inl rfl⟩
  | false =>
    refine .inr ⟨by simp [event?, hr], ?_⟩
    cases t with
    | tick =>
      simp only [turn, tick, hr]
      exact ⟨rfl, rfl, rfl, rfl, rfl, hr, .inl rfl⟩
    | command c =>
      simp only [turn, command, hr]
      exact ⟨rfl, rfl, rfl, rfl, rfl, rfl, .inr ⟨_, _, rfl, rfl⟩⟩
    | stop =>
      simp only [turn, stop, hr]
      exact ⟨rfl, rfl, rfl, rfl, rfl, hr, .inl rfl⟩
    | finish id result =>
      simp only [turn, finish, hr]
      cases result with
      | discovered result => exact ⟨rfl, rfl, rfl, rfl, rfl, rfl, .inl rfl⟩
      | refreshed report => exact ⟨rfl, rfl, rfl, rfl, rfl, rfl, .inl rfl⟩
      | probed result ticket => exact ⟨rfl, rfl, rfl, rfl, rfl, rfl, .inr ⟨_, _, rfl, rfl⟩⟩

theorem turn_of_event? {s : System σ} {t : Turn} {event : Event} (h : s.event? t = some event) :
    s.turn t = (s.before t).happen event := by
  rcases turn_cases s t with ⟨event', he, hs⟩ | ⟨he, -⟩
  · rw [h] at he
    rw [hs, Option.some.inj he]
  · rw [h] at he
    cases he

/-- The jobs after a turn: what the event has launched comes behind those that go on. -/
theorem turn_jobs (s : System σ) (t : Turn) :
    ∃ jobs, (s.turn t).jobs = (s.before t).jobs ++ numbered s.launched jobs ∧
      (s.turn t).launched = s.launched + jobs.length ∧
      ∀ job ∈ jobs, ∃ event, s.event? t = some event ∧
        job ∈ launches (s.engine.step event).2 := by
  rcases turn_cases s t with ⟨event, he, hs⟩ | ⟨-, hs⟩
  · refine ⟨launches (s.engine.step event).2, ?_, ?_, fun job hj => ⟨event, he, hj⟩⟩
    · rw [hs, happen_jobs, before_engine, before_launched]
    · rw [hs, happen_launched, before_engine, before_launched]
  · refine ⟨[], ?_, hs.launched, fun job hj => absurd hj List.not_mem_nil⟩
    rw [hs.jobs, numbered, List.append_nil]

/-- A job after a turn was under way before it, or has just been launched. -/
theorem mem_jobs_turn {s : System σ} {t : Turn} {o : Ongoing} (ho : o ∈ (s.turn t).jobs) :
    o ∈ (s.before t).jobs ∨ ∃ event, s.event? t = some event ∧
      o ∈ numbered s.launched (launches (s.engine.step event).2) := by
  rcases turn_cases s t with ⟨event, he, hs⟩ | ⟨-, hs⟩
  · rw [hs, happen_jobs, before_engine, before_launched] at ho
    rcases List.mem_append.mp ho with ho | ho
    · exact .inl ho
    · exact .inr ⟨event, he, ho⟩
  · rw [hs.jobs] at ho
    exact .inl ho

/-- A refresh that has just been launched knows the miners of the fleet. -/
theorem known_eq_devices {s : System σ} {event : Event} {o : Ongoing} {known : List Device}
    {n : Nat} {fetchAsic : Bool}
    (ho : o ∈ numbered s.launched (launches (s.engine.step event).2))
    (hj : o.job = .refresh known n fetchAsic) : known = s.devices := by
  have hm := (mem_numbered ho).2.2
  rw [hj] at hm
  exact Engine.eq_devices_of_refresh_mem_launches hm

omit [Store σ] in
theorem ticket?_of_event? {s : System σ} {t : Turn} {event : Event}
    (h : s.event? t = some event) : event.ticket? = s.ticket? t := by
  have he := (event?_eq_some.mp h).2
  cases t with
  | tick => cases he; rfl
  | command c => cases he; rfl
  | finish id result => cases he; cases result <;> rfl
  | stop => cases he

/-- What a turn does to the miners, and the replies that it sends: at most one, to its own
request. When the engine has ended, it does nothing to them, and gives none of them away. -/
theorem turn_fleet (s : System σ) (t : Turn) :
    ∃ new, (s.turn t).replies = new ++ s.replies ∧
      (new = [] ∨ ∃ r, new = [r] ∧ s.ticket? t = some r.ticket) ∧
      ((∃ event, s.event? t = some event ∧
          FleetStep s.devices event (new.map Sent.said) (s.turn t).devices) ∨
        ((s.turn t).devices = s.devices ∧ ∀ r ∈ new, r.answer = .error .stopped)) := by
  rcases turn_cases s t with ⟨event, he, hs⟩ | ⟨-, hs⟩
  · obtain ⟨new, hnew, hsaid⟩ := happen_replies (s.before t) event
    rw [before_replies] at hnew
    rw [before_engine] at hsaid
    have hf := Engine.step_fleet s.engine event
    have hc := hf.replies_cases
    -- An event sends one reply at most, so that the latest first is also the order of the effects.
    have hrev : new.map Sent.said = answers (s.engine.step event).2 := by
      rcases hc with ha | ⟨ticket, answer, -, ha⟩
      · rw [hsaid, ha]
        rfl
      · rw [hsaid, ha]
        rfl
    refine ⟨new, by rw [hs, hnew], ?_, .inl ⟨event, he, ?_⟩⟩
    · rcases hc with ha | ⟨ticket, answer, ht, ha⟩
      · rw [ha] at hrev
        exact .inl (List.map_eq_nil_iff.mp hrev)
      · rw [ha] at hrev
        obtain ⟨r, rfl, hr⟩ := List.map_eq_singleton_iff.mp hrev
        refine .inr ⟨r, rfl, ?_⟩
        rw [← ticket?_of_event? he, ht]
        exact congrArg some (congrArg Prod.fst hr).symm
    · have hd : (s.turn t).devices = (s.engine.step event).1.registry.devices := by
        rw [devices, hs, happen_engine, before_engine]
      rw [hrev, hd]
      exact hf
  · have hd : (s.turn t).devices = s.devices := by rw [devices, hs.engine, devices]
    rcases hs.replies with hr | ⟨ticket, p, ht, hr⟩
    · exact ⟨[], hr, .inl rfl, .inr ⟨hd, fun r h => absurd h List.not_mem_nil⟩⟩
    · refine ⟨[⟨ticket, .error .stopped, p⟩], hr, .inr ⟨_, rfl, ht⟩, .inr ⟨hd, fun r h => ?_⟩⟩
      rw [List.mem_singleton.mp h]

/-- The end of a job launches nothing, whether or not the engine has ended. -/
theorem finish_jobs (s : System σ) (id : Nat) (result : JobResult) :
    (s.finish id result).jobs = s.jobs.filter (fun o => o.id ≠ id) ∧
      (s.finish id result).launched = s.launched := by
  obtain ⟨jobs, hjobs, hlaunched, hall⟩ := turn_jobs s (.finish id result)
  have hnone : jobs = [] := by
    refine List.eq_nil_iff_forall_not_mem.mpr fun job hj => ?_
    obtain ⟨event, he, hm⟩ := hall job hj
    cases (event?_eq_some.mp he).2
    rw [(Engine.step_finished s.engine result).1] at hm
    exact absurd hm List.not_mem_nil
  rw [hnone, numbered, List.append_nil] at hjobs
  rw [hnone] at hlaunched
  exact ⟨hjobs, hlaunched⟩

/-- Replies stay. -/
theorem replies_suffix_turn (s : System σ) (t : Turn) : s.replies <:+ (s.turn t).replies := by
  obtain ⟨new, hnew, -⟩ := turn_fleet s t
  exact ⟨new, hnew.symm⟩

/-- Only a command takes a ticket. -/
theorem tickets_turn (s : System σ) (t : Turn) : (s.turn t).tickets = (s.before t).tickets := by
  rcases turn_cases s t with ⟨event, -, hs⟩ | ⟨-, hs⟩
  · rw [hs, happen_tickets]
  · exact hs.tickets

end System

end MinerFleet
