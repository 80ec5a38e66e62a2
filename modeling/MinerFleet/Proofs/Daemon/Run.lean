/-
The runs of a daemon.

* `Daemon.Move` — what can happen to a daemon: a request comes, time passes, its engine ends, its
  network becomes another;
* `Daemon.Run` — moves that follow each other, in whatever order, and `given`, the commands that
  they give to the engine;
* `Daemon.Extends` — jobs have gone on, and nothing else has happened;
* `Daemon.Advances` — the same, where it is known which jobs these were.

`progress_cases` says what becomes of a job at a moment; from it all that the loops over jobs leave
alone is drawn (`advances_foldl`). `moment_cases` says what a whole moment is.
-/
import MinerFleet.Daemon.Basic
import MinerFleet.Proofs.System.Quiet

namespace MinerFleet

open Api Http

namespace Daemon

variable {σ : Type}

/-! ### Moves -/

/-- What can happen to a daemon. -/
inductive Move where
  | request (r : Request)
  /-- Time passes, and nothing happens. -/
  | wait (time : Nat)
  /-- Time passes up to the next moment, and it happens. -/
  | proceed
  /-- The engine ends. -/
  | stop
  /-- The network becomes another. -/
  | rewire (network : Network)

end Daemon

/-- What a route tells the engine, if it tells it anything. -/
def Api.Route.command? : Route → Option Command
  | .scan => some .scan
  | .refresh => some .refresh
  | .add address => some (.add address)
  | .remove address => some (.remove address)
  | .settings changes => some (.settings changes)
  | _ => none

theorem Api.Route.plan_eq_command {route : Route} {s : Snapshot} {c : Command} :
    route.plan s = .command c ↔ route.command? = some c := by
  -- What is published decides how a route is answered, but never whether it has a command.
  cases route with
  | fleet filter => cases filter <;> exact iff_of_false nofun nofun
  | act address action =>
    rw [plan]
    cases s.find? address <;> exact iff_of_false nofun nofun
  | health => exact iff_of_false nofun nofun
  | totals => exact iff_of_false nofun nofun
  | families => exact iff_of_false nofun nofun
  | scan => simp [plan, command?]
  | refresh => simp [plan, command?]
  | add address => simp [plan, command?]
  | remove address => simp [plan, command?]
  | settings changes => simp [plan, command?]

theorem Api.Route.command?_eq_none {route : Route} {s : Snapshot}
    (h : ∀ c, route.plan s ≠ .command c) : route.command? = none :=
  Option.eq_none_iff_forall_ne_some.mpr fun c hc => h c (plan_eq_command.mpr hc)

namespace Daemon

variable {σ : Type}

/-- What a move tells the engine. -/
def Move.command? : Move → Option Command
  | .request r => (Route.ofRequest r).toOption.bind Route.command?
  | _ => none

/-- The commands of some moves, in their order. -/
def given (ms : List Move) : List Command :=
  ms.filterMap Move.command?

theorem given_append (ms ms' : List Move) : given (ms ++ ms') = given ms ++ given ms' :=
  List.filterMap_append

theorem given_singleton (m : Move) : given [m] = m.command?.toList := by
  cases h : m.command? with
  | none => rw [given, List.filterMap_cons_none h, List.filterMap_nil, Option.toList_none]
  | some c => rw [given, List.filterMap_cons_some h, List.filterMap_nil, Option.toList_some]

/-- A move can come. Nobody waits past a moment at which something happens. -/
def Possible (W : Network → Prop) (d : Daemon σ) : Move → Prop
  | .wait time => d.now + time ≤ d.nextMoment
  | .rewire network => W network
  | _ => True

variable [Store σ]

/-- A daemon over a store, with its engine started. -/
def launch (config : Config) (store : σ) (network : Network) : Daemon σ :=
  (Daemon.make config store network).start

def move (d : Daemon σ) : Move → Daemon σ
  | .request r => d.request r
  | .wait time => { d with now := d.now + time }
  | .proceed => d.proceed
  | .stop => d.stop
  | .rewire network => { d with network }

/-- Moves that follow each other in any order, as far as they can come. -/
inductive Run (W : Network → Prop) (d : Daemon σ) : List Move → Daemon σ → Prop
  | refl : Run W d [] d
  | move {ms : List Move} {d' : Daemon σ} {m : Move} (h : Run W d ms d') (hm : d'.Possible W m) :
      Run W d (ms ++ [m]) (d'.move m)

variable {W : Network → Prop}

theorem Run.trans {d d' d'' : Daemon σ} {ms ms' : List Move} (h : Run W d ms d')
    (h' : Run W d' ms' d'') : Run W d (ms ++ ms') d'' := by
  induction h' with
  | refl => rwa [List.append_nil]
  | move _ hm ih =>
    rw [← List.append_assoc]
    exact ih.move hm

/-! ### What goes on beside a job -/

omit [Store σ]

/-- A daemon whose jobs have gone on: tasks and replies come behind those that there were, and of
all that has to do with requests nothing has changed. -/
structure Extends (d d' : Daemon σ) : Prop where
  rest : d' = { d with
    system := d'.system, tasks := d'.tasks, calls := d'.calls, begun := d'.begun,
    nextTick := d'.nextTick }
  tasks : d.tasks <+: d'.tasks
  replies : d.system.replies <:+ d'.system.replies

namespace Extends

variable {d d' d'' : Daemon σ}

theorem refl (d : Daemon σ) : Extends d d :=
  ⟨rfl, List.prefix_refl _, List.suffix_refl _⟩

theorem trans (h : Extends d d') (h' : Extends d' d'') : Extends d d'' :=
  ⟨h'.rest.trans (by rw [h.rest]), h.tasks.trans h'.tasks, h.replies.trans h'.replies⟩

theorem now (h : Extends d d') : d'.now = d.now := by rw [h.rest]

theorem network (h : Extends d d') : d'.network = d.network := by rw [h.rest]

theorem openRequests (h : Extends d d') : d'.openRequests = d.openRequests := by rw [h.rest]

theorem responses (h : Extends d d') : d'.responses = d.responses := by rw [h.rest]

theorem requests (h : Extends d d') : d'.requests = d.requests := by rw [h.rest]

end Extends

/-- The jobs with the numbers `ids` have gone on, and no others. -/
structure Advances (ids : List Nat) (d d' : Daemon σ) : Prop extends Extends d d' where
  begun : d'.begun = d.begun
  nextTick : d'.nextTick = d.nextTick
  launched : d'.system.launched = d.system.launched
  tickets : d'.system.tickets = d.system.tickets
  jobs : ∀ o ∈ d.system.jobs, o.id ∉ ids → o ∈ d'.system.jobs
  others : ∀ t ∈ d'.tasks, t ∈ d.tasks ∨ t.id ∈ ids

theorem Advances.refl (ids : List Nat) (d : Daemon σ) : Advances ids d d :=
  ⟨.refl d, rfl, rfl, rfl, rfl, fun _ h _ => h, fun _ h => .inl h⟩

theorem Advances.trans {ids ids' : List Nat} {d d' d'' : Daemon σ} (h : Advances ids d d')
    (h' : Advances ids' d' d'') : Advances (ids ++ ids') d d'' := by
  refine ⟨h.toExtends.trans h'.toExtends, h'.begun.trans h.begun, h'.nextTick.trans h.nextTick,
    h'.launched.trans h.launched, h'.tickets.trans h.tickets, fun o ho hid => ?_, fun t ht => ?_⟩
  · rw [List.mem_append, not_or] at hid
    exact h'.jobs o (h.jobs o ho hid.1) hid.2
  · rcases h'.others t ht with ht | ht
    · exact (h.others t ht).imp_right (List.mem_append_left _)
    · exact .inr (List.mem_append_right _ ht)

/-- An open request stays open, if it has time left, or is answered. Beside that something may be
told. -/
theorem settleRequest_cases (d : Daemon σ) (o : OpenRequest) :
    (d.now < o.ends ∧ d.settleRequest o = d.keepOpen o) ∨
      ∃ s x, s.quiet = d.system.quiet ∧
        d.settleRequest o = { d with system := s, responses := (o.number, x) :: d.responses } := by
  rw [settleRequest, OpenRequest.ends]
  cases o.wait with
  | reply ticket deadline =>
    by_cases hd : deadline ≤ d.now
    · simp only [hd, if_true]
      exact .inr ⟨_, _, rfl, rfl⟩
    · simp only [hd, if_false]
      cases d.system.replyTo? ticket with
      | none => exact .inl ⟨Nat.lt_of_not_le hd, rfl⟩
      | some sent => exact .inr ⟨_, _, rfl, rfl⟩
  | outcome ends address action outcome =>
    by_cases hd : ends ≤ d.now
    · simp only [hd, if_true]
      exact .inr ⟨d.system.apply (.tell (.acted address action outcome)), _, rfl, rfl⟩
    · exact .inl ⟨Nat.lt_of_not_le hd, if_neg hd⟩

/-- The work of a daemon is the same as before. -/
structure SameWork (d d' : Daemon σ) : Prop where
  network : d'.network = d.network
  tasks : d'.tasks = d.tasks
  begun : d'.begun = d.begun
  system : d'.system.quiet = d.system.quiet

/-- Open requests and responses have been added, and nothing else has happened. -/
structure Settles (d d' : Daemon σ) : Prop extends SameWork d d' where
  now : d'.now = d.now
  nextTick : d'.nextTick = d.nextTick
  requests : d'.requests = d.requests
  openRequests : d.openRequests <+: d'.openRequests
  responses : d.responses <:+ d'.responses

theorem Settles.trans {d d' d'' : Daemon σ} (h : Settles d d') (h' : Settles d' d'') :
    Settles d d'' :=
  ⟨⟨h'.network.trans h.network, h'.tasks.trans h.tasks, h'.begun.trans h.begun,
    h'.system.trans h.system⟩, h'.now.trans h.now, h'.nextTick.trans h.nextTick,
    h'.requests.trans h.requests, h.openRequests.trans h'.openRequests,
    h.responses.trans h'.responses⟩

theorem settles_settleRequest (d : Daemon σ) (o : OpenRequest) : Settles d (d.settleRequest o) := by
  rcases settleRequest_cases d o with ⟨-, h⟩ | ⟨s, x, hq, h⟩
  · rw [h]
    exact ⟨⟨rfl, rfl, rfl, rfl⟩, rfl, rfl, rfl, List.prefix_append _ _, List.suffix_refl _⟩
  · rw [h]
    exact ⟨⟨rfl, rfl, rfl, hq⟩, rfl, rfl, rfl, List.prefix_refl _, List.suffix_cons _ _⟩

theorem settles_foldl (l : List OpenRequest) (d : Daemon σ) :
    Settles d (l.foldl settleRequest d) := by
  induction l generalizing d with
  | nil => exact ⟨⟨rfl, rfl, rfl, rfl⟩, rfl, rfl, rfl, List.prefix_refl _, List.suffix_refl _⟩
  | cons o l ih => exact (settles_settleRequest d o).trans (ih _)

theorem settles_settleRequests (d : Daemon σ) :
    Settles { d with openRequests := [] } d.settleRequests :=
  settles_foldl d.openRequests _

variable [Store σ]

/-- What a moment makes of a job: it goes on, or it ends. Beside that something may be told. -/
theorem progress_cases (d : Daemon σ) (id : Nat) (p : Progress) :
    ∃ s calls, s.quiet = d.system.quiet ∧
      ((∃ stage, p.next = .inl stage ∧
          d.progress id p = { d with system := s, calls, tasks := d.tasks ++ [⟨id, stage⟩] }) ∨
        (∃ result, p.next = .inr result ∧
          d.progress id p = { d with system := s.finish id result, calls })) := by
  refine ⟨_, p.calls.reverse ++ d.calls, System.quiet_foldl_tell p.log d.system, ?_⟩
  rw [progress]
  cases p.next with
  | inl stage => exact .inl ⟨stage, rfl, rfl⟩
  | inr result => exact .inr ⟨result, rfl, rfl⟩

theorem advances_progress (d : Daemon σ) (id : Nat) (p : Progress) :
    Advances [id] d (d.progress id p) := by
  obtain ⟨s, calls, hq, hp⟩ := progress_cases d id p
  have hs := System.eq_of_quiet hq.symm
  have hreplies : s.replies = d.system.replies := by rw [hs]
  have hlaunched : s.launched = d.system.launched := by rw [hs]
  have htickets : s.tickets = d.system.tickets := by rw [hs]
  have hjobs : s.jobs = d.system.jobs := by rw [hs]
  rcases hp with ⟨stage, -, hp⟩ | ⟨result, -, hp⟩
  · rw [hp]
    refine ⟨⟨rfl, List.prefix_append _ _, ?_⟩, rfl, rfl, hlaunched, htickets, fun o ho _ => ?_,
      fun t ht => ?_⟩
    · exact hreplies ▸ List.suffix_refl _
    · exact hjobs ▸ ho
    · rcases List.mem_append.mp ht with ht | ht
      · exact .inl ht
      · rw [List.mem_singleton.mp ht]
        exact .inr (List.mem_singleton_self id)
  · -- A job that ends takes itself off the list, and nobody else.
    obtain ⟨hends, hlaunches⟩ := System.finish_jobs s id result
    rw [hp]
    refine ⟨⟨rfl, List.prefix_refl _, ?_⟩, rfl, rfl, hlaunches.trans hlaunched, ?_,
      fun o ho hid => ?_, fun t ht => .inl ht⟩
    · exact hreplies ▸ System.replies_suffix_turn s (.finish id result)
    · exact (System.tickets_turn s (.finish id result)).trans htickets
    · change o ∈ (s.finish id result).jobs
      rw [hends, List.mem_filter, hjobs]
      exact ⟨ho, by simpa using List.ne_of_not_mem_cons hid⟩

omit [Store σ] in
theorem advances_foldl {α : Type} {id : α → Nat} {f : Daemon σ → α → Daemon σ}
    (hf : ∀ d a, Advances [id a] d (f d a)) (l : List α) (d : Daemon σ) :
    Advances (l.map id) d (l.foldl f d) := by
  induction l generalizing d with
  | nil => exact .refl [] d
  | cons a l ih => exact (hf d a).trans (ih (f d a))

theorem advances_stepTask (d : Daemon σ) (t : StagedJob) : Advances [t.id] d (d.stepTask t) := by
  rw [stepTask]
  split
  · exact advances_progress _ _ _
  · refine ⟨⟨rfl, List.prefix_append _ _, List.suffix_refl _⟩, rfl, rfl, rfl, rfl,
      fun o ho _ => ho, fun t' ht => ?_⟩
    rcases List.mem_append.mp ht with ht | ht
    · exact .inl ht
    · rw [List.mem_singleton.mp ht]
      exact .inr (List.mem_singleton_self _)

theorem advances_stepTasks (d : Daemon σ) :
    Advances (d.tasks.map (·.id)) { d with tasks := [] } d.stepTasks :=
  advances_foldl advances_stepTask d.tasks _

theorem advances_beginJobs (d : Daemon σ) :
    Advances ((d.system.jobs.filter fun o => d.begun ≤ o.id).map (·.id))
      { d with begun := d.system.launched } d.beginJobs :=
  advances_foldl (fun d o => advances_progress d o.id (o.job.begins d.network d.now)) _ _

theorem extends_beginJobs (d : Daemon σ) : Extends d d.beginJobs := by
  have hbegun : Extends d { d with begun := d.system.launched } :=
    ⟨rfl, List.prefix_refl _, List.suffix_refl _⟩
  exact hbegun.trans (advances_beginJobs d).toExtends

/-- A turn of the system takes nothing away from a daemon. -/
theorem extends_happen (d : Daemon σ) (t : Turn) :
    Extends d (d.happen fun s => s.turn t) := by
  have hturn : Extends d { d with system := d.system.turn t } :=
    ⟨rfl, List.prefix_refl _, System.replies_suffix_turn d.system t⟩
  exact hturn.trans (extends_beginJobs _)

theorem tickets_happen (d : Daemon σ) (t : Turn) :
    (d.happen fun s => s.turn t).system.tickets = (d.system.before t).tickets :=
  (advances_beginJobs { d with system := d.system.turn t }).tickets.trans
    (System.tickets_turn d.system t)

/-- At a moment tasks go on, a second may pass, and then the requests are settled. -/
theorem moment_cases (d : Daemon σ) :
    (d.stepTasks.nextTick ≤ d.stepTasks.now ∧
      d.moment = ({ d.stepTasks with
        nextTick := d.stepTasks.nextTick + tickLength }.happen System.tick).settleRequests) ∨
    (d.stepTasks.now < d.stepTasks.nextTick ∧ d.moment = d.stepTasks.settleRequests) := by
  by_cases htick : d.stepTasks.nextTick ≤ d.stepTasks.now
  · refine .inl ⟨htick, ?_⟩
    rw [moment]
    simp only [htick, if_true]
  · refine .inr ⟨Nat.lt_of_not_le htick, ?_⟩
    rw [moment]
    simp only [htick, if_false]

/-- Nothing is taken away from a daemon at a moment before the requests are settled. -/
theorem exists_moment (d : Daemon σ) :
    ∃ d', Extends d.stepTasks d' ∧ d'.system.tickets = d.system.tickets ∧
      d.moment = d'.settleRequests := by
  have htickets := (advances_stepTasks d).tickets
  rcases moment_cases d with ⟨-, hm⟩ | ⟨-, hm⟩
  · have hnext : Extends d.stepTasks
        { d.stepTasks with nextTick := d.stepTasks.nextTick + tickLength } :=
      ⟨rfl, List.prefix_refl _, List.suffix_refl _⟩
    exact ⟨_, hnext.trans (extends_happen _ .tick), (tickets_happen _ .tick).trans htickets, hm⟩
  · exact ⟨_, .refl _, htickets, hm⟩

end Daemon

end MinerFleet
