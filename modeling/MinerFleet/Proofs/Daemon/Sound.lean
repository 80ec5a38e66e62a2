/-
What every run of a daemon keeps.

* `Daemon.Steady` — the system of a daemon has gone through a run of turns, and each of its tasks
  is a job under way that comes to what can come of it;
* `Daemon.Sound` — moreover, all jobs that were launched have begun.

`Run.sound` is a simulation: whatever happens to a daemon, a run of turns has happened to its
system, so that what is so of every such run is so of every daemon. The loops over jobs are
inductions over those that have not had their turn yet (`Steady.foldl`).
-/
import MinerFleet.Proofs.Daemon.Run

namespace MinerFleet.Daemon

open Api Http

variable {σ : Type} [Store σ] {W : Network → Prop} {config : Config} {store : σ}
  {cs : List Command} {d d' : Daemon σ}

/-- What comes of a job at this stage can come of the job. -/
def Follows (W : Network → Prop) (o : Ongoing) (next : Stage ⊕ JobResult) : Prop :=
  ∀ r, Leads W next r → o.job.Yields W r

/-- The system of a daemon has gone through a run, and its tasks are jobs under way. -/
structure Steady (W : Network → Prop) (config : Config) (store : σ) (cs : List Command)
    (d : Daemon σ) : Prop where
  system : d.system.After W config store cs
  network : W d.network
  nodup : (d.tasks.map (·.id)).Nodup
  tasks : ∀ t ∈ d.tasks, ∃ o ∈ d.system.jobs, o.id = t.id ∧ Follows W o (.inl t.stage)

/-- All jobs that were launched have begun. -/
structure Sound (W : Network → Prop) (config : Config) (store : σ) (cs : List Command)
    (d : Daemon σ) : Prop extends Steady W config store cs d where
  begun : d.begun = d.system.launched

/-! ### Changes that have to do with no job -/

theorem Steady.of_sameWork (h : Steady W config store cs d) (hd : SameWork d d') :
    Steady W config store cs d' := by
  have hs := System.eq_of_quiet hd.system.symm
  refine ⟨h.system.of_quiet hd.system, hd.network ▸ h.network, hd.tasks ▸ h.nodup, fun t ht => ?_⟩
  obtain ⟨o, ho, hid, hl⟩ := h.tasks t (hd.tasks ▸ ht)
  exact ⟨o, by rw [hs]; exact ho, hid, hl⟩

theorem Sound.of_sameWork (h : Sound W config store cs d) (hd : SameWork d d') :
    Sound W config store cs d' := by
  have hs := System.eq_of_quiet hd.system.symm
  refine ⟨h.toSteady.of_sameWork hd, hd.begun.trans (h.begun.trans ?_)⟩
  rw [hs]

/-! ### Jobs -/

/-- One more task. -/
theorem Steady.push (h : Steady W config store cs d) {o : Ongoing} {t : StagedJob}
    (ho : o ∈ d.system.jobs) (hid : o.id = t.id) (hfree : ∀ t' ∈ d.tasks, t'.id ≠ t.id)
    (ht : Follows W o (.inl t.stage)) :
    Steady W config store cs { d with tasks := d.tasks ++ [t] } := by
  refine ⟨h.system, h.network, ?_, fun t' ht' => ?_⟩
  · rw [List.map_append, List.nodup_append]
    refine ⟨h.nodup, List.nodup_singleton _, fun a ha b hb he => ?_⟩
    obtain ⟨t', ht', rfl⟩ := List.mem_map.mp ha
    rw [List.map_singleton, List.mem_singleton] at hb
    exact hfree t' ht' (he.trans hb)
  · rcases List.mem_append.mp ht' with ht' | ht'
    · exact h.tasks t' ht'
    · rw [List.mem_singleton.mp ht']
      exact ⟨o, ho, hid, ht⟩

/-- A moment of a job. -/
theorem Steady.progress (h : Steady W config store cs d) {o : Ongoing} (ho : o ∈ d.system.jobs)
    (hfree : ∀ t ∈ d.tasks, t.id ≠ o.id) {p : Progress} (hp : Follows W o p.next) :
    Steady W config store cs (d.progress o.id p) := by
  have hadv := advances_progress d o.id p
  obtain ⟨s, calls, hq, hcases⟩ := progress_cases d o.id p
  have hmem : o ∈ s.jobs := by
    rw [System.eq_of_quiet hq.symm]
    exact ho
  have hd : Steady W config store cs { d with system := s, calls } :=
    h.of_sameWork ⟨rfl, rfl, rfl, hq⟩
  rcases hcases with ⟨stage, hnext, he⟩ | ⟨result, hnext, he⟩
  · rw [he]
    exact hd.push hmem rfl hfree (hnext ▸ hp)
  · have hpossible : s.Possible W (.finish o.id result) :=
      ⟨o.job, hmem, hp result (hnext ▸ .result result)⟩
    have hafter := hd.system.turn hpossible
    rw [show asked [.finish o.id result] = [] from rfl, List.append_nil] at hafter
    rw [he] at hadv ⊢
    refine ⟨hafter, h.network, h.nodup, fun t ht => ?_⟩
    -- The other jobs have other numbers and go on.
    obtain ⟨o', ho', hid, hl⟩ := h.tasks t ht
    have hne : o'.id ∉ [o.id] := by
      rw [List.mem_singleton, hid]
      exact hfree t ht
    exact ⟨o', hadv.jobs o' ho' hne, hid, hl⟩

/-- A loop over jobs, where `Due` is what is known of each until it has its turn. -/
theorem Steady.foldl {α : Type} {id : α → Nat} (Due : Ongoing → α → Prop)
    {f : Daemon σ → α → Daemon σ} (hf : ∀ d a, Advances [id a] d (f d a))
    (hstep : ∀ d a o, Steady W config store cs d → o ∈ d.system.jobs → o.id = id a → Due o a →
      (∀ t ∈ d.tasks, t.id ≠ id a) → Steady W config store cs (f d a))
    {l : List α} (h : Steady W config store cs d)
    (hl : ∀ a ∈ l, ∃ o ∈ d.system.jobs, o.id = id a ∧ Due o a) (hn : (l.map id).Nodup)
    (hfree : ∀ a ∈ l, ∀ t ∈ d.tasks, t.id ≠ id a) :
    Steady W config store cs (l.foldl f d) := by
  induction l generalizing d with
  | nil => exact h
  | cons a l ih =>
    have hadv := hf d a
    rw [List.map_cons, List.nodup_cons] at hn
    -- Those that come later have other numbers, so that the turn of this one leaves them alone.
    have hne : ∀ a' ∈ l, id a' ∉ [id a] := fun a' ha' he =>
      hn.1 (List.mem_singleton.mp he ▸ List.mem_map_of_mem ha')
    obtain ⟨o, ho, hid, hdue⟩ := hl a List.mem_cons_self
    have hfirst := hstep d a o h ho hid hdue (hfree a List.mem_cons_self)
    refine ih hfirst (fun a' ha' => ?_) hn.2 fun a' ha' t ht => ?_
    · obtain ⟨o', ho', hid', hdue'⟩ := hl a' (List.mem_cons_of_mem a ha')
      exact ⟨o', hadv.jobs o' ho' (hid' ▸ hne a' ha'), hid', hdue'⟩
    · rcases hadv.others t ht with ht | ht
      · exact hfree a' (List.mem_cons_of_mem a ha') t ht
      · rw [List.mem_singleton.mp ht]
        exact fun he => hne a' ha' (he ▸ List.mem_singleton_self _)

/-- Tasks go on. -/
theorem Sound.stepTasks (h : Sound W config store cs d) :
    Sound W config store cs d.stepTasks := by
  have hadv := advances_stepTasks d
  refine ⟨?_, hadv.begun.trans (h.begun.trans hadv.launched.symm)⟩
  have hempty : Steady W config store cs { d with tasks := [] } :=
    ⟨h.system, h.network, List.nodup_nil, fun t ht => absurd ht List.not_mem_nil⟩
  refine Steady.foldl (fun o t => Follows W o (.inl t.stage)) advances_stepTask
    (fun d t o hd ho hid hdue hfree => ?_) hempty h.tasks h.nodup
    fun _ _ t ht => absurd ht List.not_mem_nil
  rw [stepTask]
  split
  · rw [← hid] at hfree ⊢
    exact hd.progress ho hfree fun r hr => hdue r (.moment _ _ hd.network hr)
  · exact hd.push ho hid hfree hdue

/-- What has been launched begins. -/
theorem Steady.beginJobs (h : Steady W config store cs d) (hlt : ∀ t ∈ d.tasks, t.id < d.begun) :
    Sound W config store cs d.beginJobs := by
  have hstep : ∀ (d : Daemon σ) (o : Ongoing),
      Advances [o.id] d (d.progress o.id (o.job.begins d.network d.now)) :=
    fun d o => advances_progress d o.id _
  have hadv := advances_beginJobs d
  refine ⟨?_, hadv.begun.trans hadv.launched.symm⟩
  have hbegun : Steady W config store cs { d with begun := d.system.launched } :=
    ⟨h.system, h.network, h.nodup, h.tasks⟩
  refine Steady.foldl (· = ·) hstep (fun d o o' hd ho _ he hfree => ?_) hbegun (fun o ho => ?_) ?_
    fun o ho t ht => ?_
  · rw [← he] at hfree ⊢
    exact hd.progress ho hfree fun r hr => ⟨d.network, d.now, hd.network, hr⟩
  · exact ⟨o, (List.mem_filter.mp ho).1, rfl, rfl⟩
  · exact (List.filter_sublist.map _).nodup h.system.tracked.nodup
  · have hle : d.begun ≤ o.id := by simpa using (List.mem_filter.mp ho).2
    have htask := hlt t ht
    omega

/-- The tasks of a daemon have numbers that were given out. -/
theorem Sound.task_lt (h : Sound W config store cs d) : ∀ t ∈ d.tasks, t.id < d.begun := by
  intro t ht
  obtain ⟨o, ho, hid, -⟩ := h.tasks t ht
  rw [← hid, h.begun]
  exact h.system.tracked.ids o ho

/-- A turn that ends no job happens to the system, and what it has launched begins. -/
theorem Sound.happen (h : Sound W config store cs d) {t : Turn} (ht : d.system.Possible W t)
    (hjobs : (d.system.before t).jobs = d.system.jobs) :
    Sound W config store (cs ++ asked [t]) (d.happen fun s => s.turn t) := by
  refine Steady.beginJobs ⟨h.system.turn ht, h.network, h.nodup, fun t' ht' => ?_⟩ h.task_lt
  obtain ⟨o, ho, hid, hl⟩ := h.tasks t' ht'
  obtain ⟨jobs, hnew, -⟩ := System.turn_jobs d.system t
  refine ⟨o, ?_, hid, hl⟩
  change o ∈ (d.system.turn t).jobs
  rw [hnew, hjobs]
  exact List.mem_append_left _ ho

/-! ### Requests -/

theorem Sound.settleRequests (h : Sound W config store cs d) :
    Sound W config store cs d.settleRequests := by
  have hempty : Sound W config store cs { d with openRequests := [] } :=
    h.of_sameWork ⟨rfl, rfl, rfl, rfl⟩
  exact hempty.of_sameWork (settles_settleRequests d).toSameWork

theorem Sound.moment (h : Sound W config store cs d) : Sound W config store cs d.moment := by
  have hstep := h.stepTasks
  rcases moment_cases d with ⟨-, hm⟩ | ⟨-, hm⟩
  · have hsame : SameWork d.stepTasks
        { d.stepTasks with nextTick := d.stepTasks.nextTick + tickLength } := ⟨rfl, rfl, rfl, rfl⟩
    -- A second that is full is a turn without a command.
    have hnext := (hstep.of_sameWork hsame).happen (t := .tick) trivial rfl
    rw [show asked [.tick] = [] from rfl, List.append_nil] at hnext
    rw [hm]
    exact hnext.settleRequests
  · rw [hm]
    exact hstep.settleRequests

theorem Sound.catchUp (h : Sound W config store cs d) : Sound W config store cs d.catchUp := by
  rw [Daemon.catchUp]
  by_cases hdue : d.nextMoment ≤ d.now
  · rw [if_pos hdue]
    exact h.moment
  · rwa [if_neg hdue]

theorem Sound.carryOut (h : Sound W config store cs d) (number : Nat) (method : Method)
    (route : Route) :
    Sound W config store (cs ++ route.command?.toList) (d.carryOut number method route) := by
  rw [Daemon.carryOut]
  cases hplan : route.plan d.published with
  | command c =>
    rw [Route.plan_eq_command.mp hplan]
    have hnext := h.catchUp.happen (t := .command c) trivial rfl
    refine (hnext.of_sameWork ?_).settleRequests
    exact ⟨rfl, rfl, rfl, rfl⟩
  | respond r =>
    have hnone := Route.command?_eq_none fun c hc => nomatch hplan.symm.trans hc
    rw [hnone, Option.toList_none, List.append_nil]
    exact h.of_sameWork ⟨rfl, rfl, rfl, rfl⟩
  | act device action =>
    have hnone := Route.command?_eq_none fun c hc => nomatch hplan.symm.trans hc
    rw [hnone, Option.toList_none, List.append_nil]
    refine Sound.settleRequests (h.of_sameWork ?_)
    exact ⟨rfl, rfl, rfl, rfl⟩

theorem Sound.request (h : Sound W config store cs d) (r : Request) :
    Sound W config store (cs ++ (Move.request r).command?.toList) (d.request r) := by
  have hnext : Sound W config store cs { d with requests := d.requests + 1 } :=
    h.of_sameWork ⟨rfl, rfl, rfl, rfl⟩
  rw [Move.command?, Daemon.request]
  cases Route.ofRequest r with
  | error rejection =>
    rw [Except.toOption, Option.bind_none, Option.toList_none, List.append_nil]
    exact hnext.of_sameWork ⟨rfl, rfl, rfl, rfl⟩
  | ok route => exact hnext.carryOut d.requests r.method route

/-- The engine ends, and its jobs go on. -/
theorem Sound.stop (h : Sound W config store cs d) : Sound W config store cs d.stop := by
  have hafter := h.system.turn (t := .stop) trivial
  rw [show asked [.stop] = [] from rfl, List.append_nil] at hafter
  have hsame : d.system.stop.jobs = d.system.jobs ∧
      d.system.stop.launched = d.system.launched := by
    rw [System.stop]
    split <;> exact ⟨rfl, rfl⟩
  refine ⟨⟨hafter, h.network, h.nodup, fun t ht => ?_⟩, h.begun.trans hsame.2.symm⟩
  obtain ⟨o, ho, hid, hl⟩ := h.tasks t ht
  exact ⟨o, hsame.1 ▸ ho, hid, hl⟩

/-! ### Runs -/

theorem Sound.move (h : Sound W config store cs d) {m : Move} (hm : d.Possible W m) :
    Sound W config store (cs ++ m.command?.toList) (d.move m) := by
  cases m with
  | request r => exact h.request r
  | wait time =>
    simp only [Move.command?, Option.toList_none, List.append_nil]
    exact h.of_sameWork ⟨rfl, rfl, rfl, rfl⟩
  | proceed =>
    simp only [Move.command?, Option.toList_none, List.append_nil]
    refine Sound.moment (h.of_sameWork ?_)
    exact ⟨rfl, rfl, rfl, rfl⟩
  | stop =>
    simp only [Move.command?, Option.toList_none, List.append_nil]
    exact h.stop
  | rewire network =>
    simp only [Move.command?, Option.toList_none, List.append_nil]
    exact ⟨⟨h.system, hm, h.nodup, h.tasks⟩, h.begun⟩

theorem sound_launch (config : Config) (store : σ) {network : Network} (hn : W network) :
    Sound W config store [] (launch config store network) := by
  refine Steady.beginJobs ⟨⟨[], _, .refl, rfl, rfl⟩, hn, List.nodup_nil, ?_⟩ ?_
  · exact fun t ht => absurd ht List.not_mem_nil
  · exact fun t ht => absurd ht List.not_mem_nil

/-- However the moves follow each other, a run of turns has happened to the system, and its
commands are those that were given. -/
theorem Sound.run (h : Sound W config store cs d) {ms : List Move} (hrun : Run W d ms d') :
    Sound W config store (cs ++ given ms) d' := by
  induction hrun with
  | refl =>
    rw [given, List.filterMap_nil, List.append_nil]
    exact h
  | move _ hm ih =>
    rw [given_append, ← List.append_assoc, given_singleton]
    exact ih.move hm

theorem Run.sound {network : Network} {ms : List Move} (hn : W network)
    (h : Run W (launch config store network) ms d) : Sound W config store (given ms) d :=
  (sound_launch config store hn).run h

end MinerFleet.Daemon
