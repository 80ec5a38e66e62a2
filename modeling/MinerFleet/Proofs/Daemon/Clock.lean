/-
The clock of a daemon.

* `Stage.EndsAfter`, `Stage.GoesOn` — a stage, or what a moment makes of one, that has time left;
* `Daemon.Rests` — no job goes on before some moment;
* `Daemon.OnTime` — nothing is overdue, and no request is open for longer than `commandLimit`.

A moment leaves nothing that is due (`lt_nextMoment_moment`), so each moment comes later than the
one before, and the moments that `Daemon.advance` and `Daemon.await` are given are enough. What they
do is a run (`OnTime.advance`), and every request is answered in time (`answered_in_time`).
-/
import MinerFleet.Proofs.Daemon.Requests
import MinerFleet.Proofs.Probe.Duration

namespace MinerFleet

open Api Http

/-! ### Jobs -/

namespace Stage

variable {now : Nat}

/-- Nothing happens to a job before some later moment. -/
def EndsAfter (now : Nat) (stage : Stage) : Prop :=
  ∀ e, stage.nextEnd? = some e → now < e

/-- A job has ended, or has time left. -/
inductive GoesOn (now : Nat) : Stage ⊕ JobResult → Prop
  | stage {s : Stage} (h : s.EndsAfter now) : GoesOn now (.inl s)
  | result {r : JobResult} : GoesOn now (.inr r)

theorem goesOn_stepDiscovery (net : Network) (now : Nat) (pool : ProbePool) :
    GoesOn now (stepDiscovery net now pool).next := by
  rw [stepDiscovery]
  dsimp only
  split
  · exact .result
  · exact .stage fun e he => Pool.lt_of_nextEnd?_step he

theorem goesOn_stepRefresh (net : Network) (now : Nat) (pool : ProbePool) (fetchAsic : Bool) :
    GoesOn now (stepRefresh net now pool fetchAsic).next := by
  rw [stepRefresh]
  dsimp only
  split
  · exact .result
  · exact .stage fun e he => Pool.lt_of_nextEnd?_step he

theorem goesOn_beginDiscovery (net : Network) (now : Nat) (seed netmask : String)
    (concurrency : Nat) (answer : Except ProbeFailure Json) :
    GoesOn now (beginDiscovery net now seed netmask concurrency answer).next := by
  rw [beginDiscovery]
  split
  · exact .result
  · exact goesOn_stepDiscovery net now _

theorem goesOn_stepProbe (now : Nat) (address : String) (ticket ends : Nat)
    (outcome : Except ProbeFailure Device) :
    GoesOn now (stepProbe now address ticket ends outcome).next := by
  rw [stepProbe]
  split
  · exact .result
  · next hends => exact .stage fun e he => Option.some.inj he ▸ Nat.lt_of_not_le hends

theorem goesOn_stepResolve (net : Network) (now : Nat) (host : String) (ticket : Nat)
    (ends : Option Nat) (result : Except ProbeFailure String) :
    GoesOn now (stepResolve net now host ticket ends result).next := by
  unfold stepResolve
  split
  · cases result with
    | ok connectionAddress => exact goesOn_stepProbe now host ticket _ _
    | error failure => exact .result
  · -- An address may never be found, and then there is no end.
    next hends =>
    refine .stage fun e he => ?_
    have hends' : ends = some e := he
    rw [hends'] at hends
    simpa using hends

/-- What a moment makes of a job has time left. -/
theorem goesOn_step (net : Network) (now : Nat) (stage : Stage) :
    GoesOn now (stage.step net now).next := by
  cases stage with
  | asking seed netmask concurrency ends answer =>
    rw [step]
    split
    · exact goesOn_beginDiscovery net now seed netmask concurrency answer
    · next hends => exact .stage fun e he => Option.some.inj he ▸ Nat.lt_of_not_le hends
  | discovering pool => exact goesOn_stepDiscovery net now pool
  | refreshing pool fetchAsic => exact goesOn_stepRefresh net now pool fetchAsic
  | resolving host ticket ends result => exact goesOn_stepResolve net now host ticket ends result
  | probing address ticket ends outcome => exact goesOn_stepProbe now address ticket ends outcome

theorem goesOn_begins (net : Network) (now : Nat) (job : Job) :
    GoesOn now (job.begins net now).next := by
  cases job with
  | discovery seed netmask concurrency =>
    rw [Job.begins, Job.beginAsking]
    split
    · exact goesOn_step net now _
    · exact .result
  | refresh known concurrency fetchAsic => exact goesOn_stepRefresh net now _ fetchAsic
  | peer address ticket =>
    rw [Job.begins, Job.beginPeer]
    dsimp only
    split
    · exact .result
    · split
      · exact goesOn_stepProbe now _ ticket _ _
      · exact goesOn_stepResolve net now _ ticket _ _

end Stage

namespace Daemon

variable {σ : Type} {d d' : Daemon σ} {n : Nat}

/-! ### The next moment -/

/-- No job goes on before some moment. -/
def Rests (n : Nat) (d : Daemon σ) : Prop :=
  ∀ t ∈ d.tasks, ∀ e, t.stage.nextEnd? = some e → n ≤ e

/-- The next moment is the first one at which a second is full, a job goes on or a request is given
up. -/
theorem le_nextMoment :
    n ≤ d.nextMoment ↔ n ≤ d.nextTick ∧ Rests n d ∧ ∀ o ∈ d.openRequests, n ≤ o.ends := by
  let ends := d.tasks.filterMap (·.stage.nextEnd?) ++ d.openRequests.map OpenRequest.ends
  have hmin : (d.nextTick :: ends).min? = some d.nextMoment := List.min?_cons'
  rw [List.le_min?_iff hmin, List.forall_mem_cons, List.forall_mem_append, List.forall_mem_map]
  refine and_congr_right fun _ => and_congr_left fun _ => ⟨fun h t ht e he => ?_, fun h e he => ?_⟩
  · exact h e (List.mem_filterMap.mpr ⟨t, ht, he⟩)
  · obtain ⟨t, ht, he⟩ := List.mem_filterMap.mp he
    exact h t ht e he

theorem nextMoment_le (d : Daemon σ) :
    d.nextMoment ≤ d.nextTick ∧ Rests d.nextMoment d ∧
      ∀ o ∈ d.openRequests, d.nextMoment ≤ o.ends :=
  le_nextMoment.mp (Nat.le_refl _)

/-! ### Requests that are settled -/

theorem open_foldl_settleRequest {l : List OpenRequest} {o : OpenRequest}
    (h : o ∈ (l.foldl settleRequest d).openRequests) :
    o ∈ d.openRequests ∨ o ∈ l ∧ d.now < o.ends := by
  induction l generalizing d with
  | nil => exact .inl h
  | cons o' l ih =>
    have hnow : (d.settleRequest o').now = d.now := (settles_settleRequest d o').now
    rcases ih h with h | ⟨hl, hlt⟩
    · rcases settleRequest_cases d o' with ⟨hlt, he⟩ | ⟨s, x, -, he⟩
      · rw [he] at h
        rcases List.mem_append.mp h with h | h
        · exact .inl h
        · rw [List.mem_singleton.mp h]
          exact .inr ⟨List.mem_cons_self, hlt⟩
      · rw [he] at h
        exact .inl h
    · exact .inr ⟨List.mem_cons_of_mem _ hl, hnow ▸ hlt⟩

/-- A request that stays open has time left. -/
theorem open_settleRequests {o : OpenRequest} (h : o ∈ d.settleRequests.openRequests) :
    o ∈ d.openRequests ∧ d.now < o.ends := by
  rcases open_foldl_settleRequest h with h | h
  · exact absurd h List.not_mem_nil
  · exact h

/-- When the requests have been settled, none of them is due. -/
theorem le_nextMoment_settleRequests (hn : n ≤ d.now + 1) (htick : n ≤ d.nextTick)
    (h : Rests n d) : n ≤ d.settleRequests.nextMoment := by
  have hs := settles_settleRequests d
  refine le_nextMoment.mpr ⟨hs.nextTick.symm ▸ htick, fun t ht => h t (hs.tasks ▸ ht), ?_⟩
  exact fun o ho => Nat.le_trans hn (open_settleRequests ho).2

/-! ### Jobs that go on -/

variable [Store σ]

theorem Rests.progress (hn : n ≤ d.now + 1) (h : Rests n d) (id : Nat) {p : Progress}
    (hp : Stage.GoesOn d.now p.next) : Rests n (d.progress id p) := by
  obtain ⟨s, calls, -, ⟨stage, hnext, he⟩ | ⟨result, -, he⟩⟩ := progress_cases d id p
  · rw [hnext] at hp
    cases hp with
    | stage hs =>
      rw [he]
      intro t ht e hend
      rcases List.mem_append.mp ht with ht | ht
      · exact h t ht e hend
      · rw [List.mem_singleton.mp ht] at hend
        exact Nat.le_trans hn (hs e hend)
  · rw [he]
    exact h

theorem Rests.stepTask (hn : n ≤ d.now + 1) (h : Rests n d) (t : StagedJob) :
    Rests n (d.stepTask t) := by
  rw [Daemon.stepTask]
  split
  · exact h.progress hn t.id (Stage.goesOn_step d.network d.now t.stage)
  · next hends =>
    intro t' ht e hend
    rcases List.mem_append.mp ht with ht | ht
    · exact h t' ht e hend
    · rw [List.mem_singleton.mp ht] at hend
      rw [hend] at hends
      have hlt : d.now < e := by simpa using hends
      exact Nat.le_trans hn hlt

omit [Store σ] in
theorem Rests.foldl {α : Type} {id : α → Nat} {f : Daemon σ → α → Daemon σ}
    (hf : ∀ d a, Advances [id a] d (f d a))
    (hrests : ∀ d a, n ≤ d.now + 1 → Rests n d → Rests n (f d a)) (l : List α)
    (hn : n ≤ d.now + 1) (h : Rests n d) : Rests n (l.foldl f d) := by
  induction l generalizing d with
  | nil => exact h
  | cons a l ih => exact ih ((hf d a).now ▸ hn) (hrests d a hn h)

/-- Whatever of the jobs was due has happened. -/
theorem rests_stepTasks (d : Daemon σ) : Rests (d.now + 1) d.stepTasks := by
  have hempty : Rests (d.now + 1) { d with tasks := [] } := fun t ht => absurd ht List.not_mem_nil
  exact Rests.foldl advances_stepTask (fun _ t hn h => h.stepTask hn t) d.tasks (Nat.le_refl _)
    hempty

theorem Rests.beginJobs (hn : n ≤ d.now + 1) (h : Rests n d) : Rests n d.beginJobs := by
  refine Rests.foldl (d := { d with begun := d.system.launched })
    (fun d o => advances_progress d (Ongoing.id o) _) (fun d o hn h => ?_) _ hn h
  exact h.progress hn o.id (Stage.goesOn_begins d.network d.now o.job)

theorem Rests.happen (hn : n ≤ d.now + 1) (h : Rests n d) (f : System σ → System σ) :
    Rests n (d.happen f) :=
  Rests.beginJobs (d := { d with system := f d.system }) hn h

theorem nextTick_happen (d : Daemon σ) (f : System σ → System σ) :
    (d.happen f).nextTick = d.nextTick :=
  (advances_beginJobs { d with system := f d.system }).nextTick

/-! ### Moments -/

/-- A moment leaves nothing that is due. -/
theorem lt_nextMoment_moment (h : d.now ≤ d.nextTick) : d.moment.now < d.moment.nextMoment := by
  have hadvances := advances_stepTasks d
  have hnow : d.stepTasks.now = d.now := hadvances.now
  have htick : d.stepTasks.nextTick = d.nextTick := hadvances.nextTick
  have hrests := rests_stepTasks d
  rw [(keeps_moment d).now]
  rcases moment_cases d with ⟨hdue, hm⟩ | ⟨hdue, hm⟩
  · -- The clock has not gone past the second that is full, so the next one is still to come.
    have hlength : 0 < tickLength := by decide
    rw [hm]
    let d₁ : Daemon σ := { d.stepTasks with nextTick := d.stepTasks.nextTick + tickLength }
    have hnow₁ : (d₁.happen System.tick).now = d.now := (extends_happen d₁ .tick).now.trans hnow
    have htick₁ : (d₁.happen System.tick).nextTick = d.stepTasks.nextTick + tickLength :=
      nextTick_happen d₁ System.tick
    have hrests₁ : Rests (d.now + 1) (d₁.happen System.tick) :=
      Rests.happen (d := d₁) (Nat.le_of_eq (congrArg (· + 1) hnow.symm)) hrests System.tick
    have hnext : d.now + 1 ≤ (d₁.happen System.tick).settleRequests.nextMoment :=
      le_nextMoment_settleRequests (by omega) (by omega) hrests₁
    exact hnext
  · rw [hm]
    exact le_nextMoment_settleRequests (by omega) (by omega) hrests

theorem open_moment {o : OpenRequest} (h : o ∈ d.moment.openRequests) : o ∈ d.openRequests := by
  obtain ⟨d', hx, -, hm⟩ := exists_moment d
  rw [hm] at h
  have hopen := (open_settleRequests h).1
  rwa [hx.openRequests, (advances_stepTasks d).openRequests] at hopen

theorem open_proceed {o : OpenRequest} (h : o ∈ d.proceed.openRequests) : o ∈ d.openRequests :=
  open_moment (d := { d with now := max d.now d.nextMoment }) h

/-- Nothing is overdue, and no request is open for longer than `commandLimit`. -/
structure OnTime (d : Daemon σ) : Prop where
  due : d.now ≤ d.nextMoment
  limits : ∀ o ∈ d.openRequests, o.ends ≤ d.now + commandLimit

/-- Time passes up to the next moment, and nothing that is due then is left. -/
theorem OnTime.proceed (h : OnTime d) :
    OnTime d.proceed ∧ d.proceed.now = d.nextMoment ∧ d.proceed.now < d.proceed.nextMoment := by
  have hmax : max d.now d.nextMoment = d.nextMoment := Nat.max_eq_right h.due
  have htick : d.nextMoment ≤ d.nextTick := d.nextMoment_le.1
  have hlt : d.proceed.now < d.proceed.nextMoment :=
    lt_nextMoment_moment (d := { d with now := max d.now d.nextMoment }) (hmax.symm ▸ htick)
  have hnow : d.proceed.now = d.nextMoment := (keeps_moment _).now.trans hmax
  refine ⟨⟨Nat.le_of_lt hlt, fun o ho => ?_⟩, hnow, hlt⟩
  have hlimit := h.limits o (open_proceed ho)
  have hdue := h.due
  omega

/-! ### Requests that come -/

omit [Store σ] in
/-- One more request is open, and is settled with the others. -/
theorem OnTime.keepOpen (h : OnTime d) {o : OpenRequest} (ho : o.ends ≤ d.now + commandLimit) :
    OnTime (d.keepOpen o).settleRequests := by
  obtain ⟨htick, hrests, -⟩ := le_nextMoment.mp h.due
  have hnow : (d.keepOpen o).settleRequests.now = d.now := (settles_settleRequests _).now
  constructor
  · rw [hnow]
    exact le_nextMoment_settleRequests (Nat.le_succ _) htick hrests
  · intro o' ho'
    rw [hnow]
    rcases List.mem_append.mp (open_settleRequests ho').1 with ho' | ho'
    · exact h.limits o' ho'
    · rwa [List.mem_singleton.mp ho']

theorem OnTime.moment (h : OnTime d) : OnTime d.moment := by
  have hnow := (keeps_moment d).now
  refine ⟨Nat.le_of_lt (lt_nextMoment_moment (le_nextMoment.mp h.due).1), fun o ho => ?_⟩
  rw [hnow]
  exact h.limits o (open_moment ho)

theorem OnTime.catchUp (h : OnTime d) : OnTime d.catchUp := by
  rw [Daemon.catchUp]
  split
  · exact h.moment
  · exact h

theorem OnTime.beginJobs (h : OnTime d) : OnTime d.beginJobs := by
  obtain ⟨htick, hrests, hopen⟩ := le_nextMoment.mp h.due
  have hx := extends_beginJobs d
  have hnext : d.beginJobs.nextTick = d.nextTick := (advances_beginJobs d).nextTick
  constructor
  · rw [hx.now, le_nextMoment, hnext, hx.openRequests]
    exact ⟨htick, hrests.beginJobs (Nat.le_succ _), hopen⟩
  · rw [hx.now, hx.openRequests]
    exact h.limits

theorem OnTime.happen (h : OnTime d) (f : System σ → System σ) : OnTime (d.happen f) :=
  OnTime.beginJobs (d := { d with system := f d.system }) ⟨h.due, h.limits⟩

theorem OnTime.carryOut (h : OnTime d) (number : Nat) (method : Method) (route : Route) :
    OnTime (d.carryOut number method route) := by
  rw [Daemon.carryOut]
  cases route.plan d.published with
  | respond r => exact ⟨h.due, h.limits⟩
  | command c =>
    -- What is due happens first, and neither that nor the command takes time.
    have hnow : (d.catchUp.happen fun s => s.turn (.command c)).now = d.now :=
      (extends_happen _ _).now.trans (keeps_catchUp d).now
    have hlimit : d.now + commandLimit =
        (d.catchUp.happen fun s => s.turn (.command c)).now + commandLimit := by rw [hnow]
    exact (h.catchUp.happen fun s => s.turn (.command c)).keepOpen (Nat.le_of_eq hlimit)
  | act device action =>
    have hlimit : actionLimit ≤ commandLimit := by decide
    have htime := (d.network.act device.connectionAddress action).within_le actionLimit
    let call := d.network.actCall d.now device.connectionAddress action
    have hcall : OnTime { d with calls := call :: d.calls } := ⟨h.due, h.limits⟩
    exact hcall.keepOpen (Nat.add_le_add_left (Nat.le_trans htime hlimit) d.now)

theorem OnTime.request (h : OnTime d) (r : Request) : OnTime (d.request r) := by
  have hnext : OnTime { d with requests := d.requests + 1 } := ⟨h.due, h.limits⟩
  rw [Daemon.request]
  cases Route.ofRequest r with
  | error rejection => exact ⟨h.due, h.limits⟩
  | ok route => exact hnext.carryOut d.requests r.method route

/-! ### Runs -/

variable {W : Network → Prop} {ms : List Move}

theorem OnTime.move (h : OnTime d) {m : Move} (hm : d.Possible W m) : OnTime (d.move m) := by
  cases m with
  | request r => exact h.request r
  | wait time =>
    refine ⟨hm, fun o ho => Nat.le_trans (h.limits o ho) ?_⟩
    exact Nat.add_le_add_right (Nat.le_add_right _ _) _
  | proceed => exact h.proceed.1
  | stop => exact ⟨h.due, h.limits⟩
  | rewire network => exact ⟨h.due, h.limits⟩

theorem OnTime.run (h : OnTime d) (hrun : Run W d ms d') : OnTime d' := by
  induction hrun with
  | refl => exact h
  | move _ hm ih => exact ih.move hm

theorem onTime_launch (config : Config) (store : σ) (network : Network) :
    OnTime (launch config store network) := by
  have hmade : OnTime (Daemon.make config store network) :=
    ⟨Nat.zero_le _, fun o ho => absurd ho List.not_mem_nil⟩
  exact hmade.happen System.start

/-- In a run nothing is ever overdue. -/
theorem Run.onTime {config : Config} {store : σ} {network : Network}
    (h : Run W (launch config store network) ms d) : OnTime d :=
  (onTime_launch config store network).run h

/-! ### Time that passes -/

/-- One can wait up to the next moment. -/
theorem OnTime.wait (W : Network → Prop) {goal : Nat} (hle : d.now ≤ goal)
    (hgoal : goal ≤ d.nextMoment) : ∃ ms, Run W d ms { d with now := goal } := by
  have hnow : d.now + (goal - d.now) = goal := Nat.add_sub_cancel' hle
  have hpossible : d.Possible W (.wait (goal - d.now)) := Nat.le_trans (Nat.le_of_eq hnow) hgoal
  have hrun := Run.refl.move hpossible
  rw [Daemon.move, hnow] at hrun
  exact ⟨_, hrun⟩

/-- The moments are enough to get to the end of the time. -/
theorem OnTime.advanceTo (W : Network → Prop) {goal fuel : Nat} (h : OnTime d) (hle : d.now ≤ goal)
    (hfuel : goal ≤ d.nextMoment + fuel) : ∃ ms, Run W d ms (Daemon.advanceTo goal fuel d) := by
  induction fuel generalizing d with
  | zero => exact OnTime.wait W hle hfuel
  | succ fuel ih =>
    rw [Daemon.advanceTo]
    split
    · next hgoal => exact OnTime.wait W hle hgoal
    · -- The moment after this one is later by a millisecond at least.
      obtain ⟨hproceed, hnow, hlt⟩ := h.proceed
      obtain ⟨ms, hrun⟩ := ih hproceed (by omega) (by omega)
      exact ⟨_, (Run.refl.move (m := .proceed) trivial).trans hrun⟩

/-- When time passes, what happens is a run. -/
theorem OnTime.advance (W : Network → Prop) (h : OnTime d) (time : Nat) :
    ∃ ms, Run W d ms (d.advance time) :=
  h.advanceTo W (Nat.le_add_right _ _) (Nat.add_le_add_right h.due time)

omit [Store σ] in
/-- A request that came is answered or open. -/
theorem Numbered.answered_or_open (h : Numbered d) {number : Nat} (hn : number < d.requests) :
    (∃ x, d.responseTo? number = some x) ∨ ∃ o ∈ d.openRequests, o.number = number := by
  rcases List.mem_append.mp (h.mem_iff.mpr (List.mem_range.mpr hn)) with ho | hr
  · exact .inr (List.mem_map.mp ho)
  · obtain ⟨⟨_, x⟩, hx, rfl⟩ := List.mem_map.mp hr
    refine .inl (Option.isSome_iff_exists.mp ?_)
    by_contra hnone
    have := List.lookup_eq_none_iff.mp (Option.not_isSome_iff_eq_none.mp hnone) _ hx
    simp at this

omit [Store σ] in
theorem Numbered.answered_or_due (h : Numbered d) {number limit : Nat} (hn : number < d.requests)
    (hlimit : ∀ o ∈ d.openRequests, o.ends ≤ limit) :
    (∃ x, d.responseTo? number = some x) ∨ d.nextMoment ≤ limit := by
  refine (h.answered_or_open hn).imp_right ?_
  rintro ⟨o, ho, -⟩
  exact Nat.le_trans (d.nextMoment_le.2.2 o ho) (hlimit o ho)

/-- The moments are enough to get to the end of a request. -/
theorem OnTime.awaitFrom (W : Network → Prop) {number limit fuel : Nat} (h : OnTime d)
    (hn : Numbered d) (hnumber : number < d.requests) (hnow : d.now ≤ limit)
    (hlimit : ∀ o ∈ d.openRequests, o.ends ≤ limit) (hfuel : limit < d.nextMoment + fuel) :
    ∃ ms, Run W d ms (Daemon.awaitFrom number fuel d) ∧
      (∃ x, (Daemon.awaitFrom number fuel d).responseTo? number = some x) ∧
      (Daemon.awaitFrom number fuel d).now ≤ limit := by
  induction fuel generalizing d with
  | zero =>
    have hx := (hn.answered_or_due hnumber hlimit).resolve_right (Nat.not_le_of_gt hfuel)
    exact ⟨[], .refl, hx, hnow⟩
  | succ fuel ih =>
    rw [Daemon.awaitFrom]
    by_cases hx : (d.responseTo? number).isSome
    · rw [if_pos hx]
      exact ⟨[], .refl, Option.isSome_iff_exists.mp hx, hnow⟩
    · rw [if_neg hx]
      -- Who has no answer has an open request, whose end is a moment that is still to come.
      have hdue : d.nextMoment ≤ limit := (hn.answered_or_due hnumber hlimit).resolve_left
        fun hsome => hx (Option.isSome_iff_exists.mpr hsome)
      obtain ⟨hproceed, hnow', hlt⟩ := h.proceed
      have hrequests : d.proceed.requests = d.requests := (keeps_moment _).requests
      obtain ⟨ms, hrun, hanswer⟩ := ih hproceed (hn.move .proceed) (hrequests ▸ hnumber)
        (by omega) (fun o ho => hlimit o (open_proceed ho)) (by omega)
      exact ⟨_, (Run.refl.move (m := .proceed) trivial).trans hrun, hanswer⟩

/-- Who waits for the response to a request gets it in time, and what happens meanwhile is a
run. -/
theorem OnTime.await (W : Network → Prop) {number : Nat} (h : OnTime d) (hn : Numbered d)
    (hnumber : number < d.requests) :
    ∃ ms, Run W d ms (d.await number) ∧ (∃ x, (d.await number).responseTo? number = some x) ∧
      (d.await number).now ≤ d.now + commandLimit := by
  have hdue := h.due
  exact h.awaitFrom W hn hnumber (Nat.le_add_right _ _) h.limits (by omega)

/-! ### Answers in time -/

theorem open_catchUp {o : OpenRequest} (h : o ∈ d.catchUp.openRequests) : o ∈ d.openRequests := by
  rw [catchUp] at h
  split at h
  · exact open_moment h
  · exact h

/-- Taking up a request takes no time, and opens no other one. -/
theorem open_carryOut (d : Daemon σ) (number : Nat) (method : Method) (route : Route) :
    (d.carryOut number method route).now = d.now ∧
      ∀ o ∈ (d.carryOut number method route).openRequests,
        o ∈ d.openRequests ∨ o.number = number := by
  rcases carryOut_cases d number method route with ⟨x, h⟩ | ⟨d₀, d₁, o', h₀, hx, hnumber, h⟩
  · rw [h]
    exact ⟨rfl, fun o ho => .inl ho⟩
  · have hnow : d₀.now = d.now := (keeps_of_caughtUp h₀).now
    have hopen : ∀ o ∈ d₀.openRequests, o ∈ d.openRequests := by
      rcases h₀ with rfl | rfl
      · exact fun o ho => ho
      · exact fun o ho => open_catchUp ho
    rw [h]
    refine ⟨(keeps_settleRequests _).now.trans (hx.now.trans hnow), fun o ho => ?_⟩
    rcases List.mem_append.mp (open_settleRequests ho).1 with ho | ho
    · exact .inl (hopen o (hx.openRequests ▸ ho))
    · rw [List.mem_singleton.mp ho]
      exact .inr hnumber

theorem open_request (d : Daemon σ) (r : Request) :
    (d.request r).now = d.now ∧
      ∀ o ∈ (d.request r).openRequests, o ∈ d.openRequests ∨ o.number = d.requests := by
  rw [request]
  cases Route.ofRequest r with
  | error rejection => exact ⟨rfl, fun o ho => .inl ho⟩
  | ok route => exact open_carryOut { d with requests := d.requests + 1 } d.requests r.method route

/-- Requests get new numbers, and those that are open have been since they came. -/
structure Comes (d d' : Daemon σ) : Prop where
  requests : d.requests ≤ d'.requests
  openRequests : ∀ o ∈ d'.openRequests, o ∈ d.openRequests ∨ d.requests ≤ o.number

theorem comes_move (d : Daemon σ) (m : Move) : Comes d (d.move m) := by
  cases m with
  | request r =>
    refine ⟨(request_keeps d r).2.1 ▸ Nat.le_succ _, fun o ho => ?_⟩
    exact ((open_request d r).2 o ho).imp_right fun h => Nat.le_of_eq h.symm
  | proceed =>
    have hrequests : d.proceed.requests = d.requests := (keeps_moment _).requests
    exact ⟨Nat.le_of_eq hrequests.symm, fun o ho => .inl (open_proceed ho)⟩
  | wait time => exact ⟨Nat.le_refl _, fun o ho => .inl ho⟩
  | stop => exact ⟨Nat.le_refl _, fun o ho => .inl ho⟩
  | rewire network => exact ⟨Nat.le_refl _, fun o ho => .inl ho⟩

theorem Run.comes (h : Run W d ms d') : Comes d d' := by
  induction h with
  | refl => exact ⟨Nat.le_refl _, fun o ho => .inl ho⟩
  | @move _ d₁ m _ _ ih =>
    have hmove := comes_move d₁ m
    refine ⟨Nat.le_trans ih.requests hmove.requests, fun o ho => ?_⟩
    rcases hmove.openRequests o ho with ho | ho
    · exact ih.openRequests o ho
    · exact .inr (Nat.le_trans ih.requests ho)

/-- In every run, whoever asks something has an answer when `commandLimit` is over, whatever else
happens. -/
theorem answered_in_time {config : Config} {store : σ} {network : Network}
    {before during : List Move} {d₀ : Daemon σ} {r : Request}
    (h₀ : Run W (launch config store network) before d₀) (h : Run W (d₀.request r) during d)
    (hlate : d₀.now + commandLimit < d.now) : ∃ x, d.responseTo? d₀.requests = some x := by
  have hrequest : Run W (launch config store network) (before ++ [.request r]) (d₀.request r) :=
    h₀.move trivial
  have hrun := hrequest.trans h
  have hnext : (d₀.request r).requests = d₀.requests + 1 := (request_keeps d₀ r).2.1
  have hcomes := h.comes
  refine (hrun.numbered.answered_or_open (by have := hcomes.requests; omega)).resolve_right ?_
  rintro ⟨o, ho, hnumber⟩
  -- It has been open since it came, and is not open for longer than it may be.
  have hends : o.ends ≤ d₀.now + commandLimit := by
    rcases hcomes.openRequests o ho with ho | hle
    · rw [← (open_request d₀ r).1]
      exact hrequest.onTime.limits o ho
    · omega
  have hnow : d.now ≤ o.ends :=
    Nat.le_trans hrun.onTime.due (d.nextMoment_le.2.2 o ho)
  omega

end Daemon

end MinerFleet
