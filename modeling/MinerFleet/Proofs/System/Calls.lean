/-
Whom the jobs of a system ask.

* `Call.Allowed` — a request that may be made: to an IPv4 address, to the seed, or about the name
  of a host;
* `Careful`, `Job.Careful` — a stage, or a job, has nothing but IPv4 addresses left to dial, and a
  discovery asks the seed;
* `Progress.Careful` — all requests of a moment may be made, and the next stage is careful;
* `System.Careful` — all miners of the fleet are dialed at IPv4 addresses, and the jobs are careful.

An address that is dialed comes from one of four places: a network is scanned, a miner is added by
its address, the name of a host is looked up, or a miner is known. The first two give IPv4
addresses by themselves and the third one does if hosts are found at such; then so do all records,
however often they have been asked and written anew (`Run.careful`).
-/
import MinerFleet.Proofs.Engine.Storage
import MinerFleet.Proofs.System.Naming
import MinerFleet.Proofs.System.Quiet

namespace MinerFleet

/-! ### Requests -/

/-- A request that may be made. A miner is asked at an IPv4 address; only the seed may be asked by a
name, and only if that is one of a miner. What is looked up is the name of a host. -/
def Call.Allowed (seed : Option String) (c : Call) : Prop :=
  match c.kind with
  | .info =>
    isIpLiteral c.target = true ∨ seed = some c.target ∧ isPeer c.target = true
  | .asic => isIpLiteral c.target = true
  | .act => isIpLiteral c.target = true
  | .resolve => isHostName c.target = true

variable {W : Network → Prop} {seed : Option String} {net : Network} {now : Nat}

theorem allowed_probeCalls {target : Target}
    (h : isIpLiteral target.connectionAddress = true) (fetchAsic : Bool) :
    ∀ c ∈ net.probeCalls now fetchAsic target, c.Allowed seed := by
  intro c hc
  rw [Network.probeCalls] at hc
  rcases List.mem_cons.mp hc with rfl | hc
  · exact .inl h
  · cases fetchAsic with
    | true =>
      rw [List.mem_singleton.mp hc]
      exact h
    | false => exact absurd hc List.not_mem_nil

/-! ### Stages -/

/-- A pool takes up nothing that is not one of its targets. -/
theorem Pool.mem_of_taken {τ ο : Type} {p : Pool τ ο} {work : τ → Nat × ο} {t : τ}
    (h : t ∈ (p.step now work).2) : t ∈ p.targets := by
  have hinit : ∀ (ts : List τ) (p : Pool τ ο), (takeUpFrom now work p ts).2 <+: ts := by
    intro ts
    induction ts with
    | nil => exact fun p => List.prefix_refl []
    | cons t ts ih =>
      intro p
      rw [takeUpFrom]
      by_cases hroom : p.running.length < p.limit
      · rw [if_pos hroom]
        exact List.prefix_cons_inj t |>.mpr (ih _)
      · rw [if_neg hroom]
        exact List.nil_prefix
  have hwaiting : t ∈ p.waiting := (hinit p.waiting (p.settle now)).subset h
  exact List.mem_append_left _ (List.mem_append_left _ hwaiting)

/-- All that a stage may still dial are IPv4 addresses; a result dials nothing. -/
def Careful : Stage ⊕ JobResult → Prop
  | .inl (.discovering pool) | .inl (.refreshing pool _) =>
    ∀ t ∈ pool.targets, isIpLiteral t.connectionAddress = true
  | .inl (.resolving _ _ _ result) =>
    ∀ address, result = .ok address → isIpLiteral address = true
  | .inl (.asking ..) | .inl (.probing ..) | .inr _ => True

/-- A moment of a job makes requests that may be made, and leaves a careful stage. -/
structure Progress.Careful (seed : Option String) (p : Progress) : Prop where
  calls : ∀ c ∈ p.calls, c.Allowed seed
  next : MinerFleet.Careful p.next

/-- One more request that may be made. -/
theorem Progress.Careful.call {p : Progress} (h : p.Careful seed) {c : Call}
    (hc : c.Allowed seed) : Progress.Careful seed { p with calls := c :: p.calls } := by
  refine ⟨fun c' hc' => ?_, h.next⟩
  rcases List.mem_cons.mp hc' with rfl | hc'
  · exact hc
  · exact h.calls c' hc'

/-- A moment of a pool asks targets of the pool, and keeps them. -/
theorem allowed_step {pool : ProbePool} (net : Network) (now : Nat) (fetchAsic : Bool)
    (h : ∀ t ∈ pool.targets, isIpLiteral t.connectionAddress = true) :
    (∀ c ∈ (pool.step now (net.probe fetchAsic)).2.flatMap (net.probeCalls now fetchAsic),
      c.Allowed seed) ∧
    ∀ t ∈ (pool.step now (net.probe fetchAsic)).1.targets,
      isIpLiteral t.connectionAddress = true := by
  constructor
  · intro c hc
    obtain ⟨t, ht, hc⟩ := List.mem_flatMap.mp hc
    exact allowed_probeCalls (h t (Pool.mem_of_taken ht)) fetchAsic c hc
  · intro t ht
    exact h t ((pool.perm_step now _).mem_iff.mp ht)

theorem careful_stepDiscovery {pool : ProbePool}
    (h : ∀ t ∈ pool.targets, isIpLiteral t.connectionAddress = true) :
    (Stage.stepDiscovery net now pool).Careful seed := by
  obtain ⟨hcalls, htargets⟩ := allowed_step net now true h
  refine ⟨hcalls, ?_⟩
  rw [Stage.stepDiscovery]
  by_cases hd : (pool.step now (net.probe true)).1.isDone
  · simp only [hd, if_true]
    exact trivial
  · simp only [hd]
    exact htargets

theorem careful_stepRefresh {pool : ProbePool} (fetchAsic : Bool)
    (h : ∀ t ∈ pool.targets, isIpLiteral t.connectionAddress = true) :
    (Stage.stepRefresh net now pool fetchAsic).Careful seed := by
  obtain ⟨hcalls, htargets⟩ := allowed_step net now fetchAsic h
  rw [Stage.stepRefresh]
  by_cases hd : (pool.step now (net.probe fetchAsic)).1.isDone
  · simp only [hd, if_true]
    exact ⟨hcalls, trivial⟩
  · simp only [hd]
    exact ⟨hcalls, htargets⟩

/-- Whatever the seed has answered, a network is scanned at IPv4 addresses. -/
theorem careful_beginDiscovery (name netmask : String) (n : Nat)
    (answer : Except ProbeFailure Json) :
    (Stage.beginDiscovery net now name netmask n answer).Careful seed := by
  rw [Stage.beginDiscovery]
  cases hs : scanTargets name netmask answer with
  | error fault => exact ⟨List.forall_mem_nil _, trivial⟩
  | ok addresses =>
    have htargets : ∀ t ∈ (Pool.start n (targetsAt addresses) : ProbePool).targets,
        isIpLiteral t.connectionAddress = true := by
      intro t ht
      rw [Pool.targets_start] at ht
      exact isIpLiteral_of_scanned (scanned_of_mem hs ht)
    have hstep : (Stage.stepDiscovery net now _).Careful seed := careful_stepDiscovery htargets
    exact ⟨hstep.calls, hstep.next⟩

theorem careful_stepProbe (name : String) (ticket ends : Nat)
    (outcome : Except ProbeFailure Device) :
    (Stage.stepProbe now name ticket ends outcome).Careful seed := by
  rw [Stage.stepProbe]
  split
  · exact ⟨List.forall_mem_nil _, trivial⟩
  · exact ⟨List.forall_mem_nil _, trivial⟩

theorem careful_beginProbe {address : String} (h : isIpLiteral address = true) (name : String)
    (ticket : Nat) : (Stage.beginProbe net now name address ticket).Careful seed := by
  let target : Target := ⟨address, some (Device.at_ name address)⟩
  have hstep : (Stage.stepProbe now name ticket (now + (net.probe true target).1)
      (net.probe true target).2).Careful seed := careful_stepProbe name ticket _ _
  have htarget : isIpLiteral target.connectionAddress = true := h
  exact ⟨allowed_probeCalls htarget true, hstep.next⟩

theorem careful_stepResolve {result : Except ProbeFailure String}
    (h : ∀ address, result = .ok address → isIpLiteral address = true) (host : String)
    (ticket : Nat) (ends : Option Nat) :
    (Stage.stepResolve net now host ticket ends result).Careful seed := by
  unfold Stage.stepResolve
  split
  · cases result with
    | error failure => exact ⟨List.forall_mem_nil _, trivial⟩
    | ok address => exact careful_beginProbe (h address rfl) host ticket
  · exact ⟨List.forall_mem_nil _, h⟩

/-- A careful stage gives way to a careful one. -/
theorem Careful.step {stage : Stage} (h : Careful (.inl stage)) (net : Network) (now : Nat)
    (seed : Option String) : (stage.step net now).Careful seed := by
  cases stage with
  | asking name netmask n ends answer =>
    rw [Stage.step]
    split
    · exact careful_beginDiscovery name netmask n answer
    · exact ⟨List.forall_mem_nil _, trivial⟩
  | discovering pool => exact careful_stepDiscovery h
  | refreshing pool fetchAsic => exact careful_stepRefresh fetchAsic h
  | resolving host ticket ends result => exact careful_stepResolve h host ticket ends
  | probing name ticket ends outcome => exact careful_stepProbe name ticket ends outcome

/-! ### Jobs -/

/-- A discovery asks the seed, and a refresh knows its miners by IPv4 addresses. -/
def Job.Careful (seed : Option String) : Job → Prop
  | .discovery name _ _ => seed = some name
  | .refresh known _ _ => ∀ k ∈ known, isIpLiteral k.connectionAddress = true
  | .peer _ _ => True

theorem careful_beginAsking {name : String} (h : seed = some name) (netmask : String) (n : Nat) :
    (Job.beginAsking net now name netmask n).Careful seed := by
  rw [Job.beginAsking]
  by_cases hp : isPeer name
  · rw [if_pos hp]
    let stage : Stage := .asking name netmask n (now + ((net.info name).within probeLimit).1)
      ((net.info name).within probeLimit).2
    have hstage : Careful (.inl stage) := trivial
    have hstep := hstage.step net now seed
    exact hstep.call (.inr ⟨h, hp⟩)
  · rw [if_neg hp]
    exact ⟨List.forall_mem_nil _, trivial⟩

/-- What is neither an address nor the name of a host is neither dialed nor looked up. -/
theorem careful_beginPeer (hf : FindsAddresses W) (hn : W net) (name : String) (ticket : Nat) :
    (Job.beginPeer net now name ticket).Careful seed := by
  rw [Job.beginPeer]
  cases hp : isPeer (Text.trim name) with
  | false =>
    simp only [Bool.not_false, if_true]
    exact ⟨List.forall_mem_nil _, trivial⟩
  | true =>
    cases hip : isIpLiteral (Text.trim name) with
    | true =>
      simp only [Bool.not_true, Bool.false_eq_true, if_false, if_true]
      exact careful_beginProbe hip _ ticket
    | false =>
      simp only [Bool.not_true, Bool.false_eq_true, if_false]
      have hhost : isHostName (Text.trim name) = true := by
        rw [isPeer, hip, Bool.false_or] at hp
        exact hp
      refine Progress.Careful.call (careful_stepResolve (fun address he => ?_) _ ticket _) hhost
      cases hr : net.resolve (Text.trim name) with
      | never =>
        rw [hr] at he
        cases he
      | after delay result =>
        rw [hr] at he
        obtain rfl : result = .ok address := he
        exact hf net hn _ delay address hr

/-- A careful job begins with a careful stage. -/
theorem Job.Careful.begins {job : Job} (h : job.Careful seed) (hf : FindsAddresses W)
    (hn : W net) (now : Nat) : (job.begins net now).Careful seed := by
  cases job with
  | discovery name netmask n =>
    rw [Job.begins]
    exact careful_beginAsking h netmask n
  | refresh known n fetchAsic =>
    rw [Job.begins]
    refine careful_stepRefresh fetchAsic fun t ht => ?_
    rw [Pool.targets_start] at ht
    obtain ⟨k, hk, rfl⟩ := List.mem_map.mp ht
    exact h k hk
  | peer name ticket =>
    rw [Job.begins]
    exact careful_beginPeer hf hn name ticket

/-! ### Runs -/

namespace System

variable {σ : Type} [Store σ] {config : Config} {store : σ} {cs : List Command} {s : System σ}

/-- All miners that a system knows are dialed at IPv4 addresses, and its jobs are careful. -/
structure Careful (seed : Option String) (s : System σ) : Prop where
  devices : ∀ d ∈ s.devices, isIpLiteral d.connectionAddress = true
  jobs : ∀ o ∈ s.jobs, o.job.Careful seed

/-- A miner that a turn brings is dialed at an IPv4 address, whatever brings it. -/
theorem Tracked.literal_turn (h : Tracked cs s) (hf : FindsAddresses W)
    (hs : ∀ d ∈ s.devices, isIpLiteral d.connectionAddress = true) {t : Turn}
    (ht : s.Possible W t) : ∀ d ∈ (s.turn t).devices, isIpLiteral d.connectionAddress = true := by
  have hr := h.registered ht
  generalize (s.turn t).devices = after at hr
  cases t with
  | tick => exact fun d hd => hs d (hr d hd)
  | command c => exact fun d hd => hs d (hr d hd)
  | stop => exact fun d hd => hs d (hr d hd)
  | finish id result =>
    cases result with
    | discovered result =>
      intro d hd
      rcases hr d hd with hd | ⟨seed, netmask, n, -, hscanned, -⟩
      · exact hs d hd
      · have hip := isIpLiteral_of_scanned hscanned
        exact hip
    | refreshed report =>
      obtain ⟨known, n, fetchAsic, records, -, hp, hkeeps⟩ := hr
      intro d' hd'
      obtain ⟨d, hd, hconn, -⟩ := exists_of_mem_forall₂ hkeeps (hp.mem_iff.mp hd')
      rw [hconn]
      exact hs d hd
    | probed result ticket =>
      intro d hd
      rcases hr d hd with hd | rfl
      · exact hs d hd
      · obtain ⟨name, -, -, hy⟩ := h.peer_of_possible ht
        obtain ⟨-, -, hdials⟩ := identity_of_peer hy (Text.trim_trim name)
        rw [Dials] at hdials
        by_cases hip : isIpLiteral (Text.trim name)
        · rw [if_pos hip] at hdials
          rw [hdials]
          exact hip
        · rw [if_neg hip] at hdials
          obtain ⟨net, hn, delay, hresolve⟩ := hdials
          exact hf net hn _ delay _ hresolve

/-- An engine keeps its settings. -/
theorem Run.config_eq {ts : List Turn} (h : Run W (started config store) ts s) :
    s.engine.config = config :=
  h.engine_keeps (P := fun e => e.config = config) rfl fun e event he =>
    (Engine.step_writes e event).config.trans he

omit [Store σ] in
/-- A job that an event launches is careful: a discovery asks the seed, and a refresh knows the
miners of the fleet. -/
theorem careful_of_launched {e e' : Engine σ} {event : Event} {jobs : List Job}
    (h : Engine.Launched e event jobs e')
    (hs : ∀ d ∈ e.registry.devices, isIpLiteral d.connectionAddress = true) :
    ∀ job ∈ jobs, job.Careful e.config.seed := by
  intro job hj
  cases h with
  | nothing _ => exact absurd hj List.not_mem_nil
  | discovery hseed _ _ =>
    rw [List.mem_singleton.mp hj]
    exact hseed
  | refresh fetchAsic _ _ =>
    rw [List.mem_singleton.mp hj]
    exact hs
  | peer _ _ =>
    rw [List.mem_singleton.mp hj]
    trivial

theorem careful_of_numbered {e : Engine σ} {event : Event} {n : Nat} {o : Ongoing}
    (ho : o ∈ numbered n (launches (e.step event).2))
    (hs : ∀ d ∈ e.registry.devices, isIpLiteral d.connectionAddress = true) :
    o.job.Careful e.config.seed := by
  have hm := (mem_numbered ho).2.2
  exact careful_of_launched (Engine.launched_of_mem hm) hs o.job hm

/-- In every run, all miners are dialed at IPv4 addresses, and all jobs are careful, if the store
holds such addresses and hosts are found at such. -/
theorem Run.careful {ts : List Turn} (h : Run W (started config store) ts s)
    (hf : FindsAddresses W)
    (hs : ∀ k ∈ stored store, isIpLiteral k.connectionAddress = true) :
    s.Careful config.seed := by
  induction h with
  | refl =>
    have hmade : ∀ d ∈ (System.make config store).devices,
        isIpLiteral d.connectionAddress = true :=
      fun d hd => hs d ((perm_made config store).mem_iff.mp hd)
    refine ⟨fun d hd => hs d ((started_cases config store).2.mem_iff.mp hd), fun o ho => ?_⟩
    rw [jobs_started] at ho
    exact careful_of_numbered ho hmade
  | @turn ts s t h ht ih =>
    refine ⟨h.tracked.literal_turn hf ih.devices ht, fun o ho => ?_⟩
    rcases mem_jobs_turn ho with ho | ⟨event, -, ho⟩
    · exact ih.jobs o ((before_jobs_sublist s t).subset ho)
    · have hlaunched := careful_of_numbered ho ih.devices
      rwa [h.config_eq] at hlaunched

theorem After.careful (h : After W config store cs s) (hf : FindsAddresses W)
    (hs : ∀ k ∈ stored store, isIpLiteral k.connectionAddress = true) :
    s.Careful config.seed := by
  obtain ⟨ts, s', hrun, -, he⟩ := h
  have hcareful := hrun.careful hf hs
  rw [eq_of_quiet he]
  exact ⟨hcareful.devices, hcareful.jobs⟩

/-- To add what is neither an address nor the name of a host launches nothing. -/
theorem jobs_add_of_not_peer (s : System σ) {name : String}
    (h : isPeer (Text.trim name) = false) : (s.turn (.command (.add name))).jobs = s.jobs := by
  rcases turn_cases s (.command (.add name)) with ⟨event, he, hs⟩ | ⟨-, hs⟩
  · obtain rfl := Option.some.inj (event?_eq_some.mp he).2
    have hnone : launches (s.engine.step (.command s.tickets (.add name))).2 = [] := by
      rw [Engine.launches_step, Engine.handle, Engine.command, Engine.add, h]
      rfl
    rw [hs, happen_jobs, before_engine, hnone, numbered, List.append_nil]
    rfl
  · exact hs.jobs

end System

end MinerFleet
