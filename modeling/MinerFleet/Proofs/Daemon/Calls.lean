/-
What a daemon asks of its network.

* `Daemon.Careful` — all that was asked may be asked, and so it is of what its tasks will ask.

`Run.careful` says so of every run of a daemon: what a moment asks is asked by a job, which the
system has launched over miners that are dialed at IPv4 addresses, or by a request that tells a
miner of the published fleet to do something. A request to add what is no name of a miner asks
nothing (`only_addresses_are_dialed`).
-/
import MinerFleet.Proofs.Daemon.Added
import MinerFleet.Proofs.System.Calls

namespace MinerFleet.Daemon

open Api Http

variable {σ : Type} [Store σ] {W : Network → Prop} {config : Config} {store : σ}
  {cs : List Command} {d d' : Daemon σ} {seed : Option String}

/-- All that a daemon has asked may be asked, and its tasks go on in the same way. -/
structure Careful (seed : Option String) (d : Daemon σ) : Prop where
  calls : ∀ c ∈ d.calls, c.Allowed seed
  tasks : ∀ t ∈ d.tasks, MinerFleet.Careful (.inl t.stage)

omit [Store σ] in
theorem Careful.of_eq (h : Careful seed d) (hc : d'.calls = d.calls) (ht : d'.tasks = d.tasks) :
    Careful seed d' :=
  ⟨hc ▸ h.calls, ht ▸ h.tasks⟩

/-! ### Jobs -/

/-- A careful moment of a job. -/
theorem Careful.progress (h : Careful seed d) {p : Progress} (hp : p.Careful seed) (id : Nat) :
    Careful seed (d.progress id p) := by
  have hcalls : ∀ c ∈ p.calls.reverse ++ d.calls, c.Allowed seed := by
    intro c hc
    rcases List.mem_append.mp hc with hc | hc
    · exact hp.calls c (List.mem_reverse.mp hc)
    · exact h.calls c hc
  have hnext := hp.next
  rw [Daemon.progress]
  cases he : p.next with
  | inr result => exact ⟨hcalls, h.tasks⟩
  | inl stage =>
    rw [he] at hnext
    refine ⟨hcalls, fun t ht => ?_⟩
    rcases List.mem_append.mp ht with ht | ht
    · exact h.tasks t ht
    · rw [List.mem_singleton.mp ht]
      exact hnext

omit [Store σ] in
/-- A loop over jobs, on a network that stays as it is. -/
theorem Careful.foldl {α : Type} {f : Daemon σ → α → Daemon σ} {l : List α}
    (hf : ∀ d a, (f d a).network = d.network)
    (hstep : ∀ d a, W d.network → Careful seed d → a ∈ l → Careful seed (f d a))
    (hn : W d.network) (h : Careful seed d) : Careful seed (l.foldl f d) := by
  induction l generalizing d with
  | nil => exact h
  | cons a l ih =>
    refine ih (fun d a' hd hc ha => hstep d a' hd hc (List.mem_cons_of_mem a ha)) ?_ ?_
    · rw [hf]
      exact hn
    · exact hstep d a hn h List.mem_cons_self

theorem Careful.stepTasks (h : Careful seed d) : Careful seed d.stepTasks := by
  have hempty : Careful seed { d with tasks := [] } :=
    ⟨h.calls, fun t ht => absurd ht List.not_mem_nil⟩
  refine Careful.foldl (W := fun _ => True) (fun d t => (advances_stepTask d t).network)
    (fun d' t _ hd' ht => ?_) trivial hempty
  rw [stepTask]
  split
  · exact hd'.progress ((h.tasks t ht).step d'.network d'.now seed) t.id
  · refine ⟨hd'.calls, fun t' ht' => ?_⟩
    rcases List.mem_append.mp ht' with ht' | ht'
    · exact hd'.tasks t' ht'
    · rw [List.mem_singleton.mp ht']
      exact h.tasks t ht

/-- What has been launched begins, and it is careful. -/
theorem Careful.beginJobs (h : Careful seed d) (hn : W d.network) (hf : FindsAddresses W)
    (hjobs : ∀ o ∈ d.system.jobs, o.job.Careful seed) : Careful seed d.beginJobs := by
  have hbegun : Careful seed { d with begun := d.system.launched } := ⟨h.calls, h.tasks⟩
  refine Careful.foldl (W := W) (fun d o => (advances_progress d o.id _).network)
    (fun d' o hn' hd' ho => ?_) hn hbegun
  exact hd'.progress ((hjobs o (List.mem_filter.mp ho).1).begins hf hn' d'.now) o.id

omit [Store σ] in
/-- To settle requests asks nothing. -/
theorem calls_settleRequests (d : Daemon σ) : d.settleRequests.calls = d.calls := by
  have hfold : ∀ (l : List OpenRequest) (d : Daemon σ),
      (l.foldl settleRequest d).calls = d.calls := by
    intro l
    induction l with
    | nil => exact fun _ => rfl
    | cons o l ih =>
      intro d
      rw [List.foldl_cons, ih]
      rcases settleRequest_cases d o with ⟨-, h⟩ | ⟨s, x, -, h⟩
      · rw [h]
        rfl
      · rw [h]
  exact hfold d.openRequests _

omit [Store σ] in
theorem Careful.settleRequests (h : Careful seed d) : Careful seed d.settleRequests :=
  h.of_eq (calls_settleRequests d) (settles_settleRequests d).tasks

/-! ### Moments and requests -/

section

variable (hf : FindsAddresses W)
  (hs : ∀ k ∈ System.stored store, isIpLiteral k.connectionAddress = true)
include hf hs

/-- A turn that ends no job happens to the system, and what it has launched is careful. -/
theorem Careful.happen (h : Careful config.seed d) (hd : Sound W config store cs d) {t : Turn}
    (ht : d.system.Possible W t) : Careful config.seed (d.happen fun s => s.turn t) := by
  have hnext : Careful config.seed { d with system := d.system.turn t } := ⟨h.calls, h.tasks⟩
  exact hnext.beginJobs hd.network hf ((hd.system.turn ht).careful hf hs).jobs

theorem Careful.moment (h : Careful config.seed d) (hd : Sound W config store cs d) :
    Careful config.seed d.moment := by
  have hstep := hd.stepTasks
  rcases moment_cases d with ⟨-, hm⟩ | ⟨-, hm⟩
  · have hsame : SameWork d.stepTasks
        { d.stepTasks with nextTick := d.stepTasks.nextTick + tickLength } := ⟨rfl, rfl, rfl, rfl⟩
    have hnext : Careful config.seed
        { d.stepTasks with nextTick := d.stepTasks.nextTick + tickLength } :=
      h.stepTasks.of_eq rfl rfl
    rw [hm]
    exact (hnext.happen hf hs (hstep.of_sameWork hsame) (t := .tick) trivial).settleRequests
  · rw [hm]
    exact h.stepTasks.settleRequests

theorem Careful.catchUp (h : Careful config.seed d) (hd : Sound W config store cs d) :
    Careful config.seed d.catchUp := by
  rw [Daemon.catchUp]
  split
  · exact h.moment hf hs hd
  · exact h

/-- A miner that is told to do something is one of the published fleet. -/
theorem literal_of_plan (hd : Sound W config store cs d) {route : Route} {k : Device}
    {action : Action} (h : route.plan d.published = .act k action) :
    isIpLiteral k.connectionAddress = true := by
  cases route with
  | act address action' =>
    rw [Route.plan] at h
    cases hm : d.published.find? address with
    | none =>
      rw [hm] at h
      cases h
    | some m =>
      rw [hm] at h
      cases h
      -- What is published are the miners of the fleet.
      have hmem := List.mem_of_find?_eq_some hm
      rw [published, hd.system.tracked.published] at hmem
      obtain ⟨k, hk, rfl⟩ := List.mem_map.mp hmem
      exact (hd.system.careful hf hs).devices k hk
  | fleet filter => cases filter <;> cases h
  | health => cases h
  | totals => cases h
  | families => cases h
  | scan => cases h
  | refresh => cases h
  | add address => cases h
  | remove address => cases h
  | settings changes => cases h

theorem Careful.carryOut (h : Careful config.seed d) (hd : Sound W config store cs d)
    (number : Nat) (method : Method) (route : Route) :
    Careful config.seed (d.carryOut number method route) := by
  rw [Daemon.carryOut]
  cases hplan : route.plan d.published with
  | respond r => exact h.of_eq rfl rfl
  | command c =>
    have hnext := (h.catchUp hf hs hd).happen hf hs hd.catchUp (t := .command c) trivial
    exact Careful.settleRequests (hnext.of_eq rfl rfl)
  | act k action =>
    refine Careful.settleRequests ⟨fun c hc => ?_, h.tasks⟩
    rcases List.mem_cons.mp hc with rfl | hc
    · exact literal_of_plan hf hs hd hplan
    · exact h.calls c hc

theorem Careful.move (h : Careful config.seed d) (hd : Sound W config store cs d) (m : Move) :
    Careful config.seed (d.move m) := by
  cases m with
  | request r =>
    have hnext : Sound W config store cs { d with requests := d.requests + 1 } :=
      hd.of_sameWork ⟨rfl, rfl, rfl, rfl⟩
    rw [Daemon.move, Daemon.request]
    cases Route.ofRequest r with
    | error rejection => exact h.of_eq rfl rfl
    | ok route =>
      have hcounted : Careful config.seed { d with requests := d.requests + 1 } := h.of_eq rfl rfl
      exact hcounted.carryOut hf hs hnext d.requests r.method route
  | wait time => exact h.of_eq rfl rfl
  | proceed =>
    exact Careful.moment hf hs (h.of_eq rfl rfl) (hd.of_sameWork ⟨rfl, rfl, rfl, rfl⟩)
  | stop => exact h.of_eq rfl rfl
  | rewire network => exact h.of_eq rfl rfl

/-- In every run of a daemon, all that is asked may be asked. -/
theorem Run.careful {network : Network} (hn : W network) {ms : List Move}
    (h : Run W (launch config store network) ms d) : Careful config.seed d := by
  induction h with
  | refl =>
    have hmade : Careful config.seed
        { Daemon.make config store network with
          system := System.started config store } :=
      ⟨List.forall_mem_nil _, List.forall_mem_nil _⟩
    have hstarted : (System.started config store).After W config store [] :=
      ⟨[], _, .refl, rfl, rfl⟩
    exact hmade.beginJobs hn hf (hstarted.careful hf hs).jobs
  | @move ms d m h hm ih => exact ih.move hf hs (h.sound hn) m

end

/-! ### Requests that are refused -/

/-- Where all jobs have begun and none has been launched since, none begins. -/
theorem beginJobs_of_begun (h : ∀ o ∈ d.system.jobs, o.id < d.begun) :
    d.beginJobs = { d with begun := d.system.launched } := by
  have hnone : (d.system.jobs.filter fun o => d.begun ≤ o.id) = [] := by
    rw [List.filter_eq_nil_iff]
    intro o ho
    have hlt := h o ho
    simpa using hlt
  rw [beginJobs, hnone, List.foldl_nil]

/-- A request to add what is no name of a miner comes to a daemon: what is due happens, and beside
that nothing is asked, and no job is under way that was not before. -/
theorem request_not_peer (hd : Sound W config store cs d) {r : Request} {address : String}
    (hr : Route.ofRequest r = .ok (.add address)) (hp : isPeer (Text.trim address) = false) :
    let d₀ := { d with requests := d.requests + 1 }.catchUp
    (d.request r).calls = d₀.calls ∧ (d.request r).tasks = d₀.tasks ∧
      (d.request r).system.jobs = d₀.system.jobs := by
  intro d₀
  have hcounted : Sound W config store cs { d with requests := d.requests + 1 } :=
    hd.of_sameWork ⟨rfl, rfl, rfl, rfl⟩
  have hd₀ : Sound W config store cs d₀ := hcounted.catchUp
  have hjobs : (d₀.system.turn (.command (.add address))).jobs = d₀.system.jobs :=
    System.jobs_add_of_not_peer d₀.system hp
  have hbegun : ∀ o ∈ (d₀.system.turn (.command (.add address))).jobs, o.id < d₀.begun := by
    intro o ho
    rw [hjobs] at ho
    rw [hd₀.begun]
    exact hd₀.system.tracked.ids o ho
  have hhappen := beginJobs_of_begun
    (d := { d₀ with system := d₀.system.turn (.command (.add address)) }) hbegun
  obtain ⟨o, hcarry⟩ : ∃ o, d.request r = (({ d₀ with
      system := d₀.system.turn (.command (.add address))
      begun := (d₀.system.turn (.command (.add address))).launched } : Daemon σ).keepOpen
        o).settleRequests := by
    rw [Daemon.request, hr, ← hhappen]
    exact ⟨_, rfl⟩
  have hsettles := settles_settleRequests (({ d₀ with
      system := d₀.system.turn (.command (.add address))
      begun := (d₀.system.turn (.command (.add address))).launched } : Daemon σ).keepOpen o)
  rw [hcarry]
  refine ⟨calls_settleRequests _, hsettles.tasks, ?_⟩
  rw [← hjobs, System.eq_of_quiet hsettles.system.symm]
  rfl

/-- Whatever miners answer and whoever asks for what: every miner of the fleet is dialed at an IPv4
address; all that is asked of the network may be asked, which is a request to an IPv4 address, to
the seed, or about the name of a host; and a request to add what is neither an address nor the name
of a host asks nothing. -/
theorem only_addresses_are_dialed {network : Network} {ms : List Move} (hf : FindsAddresses W)
    (hs : ∀ k ∈ System.stored store, isIpLiteral k.connectionAddress = true) (hn : W network)
    (h : Run W (launch config store network) ms d) :
    (∀ k ∈ d.system.devices, isIpLiteral k.connectionAddress = true) ∧
    (∀ c ∈ d.calls, c.Allowed config.seed) ∧
    ∀ r address, Route.ofRequest r = .ok (.add address) → isPeer (Text.trim address) = false →
      let d₀ := { d with requests := d.requests + 1 }.catchUp
      (d.request r).calls = d₀.calls ∧ (d.request r).tasks = d₀.tasks ∧
        (d.request r).system.jobs = d₀.system.jobs := by
  have hsound := h.sound hn
  refine ⟨(hsound.system.careful hf hs).devices, (h.careful hf hs hn).calls, ?_⟩
  intro r address hr hp
  exact request_not_peer hsound hr hp

theorem findsAddresses_lan : FindsAddresses (· = System.lan) := by
  intro net hn host delay address h
  rw [hn] at h
  cases h
  decide

/-- A daemon over two miners. -/
def overTwo (network : Network) : Daemon MemoryStore :=
  launch default twoMiners network

/-- Two miners that are known are asked, and then a third one is to be added by the name of its
host. Another one is to be added by what is no name, and nobody is asked for it. -/
theorem only_addresses_dialed_over_two_miners :
    let d := (overTwo System.lan).request (addition "gamma.local")
    let r := addition "gamma local"
    Run (· = System.lan) (overTwo System.lan) [.request (addition "gamma.local")] d ∧
      (d.calls.map fun c => (c.kind, c.target)) =
        [(.asic, "10.1.1.50"), (.info, "10.1.1.50"), (.resolve, "gamma.local"),
          (.asic, "10.1.1.60"), (.info, "10.1.1.60"), (.asic, "10.1.1.50"), (.info, "10.1.1.50")] ∧
      (∀ c ∈ d.calls, c.Allowed none) ∧
      (d.request r).calls = ({ d with requests := d.requests + 1 }.catchUp).calls := by
  intro d r
  have hs : ∀ k ∈ System.stored twoMiners, isIpLiteral k.connectionAddress = true := by
    decide +kernel
  have hlan : (· = System.lan) System.lan := rfl
  have h : Run (· = System.lan) (overTwo System.lan) [.request (addition "gamma.local")] d :=
    Run.refl.move (m := .request (addition "gamma.local")) trivial
  obtain ⟨-, hcalls, hrefused⟩ := only_addresses_are_dialed findsAddresses_lan hs hlan h
  have hroute : (Route.ofRequest (addition "gamma local")).toOption =
      some (.add "gamma local") := by decide +kernel
  have hr : Route.ofRequest (addition "gamma local") = .ok (.add "gamma local") := by
    revert hroute
    generalize Route.ofRequest (addition "gamma local") = route
    intro hroute
    cases route with
    | ok route => rw [Option.some.inj hroute]
    | error rejection => cases hroute
  have hp : isPeer (Text.trim "gamma local") = false := by decide +kernel
  have hcounted := (hrefused r "gamma local" hr hp).1
  exact ⟨h, by decide +kernel, hcalls, hcounted⟩

end MinerFleet.Daemon
