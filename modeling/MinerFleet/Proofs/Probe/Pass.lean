/-
A pass from its beginning to its end.

* `scan` — all targets are asked, so many at a time, and a report tells what came of each;
* `Complete` — what a pass has done when its report appears;
* `Network.refresh`, `Network.discover` — the passes over known miners and over a network, each in
  one piece.

A job takes one moment after the other, and its stage holds the pool. `PoolStage` says what the two
kinds of passes have in common, and so `runFrom_of_runs` is proved once: a job whose stage is a pool
ends when the pool does, with the report of what the pool has settled. A pool may be worked on by
anybody (`orderly_of_runs`), and so failures and slow answers change what the report says, and not
whether there is one (`pass_settles_every_target`).
-/
import MinerFleet.Proofs.Address.Subnet
import MinerFleet.Proofs.Probe.Outcome
import MinerFleet.Proofs.Probe.Schedule

namespace MinerFleet

/-! ### Passes -/

section

variable {τ : Type} (target : τ → Target) (work : τ → Nat × Except ProbeFailure Device)
  (handler : Target → ProbeFailure → Option Device) (concurrency : Nat) (ts : List τ) (now : Nat)

/-- Asks at targets, where `work` says how long that takes and what comes of it. Gives the moment
of the report, what was asked when, and the report. -/
def scan : Nat × List (Nat × τ) × Report :=
  let (ended, begun, pool) := (Pool.start concurrency ts).run now work
  (ended, begun, .handled handler (pool.settled.map fun s => (target s.1, s.2)))

/-- What a pass has done when its report appears: it has worked through all its targets, and the
report has something from each of them. -/
structure Complete (result : Nat × List (Nat × τ) × Report) : Prop where
  orderly : ∃ settled,
    Pool.Orderly (max concurrency 1) ts work now result.1 result.2.1 settled
  /-- A success gives a record, and a failure the one of the handler, if it gives one. -/
  devices : result.2.2.devices.Perm (ts.filterMap fun t =>
    match (work t).2 with
    | .ok d => some d
    | .error failure => handler (target t) failure)
  /-- A failure is told, with the address that was asked. -/
  failures : result.2.2.failures.Perm (ts.filterMap fun t =>
    match (work t).2 with
    | .ok _ => none
    | .error failure => some ((target t).connectionAddress, failure))

theorem complete_scan :
    Complete target work handler concurrency ts now
      (scan target work handler concurrency ts now) := by
  obtain ⟨moments, -, hruns⟩ := (Pool.start concurrency ts).runs_run now work
  have ho := Pool.orderly_of_runs hruns
  have hsettled := ho.outcomes.map fun s => (target s.1, s.2)
  rw [List.map_map] at hsettled
  refine ⟨⟨_, ho⟩, ?_, ?_⟩
  · exact (hsettled.filterMap _).trans (.of_eq List.filterMap_map)
  · exact (hsettled.filterMap _).trans (.of_eq List.filterMap_map)

end

namespace Network

variable (net : Network)

/-- A pass of the miners in a network, and the requests that were made. -/
def pass (fetchAsic : Bool) (handler : Target → ProbeFailure → Option Device) (concurrency : Nat)
    (targets : List Target) (now : Nat) : Nat × List Call × Report :=
  let (ended, begun, report) := scan id (net.probe fetchAsic) handler concurrency targets now
  (ended, begun.flatMap fun b => net.probeCalls b.1 fetchAsic b.2, report)

/-- A pass over known miners; one that does not answer keeps a record with one more failure. -/
def refresh (known : List Device) (concurrency : Nat) (fetchAsic : Bool) (now : Nat) :
    Nat × List Call × Report :=
  net.pass fetchAsic (fun target _ => target.prior.map Device.failed) concurrency
    (known.map Target.ofDevice) now

/-- Asks a seed about its network and then everyone in it. -/
def discover (seed netmask : String) (concurrency now : Nat) :
    Nat × List Call × Except Fault Report :=
  if isPeer seed then
    let reply := net.info seed
    let (time, answer) := reply.within probeLimit
    let asked : Call := ⟨.info, seed, now, now + reply.openFor probeLimit⟩
    match scanTargets seed netmask answer with
    | .error fault => (now + time, [asked], .error fault)
    | .ok addresses =>
      let (ended, calls, report) :=
        net.pass true (fun _ _ => none) concurrency (targetsAt addresses) (now + time)
      (ended, asked :: calls, .ok report)
  else (now, [], .error (seedFault seed))

end Network

/-! ### Jobs -/

/-- A kind of stage that holds a pool: what a moment makes of it, and what it ends with. -/
structure PoolStage (net : Network) (fetchAsic : Bool) (stage : ProbePool → Stage)
    (progress : Nat → ProbePool → Progress)
    (result : List (Target × Except ProbeFailure Device) → JobResult) : Prop where
  step : ∀ now p, (stage p).step net now = progress now p
  nextEnd? : ∀ p, (stage p).nextEnd? = p.nextEnd?
  next : ∀ now p, (progress now p).next =
    if (p.step now (net.probe fetchAsic)).1.isDone then
      .inr (result (p.step now (net.probe fetchAsic)).1.settled)
    else .inl (stage (p.step now (net.probe fetchAsic)).1)
  calls : ∀ now p, (progress now p).calls =
    (p.step now (net.probe fetchAsic)).2.flatMap (net.probeCalls now fetchAsic)

section

variable (net : Network)

theorem poolStage_discovery :
    PoolStage net true .discovering (Stage.stepDiscovery net)
      fun outcomes => .discovered (.ok (discoveryReport outcomes)) where
  step _ _ := rfl
  nextEnd? _ := rfl
  next _ _ := rfl
  calls _ _ := rfl

theorem poolStage_refresh (fetchAsic : Bool) :
    PoolStage net fetchAsic (.refreshing · fetchAsic) (Stage.stepRefresh net · · fetchAsic)
      fun outcomes => .refreshed (refreshReport outcomes) where
  step _ _ := rfl
  nextEnd? _ := rfl
  next now p := by
    simp only [Stage.stepRefresh]
    split <;> rfl
  calls now p := by
    simp only [Stage.stepRefresh]
    split <;> rfl

variable {net} {fetchAsic : Bool} {stage : ProbePool → Stage}
  {progress : Nat → ProbePool → Progress}
  {result : List (Target × Except ProbeFailure Device) → JobResult}

theorem flatMap_begunAt (now : Nat) (taken : List Target) :
    (Pool.begunAt now taken).flatMap (fun b => net.probeCalls b.1 fetchAsic b.2) =
      taken.flatMap (net.probeCalls now fetchAsic) :=
  List.flatMap_map ..

/-- A job whose stage holds a pool ends when the pool does, and not before. -/
theorem PoolStage.runFrom_of_runs (hstage : PoolStage net fetchAsic stage progress result)
    {moments now ended : Nat} {p q : ProbePool} {begun : List (Nat × Target)}
    (h : Pool.Runs (net.probe fetchAsic) moments now p ended begun q) (hpos : 0 < p.limit)
    {fuel : Nat} (hfuel : moments ≤ fuel) :
    Job.runFrom net fuel now (progress now p) =
      (ended, begun.flatMap (fun b => net.probeCalls b.1 fetchAsic b.2),
        some (result q.settled)) := by
  induction h generalizing fuel with
  | @last now p h =>
    obtain ⟨fuel, rfl⟩ := Nat.exists_eq_add_of_le' hfuel
    have hnext := hstage.next now p
    rw [if_pos (Pool.isDone_of_runs (.last h) hpos)] at hnext
    simp only [Job.runFrom, hnext, hstage.calls, flatMap_begunAt]
  | @next moments now later ended p q begun h _ ih =>
    obtain ⟨fuel, rfl⟩ := Nat.exists_eq_add_of_le' (Nat.le_trans (Nat.le_add_left 1 _) hfuel)
    have hrest := ih (by rw [Pool.limit_step]; exact hpos) (Nat.le_of_succ_le_succ hfuel)
    have hrunning : (p.step now (net.probe fetchAsic)).1.isDone = false := by
      obtain ⟨⟨r, hr, -⟩, -⟩ := Pool.nextEnd?_eq_some.mp h
      simp [Pool.isDone, List.ne_nil_of_mem hr]
    have hnext := hstage.next now p
    rw [hrunning, if_neg Bool.false_ne_true] at hnext
    simp only [Job.runFrom, hnext, hstage.nextEnd?, h, hstage.step, hrest, hstage.calls,
      List.flatMap_append, flatMap_begunAt]

/-- From its beginning on, such a job is a pass. -/
theorem PoolStage.runFrom_start (hstage : PoolStage net fetchAsic stage progress result)
    (handler : Target → ProbeFailure → Option Device) (report : Report → JobResult)
    (hreport : ∀ outcomes, result outcomes = report (.handled handler outcomes))
    (concurrency now : Nat) {targets : List Target} {fuel : Nat} (hfuel : targets.length < fuel) :
    Job.runFrom net fuel now (progress now (Pool.start concurrency targets)) =
      ((net.pass fetchAsic handler concurrency targets now).1,
        (net.pass fetchAsic handler concurrency targets now).2.1,
        some (report (net.pass fetchAsic handler concurrency targets now).2.2)) := by
  obtain ⟨moments, hmoments, hruns⟩ :=
    (Pool.start concurrency targets).runs_run now (net.probe fetchAsic)
  have hlimit : 0 < (Pool.start concurrency targets : ProbePool).limit :=
    Pool.limit_start_pos concurrency targets
  have hload : (Pool.start concurrency targets : ProbePool).load = targets.length := rfl
  rw [hstage.runFrom_of_runs hruns hlimit (by omega), hreport]
  simp only [Network.pass, scan, id_eq, List.map_id']

/-- A job that refreshes is a pass over the miners that it knows. -/
theorem run_refresh (known : List Device) (concurrency : Nat) (fetchAsic : Bool) (now : Nat) :
    Job.runFrom net (Job.refresh known concurrency fetchAsic).moments now
        ((Job.refresh known concurrency fetchAsic).begins net now) =
      ((net.refresh known concurrency fetchAsic now).1,
        (net.refresh known concurrency fetchAsic now).2.1,
        some (.refreshed (net.refresh known concurrency fetchAsic now).2.2)) := by
  refine (poolStage_refresh net fetchAsic).runFrom_start _ _ (fun _ => rfl) concurrency now ?_
  simp [Job.moments]

/-- What a moment tells does not matter to what comes of a job. -/
theorem runFrom_log (fuel now : Nat) (p : Progress) (log : List LogEvent) :
    Job.runFrom net fuel now { p with log := log } = Job.runFrom net fuel now p := by
  cases fuel <;> rfl

theorem runFrom_cons (fuel now : Nat) (p : Progress) (c : Call) :
    Job.runFrom net fuel now { p with calls := c :: p.calls } =
      ((Job.runFrom net fuel now p).1, c :: (Job.runFrom net fuel now p).2.1,
        (Job.runFrom net fuel now p).2.2) := by
  cases fuel with
  | zero => rfl
  | succ fuel =>
    rw [Job.runFrom, Job.runFrom]
    cases p.next with
    | inr result => rfl
    | inl stage => cases hend : stage.nextEnd? <;> simp only [hend, List.cons_append]

/-- Once the seed has answered, a discovery is a pass, if there is something to ask. -/
theorem runFrom_beginDiscovery (seed netmask : String) (concurrency now : Nat)
    (answer : Except ProbeFailure Json) {fuel : Nat} (hfuel : maxScanHosts < fuel) :
    Job.runFrom net fuel now (Stage.beginDiscovery net now seed netmask concurrency answer) =
      match scanTargets seed netmask answer with
      | .error fault => (now, [], some (.discovered (.error fault)))
      | .ok addresses =>
        let (ended, calls, report) :=
          net.pass true (fun _ _ => none) concurrency (targetsAt addresses) now
        (ended, calls, some (.discovered (.ok report))) := by
  rw [Stage.beginDiscovery]
  cases hs : scanTargets seed netmask answer with
  | error fault =>
    obtain ⟨fuel, rfl⟩ := Nat.exists_eq_succ_of_ne_zero (Nat.ne_of_gt (Nat.zero_lt_of_lt hfuel))
    rfl
  | ok addresses =>
    have hh := hosts_of_own_network hs
    have hlength : (targetsAt addresses).length < fuel := by
      rw [targetsAt, List.length_map]
      exact Nat.lt_of_le_of_lt (length_hosts_le hh) hfuel
    exact (runFrom_log ..).trans ((poolStage_discovery net).runFrom_start _
      (fun report => .discovered (.ok report)) (fun _ => rfl) concurrency now hlength)

variable (net)

/-- A discovery waits until its seed has answered, and needs a moment more if it does not answer at
once. -/
theorem exists_runFrom_asking (seed netmask : String) (concurrency now time : Nat)
    (answer : Except ProbeFailure Json) :
    ∃ fuel, maxScanHosts < fuel ∧
      Job.runFrom net (maxScanHosts + 3) now
          ((Stage.asking seed netmask concurrency (now + time) answer).step net now) =
        Job.runFrom net fuel (now + time)
          (Stage.beginDiscovery net (now + time) seed netmask concurrency answer) := by
  simp only [Stage.step]
  by_cases htime : time = 0
  · subst htime
    refine ⟨maxScanHosts + 3, by omega, ?_⟩
    simp only [Nat.add_zero, Nat.le_refl, if_true]
  · refine ⟨maxScanHosts + 2, by omega, ?_⟩
    rw [if_neg (by omega), Job.runFrom]
    simp only [Stage.nextEnd?, Stage.step, Nat.le_refl, if_true, List.nil_append]

/-- A job that discovers asks its seed, and is a pass from then on. -/
theorem run_discovery (seed netmask : String) (concurrency now : Nat) :
    Job.runFrom net (Job.discovery seed netmask concurrency).moments now
        ((Job.discovery seed netmask concurrency).begins net now) =
      ((net.discover seed netmask concurrency now).1,
        (net.discover seed netmask concurrency now).2.1,
        some (.discovered (net.discover seed netmask concurrency now).2.2)) := by
  rw [Job.begins, Job.beginAsking, Network.discover]
  by_cases hpeer : isPeer seed = true
  · simp only [if_pos hpeer]
    generalize (net.info seed).within probeLimit = reply
    obtain ⟨time, answer⟩ := reply
    obtain ⟨fuel, hfuel, hasked⟩ :=
      exists_runFrom_asking net seed netmask concurrency now time answer
    have hmoments : (Job.discovery seed netmask concurrency).moments = maxScanHosts + 3 := rfl
    rw [hmoments, runFrom_cons, hasked, runFrom_beginDiscovery _ _ _ _ _ hfuel]
    cases scanTargets seed netmask answer <;> rfl
  · rw [if_neg hpeer, if_neg hpeer]
    rfl

end

/-- However long it takes to ask, and whatever comes of it, a pass works through all its targets:
never more than so many at a time, fewer only when nothing waits, in the order in which they wait,
and each of them once. Its report appears when the last is settled and has something from each.
Both kinds of jobs are such passes, and so they end. -/
theorem pass_settles_every_target {τ : Type} (target : τ → Target)
    (work : τ → Nat × Except ProbeFailure Device)
    (handler : Target → ProbeFailure → Option Device) (concurrency : Nat) (ts : List τ) (now : Nat)
    (net : Network) (known : List Device) (fetchAsic : Bool) (seed netmask : String) :
    Complete target work handler concurrency ts now
      (scan target work handler concurrency ts now) ∧
    Job.runFrom net (Job.refresh known concurrency fetchAsic).moments now
        ((Job.refresh known concurrency fetchAsic).begins net now) =
      ((net.refresh known concurrency fetchAsic now).1,
        (net.refresh known concurrency fetchAsic now).2.1,
        some (.refreshed (net.refresh known concurrency fetchAsic now).2.2)) ∧
    Job.runFrom net (Job.discovery seed netmask concurrency).moments now
        ((Job.discovery seed netmask concurrency).begins net now) =
      ((net.discover seed netmask concurrency now).1,
        (net.discover seed netmask concurrency now).2.1,
        some (.discovered (net.discover seed netmask concurrency now).2.2)) :=
  ⟨complete_scan target work handler concurrency ts now,
    run_refresh known concurrency fetchAsic now, run_discovery net seed netmask concurrency now⟩

end MinerFleet
