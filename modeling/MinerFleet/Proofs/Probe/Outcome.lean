/-
What can come of a job.

* `Leads` — the stages of a job follow each other until there is a result: each moment may find
  another network, of which `W` says what is known;
* `Job.Yields` — what can come of a job that begins on such a network;
* `Fits` — a stage or a result is one of a job's kind;
* `Answered` — what can come of asking a target;
* `ownAddress`, `ownNetmask` — the network of a seed, by its own word where it has one;
* `Refreshes`, `Scans` — how far a refresh is, and how far a discovery is that follows from what
  its seed has answered.

`Yields` leaves open how long a job takes and who answers what and when. A result fits its job
(`Yields.fits`), and each target of a pass has one outcome (`outcomes_of_refresh`,
`scans_of_discovery`), so that a refresh gives one record for each miner that it asked, dialed at
the same address (`perm_dialed_of_refresh`).
-/
import MinerFleet.Proofs.Engine.Effects
import MinerFleet.Proofs.Json.Fields
import MinerFleet.Proofs.Probe.Pool

namespace MinerFleet

/-- A stage comes to a result after some moments, on networks that are like `W`. -/
inductive Leads (W : Network → Prop) : Stage ⊕ JobResult → JobResult → Prop
  | result (r : JobResult) : Leads W (.inr r) r
  | moment {stage : Stage} {r : JobResult} (net : Network) (now : Nat) (hn : W net)
      (h : Leads W (stage.step net now).next r) : Leads W (.inl stage) r

/-- What can come of a job, on networks that are like `W`. -/
def Job.Yields (W : Network → Prop) (job : Job) (r : JobResult) : Prop :=
  ∃ net now, W net ∧ Leads W (job.begins net now).next r

/-- What a job comes to on a network that stays as it is can come of it. -/
theorem leads_of_runFrom {W : Network → Prop} {net : Network} (hn : W net) {fuel now : Nat}
    {p : Progress} {r : JobResult} (h : (Job.runFrom net fuel now p).2.2 = some r) :
    Leads W p.next r := by
  induction fuel generalizing now p with
  | zero => cases h
  | succ fuel ih =>
    rw [Job.runFrom] at h
    cases hp : p.next with
    | inr result =>
      simp only [hp] at h
      rw [Option.some.inj h]
      exact .result r
    | inl stage =>
      cases hs : stage.nextEnd? with
      | none =>
        simp only [hp, hs] at h
        cases h
      | some next =>
        simp only [hp, hs] at h
        exact .moment net next hn (ih h)

theorem Job.yields_of_run {W : Network → Prop} {net : Network} (hn : W net) {job : Job}
    {r : JobResult} (h : (job.run net).2.2 = some r) : job.Yields W r :=
  ⟨net, 0, hn, leads_of_runFrom hn h⟩

/-! ### Kinds -/

/-- A stage or a result of a job's kind; of a question to a miner, for the same request. -/
def Fits (job : Job) : Stage ⊕ JobResult → Prop
  | .inl (.asking ..) | .inl (.discovering _) | .inr (.discovered _) => job.isDiscovery = true
  | .inl (.refreshing ..) | .inr (.refreshed _) => job.isRefresh = true
  | .inl (.resolving _ ticket _ _) | .inl (.probing _ ticket _ _) | .inr (.probed _ ticket) =>
    ∃ name, job = .peer name ticket

section

variable {job : Job} (net : Network) (now : Nat)

theorem fits_stepDiscovery (h : job.isDiscovery = true) (pool : ProbePool) :
    Fits job (Stage.stepDiscovery net now pool).next := by
  rw [Stage.stepDiscovery]
  by_cases hd : (pool.step now (net.probe true)).1.isDone
  · simp only [hd, if_true]
    exact h
  · simp only [hd]
    exact h

theorem fits_beginDiscovery (h : job.isDiscovery = true) (seed netmask : String) (n : Nat)
    (answer : Except ProbeFailure Json) :
    Fits job (Stage.beginDiscovery net now seed netmask n answer).next := by
  rw [Stage.beginDiscovery]
  cases scanTargets seed netmask answer with
  | error fault => exact h
  | ok addresses => exact fits_stepDiscovery net now h _

theorem fits_stepRefresh (h : job.isRefresh = true) (pool : ProbePool) (fetchAsic : Bool) :
    Fits job (Stage.stepRefresh net now pool fetchAsic).next := by
  rw [Stage.stepRefresh]
  by_cases hd : (pool.step now (net.probe fetchAsic)).1.isDone
  · simp only [hd, if_true]
    exact h
  · simp only [hd]
    exact h

theorem fits_stepProbe {ticket : Nat} (h : ∃ name, job = .peer name ticket) (address : String)
    (ends : Nat) (outcome : Except ProbeFailure Device) :
    Fits job (Stage.stepProbe now address ticket ends outcome).next := by
  rw [Stage.stepProbe]
  by_cases he : ends ≤ now
  · rw [if_pos he]
    exact h
  · rw [if_neg he]
    exact h

theorem fits_beginProbe {ticket : Nat} (h : ∃ name, job = .peer name ticket)
    (address connectionAddress : String) :
    Fits job (Stage.beginProbe net now address connectionAddress ticket).next := by
  rw [Stage.beginProbe]
  exact fits_stepProbe now h address _ _

theorem fits_stepResolve {ticket : Nat} (h : ∃ name, job = .peer name ticket) (host : String)
    (ends : Option Nat) (result : Except ProbeFailure String) :
    Fits job (Stage.stepResolve net now host ticket ends result).next := by
  unfold Stage.stepResolve
  by_cases he : ends.any (· ≤ now)
  · rw [if_pos he]
    cases result with
    | error failure => exact h
    | ok address => exact fits_beginProbe net now h host address
  · rw [if_neg he]
    exact h

/-- A stage gives way to one of the same kind, or to a result of that kind. -/
theorem fits_step {stage : Stage} (h : Fits job (.inl stage)) :
    Fits job (stage.step net now).next := by
  cases stage with
  | asking seed netmask n ends answer =>
    rw [Stage.step]
    by_cases he : ends ≤ now
    · rw [if_pos he]
      exact fits_beginDiscovery net now h seed netmask n answer
    · rw [if_neg he]
      exact h
  | discovering pool => exact fits_stepDiscovery net now h pool
  | refreshing pool fetchAsic => exact fits_stepRefresh net now h pool fetchAsic
  | resolving host ticket ends result => exact fits_stepResolve net now h host ends result
  | probing address ticket ends outcome => exact fits_stepProbe now h address ends outcome

/-- A job begins with a stage of its kind. -/
theorem fits_begins : Fits job (job.begins net now).next := by
  cases job with
  | discovery seed netmask n =>
    rw [Job.begins, Job.beginAsking]
    by_cases hp : isPeer seed
    · rw [if_pos hp]
      have hs : Fits (.discovery seed netmask n)
          (.inl (.asking seed netmask n (now + ((net.info seed).within probeLimit).1)
            ((net.info seed).within probeLimit).2)) := rfl
      exact fits_step net now hs
    · rw [if_neg hp]
      rfl
  | refresh known n fetchAsic => exact fits_stepRefresh net now rfl _ fetchAsic
  | peer name ticket =>
    have hf : ∃ name', Job.peer name ticket = .peer name' ticket := ⟨name, rfl⟩
    rw [Job.begins, Job.beginPeer]
    cases isPeer (Text.trim name) with
    | false =>
      simp only [Bool.not_false, if_true]
      exact hf
    | true =>
      cases isIpLiteral (Text.trim name) with
      | true =>
        simp only [Bool.not_true, Bool.false_eq_true, if_false, if_true]
        exact fits_beginProbe net now hf _ _
      | false =>
        simp only [Bool.not_true, Bool.false_eq_true, if_false]
        exact fits_stepResolve net now hf _ _ _

end

variable {W : Network → Prop}

/-- What every moment keeps, from the first stage on, is so of the result. -/
theorem Leads.keeps {P : Stage ⊕ JobResult → Prop} {x : Stage ⊕ JobResult} {r : JobResult}
    (h : Leads W x r)
    (hm : ∀ stage net now, W net → P (.inl stage) → P (stage.step net now).next) (hx : P x) :
    P (.inr r) := by
  induction h with
  | result r => exact hx
  | moment net now hn h ih => exact ih (hm _ net now hn hx)

/-- What comes of a job is of its kind, and for the same request. -/
theorem Job.Yields.fits {job : Job} {r : JobResult} (h : job.Yields W r) : Fits job (.inr r) := by
  obtain ⟨net, now, -, hl⟩ := h
  exact hl.keeps (fun _ net now _ => fits_step net now) (fits_begins net now)

theorem Fits.eq_discovery {job : Job} {result : Except Fault Report}
    (h : Fits job (.inr (.discovered result))) :
    ∃ seed netmask n, job = .discovery seed netmask n := by
  cases job with
  | discovery seed netmask n => exact ⟨seed, netmask, n, rfl⟩
  | refresh => exact absurd h Bool.false_ne_true
  | peer => exact absurd h Bool.false_ne_true

theorem Fits.eq_refresh {job : Job} {report : Report} (h : Fits job (.inr (.refreshed report))) :
    ∃ known n fetchAsic, job = .refresh known n fetchAsic := by
  cases job with
  | refresh known n fetchAsic => exact ⟨known, n, fetchAsic, rfl⟩
  | discovery => exact absurd h Bool.false_ne_true
  | peer => exact absurd h Bool.false_ne_true

/-- The result of a pass comes from a pass of its kind. -/
theorem Fits.isDiscovery {job : Job} {r : JobResult} (h : Fits job (.inr r)) :
    r.isDiscovery = job.isDiscovery := by
  cases r with
  | discovered result => exact h.symm
  | refreshed report =>
    obtain ⟨known, n, fetchAsic, rfl⟩ := h.eq_refresh
    rfl
  | probed result ticket =>
    obtain ⟨name, rfl⟩ := h
    rfl

theorem Fits.isRefresh {job : Job} {r : JobResult} (h : Fits job (.inr r)) :
    r.isRefresh = job.isRefresh := by
  cases r with
  | refreshed report => exact h.symm
  | discovered result =>
    obtain ⟨seed, netmask, n, rfl⟩ := h.eq_discovery
    rfl
  | probed result ticket =>
    obtain ⟨name, rfl⟩ := h
    rfl

/-! ### Records -/

/-- A record is dialed where its miner was asked. -/
theorem connectionAddress_of_assemble {address : String} {prior : Option Device}
    {info asic d : Device} (h : assemble address prior info asic = .ok d) :
    d.connectionAddress = address := by
  rw [assemble] at h
  by_cases hn : ((asic.combine info).overlay (prior.getD {})).asicModel.isNone
  · rw [if_pos hn] at h
    cases h
  · rw [if_neg hn] at h
    cases h
    rw [Device.named, Device.classified]
    split <;> rfl

theorem connectionAddress_of_probeResult {target : Target}
    {info asic : Except ProbeFailure Json} {d : Device}
    (h : probeResult target info asic = .ok d) :
    d.connectionAddress = target.connectionAddress := by
  rw [probeResult] at h
  cases info with
  | error failure => cases h
  | ok payload =>
    cases hr : readPayload payload with
    | error failure =>
      simp only [bind, Except.bind, hr] at h
      cases h
    | ok record =>
      simp only [bind, Except.bind, hr] at h
      exact connectionAddress_of_assemble h

/-- What can come of asking a target, on a network like `W`. -/
def Answered (W : Network → Prop) (fetchAsic : Bool) (target : Target)
    (outcome : Except ProbeFailure Device) : Prop :=
  ∃ net, W net ∧ (net.probe fetchAsic target).2 = outcome

theorem Answered.connectionAddress {fetchAsic : Bool} {target : Target} {d : Device}
    (h : Answered W fetchAsic target (.ok d)) : d.connectionAddress = target.connectionAddress := by
  obtain ⟨net, -, hp⟩ := h
  rw [Network.probe] at hp
  split at hp
  · exact connectionAddress_of_probeResult hp
  · cases hp

/-! ### Refreshes -/

/-- A refresh of some targets: each of them waits, is being asked or has been asked, and in the
end each has one outcome. -/
def Refreshes (W : Network → Prop) (fetchAsic : Bool) (targets : List Target) :
    Stage ⊕ JobResult → Prop
  | .inl (.refreshing pool fetch) =>
    fetch = fetchAsic ∧ pool.targets.Perm targets ∧ pool.Holds (Answered W fetchAsic)
  | .inr (.refreshed report) =>
    ∃ outcomes, report = refreshReport outcomes ∧ (outcomes.map (·.1)).Perm targets ∧
      ∀ o ∈ outcomes, Answered W fetchAsic o.1 o.2
  | _ => False

theorem refreshes_step {fetchAsic : Bool} {targets : List Target} {stage : Stage} {net : Network}
    {now : Nat} (hn : W net) (h : Refreshes W fetchAsic targets (.inl stage)) :
    Refreshes W fetchAsic targets (stage.step net now).next := by
  cases stage with
  | refreshing pool fetch =>
    obtain ⟨rfl, ht, hq⟩ := h
    have ht' := (pool.perm_step now (net.probe fetch)).trans ht
    have hq' := Pool.holds_step (fun t => (⟨net, hn, rfl⟩ : Answered W fetch t _)) hq now
    rw [Stage.step, Stage.stepRefresh]
    by_cases hd : (pool.step now (net.probe fetch)).1.isDone
    · simp only [hd, if_true]
      exact ⟨_, rfl, (Pool.perm_settled hd).trans ht',
        fun o ho => hq'.settled o (Pool.mem_settled.mp ho)⟩
    · simp only [hd]
      exact ⟨rfl, ht', hq'⟩
  | asking => exact h.elim
  | discovering => exact h.elim
  | resolving => exact h.elim
  | probing => exact h.elim

/-- A refresh has exactly one outcome for each miner that it knows. -/
theorem outcomes_of_refresh {known : List Device} {n : Nat} {fetchAsic : Bool} {r : JobResult}
    (h : (Job.refresh known n fetchAsic).Yields W r) :
    Refreshes W fetchAsic (known.map Target.ofDevice) (.inr r) := by
  obtain ⟨net, now, hn, hl⟩ := h
  -- The first moment of a refresh is one of its pool, before anything is taken up.
  have hstart : Refreshes W fetchAsic (known.map Target.ofDevice)
      (.inl (.refreshing (.start n (known.map Target.ofDevice)) fetchAsic)) :=
    ⟨rfl, by rw [Pool.targets_start], Pool.holds_start _ _ _⟩
  exact hl.keeps (fun _ _ _ => refreshes_step) (refreshes_step hn hstart)

/-- A record stands for each outcome of a refresh, dialed at the address that was asked. -/
theorem dialed_refreshReport {fetchAsic : Bool}
    {outcomes : List (Target × Except ProbeFailure Device)}
    (ht : ∀ o ∈ outcomes, ∃ d, o.1 = Target.ofDevice d)
    (ho : ∀ o ∈ outcomes, Answered W fetchAsic o.1 o.2) :
    dialed (refreshReport outcomes).devices = outcomes.map (·.1.connectionAddress) := by
  induction outcomes with
  | nil => rfl
  | cons o outcomes ih =>
    obtain ⟨target, outcome⟩ := o
    have ih := ih (fun o h => ht o (List.mem_cons_of_mem _ h))
      (fun o h => ho o (List.mem_cons_of_mem _ h))
    rw [List.map_cons, ← ih]
    cases outcome with
    | ok d =>
      have hd : d.connectionAddress = target.connectionAddress :=
        (ho _ List.mem_cons_self).connectionAddress
      rw [← hd]
      rfl
    | error failure =>
      obtain ⟨d, hd⟩ := ht _ List.mem_cons_self
      obtain rfl : target = Target.ofDevice d := hd
      rfl

/-- A refresh gives one record for each miner that it asked, dialed at the same address. -/
theorem perm_dialed_of_refresh {known : List Device} {n : Nat} {fetchAsic : Bool}
    {report : Report} (h : (Job.refresh known n fetchAsic).Yields W (.refreshed report)) :
    (dialed report.devices).Perm (dialed known) := by
  obtain ⟨outcomes, rfl, ht, ho⟩ := outcomes_of_refresh h
  have hknown : ∀ o ∈ outcomes, ∃ d, o.1 = Target.ofDevice d := by
    intro o hm
    have : o.1 ∈ known.map Target.ofDevice := ht.mem_iff.mp (List.mem_map_of_mem hm)
    obtain ⟨d, -, hd⟩ := List.mem_map.mp this
    exact ⟨d, hd.symm⟩
  rw [dialed_refreshReport hknown ho]
  have hp := ht.map (·.connectionAddress)
  rw [List.map_map, List.map_map] at hp
  exact hp

/-! ### Discoveries -/

/-- The targets for addresses of which nothing is known. -/
def targetsAt (addresses : List String) : List Target :=
  addresses.map fun address => { connectionAddress := address }

/-- The address that a seed reports, or else the one that it goes by. -/
def ownAddress (answer : Except ProbeFailure Json) (seed : String) : String :=
  (addressField answer "currentIP").getD seed

/-- The netmask that a seed reports, or else the one that was set. -/
def ownNetmask (answer : Except ProbeFailure Json) (netmask : String) : String :=
  (addressField answer "netmask").getD netmask

/-- What a discovery asks are the hosts of the network of its seed. -/
theorem hosts_of_own_network {seed netmask : String} {answer : Except ProbeFailure Json}
    {addresses : List String} (h : scanTargets seed netmask answer = .ok addresses) :
    hosts (ownAddress answer seed) (ownNetmask answer netmask) = .ok addresses := by
  rw [scanTargets] at h
  rw [ownAddress, ownNetmask]
  cases hfield : addressField answer "currentIP" with
  | some ip =>
    simp only [hfield] at h
    obtain ⟨ip, hip, hscan⟩ := bind_eq_ok.mp h
    obtain rfl := Except.ok.inj hip
    split at hscan
    · cases hscan
    · cases hscan
    · rwa [← Except.ok.inj hscan]
  | none =>
    simp only [hfield] at h
    split at h
    · obtain ⟨ip, hip, hscan⟩ := bind_eq_ok.mp h
      obtain rfl := Except.ok.inj hip
      split at hscan
      · cases hscan
      · cases hscan
      · rwa [← Except.ok.inj hscan]
    · cases h

/-- A discovery whose seed has answered something: each of the targets that follow from it waits,
is being asked or has been asked, and in the end each has one outcome. -/
inductive Scans (W : Network → Prop) (seed netmask : String) (answer : Except ProbeFailure Json) :
    Stage ⊕ JobResult → Prop
  | asking (n ends : Nat) :
      Scans W seed netmask answer (.inl (.asking seed netmask n ends answer))
  | discovering {pool : ProbePool} {addresses : List String}
      (hs : scanTargets seed netmask answer = .ok addresses)
      (ht : pool.targets.Perm (targetsAt addresses)) (hq : pool.Holds (Answered W true)) :
      Scans W seed netmask answer (.inl (.discovering pool))
  | discovered {outcomes : List (Target × Except ProbeFailure Device)} {addresses : List String}
      (hs : scanTargets seed netmask answer = .ok addresses)
      (ht : (outcomes.map (·.1)).Perm (targetsAt addresses))
      (ho : ∀ o ∈ outcomes, Answered W true o.1 o.2) :
      Scans W seed netmask answer (.inr (.discovered (.ok (discoveryReport outcomes))))
  | failed (fault : Fault) : Scans W seed netmask answer (.inr (.discovered (.error fault)))

section

variable {seed netmask : String} {answer : Except ProbeFailure Json} {net : Network} {now : Nat}

theorem scans_stepDiscovery (hn : W net) {pool : ProbePool} {addresses : List String}
    (hs : scanTargets seed netmask answer = .ok addresses)
    (ht : pool.targets.Perm (targetsAt addresses)) (hq : pool.Holds (Answered W true)) :
    Scans W seed netmask answer (Stage.stepDiscovery net now pool).next := by
  have ht' := (pool.perm_step now (net.probe true)).trans ht
  have hq' := Pool.holds_step (fun t => (⟨net, hn, rfl⟩ : Answered W true t _)) hq now
  rw [Stage.stepDiscovery]
  by_cases hd : (pool.step now (net.probe true)).1.isDone
  · simp only [hd, if_true]
    exact .discovered hs ((Pool.perm_settled hd).trans ht')
      fun o ho => hq'.settled o (Pool.mem_settled.mp ho)
  · simp only [hd]
    exact .discovering hs ht' hq'

theorem scans_step (hn : W net) {stage : Stage} (h : Scans W seed netmask answer (.inl stage)) :
    Scans W seed netmask answer (stage.step net now).next := by
  cases h with
  | asking n ends =>
    rw [Stage.step]
    by_cases he : ends ≤ now
    · rw [if_pos he, Stage.beginDiscovery]
      cases hs : scanTargets seed netmask answer with
      | error fault => exact .failed fault
      | ok addresses =>
        refine scans_stepDiscovery hn hs ?_ (Pool.holds_start _ _ _)
        rw [Pool.targets_start]
        exact List.Perm.refl _
    · rw [if_neg he]
      exact .asking n ends
  | discovering hs ht hq => exact scans_stepDiscovery hn hs ht hq

end

/-- A discovery has exactly one outcome for each target that follows from what its seed answers. -/
theorem scans_of_discovery {seed netmask : String} {n : Nat} {r : JobResult}
    (h : (Job.discovery seed netmask n).Yields W r) :
    ∃ net, W net ∧ Scans W seed netmask ((net.info seed).within probeLimit).2 (.inr r) := by
  obtain ⟨net, now, hn, hl⟩ := h
  refine ⟨net, hn, hl.keeps (fun _ _ _ hn => scans_step hn) ?_⟩
  rw [Job.begins, Job.beginAsking]
  by_cases hp : isPeer seed
  · rw [if_pos hp]
    exact scans_step hn (.asking n _)
  · rw [if_neg hp]
    exact .failed _

end MinerFleet
