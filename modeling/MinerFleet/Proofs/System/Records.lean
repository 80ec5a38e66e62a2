/-
What holds of every record in every run.

* `KeptByProbes` — a property that a record has when nothing but its name is known, and that no
  answer and no failure of its miner takes from it;
* `System.AllRecords` — the records of the fleet have it, and so have those that a refresh knows.

`Run.allRecords` is the induction over the run, done once for every such property: whatever the
stored records have in common that probes keep, all records have in common at any time.
-/
import MinerFleet.Proofs.System.Identity

namespace MinerFleet

/-- A property of records that asking a miner keeps, whether it answers or not. -/
structure KeptByProbes (W : Network → Prop) (P : Device → Prop) : Prop where
  blank : ∀ address connectionAddress, P (Device.at_ address connectionAddress)
  failed : ∀ d, P d → P d.failed
  answered : ∀ fetchAsic target d, (∀ k, target.prior = some k → P k) →
    Answered W fetchAsic target (.ok d) → P d

namespace KeptByProbes

variable {W : Network → Prop} {P : Device → Prop}

theorem of_discovery (hP : KeptByProbes W P) {seed netmask : String} {n : Nat} {report : Report}
    (h : (Job.discovery seed netmask n).Yields W (.discovered (.ok report))) :
    ∀ d ∈ report.devices, P d := by
  intro d hd
  obtain ⟨-, ha⟩ := answered_of_discovery h hd
  refine hP.answered true _ d (fun k hk => ?_) ha
  cases hk

theorem of_peer (hP : KeptByProbes W P) {name : String} {ticket ticket' : Nat} {d : Device}
    (h : (Job.peer (Text.trim name) ticket).Yields W (.probed (.ok d) ticket')) : P d := by
  obtain ⟨-, address, -, ha⟩ := asked_of_peer h (Text.trim_trim name)
  refine hP.answered true _ d (fun k hk => ?_) ha
  rw [← Option.some.inj hk]
  exact hP.blank _ _

theorem of_refresh (hP : KeptByProbes W P) {known : List Device} {n : Nat} {fetchAsic : Bool}
    {report : Report} (h : (Job.refresh known n fetchAsic).Yields W (.refreshed report))
    (hk : ∀ k ∈ known, P k) : ∀ d ∈ report.devices, P d := by
  intro d hd
  obtain ⟨outcomes, rfl, ht, ho⟩ := outcomes_of_refresh h
  obtain ⟨⟨target, outcome⟩, hm, he⟩ := List.mem_filterMap.mp hd
  have htarget : target ∈ known.map Target.ofDevice := ht.mem_iff.mp (List.mem_map_of_mem hm)
  obtain ⟨k, hmem, rfl⟩ := List.mem_map.mp htarget
  cases outcome with
  | ok d' =>
    obtain rfl : d' = d := Option.some.inj he
    refine hP.answered fetchAsic _ d' (fun k' hk' => ?_) (ho _ hm)
    rw [← Option.some.inj hk']
    exact hk k hmem
  | error failure =>
    obtain rfl : k.failed = d := Option.some.inj he
    exact hP.failed k (hk k hmem)

end KeptByProbes

namespace System

variable {σ : Type} [Store σ] {W : Network → Prop} {P : Device → Prop}

/-- A property of the records of the fleet, and of those that a refresh knows. -/
structure AllRecords (P : Device → Prop) (s : System σ) : Prop where
  devices : ∀ d ∈ s.devices, P d
  known : ∀ o ∈ s.jobs, ∀ known n fetchAsic, o.job = .refresh known n fetchAsic →
    ∀ k ∈ known, P k

/-- What a refresh knows comes from the fleet, so that a turn has to be looked at for the fleet
alone. -/
theorem AllRecords.of_devices {s : System σ} (h : AllRecords P s) {t : Turn}
    (hd : ∀ d ∈ (s.turn t).devices, P d) : AllRecords P (s.turn t) := by
  refine ⟨hd, fun o ho known n fetchAsic hj k hk => ?_⟩
  rcases mem_jobs_turn ho with ho | ⟨event, -, ho⟩
  · exact h.known o ((before_jobs_sublist s t).subset ho) known n fetchAsic hj k hk
  · rw [known_eq_devices ho hj] at hk
    exact h.devices k hk

theorem AllRecords.devices_turn {cs : List Command} {s : System σ} (h : AllRecords P s)
    (hP : KeptByProbes W P) (hs : Tracked cs s) {t : Turn} (ht : s.Possible W t) :
    ∀ d ∈ (s.turn t).devices, P d := by
  obtain ⟨new, -, hf⟩ := hs.fleetTurn ht
  generalize (s.turn t).devices = after at hf
  intro d hd
  cases hf with
  | kept hp _ => exact h.devices d (hp.mem_iff.mp hd)
  | removed _ hp => exact h.devices d (hp.mem_iff.mpr (List.mem_cons_of_mem _ hd))
  | added _ _ hp =>
    rcases List.mem_cons.mp (hp.mem_iff.mp hd) with rfl | hd
    · obtain ⟨name, -, -, hy⟩ := hs.peer_of_possible ht
      exact hP.of_peer hy
    · exact h.devices d hd
  | discovered hp =>
    rcases List.mem_append.mp (hp.mem_iff.mp hd) with hd | hd
    · exact h.devices d hd
    · obtain ⟨job, -, hy⟩ := ht
      obtain ⟨seed, netmask, n, rfl⟩ := hy.fits.eq_discovery
      exact hP.of_discovery hy d ((Registry.newcomers_sublist _ _).subset hd)
  | @refreshed _ report _ hp =>
    obtain ⟨job, hj, hy⟩ := ht
    obtain ⟨known, n, fetchAsic, rfl⟩ := hy.fits.eq_refresh
    -- Each place keeps its record or gets a result, and the results come from what was known.
    have hresults := hP.of_refresh hy (h.known _ hj known n fetchAsic rfl)
    have hplaces := Registry.forall₂_replaceFrom report.devices [] s.devices
    obtain ⟨d₀, hd₀, hplace⟩ := exists_of_mem_forall₂ hplaces (hp.mem_iff.mp hd)
    rcases hplace with rfl | ⟨hm, -⟩
    · exact h.devices d hd₀
    · exact hresults d hm

theorem allRecords_started {config : Config} {store : σ} (hs : ∀ d ∈ stored store, P d) :
    AllRecords P (started config store) := by
  refine ⟨fun d hd => ?_, fun o ho known n fetchAsic hj k hk => ?_⟩
  · exact hs d ((started_cases config store).2.mem_iff.mp hd)
  · -- The first refresh knows the stored records.
    rw [jobs_started] at ho
    rw [known_eq_devices (s := System.make config store) ho hj] at hk
    exact hs k ((perm_made config store).mem_iff.mp hk)

/-- What the stored records have in common, and probes keep, all records have in common in every
run. -/
theorem Run.allRecords {config : Config} {store : σ} {ts : List Turn} {s : System σ}
    (h : Run W (started config store) ts s) (hP : KeptByProbes W P)
    (hs : ∀ d ∈ stored store, P d) : AllRecords P s := by
  induction h with
  | refl => exact allRecords_started hs
  | turn h ht ih => exact ih.of_devices (ih.devices_turn hP h.tracked ht)

end System

end MinerFleet
