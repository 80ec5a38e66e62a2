/-
In which order probes end.

* `SameOutcomes` — networks on which the same comes of every probe, however long it takes;
* `Network.InTime` — networks with the same answers, each of them in time.

Two passes over such networks settle the same targets with the same outcomes, each in an order of
its own (`perm_of_answered`). So their reports have the same records, and the registry is the same
after either of them: after refreshes without further ado, after discoveries but for the places of
miners that the order of the fleet does not tell apart.
-/
import MinerFleet.Proofs.Probe.Results
import MinerFleet.Proofs.Registry.Reports
import MinerFleet.Proofs.System.Naming

namespace MinerFleet

/-- Whichever of the networks it is on, a seed and a target come to the same outcome. -/
structure SameOutcomes (W : Network → Prop) : Prop where
  info : ∀ net net', W net → W net' → ∀ address,
    ((net.info address).within probeLimit).2 = ((net'.info address).within probeLimit).2
  probe : ∀ net net', W net → W net' → ∀ fetchAsic target,
    (net.probe fetchAsic target).2 = (net'.probe fetchAsic target).2

variable {W : Network → Prop}

/-! ### Delays -/

/-- The same reply after another time. -/
def Reply.delayed {α : Type} (delay : Nat) : Reply α → Reply α
  | .after _ result => .after delay result
  | .never => .never

theorem Reply.within_delayed {α : Type} {limit delay delay' : Nat} (h : delay ≤ limit)
    (h' : delay' ≤ limit) (r : Reply α) :
    ((r.delayed delay).within limit).2 = ((r.delayed delay').within limit).2 := by
  cases r with
  | never => rfl
  | after _ result => rw [delayed, delayed, within, within, if_pos h, if_pos h']

/-- The network on which whoever answers does so after a time of their own. -/
def Network.delayed (net : Network) (delay : String → Nat) : Network :=
  { net with
    info := fun a => (net.info a).delayed (delay a)
    asic := fun a => (net.asic a).delayed (delay a) }

/-- The networks with the answers of one of them, all in time. -/
def Network.InTime (net net' : Network) : Prop :=
  ∃ delay : String → Nat, (∀ a, delay a ≤ probeLimit) ∧ net' = net.delayed delay

theorem Network.exchange_delayed (net : Network) (delay : String → Nat) (address : String)
    (fetchAsic : Bool) :
    (net.delayed delay).exchange address fetchAsic =
      (net.exchange address fetchAsic).delayed (delay address) := by
  rw [exchange, exchange]
  cases fetchAsic with
  | false =>
    show ((net.info address).delayed _).both _ = ((net.info address).both _).delayed _
    cases net.info address with
    | never => rfl
    | after _ info => exact congrArg (Reply.after · _) (Nat.max_zero _)
  | true =>
    show ((net.info address).delayed _).both ((net.asic address).delayed _) =
      ((net.info address).both (net.asic address)).delayed _
    cases net.info address with
    | never => rfl
    | after _ info =>
      cases net.asic address with
      | never => rfl
      | after _ asic => exact congrArg (Reply.after · _) (Nat.max_self _)

/-- Where everyone who answers does so in time, it does not matter when. -/
theorem Network.sameOutcomes_inTime (net : Network) : SameOutcomes net.InTime where
  info := by
    rintro _ _ ⟨delay, hd, rfl⟩ ⟨delay', hd', rfl⟩ address
    exact Reply.within_delayed (hd address) (hd' address) (net.info address)
  probe := by
    rintro _ _ ⟨delay, hd, rfl⟩ ⟨delay', hd', rfl⟩ fetchAsic target
    refine probe_congr ?_
    rw [exchange_delayed, exchange_delayed]
    exact Reply.within_delayed (hd _) (hd' _) _

/-! ### Outcomes -/

section

variable {fetchAsic : Bool} {os os' : List (Target × Except ProbeFailure Device)}

/-- The outcomes are those of any one of the networks. -/
theorem SameOutcomes.eq_map (hW : SameOutcomes W) {net : Network} (hn : W net)
    (h : ∀ o ∈ os, Answered W fetchAsic o.1 o.2) :
    os = (os.map (·.1)).map fun t => (t, (net.probe fetchAsic t).2) := by
  rw [List.map_map]
  conv_lhs => rw [← List.map_id os]
  refine List.map_congr_left fun o ho => ?_
  obtain ⟨net', hn', he⟩ := h o ho
  show o = (o.1, (net.probe fetchAsic o.1).2)
  rw [hW.probe net net' hn hn', he]

/-- The same targets have the same outcomes, in an order of their own. -/
theorem SameOutcomes.perm_of_answered (hW : SameOutcomes W) {net : Network} (hn : W net)
    (ht : (os.map (·.1)).Perm (os'.map (·.1))) (h : ∀ o ∈ os, Answered W fetchAsic o.1 o.2)
    (h' : ∀ o ∈ os', Answered W fetchAsic o.1 o.2) : os.Perm os' := by
  rw [hW.eq_map hn h, hW.eq_map hn h']
  exact ht.map _

end

/-! ### Reports -/

theorem SameOutcomes.perm_refreshed (hW : SameOutcomes W) {known : List Device} {n n' : Nat}
    {fetchAsic : Bool} {report report' : Report}
    (h : (Job.refresh known n fetchAsic).Yields W (.refreshed report))
    (h' : (Job.refresh known n' fetchAsic).Yields W (.refreshed report')) :
    report.devices.Perm report'.devices := by
  obtain ⟨net, -, hn, -⟩ := id h
  obtain ⟨os, rfl, ht, ho⟩ := outcomes_of_refresh h
  obtain ⟨os', rfl, ht', ho'⟩ := outcomes_of_refresh h'
  exact (hW.perm_of_answered hn (ht.trans ht'.symm) ho ho').filterMap _

section

variable {seed netmask : String} {n n' : Nat} {report report' : Report}

theorem SameOutcomes.perm_discovered (hW : SameOutcomes W)
    (h : (Job.discovery seed netmask n).Yields W (.discovered (.ok report)))
    (h' : (Job.discovery seed netmask n').Yields W (.discovered (.ok report'))) :
    report.devices.Perm report'.devices := by
  obtain ⟨net, hn, hscans⟩ := scans_of_discovery h
  obtain ⟨net', hn', hscans'⟩ := scans_of_discovery h'
  -- The seed answers the same, so that the same addresses are asked.
  rw [← hW.info net net' hn hn'] at hscans'
  cases hscans with
  | discovered hs ht ho =>
    cases hscans' with
    | discovered hs' ht' ho' =>
      rw [hs] at hs'
      obtain rfl := Except.ok.inj hs'
      exact (hW.perm_of_answered hn (ht.trans ht'.symm) ho ho').filterMap _

/-- Miners that give themselves no name are found by their addresses, each as one record. -/
theorem SameOutcomes.recordedOnce (hW : SameOutcomes W) (hnameless : Nameless W)
    (h : (Job.discovery seed netmask n).Yields W (.discovered (.ok report))) :
    RecordedOnce report.devices := by
  intro d hd e he hsame
  obtain ⟨-, net, hn, hpd⟩ := answered_of_discovery h hd
  obtain ⟨-, net', hn', hpe⟩ := answered_of_discovery h he
  have hconn : d.connectionAddress = e.connectionAddress := by
    have hdname := (mem_of_discovery h hd).2.eq hnameless
    have hename := (mem_of_discovery h he).2.eq hnameless
    rw [Device.sameIdentity, hdname, hename, Bool.or_self] at hsame
    exact of_decide_eq_true hsame
  -- Both were asked at one address, where nothing was known before.
  rw [hW.probe net net' hn hn', hconn, hpe] at hpd
  exact (Except.ok.inj hpd).symm

end

/-! ### Registries -/

/-- In whatever order the probes of a pass end, its report does the same to a registry. Two
refreshes of miners that are dialed once leave the same registry. Two discoveries, where no miner
gives itself a name, add the same miners; and they leave the same registry if it is ordered by
addresses and all of these are distinct. -/
theorem registry_of_any_completion_order {σ : Type} [Store σ] (hW : SameOutcomes W) :
    (∀ known n n' fetchAsic report report', DialedOnce known →
      (Job.refresh known n fetchAsic).Yields W (.refreshed report) →
      (Job.refresh known n' fetchAsic).Yields W (.refreshed report') →
      ∀ r : Registry σ, r.applyRefresh report.devices = r.applyRefresh report'.devices) ∧
    (Nameless W → ∀ seed netmask n n' report report',
      (Job.discovery seed netmask n).Yields W (.discovered (.ok report)) →
      (Job.discovery seed netmask n').Yields W (.discovered (.ok report')) →
      ∀ r : Registry σ,
        (∃ added, (r.merge report.devices).1.devices.Perm (r.devices ++ added) ∧
          (r.merge report'.devices).1.devices.Perm (r.devices ++ added) ∧
          (r.merge report.devices).2.1 = added.length ∧
          (r.merge report'.devices).2.1 = added.length) ∧
        (r.sort.field = .address →
          ((r.merge report.devices).1.devices.map (·.address)).Nodup →
          r.merge report.devices = r.merge report'.devices)) := by
  constructor
  · intro known n n' fetchAsic report report' hknown h h' r
    have honce : DialedOnce report.devices := (perm_dialed_of_refresh h).nodup_iff.mpr hknown
    exact r.applyRefresh_eq_of_perm (hW.perm_refreshed h h') honce
  · intro hnameless seed netmask n n' report report' h h' r
    have hp := hW.perm_discovered h h'
    have hc := hW.recordedOnce hnameless h
    have hadded := Registry.perm_newcomers hp hc r.devices
    obtain ⟨hmerged, hcount⟩ := r.perm_merge report.devices
    obtain ⟨hmerged', hcount'⟩ := r.perm_merge report'.devices
    refine ⟨⟨_, hmerged, ?_, hcount, ?_⟩, fun hfield hn => ?_⟩
    · exact hmerged'.trans (hadded.symm.append_left r.devices)
    · rw [hcount', hadded.length_eq]
    · exact Registry.merge_eq_of_perm hfield hp hc hn

/-- Two miners answer one after the other, and then the other way around. -/
theorem two_miners_in_either_order :
    let net : Network := { silent with
      info := fun _ => .after 0 (.ok (.object [("ASICModel", .string "BM1370")]))
      asic := fun _ => .after 0 (.ok .null) }
    let upwards := net.delayed fun a => if a = "10.1.1.49" then 10 else 20
    let downwards := net.delayed fun a => if a = "10.1.1.49" then 20 else 10
    let miner (a : String) : Device := {
      address := a, connectionAddress := a, displayName := some a, asicModel := some "BM1370"
      deviceModel := some "Other", swarmColor := some "gray" }
    let a := miner "10.1.1.49"
    let b := miner "10.1.1.50"
    let discovery := Job.discovery "10.1.1.49" "255.255.255.252" 128
    let refresh := Job.refresh [a, b] 128 false
    (discovery.run upwards).2.2 = some (.discovered (.ok ⟨[a, b], []⟩)) ∧
      (discovery.run downwards).2.2 = some (.discovered (.ok ⟨[b, a], []⟩)) ∧
      (refresh.run upwards).2.2 = some (.refreshed ⟨[a, b], []⟩) ∧
      (refresh.run downwards).2.2 = some (.refreshed ⟨[b, a], []⟩) ∧
      (∀ r : Registry MemoryStore, r.applyRefresh [a, b] = r.applyRefresh [b, a]) ∧
      ({ store := KeyMap.empty } : Registry MemoryStore).merge [a, b] =
        ({ store := KeyMap.empty } : Registry MemoryStore).merge [b, a] := by
  intro net upwards downwards miner a b discovery refresh
  have hupwards : net.InTime upwards :=
    ⟨_, fun a => by by_cases h : a = "10.1.1.49" <;> simp [h, probeLimit], rfl⟩
  have hdownwards : net.InTime downwards :=
    ⟨_, fun a => by by_cases h : a = "10.1.1.49" <;> simp [h, probeLimit], rfl⟩
  have hfound : (discovery.run upwards).2.2 = some (.discovered (.ok ⟨[a, b], []⟩)) := by
    decide +kernel
  have hfound' : (discovery.run downwards).2.2 = some (.discovered (.ok ⟨[b, a], []⟩)) := by
    decide +kernel
  have hrefreshed : (refresh.run upwards).2.2 = some (.refreshed ⟨[a, b], []⟩) := by
    decide +kernel
  have hrefreshed' : (refresh.run downwards).2.2 = some (.refreshed ⟨[b, a], []⟩) := by
    decide +kernel
  have hnameless : Nameless net.InTime := by
    rintro address name ⟨hne, _, ⟨delay, -, rfl⟩, time, payload, rfl, hinfo | hasic⟩
    · cases hinfo
      exact hne (by decide)
    · cases hasic
      exact hne (by decide)
  obtain ⟨hrefresh, hdiscovery⟩ :=
    registry_of_any_completion_order (σ := MemoryStore) net.sameOutcomes_inTime
  have hmerge := hdiscovery hnameless _ _ _ _ _ _ (Job.yields_of_run hupwards hfound)
    (Job.yields_of_run hdownwards hfound') { store := KeyMap.empty }
  exact ⟨hfound, hfound', hrefreshed, hrefreshed',
    hrefresh _ _ _ _ _ _ (by decide +kernel) (Job.yields_of_run hupwards hrefreshed)
      (Job.yields_of_run hdownwards hrefreshed'),
    hmerge.2 rfl (by decide +kernel)⟩

end MinerFleet
