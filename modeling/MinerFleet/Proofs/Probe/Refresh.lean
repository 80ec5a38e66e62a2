/-
What a refresh reports of the miners that it knows.

* `Device.after` — the record of a miner after an outcome: the one that it has answered with, or the
  one before with one more failure;
* `Report.OneEach` — a report that has one record for each outcome, and one failure for each that is
  a failure.

On a network that stays as it is, a refresh ends with such a report of its probes, and on any other
one its report is of outcomes that its miners can have had (`refresh_reports_one_each`). Whatever
an answer says of its address, its record is dialed where it was asked, so that the addresses of the
report are those of the miners that are known.
-/
import MinerFleet.Proofs.Fleet.Totals
import MinerFleet.Proofs.Probe.Pass
import MinerFleet.Proofs.Probe.Results

namespace MinerFleet

/-- The record of a miner after it was asked. -/
def Device.after (k : Device) : Except ProbeFailure Device → Device
  | .ok d => d
  | .error _ => k.failed

/-- The failure of a miner that was asked, if it is one, with the address that was asked. -/
def Device.failureOf (k : Device) : Except ProbeFailure Device → Option (String × ProbeFailure)
  | .ok _ => none
  | .error failure => some (k.connectionAddress, failure)

/-- A report that has one record for each outcome and tells each failure once. The records are
dialed where the miners are dialed that were known. -/
structure Report.OneEach (report : Report) (outcomes : List (Device × Except ProbeFailure Device)) :
    Prop where
  devices : report.devices.Perm (outcomes.map fun o => o.1.after o.2)
  failures : report.failures.Perm (outcomes.filterMap fun o => o.1.failureOf o.2)
  dialed : (dialed report.devices).Perm (dialed (outcomes.map (·.1)))

variable {W : Network → Prop} {fetchAsic : Bool} {known : List Device}

/-- A report of what known miners have answered has a record for each. -/
theorem devices_refreshReport (outcomes : List (Device × Except ProbeFailure Device)) :
    (refreshReport (outcomes.map fun o => (Target.ofDevice o.1, o.2))).devices =
      outcomes.map fun o => o.1.after o.2 := by
  refine (List.filterMap_map.trans (List.filterMap_congr fun o _ => ?_)).trans
    (congrFun List.filterMap_eq_map outcomes)
  obtain ⟨k, _ | d⟩ := o <;> rfl

/-- It tells the failures. -/
theorem failures_refreshReport (outcomes : List (Device × Except ProbeFailure Device)) :
    (refreshReport (outcomes.map fun o => (Target.ofDevice o.1, o.2))).failures =
      outcomes.filterMap fun o => o.1.failureOf o.2 := by
  refine List.filterMap_map.trans (List.filterMap_congr fun o _ => ?_)
  obtain ⟨k, _ | d⟩ := o <;> rfl

/-- Outcomes in another order make the same report, but for its order. -/
theorem Report.OneEach.of_perm {report : Report}
    {outcomes outcomes' : List (Device × Except ProbeFailure Device)} (h : report.OneEach outcomes)
    (hp : outcomes.Perm outcomes') : report.OneEach outcomes' where
  devices := h.devices.trans (hp.map _)
  failures := h.failures.trans (hp.filterMap _)
  dialed := h.dialed.trans ((hp.map _).map _)

/-- A report of a refresh is one of outcomes that the known miners can have had. -/
theorem oneEach_of_refresh {n : Nat} {report : Report}
    (h : (Job.refresh known n fetchAsic).Yields W (.refreshed report)) :
    ∃ outcomes : List (Device × Except ProbeFailure Device), (outcomes.map (·.1)).Perm known ∧
      (∀ o ∈ outcomes, Answered W fetchAsic (.ofDevice o.1) o.2) ∧ report.OneEach outcomes := by
  have hdialed := perm_dialed_of_refresh h
  obtain ⟨asked, rfl, ht, ho⟩ := outcomes_of_refresh h
  -- A target holds the miner that it is made of.
  let miner : Target → Device := fun target => target.prior.getD {}
  obtain ⟨outcomes, rfl⟩ : ∃ outcomes : List (Device × Except ProbeFailure Device),
      outcomes.map (fun o => (Target.ofDevice o.1, o.2)) = asked := by
    refine ⟨asked.map fun o => (miner o.1, o.2), ?_⟩
    rw [List.map_map]
    conv_rhs => rw [← List.map_id asked]
    refine List.map_congr_left fun o hm => ?_
    obtain ⟨k, -, hk⟩ := known_of_outcome ht o hm
    obtain ⟨target, outcome⟩ := o
    obtain rfl : target = Target.ofDevice k := hk
    rfl
  have hknown : (outcomes.map (·.1)).Perm known := by
    have hp := ht.map miner
    rw [List.map_map, List.map_map, List.map_map] at hp
    exact hp.trans (.of_eq (List.map_id known))
  refine ⟨outcomes, hknown, fun o hm => ho _ (List.mem_map_of_mem hm), ?_, ?_, ?_⟩
  · exact .of_eq (devices_refreshReport outcomes)
  · exact .of_eq (failures_refreshReport outcomes)
  · exact hdialed.trans (hknown.map _).symm

/-- On a network that stays as it is, the outcomes are those of the probes. -/
theorem oneEach_of_probes {net : Network} {n : Nat} {report : Report}
    (h : (Job.refresh known n fetchAsic).Yields (· = net) (.refreshed report)) :
    report.OneEach (known.map fun k => (k, (net.probe fetchAsic (.ofDevice k)).2)) := by
  obtain ⟨outcomes, hperm, ho, hreport⟩ := oneEach_of_refresh h
  refine hreport.of_perm (.trans (.of_eq ?_) (hperm.map _))
  rw [List.map_map]
  conv_lhs => rw [← List.map_id outcomes]
  refine List.map_congr_left fun o hm => ?_
  obtain ⟨_, rfl, hprobe⟩ := ho o hm
  exact Prod.ext rfl hprobe.symm

/-- A refresh of any miners, on any network, ends with one record for each, dialed where the miner
was dialed that was known, and tells each failure once; and so does one whose miners answer in other
ways while it goes on. The record of a miner that has failed is the one before with its readings at
zero and one more failure, as far as they are counted. It adds nothing to the sums of any fleet. -/
theorem refresh_reports_one_each :
    (∀ (net : Network) (known : List Device) (n : Nat) (fetchAsic : Bool) (now : Nat),
      ∃ ended calls report,
        Job.runFrom net (Job.refresh known n fetchAsic).moments now
            ((Job.refresh known n fetchAsic).begins net now) =
          (ended, calls, some (.refreshed report)) ∧
        report.OneEach (known.map fun k => (k, (net.probe fetchAsic (.ofDevice k)).2))) ∧
    (∀ (W : Network → Prop) (known : List Device) (n : Nat) (fetchAsic : Bool) (report : Report),
      (Job.refresh known n fetchAsic).Yields W (.refreshed report) →
        ∃ outcomes : List (Device × Except ProbeFailure Device),
          (outcomes.map (·.1)).Perm known ∧
          (∀ o ∈ outcomes, Answered W fetchAsic (.ofDevice o.1) o.2) ∧ report.OneEach outcomes) ∧
    ∀ k : Device,
      k.failed = { k with
        hashRate := some 0
        sharesAccepted := some 0
        power := some 0
        voltage := some 0
        temp := some 0
        bestDiff := some (.number 0)
        uptimeSeconds := some 0
        poolDifficulty := some 0
        failedPolls := k.failed.failedPolls } ∧
      k.failed.failedPolls.toNat = min (k.failedPolls.toNat + 1) (UInt32.size - 1) ∧
      ∀ before after, totals (before ++ k.failed :: after) = totals (before ++ after) := by
  refine ⟨fun net known n fetchAsic now => ?_, fun W known n fetchAsic report => oneEach_of_refresh,
    fun k => ⟨rfl, Device.toNat_countFailure _, fun before after => ?_⟩⟩
  · have hrun : Job.runFrom net _ now ((Job.refresh known n fetchAsic).begins net now) = _ :=
      run_refresh known n fetchAsic now
    have hleads := leads_of_runFrom (W := (· = net)) rfl (congrArg (·.2.2) hrun)
    exact ⟨_, _, _, hrun, oneEach_of_probes ⟨net, now, rfl, hleads⟩⟩
  · exact totals_with_failed before after k

/-- Of two miners the second answers late. The first does not answer, and has failed as often as is
counted already. -/
theorem second_of_two_answers :
    let missed : Device := {
      address := "10.1.1.49", connectionAddress := "10.1.1.49", hostname := some "axe-1"
      hashRate := some 500, failedPolls := 0xffffffff }
    let known : List Device := [missed, .at_ "10.1.1.50" "10.1.1.50"]
    let net : Network := { silent with
      info := fun address =>
        if address = "10.1.1.50" then
          .after 3000 (.ok (.object [("ASICModel", .string "BM1370"), ("hashRate", .ofNat 1000)]))
        else .never }
    ∃ report outcomes, (Job.refresh known 2 false).Yields (· = net) (.refreshed report) ∧
      (outcomes.map (·.1)).Perm known ∧ report.OneEach outcomes ∧
      report.failures = [("10.1.1.49", .timeout)] ∧ missed.failed ∈ report.devices ∧
      missed.failed.failedPolls = 0xffffffff ∧ (totals report.devices).hashRate = 1000 := by
  intro missed known net
  let answered : Device := {
    address := "10.1.1.50", connectionAddress := "10.1.1.50", displayName := some "10.1.1.50"
    asicModel := some "BM1370", deviceModel := some "Other", swarmColor := some "gray"
    hashRate := some 1000 }
  let report : Report := ⟨[answered, missed.failed], [("10.1.1.49", .timeout)]⟩
  have hrun : ((Job.refresh known 2 false).run net).2.2 = some (.refreshed report) := by
    decide +kernel
  have hyields : (Job.refresh known 2 false).Yields (· = net) (.refreshed report) :=
    Job.yields_of_run (W := (· = net)) rfl hrun
  obtain ⟨-, hreports, hfailed⟩ := refresh_reports_one_each
  obtain ⟨outcomes, hperm, -, hone⟩ := hreports _ known 2 false report hyields
  have hsums : totals report.devices = totals [answered] :=
    (hfailed missed).2.2 [answered] []
  refine ⟨report, outcomes, hyields, hperm, hone, rfl, by simp [report], rfl, ?_⟩
  rw [hsums]
  decide +kernel

end MinerFleet
