/-
What of a record comes from the answers of its miner, and what from the record before.

* `Device.identity` — that part of a record which says which miner this is;
* `Device.Remembers` — a record knows all of another one's identity that was known;
* `Refreshed` — what becomes of a record by refreshes that follow each other.

A probe reads nothing of the record before but its identity (`probe_identity`), so that no reading
is older than the answers. And no refresh forgets any of it, whether its miner answers or not
(`Refreshed.remembers`).
-/
import MinerFleet.Proofs.Probe.Results

namespace MinerFleet

/-! ### Identity -/

namespace Device

/-- The record with nothing but what says which miner this is. -/
def identity (d : Device) : Device where
  address := d.address
  connectionAddress := d.connectionAddress
  hostname := d.hostname
  currentIp := d.currentIp
  asicModel := d.asicModel
  deviceModel := d.deviceModel
  asicCount := d.asicCount
  swarmColor := d.swarmColor
  boardVersion := d.boardVersion
  version := d.version
  extra := d.extra

/-- A record knows whatever was known of the identity of another one. -/
structure Remembers (d d₀ : Device) : Prop where
  hostname : d₀.hostname.isSome = true → d.hostname.isSome = true
  currentIp : d₀.currentIp.isSome = true → d.currentIp.isSome = true
  asicModel : d₀.asicModel.isSome = true → d.asicModel.isSome = true
  deviceModel : d₀.deviceModel.isSome = true → d.deviceModel.isSome = true
  asicCount : d₀.asicCount.isSome = true → d.asicCount.isSome = true
  swarmColor : d₀.swarmColor.isSome = true → d.swarmColor.isSome = true
  boardVersion : d₀.boardVersion.isSome = true → d.boardVersion.isSome = true
  version : d₀.version.isSome = true → d.version.isSome = true
  extra : ∀ key, (d₀.extra.get? key).isSome = true → (d.extra.get? key).isSome = true

theorem Remembers.refl (d : Device) : d.Remembers d :=
  ⟨id, id, id, id, id, id, id, id, fun _ => id⟩

theorem Remembers.trans {d d₁ d₀ : Device} (h : d.Remembers d₁) (h' : d₁.Remembers d₀) :
    d.Remembers d₀ where
  hostname := h.hostname ∘ h'.hostname
  currentIp := h.currentIp ∘ h'.currentIp
  asicModel := h.asicModel ∘ h'.asicModel
  deviceModel := h.deviceModel ∘ h'.deviceModel
  asicCount := h.asicCount ∘ h'.asicCount
  swarmColor := h.swarmColor ∘ h'.swarmColor
  boardVersion := h.boardVersion ∘ h'.boardVersion
  version := h.version ∘ h'.version
  extra key := h.extra key ∘ h'.extra key

/-- What a fresh record does not say is taken from the one below. -/
theorem remembers_overlay (fresh base : Device) : (fresh.overlay base).Remembers base := by
  have hor : ∀ {α : Type} (x y : Option α), y.isSome = true → (x.or y).isSome = true := by
    intro α x y hy
    rw [Option.isSome_or, hy, Bool.or_true]
  constructor <;> first | exact hor _ _ | skip
  intro key hkey
  show ((base.extra.extend fresh.extra).get? key).isSome = true
  rw [KeyMap.get?_extend]
  exact hor _ _ hkey

/-- The model and the colour are filled in where they are missing, and kept otherwise. -/
theorem remembers_classified (d : Device) : d.classified.Remembers d := by
  rw [classified]
  by_cases h : d.isClassified
  · rw [if_pos h]
    exact .refl d
  · rw [if_neg h]
    refine ⟨id, id, id, fun _ => rfl, id, fun hc => ?_, id, id, fun _ => id⟩
    show (d.swarmColor.or _).isSome = true
    rw [Option.isSome_or, hc, Bool.true_or]

/-- A failure changes readings, and nothing of the identity. -/
theorem remembers_failed (d : Device) : d.failed.Remembers d :=
  ⟨id, id, id, id, id, id, id, id, fun _ => id⟩

/-- The record that is put together for an address, when all layers are there. -/
def finished (d : Device) (address : String) : Device :=
  let d := { d with
    connectionAddress := address
    address := orText d.address address }
  { d.numerized.classified.named with failedPolls := 0 }

theorem remembers_finished (d : Device) (address : String) : (d.finished address).Remembers d := by
  have hclassified := remembers_classified
    { d with connectionAddress := address, address := orText d.address address }.numerized
  -- Neither the addresses nor the readings nor the name to show are asked for.
  exact ⟨hclassified.hostname, hclassified.currentIp, hclassified.asicModel,
    hclassified.deviceModel, hclassified.asicCount, hclassified.swarmColor,
    hclassified.boardVersion, hclassified.version, hclassified.extra⟩

theorem classified_displayName (d : Device) (name : Option String) :
    { d with displayName := name }.classified = { d.classified with displayName := name } := by
  have hsame : { d with displayName := name }.isClassified = d.isClassified := rfl
  rw [classified, classified, hsame]
  by_cases h : d.isClassified
  · rw [if_pos h, if_pos h]
  · rw [if_neg h, if_neg h]

/-- The name to show is derived anew. -/
theorem finished_displayName (d : Device) (name : Option String) (address : String) :
    { d with displayName := name }.finished address = d.finished address := by
  have hclassified := classified_displayName
    { d with connectionAddress := address, address := orText d.address address }.numerized name
  exact congrArg (fun d : Device => { d.named with failedPolls := 0 }) hclassified

end Device

theorem assemble_eq (address : String) (prior : Option Device) (info asic : Device) :
    assemble address prior info asic =
      if ((asic.combine info).overlay (prior.getD {})).asicModel.isNone then .error .notMiner
      else .ok (((asic.combine info).overlay (prior.getD {})).finished address) := rfl

/-- Whatever a miner answers, its record knows what was known. -/
theorem remembers_of_assemble {address : String} {k info asic d : Device}
    (h : assemble address (some k) info asic = .ok d) : d.Remembers k := by
  rw [assemble_eq] at h
  split at h
  · cases h
  · cases h
    exact (Device.remembers_finished _ address).trans (Device.remembers_overlay _ k)

/-- Of the record before, a probe reads the identity and nothing else. -/
theorem assemble_identity (address : String) (k info asic : Device) :
    assemble address (some k) info asic = assemble address (some k.identity) info asic := by
  -- The layers differ in the name to show at most.
  have hlayers : (asic.combine info).overlay k =
      { (asic.combine info).overlay k.identity with
        displayName := ((asic.combine info).overlay k).displayName } := rfl
  rw [assemble_eq, assemble_eq, Option.getD_some, Option.getD_some, hlayers,
    Device.finished_displayName]

theorem Network.probe_identity (net : Network) (fetchAsic : Bool) (address : String)
    (k : Device) :
    net.probe fetchAsic ⟨address, some k⟩ = net.probe fetchAsic ⟨address, some k.identity⟩ := by
  have hresult : ∀ info asic, probeResult ⟨address, some k⟩ info asic =
      probeResult ⟨address, some k.identity⟩ info asic := by
    intro info asic
    simp only [probeResult, assemble_identity address k]
  simp only [probe, hresult]

/-! ### Refreshes -/

/-- What becomes of a record by refreshes that follow each other. Each of them knows the record
that the one before has left, as the only one at its address, and has a result for it. -/
inductive Refreshed (W : Network → Prop) (k : Device) : Device → Prop
  | refl : Refreshed W k k
  | refresh {d d' : Device} {known : List Device} {n : Nat} {fetchAsic : Bool} {report : Report}
      (h : Refreshed W k d) (hk : dialedAt d.connectionAddress known = [d])
      (hy : (Job.refresh known n fetchAsic).Yields W (.refreshed report))
      (hd : Registry.resultFor report.devices d.connectionAddress = some d') : Refreshed W k d'

variable {W : Network → Prop}

/-- A refresh forgets nothing of the identity of a miner. -/
theorem remembers_of_refresh {d d' : Device} {known : List Device} {n : Nat} {fetchAsic : Bool}
    {report : Report} (hk : dialedAt d.connectionAddress known = [d])
    (hy : (Job.refresh known n fetchAsic).Yields W (.refreshed report))
    (hd : Registry.resultFor report.devices d.connectionAddress = some d') : d'.Remembers d := by
  rcases outcome_at_of_refresh hy hk with ⟨d₁, ha, hresult, -⟩ | ⟨hresult, -⟩
  · obtain ⟨info, asic, ha⟩ := ha.assembled
    rw [hresult] at hd
    cases hd
    exact remembers_of_assemble ha
  · rw [hresult] at hd
    cases hd
    exact d.remembers_failed

theorem Refreshed.remembers {k d : Device} (h : Refreshed W k d) : d.Remembers k := by
  induction h with
  | refl => exact .refl k
  | refresh _ hk hy hd ih => exact (remembers_of_refresh hk hy hd).trans ih

/-- Whatever a miner answers, its readings are those of its answers alone: of two records before
that agree in what says which miner it is, a probe makes the same. And however often a miner is
refreshed, with or without success, nothing that says which miner it is gets lost. -/
theorem fresh_readings_lasting_identity (W : Network → Prop) :
    (∀ (net : Network) (fetchAsic : Bool) (address : String) (a b : Device),
      a.identity = b.identity →
        net.probe fetchAsic ⟨address, some a⟩ = net.probe fetchAsic ⟨address, some b⟩) ∧
    ∀ k d, Refreshed W k d → d.Remembers k := by
  refine ⟨fun net fetchAsic address a b h => ?_, fun k d h => h.remembers⟩
  rw [net.probe_identity fetchAsic address a, h, ← net.probe_identity]

/-- A miner has failed once more, and then it answers without its hostname and without its fault:
the fault is gone, and the hostname is still known. -/
theorem recovered_miner_keeps_its_hostname :
    let k : Device := { address := "10.1.1.50", connectionAddress := "10.1.1.50",
                        hostname := some "axe-1", powerFault := some "low", failedPolls := 2 }
    let answering : Network := { silent with
      info := fun _ => .after 0 (.ok (.object [("ASICModel", .string "BM1370")])) }
    ∃ d, Refreshed (fun _ => True) k d ∧ d.Remembers k ∧ d.hostname = some "axe-1" ∧
      answering.probe false ⟨"10.1.1.50", some k⟩ = (0, .ok d) ∧
      answering.probe false ⟨"10.1.1.50", some k.identity⟩ = (0, .ok d) ∧
      d.powerFault = none ∧ d.failedPolls = 0 := by
  intro k answering
  let d : Device := { k with
    displayName := some "axe-1", asicModel := some "BM1370", deviceModel := some "Other"
    swarmColor := some "gray", powerFault := none, failedPolls := 0 }
  have hmissed : ((Job.refresh [k] 128 false).run silent).2.2 =
      some (.refreshed ⟨[k.failed], [("10.1.1.50", .timeout)]⟩) := by decide +kernel
  have hreached : ((Job.refresh [k.failed] 128 false).run answering).2.2 =
      some (.refreshed ⟨[d], []⟩) := by decide +kernel
  have hfailed : Refreshed (fun _ => True) k k.failed :=
    .refresh .refl (by decide +kernel) (Job.yields_of_run trivial hmissed) (by decide +kernel)
  have h : Refreshed (fun _ => True) k d :=
    .refresh hfailed (by decide +kernel) (Job.yields_of_run trivial hreached) (by decide +kernel)
  obtain ⟨hprobe, hremembers⟩ := fresh_readings_lasting_identity fun _ => True
  have hd : answering.probe false ⟨"10.1.1.50", some k⟩ = (0, .ok d) := by decide +kernel
  exact ⟨d, h, hremembers k d h, rfl, hd,
    (hprobe answering false "10.1.1.50" k.identity k rfl).trans hd, rfl, rfl⟩

end MinerFleet
