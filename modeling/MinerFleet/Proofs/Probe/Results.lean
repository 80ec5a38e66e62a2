/-
What a refresh has found at one address.

* `Report.misses`, `Report.reaches` — a refresh has failed to get a record of the miner at an
  address, or it has got one;
* `Answered.assembled` — a miner that was asked has a record that is put together of two answers and
  of what was known.

A refresh that knows one miner at an address has one result there: what the miner has answered, or
its record with one more failure (`outcome_at_of_refresh`).
-/
import MinerFleet.Proofs.Probe.Identity

namespace MinerFleet

/-! ### Failures -/

/-- Failures are counted as far as the number goes. -/
theorem Device.toNat_countFailure (n : UInt32) :
    (countFailure n).toNat = min (n.toNat + 1) (UInt32.size - 1) := by
  have hlt := n.toNat_lt
  have hsize : UInt32.size = 4294967296 := rfl
  rw [countFailure]
  by_cases h : n = 0xffffffff
  · rw [if_pos h, h]
    rfl
  · have hne : n.toNat ≠ UInt32.size - 1 := fun he => h (UInt32.toNat_inj.mp he)
    rw [if_neg h, UInt32.toNat_add, UInt32.toNat_one]
    omega

theorem failedPolls_of_assemble {address : String} {prior : Option Device} {info asic d : Device}
    (h : assemble address prior info asic = .ok d) : d.failedPolls = 0 := by
  rw [assemble] at h
  split at h
  · cases h
  · cases h
    rfl

/-- Whether a refresh has failed to get a record of the miner at an address. -/
def Report.misses (report : Report) (a : String) : Bool :=
  report.failures.any fun failure => failure.1 = a

/-- Whether a refresh has asked at an address and got all records there. -/
def Report.reaches (report : Report) (a : String) : Bool :=
  !report.misses a && (dialed report.devices).contains a

variable {W : Network → Prop} {fetchAsic : Bool}

/-- A miner that was asked has a record that is put together of its answers. -/
theorem Answered.assembled {target : Target} {d : Device}
    (h : Answered W fetchAsic target (.ok d)) :
    ∃ info asic, assemble target.connectionAddress target.prior info asic = .ok d := by
  obtain ⟨net, -, hprobe⟩ := h
  obtain ⟨info, asic, -, -, hresult⟩ := answers_of_probe hprobe
  rw [probeResult, bind_eq_ok] at hresult
  obtain ⟨payload, -, hresult⟩ := hresult
  rw [bind_eq_ok] at hresult
  obtain ⟨record, -, ha⟩ := hresult
  exact ⟨record, readAsic asic, ha⟩

/-- Whoever has answered has not failed since. -/
theorem Answered.failedPolls {target : Target} {d : Device}
    (h : Answered W fetchAsic target (.ok d)) : d.failedPolls = 0 := by
  obtain ⟨info, asic, ha⟩ := h.assembled
  exact failedPolls_of_assemble ha

/-! ### Outcomes -/

section

variable {outcomes : List (Target × Except ProbeFailure Device)} {a : String}

theorem misses_refreshReport :
    (refreshReport outcomes).misses a = true ↔
      ∃ o ∈ outcomes, o.1.connectionAddress = a ∧ ∃ failure, o.2 = .error failure := by
  rw [Report.misses, List.any_eq_true]
  constructor
  · rintro ⟨failure, hm, ha⟩
    obtain ⟨⟨target, outcome⟩, ho, he⟩ := List.mem_filterMap.mp hm
    cases outcome with
    | ok d => cases he
    | error failure' =>
      cases he
      exact ⟨_, ho, by simpa using ha, failure', rfl⟩
  · rintro ⟨⟨target, outcome⟩, ho, rfl, failure, rfl⟩
    exact ⟨(target.connectionAddress, failure), List.mem_filterMap.mpr ⟨_, ho, rfl⟩, by simp⟩

/-- The records at an address are those of the outcomes there. -/
theorem dialedAt_refreshReport (ht : ∀ o ∈ outcomes, ∃ k, o.1 = Target.ofDevice k)
    (ho : ∀ o ∈ outcomes, Answered W fetchAsic o.1 o.2) :
    dialedAt a (refreshReport outcomes).devices =
      (refreshReport (outcomes.filter fun o => o.1.connectionAddress = a)).devices := by
  induction outcomes with
  | nil => rfl
  | cons o outcomes ih =>
    obtain ⟨target, outcome⟩ := o
    have ih := ih (fun o h => ht o (List.mem_cons_of_mem _ h))
      (fun o h => ho o (List.mem_cons_of_mem _ h))
    -- Either way the outcome gives one record, dialed where it was asked.
    obtain ⟨d, hd, hone⟩ : ∃ d : Device, d.connectionAddress = target.connectionAddress ∧
        ∀ rest, (refreshReport ((target, outcome) :: rest)).devices =
          d :: (refreshReport rest).devices := by
      cases outcome with
      | ok d => exact ⟨d, (ho _ List.mem_cons_self).connectionAddress, fun _ => rfl⟩
      | error failure =>
        obtain ⟨k, hk⟩ := ht _ List.mem_cons_self
        obtain rfl : target = Target.ofDevice k := hk
        exact ⟨k.failed, rfl, fun _ => rfl⟩
    rw [hone]
    by_cases ha : target.connectionAddress = a
    · subst ha
      rw [List.filter_cons_of_pos (by simp), hone, ← ih, ← hd]
      exact dialedAt_cons_self d _
    · rw [List.filter_cons_of_neg (by simpa using ha), ← ih]
      exact dialedAt_cons_of_ne (hd ▸ ha)

end

/-! ### Results -/

/-- A network where nobody answers. -/
def silent : Network where
  info _ := .never
  asic _ := .never
  act _ _ := .never
  resolve _ := .never

/-- Where one record is dialed at an address, it is the result for it. -/
theorem Registry.resultFor_of_dialedAt {refreshed : List Device} {a : String} {d : Device}
    (h : dialedAt a refreshed = [d]) : resultFor refreshed a = some d := by
  rw [dialedAt] at h
  rw [resultFor, ← List.head?_filter, List.filter_reverse, h]
  rfl

variable {known : List Device} {n : Nat} {report : Report} {a : String}

/-- Each outcome of a refresh is that of a miner that it knows. -/
theorem known_of_outcome {outcomes : List (Target × Except ProbeFailure Device)}
    (h : (outcomes.map (·.1)).Perm (known.map Target.ofDevice)) :
    ∀ o ∈ outcomes, ∃ k ∈ known, o.1 = Target.ofDevice k := by
  intro o ho
  obtain ⟨k, hk, he⟩ := List.mem_map.mp (h.mem_iff.mp (List.mem_map_of_mem ho))
  exact ⟨k, hk, he.symm⟩

/-- Where a refresh knows one miner at an address, it has one result there: that of the miner if it
has answered, and else its record with one more failure. -/
theorem outcome_at_of_refresh
    (h : (Job.refresh known n fetchAsic).Yields W (.refreshed report)) {k : Device}
    (hk : dialedAt a known = [k]) :
    (∃ d, Answered W fetchAsic (.ofDevice k) (.ok d) ∧
      Registry.resultFor report.devices a = some d ∧ report.misses a = false) ∨
    (Registry.resultFor report.devices a = some k.failed ∧ report.misses a = true) := by
  obtain ⟨outcomes, rfl, ht, ho⟩ := outcomes_of_refresh h
  have hknown := known_of_outcome ht
  have hrecords := dialedAt_refreshReport (a := a)
    (fun o hm => (hknown o hm).imp fun _ => And.right) ho
  -- One outcome is that of the miner.
  have hperm := ht.filter fun t => t.connectionAddress = a
  have hone : (known.map Target.ofDevice).filter (fun t => t.connectionAddress = a) =
      [Target.ofDevice k] := by
    rw [List.filter_map]
    exact congrArg (List.map Target.ofDevice) hk
  rw [hone, List.filter_map, List.perm_singleton, List.map_eq_singleton_iff] at hperm
  obtain ⟨⟨target, outcome⟩, hfilter, rfl⟩ := hperm
  have hfilter : outcomes.filter (fun o => o.1.connectionAddress = a) =
      [(Target.ofDevice k, outcome)] := hfilter
  have hat : ∀ o, o ∈ outcomes ∧ o.1.connectionAddress = a ↔ o = (Target.ofDevice k, outcome) := by
    intro o
    rw [← List.mem_singleton (b := (Target.ofDevice k, outcome)), ← hfilter, List.mem_filter,
      decide_eq_true_iff]
  obtain ⟨hmem, ha⟩ := (hat _).mpr rfl
  rw [hfilter] at hrecords
  have hresult (d : Device) (hd : dialedAt a (refreshReport outcomes).devices = [d]) :
      Registry.resultFor (refreshReport outcomes).devices a = some d :=
    Registry.resultFor_of_dialedAt hd
  cases outcome with
  | ok d =>
    refine .inl ⟨d, ho _ hmem, hresult d hrecords, ?_⟩
    rw [← Bool.not_eq_true, misses_refreshReport]
    rintro ⟨o, hm, ho', failure, he⟩
    rw [(hat o).mp ⟨hm, ho'⟩] at he
    cases he
  | error failure =>
    exact .inr ⟨hresult _ hrecords, misses_refreshReport.mpr ⟨_, hmem, ha, failure, rfl⟩⟩

/-- Where a refresh misses a miner, it counts one failure more than it knows of. -/
theorem countFailure_of_misses
    (h : (Job.refresh known n fetchAsic).Yields W (.refreshed report)) {k d : Device}
    (hk : dialedAt a known = [k]) (hm : report.misses a = true)
    (hd : Registry.resultFor report.devices a = some d) :
    d.failedPolls = Device.countFailure k.failedPolls := by
  rcases outcome_at_of_refresh h hk with ⟨-, -, -, hreached⟩ | ⟨hresult, -⟩
  · exact absurd (hreached.symm.trans hm) Bool.false_ne_true
  · rw [hresult] at hd
    cases hd
    rfl

/-- Wherever a refresh misses nobody, its results have no failures. -/
theorem failedPolls_of_not_misses
    (h : (Job.refresh known n fetchAsic).Yields W (.refreshed report))
    (hm : report.misses a = false) {d : Device}
    (hd : Registry.resultFor report.devices a = some d) : d.failedPolls = 0 := by
  obtain ⟨outcomes, rfl, ht, ho⟩ := outcomes_of_refresh h
  have ha := Registry.resultFor_connectionAddress hd
  have hrecord := List.mem_reverse.mp (List.mem_of_find?_eq_some hd)
  obtain ⟨⟨target, outcome⟩, hmem, he⟩ := List.mem_filterMap.mp hrecord
  cases outcome with
  | ok d' =>
    obtain rfl : d' = d := Option.some.inj he
    have hanswered : Answered W fetchAsic target (.ok d') := ho _ hmem
    exact hanswered.failedPolls
  | error failure =>
    obtain ⟨k, -, hk⟩ := known_of_outcome ht _ hmem
    obtain rfl : target = Target.ofDevice k := hk
    obtain rfl : k.failed = d := Option.some.inj he
    have hmisses := misses_refreshReport.mpr ⟨_, hmem, ha, failure, rfl⟩
    exact absurd (hm.symm.trans hmisses) Bool.false_ne_true

/-- Wherever a refresh misses somebody, it has a result. -/
theorem mem_dialed_of_misses
    (h : (Job.refresh known n fetchAsic).Yields W (.refreshed report))
    (hm : report.misses a = true) : a ∈ dialed report.devices := by
  obtain ⟨outcomes, rfl, ht, ho⟩ := outcomes_of_refresh h
  have hknown := known_of_outcome ht
  obtain ⟨o, hmem, ha, -⟩ := misses_refreshReport.mp hm
  rw [dialed_refreshReport (fun o hm => (hknown o hm).imp fun _ => And.right) ho]
  exact List.mem_map.mpr ⟨o, hmem, ha⟩

end MinerFleet
