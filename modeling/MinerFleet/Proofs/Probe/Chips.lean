/-
What the answer about chips does to a full probe.

* `Network.chipless` — the same network, where each request for chips fails at once;
* `ChipsOnlyAdd` — a full probe comes to what it comes to without chips, unless it is the chips that
  say which ones they are.

Chips that are there in time are laid over the information and are not looked at otherwise
(`probe_eq`), so that all they do is to say what nobody else has said (`asicModel_layers`). But
both requests of a probe share one limit: chips that are not there in time take the information with
them (`probe_of_not_inTime`). So the answer about chips only adds to the other one where it is in
time, or where there is nothing to add to (`chips_only_add_iff`).
-/
import MinerFleet.Proofs.Probe.Unchanged

namespace MinerFleet

/-! ### Without chips -/

/-- The network where every request for chips fails at once. -/
def Network.chipless (net : Network) (failure : ProbeFailure) : Network :=
  { net with asic := fun _ => .after 0 (.error failure) }

/-- The chips that somebody knows without the answer about them. -/
def knownChips (prior : Option Device) (info : Device) : Option String :=
  info.asicModel.or (prior.getD {}).asicModel

/-- What a full probe at an address comes to is what it would come to if the request for chips had
failed at once, for every failure and whatever is known of the miner; but the answer about chips may
say which ones they are if nobody else does. -/
structure ChipsOnlyAdd (net : Network) (address : String) : Prop where
  /-- A probe that succeeds without chips succeeds. -/
  succeeds : ∀ prior failure d,
    ((net.chipless failure).probe true ⟨address, prior⟩).2 = .ok d →
      ∃ d', (net.probe true ⟨address, prior⟩).2 = .ok d'
  /-- A probe that fails without chips fails in the same way, unless chips make a miner of it. -/
  fails : ∀ prior failure e,
    ((net.chipless failure).probe true ⟨address, prior⟩).2 = .error e →
      (net.probe true ⟨address, prior⟩).2 = .error e ∨
        e = .notMiner ∧ ∃ info d, net.infoRecord address = .ok info ∧
          knownChips prior info = none ∧ (net.asicRecord address).asicModel.isSome = true ∧
          (net.probe true ⟨address, prior⟩).2 = .ok d
  /-- A miner that has given its information, with its chips known, is not missed. -/
  answered : ∀ prior info, net.infoRecord address = .ok info →
    (knownChips prior info).isSome = true →
      ∃ d, (net.probe true ⟨address, prior⟩).2 = .ok d ∧ d.failedPolls = 0
  /-- Whoever adds a miner that keeps its information to itself is told to upgrade it. -/
  isProtected : ∀ name, net.infoRecord address = .error (.status 401) →
    Stage.peerResult name (net.probe true ⟨address, some (Device.at_ name address)⟩).2 =
      .error (.needsUpgrade name)

variable {net : Network} {address : String} {prior : Option Device} {info chips : Device}

theorem asicModel_layers (prior : Option Device) (info chips : Device) :
    ((chips.combine info).overlay (prior.getD {})).asicModel =
      chips.asicModel.or (knownChips prior info) :=
  Option.or_assoc

/-- A record is put together where anybody knows the chips, -/
theorem exists_assemble_iff :
    (∃ d, assemble address prior info chips = .ok d) ↔
      chips.asicModel.isSome = true ∨ (knownChips prior info).isSome = true := by
  rw [assemble_eq, asicModel_layers, ← Bool.or_eq_true, ← Option.isSome_or]
  cases chips.asicModel.or (knownChips prior info) with
  | none => exact iff_of_false (fun ⟨_, h⟩ => by cases h) Bool.false_ne_true
  | some model => exact iff_of_true ⟨_, rfl⟩ rfl

/-- and else the miner is taken for none. -/
theorem assemble_eq_error {e : ProbeFailure} :
    assemble address prior info chips = .error e ↔
      (chips.asicModel = none ∧ knownChips prior info = none) ∧ e = .notMiner := by
  rw [assemble_eq, asicModel_layers, ← Option.or_eq_none_iff]
  cases chips.asicModel.or (knownChips prior info) with
  | none =>
    constructor
    · rintro ⟨⟩
      exact ⟨rfl, rfl⟩
    · rintro ⟨-, rfl⟩
      rfl
  | some model => exact iff_of_false (fun h => by cases h) fun h => by cases h.1

theorem probe_chipless (net : Network) (failure : ProbeFailure) (address : String)
    (prior : Option Device) :
    ((net.chipless failure).probe true ⟨address, prior⟩).2 =
      net.infoRecord address >>= fun info => assemble address prior info {} :=
  probe_eq (fun _ => ⟨0, .error failure, rfl, Nat.zero_le _⟩) prior

/-! ### With chips -/

/-- Chips that are there in time only add to what is known without them. -/
theorem chipsOnlyAdd_of_inTime (h : (net.asic address).InTime probeLimit) :
    ChipsOnlyAdd net address := by
  have hfull : ∀ prior, (net.probe true ⟨address, prior⟩).2 = net.infoRecord address >>=
      fun info => assemble address prior info (net.asicRecord address) :=
    fun prior => probe_eq (fun _ => h) prior
  refine ⟨fun prior failure d hd => ?_, fun prior failure e he => ?_,
    fun prior info hinfo hknown => ?_, fun name hinfo => ?_⟩
  · rw [probe_chipless, bind_eq_ok] at hd
    obtain ⟨info, hinfo, hd⟩ := hd
    -- Without chips it is known which ones they are, and so it is with them.
    have hknown := (exists_assemble_iff.mp ⟨d, hd⟩).resolve_left Bool.false_ne_true
    rw [hfull, hinfo]
    exact exists_assemble_iff.mpr (.inr hknown)
  · rw [probe_chipless, bind_eq_error] at he
    rw [hfull]
    rcases he with hinfo | ⟨info, hinfo, he⟩
    · rw [hinfo]
      exact .inl rfl
    · obtain ⟨⟨-, hnone⟩, rfl⟩ := assemble_eq_error.mp he
      rw [hinfo]
      cases hchips : (net.asicRecord address).asicModel with
      | none => exact .inl (assemble_eq_error.mpr ⟨⟨hchips, hnone⟩, rfl⟩)
      | some model =>
        have hsome : (net.asicRecord address).asicModel.isSome = true := by rw [hchips]; rfl
        obtain ⟨d, hd⟩ := exists_assemble_iff.mpr (.inl hsome)
        exact .inr ⟨rfl, info, d, rfl, hnone, rfl, hd⟩
  · obtain ⟨d, hd⟩ := exists_assemble_iff.mpr (.inr hknown)
    rw [hfull, hinfo]
    exact ⟨d, hd, failedPolls_of_assemble hd⟩
  · rw [hfull, hinfo]
    rfl

/-- If the information is not there either, there is nothing that chips could add to. -/
theorem chipsOnlyAdd_of_timeout (h : ¬(net.asic address).InTime probeLimit)
    (hinfo : net.infoRecord address = .error .timeout) : ChipsOnlyAdd net address := by
  refine ⟨fun prior failure d hd => ?_, fun prior failure e he => ?_,
    fun prior info hok => ?_, fun name herror => ?_⟩
  · rw [probe_chipless, hinfo] at hd
    cases hd
  · rw [probe_chipless, hinfo] at he
    rw [probe_of_not_inTime h]
    exact .inl he
  · rw [hinfo] at hok
    cases hok
  · rw [hinfo] at herror
    cases herror

/-- Chips that are not there in time take the information with them. -/
theorem infoRecord_of_chipsOnlyAdd (h : ¬(net.asic address).InTime probeLimit)
    (hadd : ChipsOnlyAdd net address) : net.infoRecord address = .error .timeout := by
  have hfull : ∀ prior, (net.probe true ⟨address, prior⟩).2 = .error .timeout := by
    intro prior
    rw [probe_of_not_inTime h]
  cases hinfo : net.infoRecord address with
  | ok info =>
    -- The chips are known already, so that the miner should not be missed.
    obtain ⟨d, hd, -⟩ := hadd.answered (some { asicModel := some "" }) info hinfo (by
      rw [knownChips, Option.isSome_or]
      exact Bool.or_true _)
    rw [hfull] at hd
    cases hd
  | error e =>
    have he : ((net.chipless .timeout).probe true ⟨address, none⟩).2 = .error e := by
      rw [probe_chipless, hinfo]
      rfl
    rcases hadd.fails none .timeout e he with hsame | ⟨-, info, -, hok, -⟩
    · rw [hfull] at hsame
      exact hsame.symm
    · rw [hinfo] at hok
      cases hok

/-- The answer about chips only adds to what a full probe comes to without it if it is in time,
and else only if the information is not. -/
theorem chips_only_add_iff (net : Network) (address : String) :
    ChipsOnlyAdd net address ↔
      (net.asic address).InTime probeLimit ∨ net.infoRecord address = .error .timeout := by
  by_cases h : (net.asic address).InTime probeLimit
  · exact iff_of_true (chipsOnlyAdd_of_inTime h) (.inl h)
  · rw [or_iff_right h]
    exact ⟨infoRecord_of_chipsOnlyAdd h, chipsOnlyAdd_of_timeout h⟩

/-- A miner gives its information at once and never says anything about its chips: a full probe does
not reach it. -/
theorem missed_for_its_chips :
    ¬ ∀ (net : Network) (address : String), (net.info address).InTime probeLimit →
      ChipsOnlyAdd net address := by
  intro h
  let net : Network := { silent with
    info := fun _ => .after 0 (.ok (.object [("ASICModel", .string "BM1370")])) }
  have hadd := h net "10.1.1.50" ⟨0, _, rfl, Nat.zero_le _⟩
  have hinfo : net.infoRecord "10.1.1.50" = .ok { asicModel := some "BM1370" } := by
    decide +kernel
  obtain ⟨d, hd, -⟩ := hadd.answered none _ hinfo rfl
  have hmissed : (net.probe true ⟨"10.1.1.50", none⟩).2 = .error .timeout := by decide +kernel
  rw [hmissed] at hd
  cases hd

end MinerFleet
