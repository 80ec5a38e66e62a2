/-
Which model and colour a miner has that does not say.

* `Network.Carries` — an answer that a probe reads has a value for a field;
* `Followed` — what becomes of a record by full and timed refreshes that follow each other;
* `Inherited` — a field that stays as it is until an answer has a value for it.

A model that no answer gives is that of the board, and a colour that no answer gives is that of the
model. Both are derived once, when a miner is discovered (`classification_of_assemble`), and are
then inherited like anything else that is known of it (`Followed.eq_of_inherited`). So they are
those of the board and the model that the miner had then (`classified_as_discovered`), and a
later answer with another board or another model does not change them.
-/
import MinerFleet.Proofs.Probe.Unchanged

namespace MinerFleet

/-! ### Fields of answers -/

/-- One of the answers that a probe reads at an address has a value for a field. -/
def Network.Carries {α : Type} (net : Network) (fetchAsic : Bool) (address : String)
    (field : Device → Option α) : Prop :=
  (∃ info, net.infoRecord address = .ok info ∧ (field info).isSome = true) ∨
    (field (net.chips fetchAsic address)).isSome = true

/-- A record is put together of answers that have no value for a field. -/
theorem Answered.assembled_without {α : Type} {W : Network → Prop} {fetchAsic : Bool}
    {address : String} {prior : Option Device} {d : Device} {field : Device → Option α}
    (h : Answered W fetchAsic ⟨address, prior⟩ (.ok d))
    (hw : ∀ net, W net → ¬ net.Carries fetchAsic address field) :
    ∃ info chips, assemble address prior info chips = .ok d ∧
      field info = none ∧ field chips = none := by
  obtain ⟨net, hn, hp⟩ := h
  obtain ⟨info, hinfo, hprobe⟩ := probe_of_ok hp
  have hnot := hw net hn
  rw [Network.Carries, not_or, not_exists] at hnot
  refine ⟨info, net.chips fetchAsic address, (hprobe prior).symm.trans hp, ?_, ?_⟩
  · exact Option.not_isSome_iff_eq_none.mp fun hs => hnot.1 info ⟨hinfo, hs⟩
  · exact Option.not_isSome_iff_eq_none.mp hnot.2

/-! ### Classification -/

/-- A record has a model and a colour. What no answer and no record before says is derived: the
model from the board, and the colour from the model. -/
theorem classification_of_assemble {address : String} {prior : Option Device}
    {info chips d : Device} (h : assemble address prior info chips = .ok d) :
    ∃ m, d.deviceModel = some m ∧
      d.deviceModel = ((chips.deviceModel.or info.deviceModel).or (prior.getD {}).deviceModel).or
        (some (modelOfBoard d.boardVersion)) ∧
      d.swarmColor = ((chips.swarmColor.or info.swarmColor).or (prior.getD {}).swarmColor).or
        (some (colorOfModel m)) := by
  rw [assemble_eq] at h
  split at h
  · cases h
  · cases h
    rw [Device.finished_eq]
    exact ⟨_, Option.or_some, rfl, rfl⟩

/-- A field that an answer may have a value for, and that stays as it was if none has. -/
structure Inherited {α : Type} (field : Device → Option α) : Prop where
  assembled : ∀ {address : String} {prior info chips d : Device},
    assemble address (some prior) info chips = .ok d →
      field info = none → field chips = none → (field prior).isSome = true → field d = field prior
  failed : ∀ d : Device, field d.failed = field d

theorem inherited_swarmColor : Inherited Device.swarmColor where
  assembled h hi hc hp := by
    obtain ⟨m, -, -, hcolor⟩ := classification_of_assemble h
    rw [hcolor, hi, hc, Option.none_or, Option.none_or, Option.getD_some, Option.or_of_isSome hp]
  failed _ := rfl

theorem inherited_deviceModel : Inherited Device.deviceModel where
  assembled h hi hc hp := by
    obtain ⟨m, -, hmodel, -⟩ := classification_of_assemble h
    rw [hmodel, hi, hc, Option.none_or, Option.none_or, Option.getD_some, Option.or_of_isSome hp]
  failed _ := rfl

/-! ### Refreshes -/

/-- What becomes of a record by refreshes that follow each other. `W true` is what is known of the
networks that a full refresh may find, and `W false` the same for a timed one. Each refresh knows
the record that the one before has left, as the only one at its address. -/
inductive Followed (W : Bool → Network → Prop) (k : Device) : Device → Prop
  | refl : Followed W k k
  | refresh {d d' : Device} {known : List Device} {n : Nat} {fetchAsic : Bool} {report : Report}
      (h : Followed W k d) (hk : dialedAt d.connectionAddress known = [d])
      (hy : (Job.refresh known n fetchAsic).Yields (W fetchAsic) (.refreshed report))
      (hd : Registry.resultFor report.devices d.connectionAddress = some d') : Followed W k d'

variable {W : Bool → Network → Prop} {k d : Device}

theorem Followed.connectionAddress (h : Followed W k d) :
    d.connectionAddress = k.connectionAddress := by
  induction h with
  | refl => rfl
  | refresh _ _ _ hd ih => exact (Registry.resultFor_connectionAddress hd).trans ih

/-- A field that is inherited stays as it was as long as no answer has a value for it. -/
theorem Followed.eq_of_inherited {α : Type} {field : Device → Option α} (hf : Inherited field)
    (hw : ∀ fetchAsic net, W fetchAsic net →
      ¬ net.Carries fetchAsic k.connectionAddress field)
    (hk : (field k).isSome = true) (h : Followed W k d) : field d = field k := by
  induction h with
  | refl => rfl
  | @refresh d d' known n fetchAsic report h hone hy hd ih =>
    rcases outcome_at_of_refresh hy hone with ⟨d₁, ha, hresult, -⟩ | ⟨hresult, -⟩
    · rw [hresult] at hd
      cases hd
      rw [← h.connectionAddress] at hw
      obtain ⟨info, chips, hassemble, hi, hc⟩ := ha.assembled_without (hw fetchAsic)
      exact (hf.assembled hassemble hi hc (ih ▸ hk)).trans ih
    · rw [hresult] at hd
      cases hd
      exact (hf.failed d).trans ih

/-- A discovery finds a miner, and refreshes follow, full or timed, with or without success. If no
answer so far has had a colour, the record has that of the model which the miner had when it was
found; and if none has had a model, it has that of the board which it had then. -/
theorem classified_as_discovered (W : Bool → Network → Prop) (seed netmask : String) (n : Nat)
    (report : Report) (k d : Device)
    (hfound : (Job.discovery seed netmask n).Yields (W true) (.discovered (.ok report)))
    (hk : k ∈ report.devices) (h : Followed W k d) :
    ((∀ fetchAsic net, W fetchAsic net →
        ¬ net.Carries fetchAsic k.connectionAddress Device.swarmColor) →
      ∃ m, k.deviceModel = some m ∧ d.swarmColor = some (colorOfModel m)) ∧
    ((∀ fetchAsic net, W fetchAsic net →
        ¬ net.Carries fetchAsic k.connectionAddress Device.deviceModel) →
      d.deviceModel = k.deviceModel ∧ d.deviceModel = some (modelOfBoard k.boardVersion)) := by
  obtain ⟨-, ha⟩ := answered_of_discovery hfound hk
  constructor
  · intro hw
    obtain ⟨info, chips, hassemble, hi, hc⟩ := ha.assembled_without (hw true)
    obtain ⟨m, hm, -, hcolor⟩ := classification_of_assemble hassemble
    rw [hi, hc] at hcolor
    have hcolor : k.swarmColor = some (colorOfModel m) := hcolor
    have hsame := h.eq_of_inherited inherited_swarmColor hw (by rw [hcolor]; rfl)
    exact ⟨m, hm, hsame.trans hcolor⟩
  · intro hw
    obtain ⟨info, chips, hassemble, hi, hc⟩ := ha.assembled_without (hw true)
    obtain ⟨m, -, hmodel, -⟩ := classification_of_assemble hassemble
    rw [hi, hc] at hmodel
    have hmodel : k.deviceModel = some (modelOfBoard k.boardVersion) := hmodel
    have hsame := h.eq_of_inherited inherited_deviceModel hw (by rw [hmodel]; rfl)
    exact ⟨hsame, hsame.trans hmodel⟩

/-! ### Two miners that change -/

/-- A network of miners with a board of one kind, which say nothing of their model. -/
def gammas : Network :=
  answering (.object [("ASICModel", .string "BM1370"), ("boardVersion", .string "601")])
    (.object [])

/-- The same network later: one miner has another board, and the others give another model. -/
def exchanged : Network :=
  { gammas with
    info := fun address => .after 0 (.ok (.object (
      if address = "10.1.1.49" then
        [("ASICModel", .string "BM1370"), ("boardVersion", .string "401")]
      else
        [("ASICModel", .string "BM1370"), ("boardVersion", .string "601"),
          ("deviceModel", .string "Supra")]))) }

/-- A miner of this network as it is found. -/
def gamma (address : String) : Device where
  address := address
  connectionAddress := address
  displayName := some address
  asicModel := some "BM1370"
  deviceModel := some "Gamma"
  swarmColor := some "green"
  boardVersion := some "601"

/-- At any time, a refresh may find the network before or after the change. -/
def gammasOrExchanged (_ : Bool) (net : Network) : Prop :=
  net = gammas ∨ net = exchanged

theorem gammas_found :
    (Job.discovery "10.1.1.50" "255.255.255.252" 128).Yields (gammasOrExchanged true)
      (.discovered (.ok ⟨[gamma "10.1.1.49", gamma "10.1.1.50"], []⟩)) := by
  have hrun : ((Job.discovery "10.1.1.50" "255.255.255.252" 128).run gammas).2.2 =
      some (.discovered (.ok ⟨[gamma "10.1.1.49", gamma "10.1.1.50"], []⟩)) := by decide +kernel
  exact Job.yields_of_run (.inl rfl) hrun

theorem gammas_exchanged :
    (Job.refresh [gamma "10.1.1.49", gamma "10.1.1.50"] 128 true).Yields (gammasOrExchanged true)
      (.refreshed ⟨[{ gamma "10.1.1.49" with boardVersion := some "401" },
        { gamma "10.1.1.50" with deviceModel := some "Supra" }], []⟩) := by
  have hrun : ((Job.refresh [gamma "10.1.1.49", gamma "10.1.1.50"] 128 true).run exchanged).2.2 =
      some (.refreshed ⟨[{ gamma "10.1.1.49" with boardVersion := some "401" },
        { gamma "10.1.1.50" with deviceModel := some "Supra" }], []⟩) := by decide +kernel
  exact Job.yields_of_run (.inr rfl) hrun

/-- Neither answer has a value for a field, whether both are read or one. -/
theorem Network.not_carries {α : Type} {net : Network} {address : String}
    {field : Device → Option α} (hi : (net.infoRecord address).toOption.bind field = none)
    (hc : field (net.asicRecord address) = none) (hnone : field {} = none) (fetchAsic : Bool) :
    ¬ net.Carries fetchAsic address field := by
  rintro (⟨info, hinfo, hs⟩ | hs)
  · rw [hinfo] at hi
    have hi : field info = none := hi
    rw [hi] at hs
    cases hs
  · have hchips : field (net.chips fetchAsic address) = none := by
      cases fetchAsic with
      | true => exact hc
      | false => exact hnone
    rw [hchips] at hs
    cases hs

/-- No answer has a colour. -/
theorem gammas_have_no_color {address : String}
    (ha : address = "10.1.1.49" ∨ address = "10.1.1.50") (fetchAsic : Bool) (net : Network)
    (hn : gammasOrExchanged fetchAsic net) :
    ¬ net.Carries fetchAsic address Device.swarmColor := by
  rcases hn with rfl | rfl <;> rcases ha with rfl | rfl <;>
    exact Network.not_carries (by decide +kernel) (by decide +kernel) rfl fetchAsic

/-- No answer of the one with another board has a model. -/
theorem gammas_have_no_model (fetchAsic : Bool) (net : Network)
    (hn : gammasOrExchanged fetchAsic net) :
    ¬ net.Carries fetchAsic "10.1.1.49" Device.deviceModel := by
  rcases hn with rfl | rfl <;>
    exact Network.not_carries (by decide +kernel) (by decide +kernel) rfl fetchAsic

/-- A miner has another board: it still has the model and the colour of the one that it had when it
was found. -/
theorem exchanged_board_keeps_the_model :
    let d : Device := { gamma "10.1.1.49" with boardVersion := some "401" }
    Followed gammasOrExchanged (gamma "10.1.1.49") d ∧
      (∃ m, (gamma "10.1.1.49").deviceModel = some m ∧ d.swarmColor = some (colorOfModel m)) ∧
      d.deviceModel = some (modelOfBoard (gamma "10.1.1.49").boardVersion) := by
  intro d
  have h : Followed gammasOrExchanged (gamma "10.1.1.49") d :=
    .refresh .refl (by decide +kernel) gammas_exchanged (by decide +kernel)
  obtain ⟨hcolor, hmodel⟩ := classified_as_discovered gammasOrExchanged _ _ _ _ _ d gammas_found
    List.mem_cons_self h
  exact ⟨h, hcolor (gammas_have_no_color (.inl rfl)), (hmodel gammas_have_no_model).2⟩

/-- Neither does the model follow the board, nor the colour the model: a miner with another board
has the model of the one before, and a miner that gives another model has the colour of the one
before. -/
theorem classification_is_not_updated :
    (¬ ∀ (W : Bool → Network → Prop) (seed netmask : String) (n : Nat) (report : Report)
        (k d : Device),
      (Job.discovery seed netmask n).Yields (W true) (.discovered (.ok report)) →
      k ∈ report.devices → Followed W k d →
      (∀ fetchAsic net, W fetchAsic net →
        ¬ net.Carries fetchAsic k.connectionAddress Device.swarmColor) →
      ∃ m, d.deviceModel = some m ∧ d.swarmColor = some (colorOfModel m)) ∧
    ¬ ∀ (W : Bool → Network → Prop) (seed netmask : String) (n : Nat) (report : Report)
        (k d : Device),
      (Job.discovery seed netmask n).Yields (W true) (.discovered (.ok report)) →
      k ∈ report.devices → Followed W k d →
      (∀ fetchAsic net, W fetchAsic net →
        ¬ net.Carries fetchAsic k.connectionAddress Device.deviceModel) →
      d.deviceModel = some (modelOfBoard d.boardVersion) := by
  constructor
  · intro h
    let d : Device := { gamma "10.1.1.50" with deviceModel := some "Supra" }
    have hd : Followed gammasOrExchanged (gamma "10.1.1.50") d :=
      .refresh .refl (by decide +kernel) gammas_exchanged (by decide +kernel)
    obtain ⟨m, hm, hcolor⟩ := h gammasOrExchanged _ _ _ _ _ d gammas_found
      (List.mem_cons_of_mem _ List.mem_cons_self) hd (gammas_have_no_color (.inr rfl))
    obtain rfl : "Supra" = m := Option.some.inj hm
    exact absurd hcolor (by decide +kernel)
  · intro h
    let d : Device := { gamma "10.1.1.49" with boardVersion := some "401" }
    have hd : Followed gammasOrExchanged (gamma "10.1.1.49") d :=
      .refresh .refl (by decide +kernel) gammas_exchanged (by decide +kernel)
    have hmodel := h gammasOrExchanged _ _ _ _ _ d gammas_found List.mem_cons_self hd
      gammas_have_no_model
    exact absurd hmodel (by decide +kernel)

end MinerFleet
