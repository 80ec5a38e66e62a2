/-
A miner that answers again as before has its record again as before.

* `Device.Aged` — a record after failed refreshes, and after it was written and read;
* `Network.SameAnswers` — a probe gets the same answers from two networks, if not as fast.

A record that a probe has made is a fixed point: put together with the same answers, it comes out as
it is, whichever of its fields were said, known from before or derived (`assemble_fixed`). And
neither failures nor writing and reading change what says which miner it is (`Aged.identity`), while
a probe reads nothing else of a record (`Network.probe_identity`).
-/
import Mathlib.Logic.Function.Iterate
import MinerFleet.Proofs.Probe.Unchanged
import MinerFleet.Proofs.System.Published

namespace MinerFleet

namespace Device

/-! ### Records that come out as they are -/

/-- What is derived from layers is found again where the layer on top is the same. -/
theorem finished_overlay_finished (fresh base : Device) (address : String) :
    (fresh.overlay ((fresh.overlay base).finished address)).finished address =
      (fresh.overlay base).finished address := by
  rw [finished_eq, finished_eq]
  simp only [overlay, orText_again, or_or_left, KeyMap.extend_extend]
  congr 1
  -- There is a model and a colour, so that none is derived.
  case e_deviceModel => rw [Option.or_of_isSome (by simp), Option.or_assoc, or_or_left]
  case e_swarmColor => rw [Option.or_of_isSome (by simp), Option.or_assoc, or_or_left]

/-! ### Records that wait -/

/-- What becomes of a record while its miner does not answer: refreshes fail, and it is written and
read, as JSON or as a text whose numbers are read back. -/
inductive Aged (d : Device) : Device → Prop
  | refl : Aged d d
  | failed {d' : Device} (h : Aged d d') : Aged d d'.failed
  | rewritten {d' d'' : Device} (h : Aged d d') (hr : decode (.ofJson d'.toJson) = .ok d'') :
    Aged d d''
  | reread {d' d'' : Device} (h : Aged d d') (hn : ∀ n ∈ d'.toJson.numbers, n.ReadBack)
      (hr : Decoder.ofText decode d'.toJson.compact = .ok d'') : Aged d d''

theorem Aged.sealed {d d' : Device} (h : d.Aged d') (hd : d.Sealed) : d'.Sealed := by
  induction h with
  | refl => exact hd
  | failed _ ih => exact ih.of_extra rfl
  | rewritten _ hr _ => exact sealed_of_decode hr
  | reread _ hn hr _ =>
    rw [Decoder.ofText_compact hn] at hr
    exact sealed_of_decode hr

/-- However long it waits, a record says that it is of the same miner. -/
theorem Aged.identity {d d' : Device} (h : d.Aged d') (hd : d.Sealed) :
    d'.identity = d.identity := by
  induction h with
  | refl => rfl
  | failed _ ih => exact ih
  | rewritten h hr ih =>
    rw [decode_ofJson_toJson (h.sealed hd)] at hr
    obtain rfl := Except.ok.inj hr
    exact ih
  | reread h hn hr ih =>
    have hmax : Json.maxDepth = (Json.maxDepth - 1) + 1 := rfl
    rw [Decoder.ofText_compact hn, hmax, decode_toJson (h.sealed hd)] at hr
    obtain ⟨rfl, -⟩ := hr
    exact ih

theorem identity_iterate_failed (d : Device) (n : Nat) :
    (failed^[n] d).identity = d.identity := by
  induction n with
  | zero => rfl
  | succ n ih =>
    rw [Function.iterate_succ_apply']
    exact ih

end Device

/-! ### Probes -/

/-- A probe at an address gets the same answers from two networks, if not at the same time. -/
def Network.SameAnswers (net net' : Network) (fetchAsic : Bool) (address : String) : Prop :=
  ((net.exchange address fetchAsic).within probeLimit).2 =
    ((net'.exchange address fetchAsic).within probeLimit).2

section

variable {net net' : Network} {fetchAsic : Bool} {address : String} {prior : Option Device}
  {info chips d : Device}

/-- A record comes out as it is where it is put together with the answers that it was made of. -/
theorem assemble_fixed (h : assemble address prior info chips = .ok d) :
    assemble address (some d) info chips = .ok d := by
  rw [assemble_eq] at h
  split at h
  · cases h
  · rename_i hknown
    obtain rfl := Except.ok.inj h
    have hmodel : ((chips.combine info).overlay (prior.getD {})).asicModel.isSome = true := by
      rwa [← Option.isNone_eq_false_iff, ← Bool.not_eq_true]
    -- The record says what chips they are, even if the answers do not.
    have hagain := (Device.remembers_overlay (chips.combine info)
      (((chips.combine info).overlay (prior.getD {})).finished address)).asicModel
        ((Device.remembers_finished _ address).asicModel hmodel)
    rw [assemble_eq, Option.getD_some, Option.isNone_eq_false_iff.mpr hagain,
      if_neg Bool.false_ne_true, Device.finished_overlay_finished]

/-- A probe makes the record that the last one has made, if it gets the same answers and knows the
record, or another one that says the same of which miner it is. -/
theorem probe_fixed (h : (net.probe fetchAsic ⟨address, prior⟩).2 = .ok d)
    (hsame : net.SameAnswers net' fetchAsic address) {d' : Device}
    (hd : d'.identity = d.identity) : (net'.probe fetchAsic (.ofDevice d')).2 = .ok d := by
  obtain ⟨info, -, hprobe⟩ := probe_of_ok h
  have ha := (hprobe prior).symm.trans h
  have hconn : d.connectionAddress = address := connectionAddress_of_assemble ha
  have hdialed : d'.connectionAddress = address :=
    (congrArg Device.connectionAddress hd).trans hconn
  have hcongr : (net.probe fetchAsic ⟨address, some d'⟩).2 =
      (net'.probe fetchAsic ⟨address, some d'⟩).2 := Network.probe_congr hsame
  rw [Target.ofDevice, hdialed, ← hcongr, Network.probe_identity, hd, ← Network.probe_identity,
    hprobe]
  exact assemble_fixed ha

end

/-- A probe gets a record `d`. Another one that gets the same answers gets `d` again if it knows the
record as it is after any number of failed refreshes. And if nothing was known before that could not
have been read from JSON, then the record can be written and read at any time, and a probe gets `d`
whatever the record has become by failures and by being written and read. -/
theorem recovery_restores_the_record (net net' : Network) (fetchAsic : Bool) (address : String)
    (prior : Option Device) (d : Device)
    (h : (net.probe fetchAsic ⟨address, prior⟩).2 = .ok d)
    (hsame : net.SameAnswers net' fetchAsic address) :
    (∀ n, (net'.probe fetchAsic (.ofDevice (Device.failed^[n] d))).2 = .ok d) ∧
    ((∀ k, prior = some k → k.Sealed) → ∀ d', d.Aged d' →
      (∃ d'', Device.decode (.ofJson d'.toJson) = .ok d'') ∧
        (net'.probe fetchAsic (.ofDevice d')).2 = .ok d) := by
  refine ⟨fun n => probe_fixed h hsame (d.identity_iterate_failed n), fun hprior d' haged => ?_⟩
  have hsealed : d.Sealed :=
    Answered.sealed (W := fun _ => True) ⟨net, trivial, h⟩ hprior
  exact ⟨⟨_, Device.decode_ofJson_toJson (haged.sealed hsealed)⟩,
    probe_fixed h hsame (haged.identity hsealed)⟩

/-- A miner that says its best difficulty as a text, its hash rate under an old name and nothing of
its model fails twice. Meanwhile its record is written and read. Then it answers, if late: it has
the record from before. -/
theorem recovered_miner_has_its_record :
    let info : Json := .object [("bestDiff", .string "2M"), ("boardVersion", .string "401"),
      ("hashrate", .ofNat 480)]
    let net := answering info (.object [("ASICModel", .string "BM1370")])
    let late : Network := { net with info := fun _ => .after 4000 (.ok info) }
    ∃ d d', (net.probe true ⟨"10.1.1.50", none⟩).2 = .ok d ∧
      d.hashRate = some 480 ∧ d.deviceModel = some "Supra" ∧
      Device.decode (.ofJson d.failed.failed.toJson) = .ok d' ∧ d'.failedPolls = 2 ∧
      (late.probe true (.ofDevice d.failed.failed)).2 = .ok d ∧
      (late.probe true (.ofDevice d')).2 = .ok d := by
  intro info net late
  let d : Device := {
    address := "10.1.1.50", connectionAddress := "10.1.1.50", displayName := some "10.1.1.50"
    asicModel := some "BM1370", deviceModel := some "Supra", swarmColor := some "blue"
    boardVersion := some "401", hashRate := some 480, legacyHashRate := some 480
    bestDiff := some (.number 2000000) }
  have h : (net.probe true ⟨"10.1.1.50", none⟩).2 = .ok d := by decide +kernel
  have hsame : net.SameAnswers late true "10.1.1.50" := rfl
  obtain ⟨hfailed, haged⟩ := recovery_restores_the_record net late true "10.1.1.50" none d h hsame
  have hnone : ∀ k, (none : Option Device) = some k → k.Sealed := fun k hk => by cases hk
  have htwice : d.Aged d.failed.failed := .failed (.failed .refl)
  obtain ⟨⟨d', hread⟩, -⟩ := haged hnone _ htwice
  have hcount : (Device.decode (.ofJson d.failed.failed.toJson)).toOption.map (·.failedPolls) =
      some 2 := by decide +kernel
  rw [hread] at hcount
  exact ⟨d, d', h, rfl, rfl, hread, Option.some.inj hcount, hfailed 2,
    (haged hnone d' (.rewritten htwice hread)).2⟩

end MinerFleet
