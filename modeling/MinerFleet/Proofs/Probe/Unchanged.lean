/-
Refreshes of a miner whose answers stay the same.

* `Network.infoRecord`, `Network.asicRecord` — the records in the two answers at an address, of
  which a probe makes its record if they are in time (`probe_eq`);
* `Device.static` — a record with nothing but what hardly changes: the chips, the model, the
  colour and whatever has no field of its own;
* `Device.withStatic` — a record with the static fields of another one, where that one has them;
* `Network.reprobed` — a record after probes that follow each other, each of which may ask for the
  chips or not.

Where the answer about chips has static fields alone, all other fields are those of the answer for
information, and no probe changes them (`assemble_again`). A static field that both answers have
is that of the answer that was read last: a probe that does not ask for the chips takes it from the
information (`timed_refresh_agrees`).
-/
import MinerFleet.Proofs.Json.Normal
import MinerFleet.Proofs.Probe.Layers

namespace MinerFleet

/-! ### Answers -/

namespace Network

variable (net : Network)

/-- The record in the answer for information at an address, if it is there in time. -/
def infoRecord (address : String) : Except ProbeFailure Device :=
  ((net.info address).within probeLimit).2 >>= readPayload

/-- The record in the answer about chips at an address. -/
def asicRecord (address : String) : Device :=
  readAsic ((net.asic address).within probeLimit).2

/-- What a probe reads about chips; one that does not ask for them reads nothing. -/
def chips (fetchAsic : Bool) (address : String) : Device :=
  if fetchAsic then net.asicRecord address else {}

end Network

/-- A request whose reply is there for somebody who waits `limit` for it. -/
def Reply.InTime {α : Type} (limit : Nat) (r : Reply α) : Prop :=
  ∃ delay result, r = .after delay result ∧ delay ≤ limit

/-- What a probe comes to if the chips are there in time, or are not asked for. -/
theorem probe_eq {net : Network} {fetchAsic : Bool} {address : String}
    (h : fetchAsic = true → (net.asic address).InTime probeLimit) (prior : Option Device) :
    (net.probe fetchAsic ⟨address, prior⟩).2 =
      net.infoRecord address >>=
        fun info => assemble address prior info (net.chips fetchAsic address) := by
  -- The request for chips that is not made has a reply too.
  obtain ⟨delay, chips, hexchange, hle, hchips⟩ : ∃ delay chips,
      net.exchange address fetchAsic = (net.info address).both (.after delay chips) ∧
        delay ≤ probeLimit ∧ net.chips fetchAsic address = readAsic chips := by
    cases fetchAsic with
    | false => exact ⟨0, .ok .null, rfl, Nat.zero_le _, rfl⟩
    | true =>
      obtain ⟨delay, chips, hreply, hle⟩ := h rfl
      refine ⟨delay, chips, ?_, hle, ?_⟩
      · rw [Network.exchange, if_pos rfl, hreply]
      · rw [Network.chips, if_pos rfl, Network.asicRecord, hreply, Reply.within, if_pos hle]
  rw [Network.probe, hexchange, hchips, Network.infoRecord]
  cases net.info address with
  | never => rfl
  | after time answer =>
    have hboth : max time delay ≤ probeLimit ↔ time ≤ probeLimit := by omega
    simp only [Reply.both, Reply.within, hboth]
    by_cases ht : time ≤ probeLimit
    · simp only [if_pos ht, probeResult, bind_assoc]
    · simp only [if_neg ht]
      rfl

/-- A probe gets nothing where the chips are asked for and not there in time. -/
theorem probe_of_not_inTime {net : Network} {address : String}
    (h : ¬(net.asic address).InTime probeLimit) (prior : Option Device) :
    net.probe true ⟨address, prior⟩ = (probeLimit, .error .timeout) := by
  have hexchange : (net.exchange address true).within probeLimit =
      (probeLimit, .error .timeout) := by
    rw [Network.exchange, if_pos rfl]
    cases net.info address with
    | never => rfl
    | after time answer =>
      cases hreply : net.asic address with
      | never => rfl
      | after delay chips =>
        have hlate : ¬max time delay ≤ probeLimit := fun hle =>
          h ⟨delay, chips, hreply, Nat.le_trans (Nat.le_max_right time delay) hle⟩
        rw [Reply.both, Reply.within, if_neg hlate]
  rw [Network.probe, hexchange]

/-- Where a probe gets a record, the answers are there in time, and each probe like it puts the same
answers together. -/
theorem probe_of_ok {net : Network} {fetchAsic : Bool} {address : String} {prior : Option Device}
    {d : Device} (h : (net.probe fetchAsic ⟨address, prior⟩).2 = .ok d) :
    ∃ info, net.infoRecord address = .ok info ∧
      ∀ prior', (net.probe fetchAsic ⟨address, prior'⟩).2 =
        assemble address prior' info (net.chips fetchAsic address) := by
  have hchips : fetchAsic = true → (net.asic address).InTime probeLimit := by
    rintro rfl
    by_contra hlate
    rw [probe_of_not_inTime hlate] at h
    cases h
  rw [probe_eq hchips, bind_eq_ok] at h
  obtain ⟨info, hinfo, -⟩ := h
  refine ⟨info, hinfo, fun prior' => ?_⟩
  rw [probe_eq hchips, hinfo]
  rfl

/-- A probe that asks for information only comes to what is in time. -/
theorem probe_timed (net : Network) (target : Target) :
    (net.probe false target).2 =
      net.infoRecord target.connectionAddress >>=
        fun info => assemble target.connectionAddress target.prior info {} :=
  probe_eq (fun h => by cases h) target.prior

/-! ### Static fields -/

/-- What is laid over something a second time changes nothing. -/
theorem or_or_left {α : Type} (x y : Option α) : x.or (x.or y) = x.or y := by
  rw [← Option.or_assoc, Option.or_self]

theorem KeyMap.extend_assoc {α : Type} (a b c : KeyMap α) :
    (a.extend b).extend c = a.extend (b.extend c) := by
  ext1 key
  simp only [get?_extend, Option.or_assoc]

theorem KeyMap.extend_extend {α : Type} (a b : KeyMap α) :
    (a.extend b).extend b = a.extend b := by
  ext1 key
  rw [get?_extend, get?_extend, or_or_left]

namespace Device

/-- The record with nothing but what a miner with the same chips and the same firmware always says:
the chips and how many there are, the model, the colour, and what has no field of its own. -/
def static (d : Device) : Device where
  asicModel := d.asicModel
  deviceModel := d.deviceModel
  asicCount := d.asicCount
  swarmColor := d.swarmColor
  extra := d.extra

/-- A record that says nothing else: it has no readings, no names and no versions. -/
def IsStatic (d : Device) : Prop :=
  d.static = d

instance (d : Device) : Decidable d.IsStatic :=
  inferInstanceAs (Decidable (d.static = d))

/-- The record with the static fields of another one, where that one has them. -/
def withStatic (d fresh : Device) : Device :=
  { d with
    asicModel := fresh.asicModel.or d.asicModel
    deviceModel := fresh.deviceModel.or d.deviceModel
    asicCount := fresh.asicCount.or d.asicCount
    swarmColor := fresh.swarmColor.or d.swarmColor
    extra := d.extra.extend fresh.extra }

/-- No static field that both records have differs between them. -/
structure Agrees (a b : Device) : Prop where
  asicModel : ∀ x y, a.asicModel = some x → b.asicModel = some y → x = y
  deviceModel : ∀ x y, a.deviceModel = some x → b.deviceModel = some y → x = y
  asicCount : ∀ x y, a.asicCount = some x → b.asicCount = some y → x = y
  swarmColor : ∀ x y, a.swarmColor = some x → b.swarmColor = some y → x = y
  extra : ∀ key x y, a.extra.get? key = some x → b.extra.get? key = some y → x = y

theorem isStatic_empty : IsStatic {} := rfl

@[simp] theorem withStatic_empty (d : Device) : d.withStatic {} = d := rfl

@[simp] theorem withStatic_withStatic (d fresh : Device) :
    (d.withStatic fresh).withStatic fresh = d.withStatic fresh := by
  simp only [withStatic, or_or_left, KeyMap.extend_extend]

/-- A record that has the static fields of two others, the second over the first, has those of the
first where they do not differ from the second. -/
theorem withStatic_eq_iff {d a b : Device} (h : (d.withStatic a).withStatic b = d) :
    d.withStatic a = d ↔ a.Agrees b := by
  -- One field: `x` over `y` over what there was is what there was.
  have hor : ∀ {α : Type} {x y z : Option α}, y.or (x.or z) = z →
      (x.or z = z ↔ ∀ u v, x = some u → y = some v → u = v) := by
    intro α x y z hz
    constructor
    · rintro hx u v rfl rfl
      rw [Option.some_or] at hx hz
      exact Option.some.inj (hx.trans hz.symm)
    · intro hagree
      cases x with
      | none => rfl
      | some u =>
        cases y with
        | none => exact hz
        | some v =>
          rw [hagree u v rfl rfl]
          exact hz
  have hget : ∀ key, (b.extra.get? key).or ((a.extra.get? key).or (d.extra.get? key)) =
      d.extra.get? key := by
    intro key
    rw [← KeyMap.get?_extend, ← KeyMap.get?_extend]
    exact congrArg (fun d : Device => d.extra.get? key) h
  have hc := hor (congrArg asicModel h)
  have hm := hor (congrArg deviceModel h)
  have hn := hor (congrArg asicCount h)
  have hs := hor (congrArg swarmColor h)
  constructor
  · intro he
    refine ⟨hc.mp (congrArg asicModel he), hm.mp (congrArg deviceModel he),
      hn.mp (congrArg asicCount he), hs.mp (congrArg swarmColor he), fun key => ?_⟩
    refine (hor (hget key)).mp ?_
    rw [← KeyMap.get?_extend]
    exact congrArg (fun d : Device => d.extra.get? key) he
  · intro ha
    have hextra : d.extra.extend a.extra = d.extra := by
      ext1 key
      rw [KeyMap.get?_extend]
      exact (hor (hget key)).mpr (ha.extra key)
    rw [withStatic, hc.mpr ha.asicModel, hm.mpr ha.deviceModel, hn.mpr ha.asicCount,
      hs.mpr ha.swarmColor, hextra]

/-- Static chips laid over an answer give it their static fields. -/
theorem IsStatic.combine {chips : Device} (h : chips.IsStatic) (info : Device) :
    chips.combine info = { info.withStatic chips with failedPolls := 0 } := by
  rw [IsStatic] at h
  rw [← h]
  rfl

theorem classified_eq (d : Device) :
    d.classified =
      { d with
        deviceModel := d.deviceModel.or (some (modelOfBoard d.boardVersion))
        swarmColor :=
          d.swarmColor.or (some (colorOfModel (d.deviceModel.getD (modelOfBoard d.boardVersion))))
        poolDifficulty := d.poolDifficulty.or d.stratumDiff
        hashRate := d.hashRate.or d.legacyHashRate } := by
  rw [classified]
  by_cases h : d.isClassified
  · -- All that would be filled in is there.
    rw [if_pos h]
    simp only [isClassified, Bool.and_eq_true] at h
    obtain ⟨⟨⟨hm, hc⟩, hp⟩, hr⟩ := h
    rw [Option.or_of_isSome hm, Option.or_of_isSome hc, Option.or_of_isSome hp,
      Option.or_of_isSome hr]
  · rw [if_neg h, Option.or_some]

/-- What `finished` makes of each field. -/
theorem finished_eq (d : Device) (address : String) :
    d.finished address =
      { d with
        connectionAddress := address
        address := orText d.address address
        displayName := some { d with address := orText d.address address }.shortName
        deviceModel := d.deviceModel.or (some (modelOfBoard d.boardVersion))
        swarmColor :=
          d.swarmColor.or (some (colorOfModel (d.deviceModel.getD (modelOfBoard d.boardVersion))))
        poolDifficulty := d.poolDifficulty.or d.stratumDiff
        hashRate := d.hashRate.or d.legacyHashRate
        bestDiff := d.bestDiff.map Difficulty.numerized
        bestSessionDiff := d.bestSessionDiff.map Difficulty.numerized
        failedPolls := 0 } := by
  rw [finished, classified_eq]
  rfl

/-- The layers of a probe whose answer about chips is static. -/
theorem finished_layers {chips : Device} (h : chips.IsStatic) (info prior : Device)
    (address : String) :
    ((chips.combine info).overlay prior).finished address =
      ((info.withStatic chips).overlay prior).finished address := by
  rw [h.combine, finished_eq, finished_eq]
  rfl

/-- The address of a record is found again. -/
theorem orText_again (a b c : String) :
    orText (orText a (orText (orText a b) c)) c = orText (orText a b) c := by
  simp only [orText]
  split_ifs <;> rfl

/-- A record that a probe has made, with or without static fields of another one, comes out of the
next probe as it is, but for the static fields of the answers. -/
theorem finished_again (info chips chips' prior s : Device) (address : String) :
    let d := (((info.withStatic chips).overlay prior).finished address).withStatic s
    ((info.withStatic chips').overlay d).finished address =
      (d.withStatic info).withStatic chips' := by
  intro d
  subst d
  rw [finished_eq, finished_eq]
  simp only [withStatic, overlay, or_or_left, orText_again]
  congr 1
  case e_asicModel => rw [Option.or_assoc]
  case e_asicCount => rw [Option.or_assoc]
  -- There is a model and a colour, so that none is derived.
  case e_deviceModel => rw [Option.or_of_isSome (by simp), Option.or_assoc]
  case e_swarmColor => rw [Option.or_of_isSome (by simp), Option.or_assoc]
  case e_extra => simp only [KeyMap.extend_assoc]

/-- A record that a probe has made has the static fields of the answers. -/
theorem finished_withStatic (info chips prior : Device) (address : String) :
    let d := ((info.withStatic chips).overlay prior).finished address
    (d.withStatic info).withStatic chips = d := by
  intro d
  subst d
  have hor : ∀ {α : Type} (x y z : Option α), y.or (x.or ((y.or x).or z)) = (y.or x).or z := by
    intro α x y z
    rw [← Option.or_assoc, ← Option.or_assoc, Option.or_self]
  have hderived : ∀ {α : Type} (x y z w : Option α),
      y.or (x.or (((y.or x).or z).or w)) = ((y.or x).or z).or w := by
    intro α x y z w
    have hassoc : ((y.or x).or z).or w = (y.or x).or (z.or w) := Option.or_assoc
    rw [hassoc, hor]
  have hextra : ((prior.extra.extend (info.extra.extend chips.extra)).extend info.extra).extend
      chips.extra = prior.extra.extend (info.extra.extend chips.extra) := by
    ext1 key
    simp only [KeyMap.get?_extend, hor]
  rw [finished_eq]
  simp only [withStatic, overlay, hor, hderived, hextra]

end Device

/-! ### Probes of the same answers -/

section

variable {address : String} {prior : Option Device} {info chips d : Device}

/-- Where the answer about chips is static, a record is made of both answers as of one. It says what
chips they are. -/
theorem finished_of_assemble (hc : chips.IsStatic) (h : assemble address prior info chips = .ok d) :
    d = ((info.withStatic chips).overlay (prior.getD {})).finished address ∧
      d.asicModel.isSome = true := by
  rw [assemble_eq, Device.finished_layers hc] at h
  split at h
  · cases h
  · rename_i hmodel
    cases h
    rw [Device.finished_eq, Option.isNone_iff_eq_none, ← ne_eq, Option.ne_none_iff_isSome] at *
    exact ⟨rfl, hmodel⟩

/-- A record has the static fields of the answers that it was made of. -/
theorem withStatic_of_assemble (hc : chips.IsStatic)
    (h : assemble address prior info chips = .ok d) : (d.withStatic info).withStatic chips = d := by
  rw [(finished_of_assemble hc h).1]
  exact Device.finished_withStatic info chips _ address

/-- The same information changes nothing but static fields of a record that was made of it. -/
theorem assemble_again (hc : chips.IsStatic) (h : assemble address prior info chips = .ok d)
    {chips' : Device} (hc' : chips'.IsStatic) (s : Device) :
    assemble address (some (d.withStatic s)) info chips' =
      .ok (((d.withStatic s).withStatic info).withStatic chips') := by
  obtain ⟨hd, hmodel⟩ := finished_of_assemble hc h
  -- It is known what chips they are, from the record if not from the answers.
  have hs : (d.withStatic s).asicModel.isSome = true := by
    rw [Device.withStatic, Option.isSome_or, hmodel, Bool.or_true]
  have hknown := (Device.remembers_overlay (chips'.combine info) (d.withStatic s)).asicModel hs
  rw [assemble_eq, Option.getD_some, Option.isNone_eq_false_iff.mpr hknown,
    if_neg Bool.false_ne_true, Device.finished_layers hc', hd, Device.finished_again]

end

/-- A record after probes of its miner that follow each other, each of them with the record that the
one before has left; `fetches` says which of them ask for the chips. -/
def Network.reprobed (net : Network) (d : Device) (fetches : List Bool) :
    Except ProbeFailure Device :=
  fetches.foldlM (fun d fetchAsic => (net.probe fetchAsic (.ofDevice d)).2) d

theorem Network.reprobed_concat (net : Network) (d : Device) (fetches : List Bool)
    (fetchAsic : Bool) :
    net.reprobed d (fetches ++ [fetchAsic]) =
      net.reprobed d fetches >>= fun d' => (net.probe fetchAsic (.ofDevice d')).2 := by
  rw [reprobed, List.foldlM_append]
  simp only [List.foldlM_cons, List.foldlM_nil, bind_pure]
  rfl

section

variable {net : Network} {address : String} {prior : Option Device} {info d : Device}

/-- Another probe of a miner that says the same changes nothing but static fields. -/
theorem probe_again (hs : (net.asicRecord address).IsStatic)
    (hinfo : net.infoRecord address = .ok info)
    (h : (net.probe true ⟨address, prior⟩).2 = .ok d) (fetchAsic : Bool) (s : Device) :
    (net.probe fetchAsic (.ofDevice (d.withStatic s))).2 =
      .ok (((d.withStatic s).withStatic info).withStatic (net.chips fetchAsic address)) := by
  obtain ⟨info', hinfo', hfull⟩ := probe_of_ok h
  obtain rfl : info = info' := Except.ok.inj (hinfo.symm.trans hinfo')
  have ha := (hfull prior).symm.trans h
  have hconn : d.connectionAddress = address := connectionAddress_of_assemble ha
  have htarget : Target.ofDevice (d.withStatic s) = ⟨address, some (d.withStatic s)⟩ :=
    congrArg (Target.mk · (some (d.withStatic s))) hconn
  rw [htarget]
  cases fetchAsic with
  | true => exact (hfull _).trans (assemble_again hs ha hs s)
  | false =>
    rw [probe_timed]
    show (net.infoRecord address >>= _) = _
    rw [hinfo]
    exact assemble_again hs ha Device.isStatic_empty s

/-- After probes that follow each other, a record is as the last one of them leaves it. -/
theorem reprobed_eq (hs : (net.asicRecord address).IsStatic)
    (hinfo : net.infoRecord address = .ok info)
    (h : (net.probe true ⟨address, prior⟩).2 = .ok d)
    (hd : (d.withStatic info).withStatic (net.asicRecord address) = d) (fetches : List Bool) :
    net.reprobed d fetches =
      .ok (if fetches.getLast? = some false then d.withStatic info else d) := by
  -- From either record, a full probe leaves `d` and a timed one the other.
  have hstep : ∀ fetchAsic s, s = {} ∨ s = info →
      (net.probe fetchAsic (.ofDevice (d.withStatic s))).2 =
        .ok (if fetchAsic = false then d.withStatic info else d) := by
    intro fetchAsic s hcase
    have hinfo' : (d.withStatic s).withStatic info = d.withStatic info := by
      rcases hcase with rfl | rfl
      · rw [Device.withStatic_empty]
      · rw [Device.withStatic_withStatic]
    rw [probe_again hs hinfo h, hinfo']
    cases fetchAsic with
    | true => exact congrArg _ hd
    | false => rfl
  induction fetches using List.reverseRecOn with
  | nil => rfl
  | append_singleton fetches fetchAsic ih =>
    rw [Network.reprobed_concat, ih]
    simp only [List.getLast?_concat, Option.some_inj]
    show (net.probe fetchAsic (.ofDevice
      (if fetches.getLast? = some false then d.withStatic info else d))).2 = _
    split
    · exact hstep fetchAsic info (.inr rfl)
    · exact hstep fetchAsic {} (.inl rfl)

/-- A miner's answer about chips has static fields alone, and a full probe makes a record `d` of its
answers. A timed probe of the same information then leaves `d` with the static fields that the
information has: nothing else changes, and after any probes that follow each other the record is one
of these two, according to the last one. They are the same one where the two answers do not
contradict each other, and only there. -/
theorem timed_refresh_agrees (net : Network) (address : String) (prior : Option Device) (d : Device)
    (hs : (net.asicRecord address).IsStatic)
    (h : (net.probe true ⟨address, prior⟩).2 = .ok d) :
    ∃ info, net.infoRecord address = .ok info ∧
      (∀ net' : Network, net'.infoRecord address = .ok info →
        (net'.probe false (.ofDevice d)).2 = .ok (d.withStatic info)) ∧
      (∀ fetches, net.reprobed d fetches =
        .ok (if fetches.getLast? = some false then d.withStatic info else d)) ∧
      (d.withStatic info = d ↔ info.Agrees (net.asicRecord address)) := by
  obtain ⟨info, hinfo, hfull⟩ := probe_of_ok h
  have ha : assemble address prior info (net.asicRecord address) = .ok d :=
    (hfull prior).symm.trans h
  have hd := withStatic_of_assemble hs ha
  refine ⟨info, hinfo, fun net' hinfo' => ?_, reprobed_eq hs hinfo h hd,
    Device.withStatic_eq_iff hd⟩
  rw [probe_timed]
  show (net'.infoRecord d.connectionAddress >>=
    fun info => assemble d.connectionAddress (some d) info {}) = _
  rw [connectionAddress_of_assemble ha, hinfo']
  exact assemble_again hs ha Device.isStatic_empty {}

end

/-- A network where all miners give the same answers at once. -/
def answering (info chips : Json) : Network :=
  { silent with
    info := fun _ => .after 0 (.ok info)
    asic := fun _ => .after 0 (.ok chips) }

/-- The chips are in both answers, their number and the model in the second one only: a timed probe
leaves all as it is, and so do probes of both kinds in turn. -/
theorem agreeing_answers_keep_the_record :
    let net := answering
      (.object [("ASICModel", .string "BM1370"), ("boardVersion", .string "401")])
      (.object [("ASICModel", .string "BM1370"), ("asicCount", .number (.int 2)),
        ("deviceModel", .string "Gamma"), ("rev", .string "b")])
    ∃ d, (net.asicRecord "10.1.1.50").IsStatic ∧ (net.probe true ⟨"10.1.1.50", none⟩).2 = .ok d ∧
      d.deviceModel = some "Gamma" ∧ (net.probe false (.ofDevice d)).2 = .ok d ∧
      net.reprobed d [false, true, false] = .ok d := by
  intro net
  let d : Device := {
    address := "10.1.1.50", connectionAddress := "10.1.1.50", displayName := some "10.1.1.50"
    asicModel := some "BM1370", deviceModel := some "Gamma", asicCount := some 2
    swarmColor := some "green", boardVersion := some "401"
    extra := .ofList [("rev", .string "b")] }
  have hs : (net.asicRecord "10.1.1.50").IsStatic := by decide +kernel
  have h : (net.probe true ⟨"10.1.1.50", none⟩).2 = .ok d := by decide +kernel
  obtain ⟨info, hinfo, htimed, hprobes, hiff⟩ := timed_refresh_agrees net "10.1.1.50" none d hs h
  have hread : net.infoRecord "10.1.1.50" =
      .ok { asicModel := some "BM1370", boardVersion := some "401" } := by decide +kernel
  have hchips : (net.asicRecord "10.1.1.50").asicModel = some "BM1370" := by decide +kernel
  obtain rfl := Except.ok.inj (hread.symm.trans hinfo)
  -- The chips are all that both answers have.
  have hsame := hiff.mpr {
    asicModel := fun x y hx hy => Option.some.inj ((hx.symm.trans hchips.symm).trans hy)
    deviceModel := fun _ _ h => by cases h
    asicCount := fun _ _ h => by cases h
    swarmColor := fun _ _ h => by cases h
    extra := fun _ _ _ h => by cases h }
  refine ⟨d, hs, h, rfl, ?_, ?_⟩
  · rw [htimed net hinfo, hsame]
  · rw [hprobes, hsame, ite_self]

/-- The two answers name different chips: the full probe takes them from the one, the timed probe
from the other. -/
theorem contradicting_answers_change_the_record :
    ¬ ∀ (net : Network) (address : String) (prior : Option Device) (d : Device),
      (net.asicRecord address).IsStatic → (net.probe true ⟨address, prior⟩).2 = .ok d →
        (net.probe false (.ofDevice d)).2 = .ok d := by
  intro h
  let net := answering (.object [("ASICModel", .string "BM1366")])
    (.object [("ASICModel", .string "BM1370")])
  let d : Device := {
    address := "10.1.1.50", connectionAddress := "10.1.1.50", displayName := some "10.1.1.50"
    asicModel := some "BM1370", deviceModel := some "Other", swarmColor := some "gray" }
  have htimed := h net "10.1.1.50" none d (by decide +kernel) (by decide +kernel)
  have hother : (net.probe false (.ofDevice d)).2 = .ok { d with asicModel := some "BM1366" } := by
    decide +kernel
  rw [hother] at htimed
  exact absurd (congrArg (fun r => r.toOption.bind Device.asicModel) htimed) (by decide)

end MinerFleet
